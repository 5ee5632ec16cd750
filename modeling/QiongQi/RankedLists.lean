import Mathlib.Data.List.Pairwise
import Mathlib.Data.List.Perm.Basic
import Mathlib.Data.List.Sort

/-! Lists in a strict order: which elements a prefix has, when two lists are one, and the
strict order of a stable sort. -/
namespace QiongQi.RankedLists
open List hiding count

variable {α : Type} {before later : α → α → Prop} {items others : List α}

/-- No two elements come before each other. -/
def OneWay (before : α → α → Prop) (items : List α) : Prop :=
  ∀ left ∈ items, ∀ right ∈ items, before left right → ¬ before right left

theorem OneWay.irrefl (oneWay : OneWay before items) (held : item ∈ items) : ¬ before item item :=
  fun same => oneWay item held item held same same

theorem OneWay.sublist (oneWay : OneWay before items) (within : others ⊆ items) :
    OneWay before others :=
  fun left heldLeft right heldRight => oneWay left (within heldLeft) right (within heldRight)

theorem OneWay.nodup (oneWay : OneWay before items) (ordered : items.Pairwise before) :
    items.Nodup := by
  refine ordered.imp_of_mem fun {left right} heldLeft _ first => ?_
  rintro rfl
  exact oneWay.irrefl heldLeft first

/-- An element is in a prefix exactly when fewer elements come before it. -/
theorem mem_take_iff [DecidableRel before] (ordered : items.Pairwise before)
    (oneWay : OneWay before items) (count : Nat) :
    item ∈ items.take count ↔ item ∈ items ∧ items.countP (before · item) < count := by
  induction items generalizing count with
  | nil => simp
  | cons first rest ih =>
    obtain ⟨firstBefore, restOrdered⟩ := pairwise_cons.mp ordered
    have restOneWay : OneWay before rest := oneWay.sublist (subset_cons_self first rest)
    cases count with
    | zero => simp
    | succ count =>
      rw [take_succ_cons, mem_cons, mem_cons, ih restOrdered restOneWay, countP_cons]
      by_cases same : item = first
      · subst same
        have none : rest.countP (before · item) = 0 := by
          rw [countP_eq_zero]
          intro other held
          have apart := oneWay item mem_cons_self other (mem_cons_of_mem _ held)
            (firstBefore other held)
          simpa using apart
        have notSelf : ¬ before item item := oneWay.irrefl mem_cons_self
        simp [none, notSelf]
      · simp only [same, false_or]
        constructor
        · rintro ⟨held, fewer⟩
          simp only [firstBefore item held, decide_true, if_true]
          exact ⟨held, by omega⟩
        · rintro ⟨held, fewer⟩
          simp only [firstBefore item held, decide_true, if_true] at fewer
          exact ⟨held, by omega⟩

private theorem sameWay (ordered : items.Pairwise before) (alsoOrdered : items.Pairwise later)
    (oneWay : OneWay before items) (otherOneWay : OneWay later items) :
    ∀ left ∈ items, ∀ right ∈ items,
      (before left right ↔ later left right) ∧ (before right left ↔ later right left) := by
  let Same (left right : α) : Prop :=
    (before left right ↔ later left right) ∧ (before right left ↔ later right left)
  have symm : Std.Symm Same := ⟨fun _ _ same => ⟨same.2, same.1⟩⟩
  have itself : ∀ item ∈ items, Same item item := by
    intro item held
    have apart := oneWay.irrefl held
    have otherApart := otherOneWay.irrefl held
    simp [Same, apart, otherApart]
  have pairs : items.Pairwise Same := by
    refine (ordered.and alsoOrdered).imp_of_mem fun {left right} heldLeft heldRight first => ?_
    have notBack := oneWay left heldLeft right heldRight first.1
    have notBackEither := otherOneWay left heldLeft right heldRight first.2
    simp [Same, first.1, first.2, notBack, notBackEither]
  intro left heldLeft right heldRight
  exact pairs.forall_of_forall itself heldLeft heldRight

/-- Two ordered lists are one exactly when they have the same elements in the same order. -/
theorem eq_iff_same_order (ordered : items.Pairwise before) (otherOrdered : others.Pairwise later)
    (oneWay : OneWay before items) (otherOneWay : OneWay later others) :
    items = others ↔ (∀ item, item ∈ items ↔ item ∈ others) ∧
      ∀ left ∈ items, ∀ right ∈ items, before left right ↔ later left right := by
  constructor
  · rintro rfl
    exact ⟨fun _ => Iff.rfl, fun left heldLeft right heldRight =>
      (sameWay ordered otherOrdered oneWay otherOneWay left heldLeft right heldRight).1⟩
  · rintro ⟨sameElements, sameOrder⟩
    have perm : items.Perm others :=
      (perm_ext_iff_of_nodup (oneWay.nodup ordered) (otherOneWay.nodup otherOrdered)).mpr
        sameElements
    have alike : items.Pairwise later :=
      ordered.imp_of_mem fun {left right} heldLeft heldRight first =>
        (sameOrder left heldLeft right heldRight).mp first
    refine perm.eq_of_pairwise ?_ alike otherOrdered
    intro left right heldLeft heldRight first second
    exact absurd second (otherOneWay left ((sameElements left).mp heldLeft) right heldRight first)

section
variable [DecidableRel before] {selected kept wanted : α → Bool}

/-- The element is selected, and fewer than `count` selected elements come before it. -/
def Within (before : α → α → Prop) [DecidableRel before] (items : List α) (selected : α → Bool)
    (count : Nat) (item : α) : Prop :=
  selected item = true ∧ (items.filter selected).countP (before · item) < count

instance (items : List α) (selected : α → Bool) (count : Nat) :
    DecidablePred (Within before items selected count) :=
  fun _ => inferInstanceAs (Decidable (_ ∧ _))

theorem mem_take_filter_iff (ordered : items.Pairwise before) (oneWay : OneWay before items) :
    item ∈ (items.filter selected).take count ↔ item ∈ items ∧ Within before items selected count item := by
  rw [mem_take_iff (ordered.sublist filter_sublist)
    (oneWay.sublist filter_sublist.subset), mem_filter, and_assoc]
  rfl

theorem countP_trans (items : List α) (chosen : α → Bool)
    (trans : ∀ a b c, before a b → before b c → before a c) (less : before first second) :
    items.countP (fun other => chosen other && before other first) ≤
      items.countP (fun other => chosen other && before other second) := by
  apply countP_mono_left
  intro other _ held
  simp only [Bool.and_eq_true, decide_eq_true_eq] at held ⊢
  exact ⟨held.1, trans other first second held.2 less⟩

theorem countP_filter_before : (items.filter chosen).countP (before · item) =
      items.countP (fun other => chosen other && before other item) := by
  rw [countP_filter]
  apply countP_congr
  intro other _
  simp [and_comm]

omit [DecidableRel before] in
theorem ordered_total (ordered : items.Pairwise before) (heldLeft : left ∈ items)
    (heldRight : right ∈ items) : left = right ∨ before left right ∨ before right left := by
  let Near (left right : α) : Prop := left = right ∨ before left right ∨ before right left
  have symm : Std.Symm Near := ⟨fun _ _ near => by
    rcases near with same | first | second
    · exact .inl same.symm
    · exact .inr (.inr first)
    · exact .inr (.inl second)⟩
  have pairs : items.Pairwise Near := ordered.imp fun first => .inr (.inl first)
  exact pairs.forall_of_forall (fun _ _ => .inl rfl) heldLeft heldRight

/-- Where `count` chosen elements come before an element, the first `count` of them do. -/
theorem first_before (ordered : items.Pairwise before) (oneWay : OneWay before items)
    (trans : ∀ a b c, before a b → before b c → before a c) (held : item ∈ items)
    (behind : count ≤ items.countP fun other => chosen other && before other item) :
    count ≤ items.countP fun other =>
      Within before items chosen count other && before other item := by
  have size : ((items.filter chosen).take count).length = count := by
    rw [length_take, Nat.min_eq_left]
    apply Nat.le_trans behind
    rw [← countP_filter_before]
    exact countP_le_length
  have all : ∀ other ∈ (items.filter chosen).take count,
      (Within before items chosen count other && before other item) = true := by
    intro other taken
    obtain ⟨heldOther, within⟩ := (mem_take_filter_iff ordered oneWay).mp taken
    simp only [within, decide_true, Bool.true_and, decide_eq_true_eq]
    have fewer := within.2
    rw [countP_filter_before] at fewer
    rcases ordered_total ordered heldOther held with rfl | first | second
    · omega
    · exact first
    · have fewest := countP_trans items chosen trans second
      omega
  calc count = ((items.filter chosen).take count).length := size.symm
    _ = ((items.filter chosen).take count).countP fun other =>
        Within before items chosen count other && before other item :=
      (countP_eq_length.mpr all).symm
    _ ≤ _ := ((take_sublist _ _).trans filter_sublist).countP_le

/-- Where elements are cut off between two filters, nothing wanted is lost exactly when what is
wanted before the cut is kept, and whatever is wanted behind it comes after `count` elements
that are kept. -/
theorem filter_take_eq_iff (ordered : items.Pairwise before) (oneWay : OneWay before items)
    (trans : ∀ a b c, before a b → before b c → before a c)
    (sound : ∀ item ∈ items, Within before items selected count item → kept item = true →
      wanted item = true) :
    ((items.filter selected).take count).filter kept = (items.filter wanted).take count ↔
      (∀ item ∈ items, Within before items selected count item → wanted item = true → kept item = true) ∧
      ∀ item ∈ items, wanted item = true → ¬ Within before items selected count item →
        count ≤ items.countP fun other =>
          wanted other && Within before items selected count other && before other item := by
  have shortened : (((items.filter selected).take count).filter kept).Sublist items :=
    filter_sublist.trans ((take_sublist _ _).trans filter_sublist)
  have cut : ((items.filter wanted).take count).Sublist items :=
    (take_sublist _ _).trans filter_sublist
  -- fewer wanted elements come before an element than are counted where it is within the cut
  have fewer : ∀ {item}, Within before items selected count item →
      items.countP (fun other => wanted other && Within before items selected count other &&
        before other item) < count := by
    intro item within
    apply Nat.lt_of_le_of_lt _ within.2
    rw [countP_filter_before]
    apply countP_mono_left
    intro other _ both
    simp only [Bool.and_eq_true, decide_eq_true_eq] at both ⊢
    exact ⟨both.1.2.1, both.2⟩
  rw [eq_iff_same_order (ordered.sublist shortened) (ordered.sublist cut)
    (oneWay.sublist shortened.subset) (oneWay.sublist cut.subset)]
  simp only [mem_filter, mem_take_filter_iff ordered oneWay, implies_true, and_true]
  constructor
  · intro same
    have first : ∀ item ∈ items, count ≤ items.countP (fun other =>
          wanted other && before other item) →
        count ≤ items.countP fun other =>
          wanted other && Within before items selected count other && before other item := by
      intro item held behind
      apply Nat.le_trans (first_before ordered oneWay trans held behind)
      apply countP_mono_left
      intro other heldOther both
      simp only [Bool.and_eq_true, decide_eq_true_eq] at both ⊢
      obtain ⟨⟨-, within⟩, -⟩ := (same other).mpr ⟨heldOther, both.1⟩
      exact ⟨⟨both.1.1, within⟩, both.2⟩
    constructor
    · intro item held within asked
      have near : Within before items wanted count item := by
        refine ⟨asked, ?_⟩
        rw [countP_filter_before]
        by_contra behind
        have many := first item held (Nat.le_of_not_lt behind)
        exact absurd (fewer within) (Nat.not_lt_of_le many)
      exact ((same item).mpr ⟨held, near⟩).2
    · intro item held asked beyond
      apply first item held
      by_contra few
      have near : Within before items wanted count item := by
        refine ⟨asked, ?_⟩
        rw [countP_filter_before]
        exact Nat.lt_of_not_le few
      exact beyond ((same item).mpr ⟨held, near⟩).1.2
  · rintro ⟨keeps, behind⟩ item
    constructor
    · rintro ⟨⟨held, within⟩, keptItem⟩
      refine ⟨held, sound item held within keptItem, ?_⟩
      rw [countP_filter_before]
      apply Nat.lt_of_le_of_lt _ (fewer within)
      apply countP_mono_left
      intro other heldOther both
      simp only [Bool.and_eq_true, decide_eq_true_eq] at both ⊢
      refine ⟨⟨both.1, ?_⟩, both.2⟩
      by_contra beyond
      have many := behind other heldOther both.1 beyond
      have more := countP_trans items
        (fun one => wanted one && Within before items selected count one) trans both.2
      exact absurd (fewer within) (Nat.not_lt_of_le (Nat.le_trans many more))
    · rintro ⟨held, asked, few⟩
      rw [countP_filter_before] at few
      have within : Within before items selected count item := by
        by_contra beyond
        have many := behind item held asked beyond
        apply absurd few (Nat.not_lt_of_le (Nat.le_trans many _))
        apply countP_mono_left
        intro other _ both
        simp only [Bool.and_eq_true, decide_eq_true_eq] at both ⊢
        exact ⟨both.1.1, both.2⟩
      exact ⟨⟨held, within⟩, keeps item held within asked⟩

end

section
variable [DecidableEq α] {le : α → α → Bool}

/-- Less, or equal and earlier in the list. -/
def StableBefore (le : α → α → Bool) (items : List α) (left right : α) : Prop :=
  le left right = true ∧ (le right left = true → items.idxOf left < items.idxOf right)

instance (le : α → α → Bool) (items : List α) : DecidableRel (StableBefore le items) :=
  fun _ _ => inferInstanceAs (Decidable (_ ∧ _))

private theorem pair_sublist_iff (nodup : items.Nodup) :
    [left, right].Sublist items ↔ right ∈ items ∧ items.idxOf left < items.idxOf right := by
  induction items with
  | nil => simp
  | cons first rest ih =>
    obtain ⟨fresh, restNodup⟩ := nodup_cons.mp nodup
    rw [sublist_cons_iff, ih restNodup]
    by_cases leftFirst : first = left
    · subst leftFirst
      constructor
      · rintro (⟨held, before⟩ | ⟨tail, same, within⟩)
        · have notHere : first ≠ right := fun same => fresh (same ▸ held)
          exact ⟨mem_cons_of_mem _ held, by simp [notHere]⟩
        · cases same
          have held : right ∈ rest := singleton_sublist.mp within
          have notHere : first ≠ right := fun same => fresh (same ▸ held)
          exact ⟨mem_cons_of_mem _ held, by simp [notHere]⟩
      · rintro ⟨held, before⟩
        right
        refine ⟨[right], rfl, singleton_sublist.mpr ?_⟩
        rcases mem_cons.mp held with rfl | held
        · omega
        · exact held
    · by_cases rightFirst : first = right
      · subst rightFirst
        constructor
        · rintro (⟨held, -⟩ | ⟨tail, same, -⟩)
          · exact absurd held fresh
          · cases same
            exact absurd rfl leftFirst
        · rintro ⟨-, before⟩
          simp [idxOf_cons] at before
      · have here : (right ∈ first :: rest ∧ (first :: rest).idxOf left < (first :: rest).idxOf right) ↔
            right ∈ rest ∧ rest.idxOf left < rest.idxOf right := by
          simp [leftFirst, rightFirst, Ne.symm rightFirst]
        rw [here]
        constructor
        · rintro (within | ⟨tail, same, -⟩)
          · exact within
          · cases same
            exact absurd rfl leftFirst
        · exact .inl

/-- A stable sort of a list without repetition puts each element before those that are
greater, or equal and later in the list. -/
theorem mergeSort_ordered (trans : ∀ a b c, le a b → le b c → le a c)
    (total : ∀ a b, le a b || le b a) (nodup : items.Nodup) :
    (items.mergeSort le).Pairwise (StableBefore le items) := by
  have sortedNodup : (items.mergeSort le).Nodup :=
    (mergeSort_perm items le).nodup_iff.mpr nodup
  have sorted := pairwise_mergeSort trans total items
  rw [pairwise_iff_forall_sublist] at sorted ⊢
  intro left right within
  refine ⟨sorted within, fun back => ?_⟩
  obtain ⟨rightHeld, before⟩ := (pair_sublist_iff sortedNodup).mp within
  have leftHeld : left ∈ items.mergeSort le := within.subset mem_cons_self
  by_contra notEarlier
  have apart : items.idxOf left ≠ items.idxOf right := by
    intro same
    have equal : left = right := (idxOf_inj (mem_mergeSort.mp leftHeld)).mp same
    rw [equal] at before
    omega
  -- stability keeps the two in the order they had
  have kept : [right, left].Sublist (items.mergeSort le) :=
    pair_sublist_mergeSort trans total back
      ((pair_sublist_iff nodup).mpr ⟨mem_mergeSort.mp leftHeld, by omega⟩)
  have behind := ((pair_sublist_iff sortedNodup).mp kept).2
  omega

end

section
variable {le : α → α → Bool}

/-- Neither comes after the other. -/
def alike (le : α → α → Bool) (left right : α) : Bool := le left right && le right left

/-- A stable sort keeps the order of the elements that it does not tell apart. -/
theorem filter_mergeSort (trans : ∀ a b c, le a b → le b c → le a c)
    (total : ∀ a b, le a b || le b a) (item : α) :
    (items.mergeSort le).filter (alike le item) = items.filter (alike le item) := by
  have level : (items.filter (alike le item)).Pairwise fun left right => le left right = true := by
    rw [pairwise_iff_forall_sublist]
    intro left right within
    have like : ∀ other ∈ [left, right], alike le item other = true :=
      fun other held => (mem_filter.mp (within.subset held)).2
    have first := like left (by simp)
    have second := like right (by simp)
    rw [alike, Bool.and_eq_true] at first second
    exact trans _ _ _ first.2 second.1
  have kept := (sublist_mergeSort trans total level filter_sublist).filter (alike le item)
  simp only [filter_filter, Bool.and_self] at kept
  have size : (items.filter (alike le item)).length = ((items.mergeSort le).filter (alike le item)).length :=
    ((mergeSort_perm items le).filter _).length_eq.symm
  exact (kept.eq_of_length size).symm

/-- Two sorted lists are one where they agree on the elements of each rank. -/
theorem eq_of_alike_filters (total : ∀ a b, le a b || le b a)
    (sorted : items.Pairwise (fun left right => le left right = true))
    (alsoSorted : others.Pairwise (fun left right => le left right = true))
    (same : ∀ item, items.filter (alike le item) = others.filter (alike le item)) :
    items = others := by
  have reflexive : ∀ item, alike le item item = true := by
    intro item
    have either := total item item
    rw [Bool.or_self] at either
    rw [alike, either]
    rfl
  have mem_of : ∀ {first second : List α},
      (∀ item, first.filter (alike le item) = second.filter (alike le item)) →
      ∀ item ∈ first, item ∈ second := by
    intro first second same item held
    have within := mem_filter.mpr ⟨held, reflexive item⟩
    rw [same item] at within
    exact (mem_filter.mp within).1
  induction items generalizing others with
  | nil =>
    cases others with
    | nil => rfl
    | cons other rest =>
      exact absurd (mem_of (fun item => (same item).symm) other (by simp)) (by simp)
  | cons first rest ih =>
    cases others with
    | nil => exact absurd (mem_of same first (by simp)) (by simp)
    | cons other later =>
      obtain ⟨least, restSorted⟩ := pairwise_cons.mp sorted
      obtain ⟨alsoLeast, laterSorted⟩ := pairwise_cons.mp alsoSorted
      have upward : le first other = true := by
        have held := mem_of (fun item => (same item).symm) other (by simp)
        rcases mem_cons.mp held with rfl | held
        · have either := reflexive other
          rw [alike, Bool.and_eq_true] at either
          exact either.1
        · exact least other held
      have downward : le other first = true := by
        rcases mem_cons.mp (mem_of same first (by simp)) with rfl | held
        · have either := reflexive first
          rw [alike, Bool.and_eq_true] at either
          exact either.1
        · exact alsoLeast first held
      have here := same first
      rw [filter_cons_of_pos (reflexive first),
        filter_cons_of_pos (by rw [alike, upward, downward]; rfl)] at here
      obtain ⟨rfl, -⟩ := List.cons.inj here
      rw [ih restSorted laterSorted]
      intro item
      have whole := same item
      rw [filter_cons, filter_cons] at whole
      split at whole
      · exact (List.cons.inj whole).2
      · exact whole

/-- Where one of two elements that are not told apart comes first in the one list, it comes
first in the other. -/
def SameOrder (le : α → α → Bool) (items others : List α) : Prop :=
  ∀ left ∈ items, ∀ right ∈ items, alike le left right = true →
    [left, right].Sublist items → [left, right].Sublist others

instance [DecidableEq α] (le : α → α → Bool) (items others : List α) :
    Decidable (SameOrder le items others) :=
  inferInstanceAs (Decidable (∀ left ∈ items, ∀ right ∈ items, _))

/-- The elements that are alike are one list, if they come in the same order in both. -/
theorem filter_alike_eq [DecidableEq α] (trans : ∀ a b c, le a b → le b c → le a c)
    (nodup : items.Nodup) (alsoNodup : others.Nodup)
    (sameElements : ∀ item, item ∈ items ↔ item ∈ others) (sameOrder : SameOrder le items others)
    (item : α) : items.filter (alike le item) = others.filter (alike le item) := by
  have keptNodup := nodup.filter (alike le item)
  have alsoKept := alsoNodup.filter (alike le item)
  have perm : (items.filter (alike le item)).Perm (others.filter (alike le item)) := by
    refine (perm_ext_iff_of_nodup keptNodup alsoKept).mpr fun other => ?_
    rw [mem_filter, mem_filter, sameElements]
  have oneWay : ∀ left right, left ∈ items.filter (alike le item) → right ∈ others.filter (alike le item) →
      [left, right].Sublist (others.filter (alike le item)) →
      [right, left].Sublist (others.filter (alike le item)) → left = right := by
    intro left right _ _ first second
    have forward := (pair_sublist_iff alsoKept).mp first
    have back := (pair_sublist_iff alsoKept).mp second
    omega
  have moved : (items.filter (alike le item)).Pairwise fun left right =>
      [left, right].Sublist (others.filter (alike le item)) := by
    rw [pairwise_iff_forall_sublist]
    intro left right within
    have inItems : [left, right].Sublist items := within.trans filter_sublist
    have like : ∀ other ∈ [left, right], alike le item other = true :=
      fun other held => (mem_filter.mp (within.subset held)).2
    have first := like left (by simp)
    have second := like right (by simp)
    rw [alike, Bool.and_eq_true] at first second
    have level : alike le left right = true := by
      rw [alike, Bool.and_eq_true]
      exact ⟨trans _ _ _ first.2 second.1, trans _ _ _ second.2 first.1⟩
    have inOthers := (sameOrder left (inItems.subset (by simp)) right
      (inItems.subset (by simp)) level inItems).filter (alike le item)
    rwa [filter_eq_self.mpr like] at inOthers
  have inPlace : (others.filter (alike le item)).Pairwise fun left right =>
      [left, right].Sublist (others.filter (alike le item)) :=
    pairwise_iff_forall_sublist.mpr fun within => within
  exact perm.eq_of_pairwise oneWay moved inPlace

end

end QiongQi.RankedLists
