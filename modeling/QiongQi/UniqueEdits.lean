import Mathlib.Data.List.Perm.Basic
import QiongQi.EditDiffs

/-! Whether the edits that `applyEditsToNormalizedContent` makes are the only ones that its input
can mean: every old text stands at one place, and the order of the edits does not tell. An old text
is counted without the places that overlap, and in the normal form of the content. -/
namespace QiongQi.UniqueEdits
open FuzzyTexts Splices EditDiffs List

section
variable {α : Type*}

def StartsAt (needle text : List α) (position : Nat) : Prop :=
  position ≤ text.length ∧ needle <+: text.drop position

/-- A stretch of the text that is shorter than two copies of the needle begins and ends with it. -/
def Overlaps (needle text : List α) : Prop :=
  ∃ stretch, stretch <:+: text ∧ needle <+: stretch ∧ needle <:+ stretch ∧
    needle.length < stretch.length ∧ stretch.length < 2 * needle.length

theorem startsAt_cons :
    StartsAt needle (c :: text) (position + 1) ↔ StartsAt needle text position := by
  simp [StartsAt]

theorem startsAt_length (starts : StartsAt needle text position) :
    position + needle.length ≤ text.length := by
  have short := starts.2.length_le
  rw [length_drop] at short
  have inside := starts.1
  omega

theorem startsAt_iff : StartsAt needle text position ↔
      ∃ front back, text = front ++ needle ++ back ∧ front.length = position := by
  constructor
  · rintro ⟨inside, back, rest⟩
    refine ⟨text.take position, back, ?_, length_take_of_le inside⟩
    rw [append_assoc, rest, take_append_drop]
  · rintro ⟨front, back, rfl, rfl⟩
    refine ⟨by simp, back, ?_⟩
    rw [append_assoc, drop_left]

/-- Two places overlap when the second lies before the end of the first. -/
theorem overlaps_iff :
    Overlaps needle text ↔ ∃ first second, first < second ∧ second < first + needle.length ∧
      StartsAt needle text first ∧ StartsAt needle text second := by
  constructor
  · rintro ⟨stretch, ⟨front, back, rfl⟩, ⟨rest, starts⟩, ⟨head, ends⟩, longer, shorter⟩
    have size := congrArg List.length ends
    rw [length_append] at size
    refine ⟨front.length, front.length + head.length, by omega, by omega,
      startsAt_iff.mpr ⟨front, rest ++ back, ?_, rfl⟩,
      startsAt_iff.mpr ⟨front ++ head, back, ?_, length_append⟩⟩
    · rw [← starts]
      simp only [append_assoc]
    · rw [← ends]
      simp only [append_assoc]
  · rintro ⟨first, second, before_, inside, here, there⟩
    have fits := startsAt_length there
    have within : second - first + needle.length ≤ (text.drop first).length := by
      rw [length_drop]
      omega
    refine ⟨(text.drop first).take (second - first + needle.length),
      (List.take_prefix _ _).isInfix.trans (drop_suffix _ _).isInfix, ?_, ?_, ?_, ?_⟩
    · exact prefix_of_prefix_length_le here.2 (List.take_prefix _ _)
        (by rw [length_take_of_le within]; omega)
    · have rest := prefix_iff_eq_take.mp there.2
      refine ⟨(text.drop first).take (second - first), ?_⟩
      rw [take_add, drop_drop, Nat.add_sub_cancel' (Nat.le_of_lt before_), ← rest]
    all_goals
      rw [length_take_of_le within]
      omega

theorem sole_nil : (∃! position, StartsAt [] text position) ↔ text = [] := by
  constructor
  · rintro ⟨position, -, sole⟩
    have first := sole 0 ⟨Nat.zero_le _, nil_prefix⟩
    have last := sole text.length ⟨le_rfl, nil_prefix⟩
    exact length_eq_zero_iff.mp (last.trans first.symm)
  · rintro rfl
    exact ⟨0, ⟨le_rfl, nil_prefix⟩, fun position starts => Nat.le_zero.mp starts.1⟩

end

section

theorem occurs_later (some_ : needle ≠ []) (starts : StartsAt needle text position)
    (later : skipped ≤ position) : 0 < occurrencesFrom needle skipped text := by
  induction text generalizing skipped position with
  | nil =>
    exact absurd (prefix_nil.mp (by simpa using starts.2)) some_
  | cons c rest ih =>
    cases skipped with
    | succ skipped =>
      obtain ⟨position, rfl⟩ := Nat.exists_eq_add_of_le' later
      exact ih (startsAt_cons.mp (by simpa [Nat.add_assoc] using starts)) (Nat.le_add_left _ _)
    | zero =>
      rw [occurrencesFrom]
      split
      · exact Nat.succ_pos _
      · next other =>
        cases position with
        | zero => exact absurd (List.isPrefixOf_iff_prefix.mpr starts.2) other
        | succ position => exact ih (startsAt_cons.mp starts) (Nat.zero_le _)

/-- Two places that do not overlap are both counted, or others before them. -/
theorem occurs_twice (some_ : needle ≠ []) (here : StartsAt needle text first)
    (there : StartsAt needle text second) (later : skipped ≤ first)
    (apart : first + needle.length ≤ second) : 2 ≤ occurrencesFrom needle skipped text := by
  have size : 0 < needle.length := length_pos_iff.mpr some_
  induction text generalizing skipped first second with
  | nil =>
    have fits := startsAt_length here
    rw [length_nil] at fits
    omega
  | cons c rest ih =>
    obtain ⟨last, rfl⟩ : ∃ last, second = last + 1 := ⟨second - 1, by omega⟩
    cases skipped with
    | succ skipped =>
      obtain ⟨position, rfl⟩ : ∃ position, first = position + 1 := ⟨first - 1, by omega⟩
      exact ih (startsAt_cons.mp here) (startsAt_cons.mp there) (by omega) (by omega)
    | zero =>
      rw [occurrencesFrom]
      split
      · have more : 0 < occurrencesFrom needle (needle.length - 1) rest :=
          occurs_later some_ (startsAt_cons.mp there) (by omega)
        omega
      · next other =>
        cases first with
        | zero => exact absurd (List.isPrefixOf_iff_prefix.mpr here.2) other
        | succ position =>
          exact ih (startsAt_cons.mp here) (startsAt_cons.mp there) (Nat.zero_le _) (by omega)

theorem occurs_of_pos (counted : 0 < occurrencesFrom needle skipped text) :
    ∃ position, StartsAt needle text position := by
  induction text generalizing skipped with
  | nil => cases skipped <;> cases counted
  | cons c rest ih =>
    cases skipped with
    | succ skipped =>
      obtain ⟨position, starts⟩ := ih counted
      exact ⟨position + 1, startsAt_cons.mpr starts⟩
    | zero =>
      rw [occurrencesFrom] at counted
      split at counted
      · next starts => exact ⟨0, Nat.zero_le _, List.isPrefixOf_iff_prefix.mp starts⟩
      · obtain ⟨position, starts⟩ := ih counted
        exact ⟨position + 1, startsAt_cons.mpr starts⟩

theorem occurs_twice_of (counted : 2 ≤ occurrencesFrom needle skipped text) :
    ∃ first second, first < second ∧ StartsAt needle text first ∧ StartsAt needle text second := by
  induction text generalizing skipped with
  | nil => cases skipped <;> cases counted
  | cons c rest ih =>
    have within : ∀ {skipped}, 2 ≤ occurrencesFrom needle skipped rest →
        ∃ first second, first < second ∧ StartsAt needle (c :: rest) first ∧
          StartsAt needle (c :: rest) second := by
      intro skipped more
      obtain ⟨first, second, order, here, there⟩ := ih more
      exact ⟨first + 1, second + 1, by omega, startsAt_cons.mpr here, startsAt_cons.mpr there⟩
    cases skipped with
    | succ skipped => exact within counted
    | zero =>
      rw [occurrencesFrom] at counted
      split at counted
      · next starts =>
        obtain ⟨position, there⟩ := occurs_of_pos (Nat.le_of_succ_le_succ counted)
        exact ⟨0, position + 1, Nat.succ_pos _,
          ⟨Nat.zero_le _, List.isPrefixOf_iff_prefix.mp starts⟩, startsAt_cons.mpr there⟩
      · exact within counted

/-- A text that stands somewhere stands at one place only if no two places of it overlap and it
is counted once. -/
theorem sole_iff (some_ : needle ≠ []) (starts : StartsAt needle text here) :
    (∃! position, StartsAt needle text position) ↔
      ¬ Overlaps needle text ∧ occurrencesFrom needle 0 text ≤ 1 := by
  constructor
  · rintro ⟨position, -, sole⟩
    constructor
    · intro overlaps
      obtain ⟨first, second, order, -, left, right⟩ := overlaps_iff.mp overlaps
      exact absurd ((sole first left).trans (sole second right).symm) (Nat.ne_of_lt order)
    · by_contra more
      obtain ⟨first, second, order, left, right⟩ :=
        occurs_twice_of (Nat.succ_le_of_lt (Nat.lt_of_not_le more))
      exact absurd ((sole first left).trans (sole second right).symm) (Nat.ne_of_lt order)
  · rintro ⟨plain_, once⟩
    have ordered : ∀ first second, StartsAt needle text first → StartsAt needle text second →
        ¬ first < second := by
      intro first second left right order
      by_cases inside : second < first + needle.length
      · exact plain_ (overlaps_iff.mpr ⟨first, second, order, inside, left, right⟩)
      · have twice := occurs_twice some_ left right (Nat.zero_le _) (Nat.le_of_not_lt inside)
        omega
    refine ⟨here, starts, fun other there => ?_⟩
    have left := ordered other here there starts
    have right := ordered here other starts there
    omega

end

/-- What the match of an edit stands for in the content: its old text, or the normal form of it. -/
def matchedText (nfkc : List Char → List Char) (edit : Edit) (found : FuzzyMatchResult) :
    List Char :=
  if found.usedFuzzyMatch then normalizeForFuzzyMatch nfkc edit.oldText else edit.oldText

/-- The match that the edit is made at, among those of the list. -/
def MatchedAs (nfkc : List Char → List Char) (content : List Char) (edits : List Edit)
    (edit : Edit) (found : FuzzyMatchResult) : Prop :=
  edit ∈ normalizedEdits edits ∧
    fuzzyFindText nfkc (baseContentOf nfkc content (normalizedEdits edits)) edit.oldText
      = some found

/-- Every old text stands at one place of the content that it is matched against, and the matched
regions lie one behind the other. -/
def Unambiguous (nfkc : List Char → List Char) (content : List Char) (edits : List Edit) : Prop :=
  (∀ edit ∈ normalizedEdits edits, ∃ found, MatchedAs nfkc content edits edit found ∧
    ∃! position, StartsAt (matchedText nfkc edit found) found.contentForReplacement position) ∧
  (matchedPatches nfkc content edits).Pairwise fun left right => left.stop ≤ right.start

/-- The edits give the same in any order. -/
def OrderFree (nfkc : List Char → List Char) (content : List Char) (edits : List Edit)
    (path : String) (result : AppliedEditsResult) : Prop :=
  ∀ other : List Edit, other.Perm edits → applyEditsToNormalizedContent nfkc content other path = .ok result

/-- What the count of the occurrences takes for granted. -/
structure CountsAll (nfkc : List Char → List Char) (content : List Char) (edits : List Edit) :
    Prop where
  /-- No two places of an old text overlap. -/
  plain_ : ∀ {edit found}, MatchedAs nfkc content edits edit found →
    ¬ Overlaps (matchedText nfkc edit found) found.contentForReplacement
  /-- The normal forms lose no second place of an old text. -/
  kept : ∀ {edit found}, MatchedAs nfkc content edits edit found → matchedText nfkc edit found ≠ [] →
    (splitLength found.contentForReplacement (matchedText nfkc edit found) : Int) - 1 ≤
      max 1 (countOccurrences nfkc (baseContentOf nfkc content (normalizedEdits edits))
        edit.oldText)
  /-- An old text of which the normal form leaves nothing is met in the empty content only, and
  then no two new texts tell which of them comes first. -/
  blank : ∀ {edit found}, MatchedAs nfkc content edits edit found → matchedText nfkc edit found = [] →
    found.contentForReplacement = [] ∧ (normalizedEdits edits).Pairwise fun left right =>
      left.newText ++ right.newText = right.newText ++ left.newText

section
variable {nfkc : List Char → List Char} {content : List Char} {edits : List Edit}
  {path : String} {result : AppliedEditsResult}

variable {found : FuzzyMatchResult}

section
variable (unicode : IsNfkc nfkc) {edit : Edit} (matched : MatchedAs nfkc content edits edit found)
include unicode matched

theorem MatchedAs.place :
    found.contentForReplacement = baseContentOf nfkc content (normalizedEdits edits) ∧
      (matchedText nfkc edit found).length = found.matchLength ∧
      StartsAt (matchedText nfkc edit found) found.contentForReplacement found.index := by
  obtain ⟨⟨inside, text⟩, -⟩ := fuzzyFindText_some matched.2
  refine ⟨found_in_base unicode matched.1 matched.2, ?_, by omega, ?_⟩
  · rw [matchedText, ← text, length_take, length_drop]
    omega
  · rw [matchedText, ← text]
    exact take_prefix _ _

/-- What makes an old text that is counted once stand at one place. -/
theorem MatchedAs.sole_iff
    (once : countOccurrences nfkc (baseContentOf nfkc content (normalizedEdits edits))
      edit.oldText ≤ 1) :
    (∃! position, StartsAt (matchedText nfkc edit found) found.contentForReplacement position) ↔
      ¬ Overlaps (matchedText nfkc edit found) found.contentForReplacement ∧
      (matchedText nfkc edit found ≠ [] →
        (splitLength found.contentForReplacement (matchedText nfkc edit found) : Int) - 1 ≤
          max 1 (countOccurrences nfkc (baseContentOf nfkc content (normalizedEdits edits))
            edit.oldText)) ∧
      (matchedText nfkc edit found = [] → found.contentForReplacement = []) := by
  obtain ⟨-, -, starts⟩ := matched.place unicode
  rw [max_eq_left once]
  by_cases blank : matchedText nfkc edit found = []
  · rw [blank, sole_nil]
    have plain_ : ¬ Overlaps ([] : List Char) found.contentForReplacement := by
      rintro ⟨stretch, -, -, -, -, shorter⟩
      exact absurd shorter (Nat.not_lt_zero _)
    exact ⟨fun empty => ⟨plain_, fun some_ => absurd rfl some_, fun _ => empty⟩,
      fun ⟨_, _, empty⟩ => empty rfl⟩
  · rw [UniqueEdits.sole_iff blank starts]
    have parts : splitLength found.contentForReplacement (matchedText nfkc edit found)
        = occurrencesFrom (matchedText nfkc edit found) 0 found.contentForReplacement + 1 := by
      simp [splitLength, blank]
    rw [parts]
    constructor
    · rintro ⟨plain_, counted⟩
      exact ⟨plain_, fun _ => by omega, fun empty => absurd empty blank⟩
    · rintro ⟨plain_, counted, -⟩
      exact ⟨plain_, by have := counted blank; omega⟩

end

theorem matchEdits_isOk : (∃ matched, matchEdits nfkc base path total pairs = .ok matched) ↔
      ∀ edit ∈ pairs.map (·.1), ∃ found, fuzzyFindText nfkc base edit.oldText = some found ∧
        countOccurrences nfkc base edit.oldText ≤ 1 := by
  induction pairs with
  | nil => simp [matchEdits]
  | cons pair rest ih =>
    obtain ⟨edit, index⟩ := pair
    rw [map_cons, forall_mem_cons, ← ih, matchEdits]
    cases met : fuzzyFindText nfkc base edit.oldText with
    | none => simp
    | some found =>
      by_cases more : countOccurrences nfkc base edit.oldText > 1
      · simp [more]
      · cases matchEdits nfkc base path total rest with
        | error message => simp [more, bind, Except.bind]
        | ok later => simp [more, bind, Except.bind, not_lt.mp more]

theorem firstOverlap_none_iff : firstOverlap matched = none ↔
      (matched.map MatchedEdit.patch).Pairwise fun left right => left.stop ≤ right.start := by
  constructor
  · intro none_
    have step : ∀ left middle right : Patch Char, left.stop ≤ middle.start →
        middle.stop ≤ right.start → left.stop ≤ right.start := fun left middle right first second =>
      (first.trans middle.start_le_stop).trans second
    have : IsTrans (Patch Char) fun left right => left.stop ≤ right.start := ⟨step⟩
    exact isChain_iff_pairwise.mp (firstOverlap_none none_)
  · intro apart
    induction matched with
    | nil => rfl
    | cons previous rest ih =>
      cases rest with
      | nil => rfl
      | cons current others =>
        obtain ⟨first, later⟩ := pairwise_cons.mp apart
        rw [firstOverlap, if_neg, ih later]
        exact Nat.not_lt.mpr (first _ mem_cons_self)

/-- The input of an accepted list of edits, and what comes of it. -/
theorem applied_iff : applyEditsToNormalizedContent nfkc content edits path = .ok result ↔
      (∀ edit ∈ normalizedEdits edits, edit.oldText ≠ []) ∧
      (∀ edit ∈ normalizedEdits edits, ∃ found, MatchedAs nfkc content edits edit found ∧
        countOccurrences nfkc (baseContentOf nfkc content (normalizedEdits edits))
          edit.oldText ≤ 1) ∧
      result.baseContent = baseContentOf nfkc content (normalizedEdits edits) ∧
      (matchedPatches nfkc content edits).Pairwise (fun left right => left.stop ≤ right.start) ∧
      result.newContent = spliceAll (matchedPatches nfkc content edits) result.baseContent ∧
      result.baseContent ≠ result.newContent := by
  constructor
  · intro applied
    obtain ⟨base, -, neighbours, new⟩ := accepted_of_ok applied
    rw [base] at neighbours new
    simp only [applyEditsToNormalizedContent] at applied
    split at applied
    · cases applied
    next filled =>
    split at applied
    · cases applied
    next matched done =>
    split at applied
    · cases applied
    split at applied
    · cases applied
    next changed =>
    obtain rfl := Except.ok.inj applied
    have found := matchEdits_isOk.mp ⟨matched, done⟩
    rw [zipIdx_map_fst] at found
    refine ⟨?_, ?_, rfl, firstOverlap_none_iff.mp neighbours, new, changed⟩
    · simpa using findIdx?_eq_none_iff.mp filled
    · intro edit listed
      obtain ⟨found, met, once⟩ := found edit listed
      exact ⟨found, ⟨listed, met⟩, once⟩
  · rintro ⟨filled, found, base, apart, new, changed⟩
    have none_ : (normalizedEdits edits).findIdx? (·.oldText.isEmpty) = none :=
      findIdx?_eq_none_iff.mpr (by simpa using filled)
    obtain ⟨matched, done⟩ : ∃ matched, matchEdits nfkc
        (baseContentOf nfkc content (normalizedEdits edits)) path (normalizedEdits edits).length
        (normalizedEdits edits).zipIdx = .ok matched := by
      refine matchEdits_isOk.mpr ?_
      rw [zipIdx_map_fst]
      intro edit listed
      obtain ⟨found, matched, once⟩ := found edit listed
      exact ⟨found, matched.2, once⟩
    have regions : matchedRegions nfkc content edits = sortMatched matched := by
      rw [matchedRegions, regionsIn, ← (matchEdits_ok done).1]
    rw [matchedPatches, regions] at apart new
    rw [base] at new changed
    rw [new, ← foldr_replaceIn] at changed
    simp only [applyEditsToNormalizedContent, none_, done, firstOverlap_none_iff.mpr apart, if_neg changed]
    rw [foldr_replaceIn, ← new, ← base]

/-- The stretches that the edits replace, in the order of the edits. -/
def patchesIn (nfkc : List Char → List Char) (base : List Char) (edits : List Edit) :
    List (Patch Char) :=
  edits.filterMap fun edit => (fuzzyFindText nfkc base edit.oldText).map fun found =>
    { start := found.index, length := found.matchLength, text := edit.newText }

theorem regionsIn_patches : (regionsIn nfkc base edits).map MatchedEdit.patch =
      (patchesIn nfkc base edits).insertionSort fun left right => left.start ≤ right.start := by
  refine (map_insertionSort (fun left right : MatchedEdit =>
    left.matchIndex ≤ right.matchIndex) (fun left right : Patch Char => left.start ≤ right.start)
    MatchedEdit.patch _ fun _ _ _ _ => Iff.rfl).trans ?_
  have indexed : patchesIn nfkc base edits = patchesIn nfkc base (edits.zipIdx.map Prod.fst) := by
    rw [zipIdx_map_fst]
  rw [indexed, map_filterMap, patchesIn, filterMap_map]
  simp only [Option.map_map]
  rfl

theorem baseContentOf_perm (perm : left.Perm right) :
    baseContentOf nfkc content left = baseContentOf nfkc content right := by
  simp only [baseContentOf, any_map]
  rw [perm.any_eq]

theorem matchedPatches_perm {left right : List Edit} (perm : left.Perm right) :
    (matchedPatches nfkc content left).Perm (matchedPatches nfkc content right) := by
  have normal : (normalizedEdits left).Perm (normalizedEdits right) := perm.map _
  rw [matchedPatches, matchedRegions, regionsIn_patches, matchedPatches, matchedRegions,
    regionsIn_patches, baseContentOf_perm normal]
  exact (perm_insertionSort _ _).trans ((normal.filterMap _).trans (perm_insertionSort _ _).symm)

/-- Stretches that are not empty have one order only in which they lie one behind the other. -/
theorem apart_unique {left right : List (Patch Char)} (perm : right.Perm left)
    (filled : ∀ patch ∈ left, 0 < patch.length)
    (apart : left.Pairwise fun first second => first.stop ≤ second.start)
    (sorted : right.Pairwise fun first second => first.start ≤ second.start) : right = left := by
  have starts : (left.map (·.start)).Nodup := by
    refine pairwise_map.mpr (apart.imp_of_mem fun {first second} listed _ before_ => ?_)
    exact ((Nat.lt_add_of_pos_right (filled first listed)).trans_le before_).ne
  refine List.Perm.eq_of_pairwise (fun first second here there before_ after_ => ?_) sorted
    (apart.imp fun {first _} before_ => first.start_le_stop.trans before_) perm
  exact inj_on_of_nodup_map starts (perm.mem_iff.mp here) there (Nat.le_antisymm before_ after_)

theorem spliceAll_empty {patches : List (Patch Char)} (inside : ∀ patch ∈ patches, patch.stop ≤ 0) :
    spliceAll patches [] = (patches.map (·.text)).flatten := by
  induction patches with
  | nil => rfl
  | cons patch rest ih =>
    obtain ⟨stop, later⟩ := forall_mem_cons.mp inside
    have start : patch.start = 0 := Nat.le_zero.mp (patch.start_le_stop.trans stop)
    rw [map_cons, flatten_cons, ← ih later, spliceAll, foldr_cons, Patch.splice, start, Nat.le_zero.mp stop]
    rfl

theorem flatten_perm {left right : List (List α)}
    (commutes : left.Pairwise fun first second => first ++ second = second ++ first)
    (perm : left.Perm right) : left.flatten = right.flatten := by
  have symmetric : Std.Symm fun first second : List α => first ++ second = second ++ first :=
    ⟨fun _ _ same => same.symm⟩
  have all : ∀ first ∈ left, ∀ second ∈ left, first ++ second = second ++ first :=
    commutes.forall_of_forall fun _ _ => rfl
  have folded : ∀ items : List (List α), items.flatten = items.foldr (· ++ ·) [] := by
    intro items
    induction items with
    | nil => rfl
    | cons item rest ih => rw [flatten_cons, foldr_cons, ih]
  rw [folded, folded]
  refine perm.foldr_eq' (fun first here second there tail => ?_) []
  rw [← append_assoc, ← append_assoc, all first here second there]

theorem pairwise_of_heads
    (heads : ∀ first second rest, (first :: second :: rest).Perm items → R first second) :
    items.Pairwise R := by
  induction items with
  | nil => exact .nil
  | cons item rest ih =>
    refine .cons (fun other listed => ?_) (ih fun first second others perm => ?_)
    · obtain ⟨front, back, rfl⟩ := append_of_mem listed
      exact heads item other (front ++ back) (perm_middle.symm.cons item)
    · refine heads first second (item :: others) ?_
      exact ((List.Perm.swap item second others).cons first).trans
        ((List.Perm.swap item first _).trans (perm.cons item))

theorem patch_matched (listed : patch ∈ matchedPatches nfkc content edits) :
    ∃ edit found, MatchedAs nfkc content edits edit found ∧
      patch = { start := found.index, length := found.matchLength, text := edit.newText } := by
  rw [matchedPatches, matchedRegions, regionsIn_patches] at listed
  obtain ⟨edit, here, met⟩ :=
    mem_filterMap.mp ((perm_insertionSort _ _).mem_iff.mp listed)
  obtain ⟨found, held, rfl⟩ := Option.map_eq_some_iff.mp met
  exact ⟨edit, found, ⟨here, held⟩, rfl⟩

theorem patch_inside (unicode : IsNfkc nfkc) (listed : patch ∈ matchedPatches nfkc content edits) :
    patch.stop ≤ (baseContentOf nfkc content (normalizedEdits edits)).length := by
  obtain ⟨edit, found, matched, rfl⟩ := patch_matched listed
  obtain ⟨same, size, starts⟩ := matched.place unicode
  have fits := startsAt_length starts
  rwa [size, same] at fits

theorem patchesIn_texts
    (found : ∀ edit ∈ edits, ∃ found, fuzzyFindText nfkc base edit.oldText = some found) :
    (patchesIn nfkc base edits).map (·.text) = edits.map (·.newText) := by
  induction edits with
  | nil => rfl
  | cons edit rest ih =>
    obtain ⟨⟨here, met⟩, later⟩ := forall_mem_cons.mp found
    have tail := ih later
    rw [patchesIn] at tail ⊢
    rw [filterMap_cons, met, Option.map_some, map_cons, tail, map_cons]

theorem matchedPatches_texts
    (found : ∀ edit ∈ normalizedEdits edits, ∃ found, MatchedAs nfkc content edits edit found) :
    ((matchedPatches nfkc content edits).map (·.text)).Perm
      ((normalizedEdits edits).map (·.newText)) := by
  rw [matchedPatches, matchedRegions, regionsIn_patches]
  refine ((perm_insertionSort _ _).map _).trans (.of_eq (patchesIn_texts ?_))
  intro edit listed
  obtain ⟨found, matched⟩ := found edit listed
  exact ⟨found, matched.2⟩

/-- What the edits make of an empty content, in the order in which they are listed. -/
theorem new_of_empty (unicode : IsNfkc nfkc)
    (applied : applyEditsToNormalizedContent nfkc content edits path = .ok result)
    (empty : baseContentOf nfkc content (normalizedEdits edits) = []) :
    result.newContent = ((normalizedEdits edits).map (·.newText)).flatten := by
  obtain ⟨-, found, base, -, new, -⟩ := applied_iff.mp applied
  have inside : ∀ patch ∈ matchedPatches nfkc content edits, patch.stop ≤ 0 := by
    intro patch listed
    have fits := patch_inside unicode listed
    rwa [empty] at fits
  rw [new, base, empty, spliceAll_empty inside, matchedPatches, matchedRegions, regionsIn_patches]
  rw [matchedPatches, matchedRegions, regionsIn_patches] at inside
  have sorted : (patchesIn nfkc (baseContentOf nfkc content (normalizedEdits edits))
      (normalizedEdits edits)).Pairwise fun left right => left.start ≤ right.start := by
    refine pairwise_of_forall_mem_list fun left here right _ => ?_
    have stop := inside left ((perm_insertionSort _ _).mem_iff.mpr here)
    exact (left.start_le_stop.trans stop).trans (Nat.zero_le _)
  rw [sorted.insertionSort_eq, patchesIn_texts]
  intro edit listed
  obtain ⟨found, matched, -⟩ := found edit listed
  exact ⟨found, matched.2⟩

theorem MatchedAs.perm (perm : other.Perm edits) :
    MatchedAs nfkc content other edit found ↔ MatchedAs nfkc content edits edit found := by
  have normal : (normalizedEdits other).Perm (normalizedEdits edits) := perm.map _
  rw [MatchedAs, MatchedAs, baseContentOf_perm normal, normal.mem_iff]

/-- Another order of the edits that makes the same patches, or others that come to the same. -/
theorem applied_perm (perm : other.Perm edits)
    (applied : applyEditsToNormalizedContent nfkc content edits path = .ok result)
    (apart : (matchedPatches nfkc content other).Pairwise fun left right => left.stop ≤ right.start)
    (same : spliceAll (matchedPatches nfkc content other) result.baseContent
      = spliceAll (matchedPatches nfkc content edits) result.baseContent) :
    applyEditsToNormalizedContent nfkc content other path = .ok result := by
  obtain ⟨filled, found, base, -, new, changed⟩ := applied_iff.mp applied
  have normal : (normalizedEdits other).Perm (normalizedEdits edits) := perm.map _
  refine applied_iff.mpr ⟨?_, ?_, ?_, apart, new.trans same.symm, changed⟩
  · exact fun edit listed => filled edit (normal.mem_iff.mp listed)
  · intro edit listed
    obtain ⟨found, matched, once⟩ := found edit (normal.mem_iff.mp listed)
    rw [baseContentOf_perm normal]
    exact ⟨found, (MatchedAs.perm perm).mpr matched, once⟩
  · rw [base, baseContentOf_perm normal]

section
variable (unicode : IsNfkc nfkc)
variable (applied : applyEditsToNormalizedContent nfkc content edits path = .ok result)
include unicode applied

theorem orderFree_of_filled (filled : ∀ {edit found}, MatchedAs nfkc content edits edit found →
      matchedText nfkc edit found ≠ []) : OrderFree nfkc content edits path result := by
  intro other perm
  obtain ⟨-, -, -, apart, -⟩ := applied_iff.mp applied
  have same : matchedPatches nfkc content other = matchedPatches nfkc content edits := by
    refine apart_unique (matchedPatches_perm perm) ?_ apart ?_
    · intro patch listed
      obtain ⟨edit, found, matched, rfl⟩ := patch_matched listed
      obtain ⟨-, size, -⟩ := matched.place unicode
      exact size ▸ length_pos_iff.mpr (filled matched)
    · rw [matchedPatches, matchedRegions, regionsIn_patches]
      exact pairwise_insertionSort _ _
  exact applied_perm perm applied (same ▸ apart) (same ▸ rfl)

theorem orderFree_of_empty (empty : baseContentOf nfkc content (normalizedEdits edits) = [])
    (commutes : (normalizedEdits edits).Pairwise fun left right =>
      left.newText ++ right.newText = right.newText ++ left.newText) :
    OrderFree nfkc content edits path result := by
  intro other perm
  obtain ⟨-, found, base, -⟩ := applied_iff.mp applied
  have inside : ∀ patch ∈ matchedPatches nfkc content edits, patch.stop ≤ 0 := by
    intro patch listed
    have fits := patch_inside unicode listed
    rwa [empty] at fits
  have patches := @matchedPatches_perm nfkc content _ _ perm
  have outside : ∀ patch ∈ matchedPatches nfkc content other, patch.stop ≤ 0 :=
    fun patch listed => inside patch (patches.mem_iff.mp listed)
  refine applied_perm perm applied ?_ ?_
  · refine pairwise_of_forall_mem_list fun left here right _ => ?_
    exact (outside left here).trans (Nat.zero_le _)
  · rw [base, empty, spliceAll_empty inside, spliceAll_empty outside]
    have texts := matchedPatches_texts fun edit listed =>
      (found edit listed).imp fun _ both => both.1
    refine (flatten_perm ?_ ((patches.map _).symm)).symm
    have symmetric : Std.Symm fun first second : List Char =>
        first ++ second = second ++ first := ⟨fun _ _ same => same.symm⟩
    exact (texts.pairwise_iff fun same => same.symm).mpr (pairwise_map.mpr commutes)

end

theorem commutes_of_orderFree (unicode : IsNfkc nfkc)
    (empty : baseContentOf nfkc content (normalizedEdits edits) = [])
    (free : OrderFree nfkc content edits path result) :
    (normalizedEdits edits).Pairwise fun left right =>
      left.newText ++ right.newText = right.newText ++ left.newText := by
  refine pairwise_map.mpr (pairwise_of_heads fun first second rest perm => ?_)
  have written : ∀ {other : List Edit}, other.Perm edits →
      result.newContent = ((normalizedEdits other).map (·.newText)).flatten := by
    intro other order
    refine new_of_empty unicode (free other order) ?_
    have normal : (normalizedEdits other).Perm (normalizedEdits edits) := order.map _
    rw [baseContentOf_perm normal, empty]
  have one := written perm
  have two := written ((List.Perm.swap first second rest).trans perm)
  rw [one] at two
  simp only [normalizedEdits, map_cons, flatten_cons, ← append_assoc] at two
  exact append_cancel_right two

/-- The edits that are made are the only ones that the input can mean, if and only if the count of
the occurrences has missed none. -/
theorem unambiguous_iff (unicode : IsNfkc nfkc)
    (applied : applyEditsToNormalizedContent nfkc content edits path = .ok result) :
    Unambiguous nfkc content edits ∧ OrderFree nfkc content edits path result ↔
      CountsAll nfkc content edits := by
  obtain ⟨-, found, base, apart, -⟩ := applied_iff.mp applied
  have once : ∀ {edit found}, MatchedAs nfkc content edits edit found →
      countOccurrences nfkc (baseContentOf nfkc content (normalizedEdits edits))
        edit.oldText ≤ 1 := by
    intro edit _ matched
    obtain ⟨-, -, once⟩ := found edit matched.1
    exact once
  constructor
  · rintro ⟨⟨sole, -⟩, free⟩
    have alone : ∀ {edit found}, MatchedAs nfkc content edits edit found →
        ∃! position, StartsAt (matchedText nfkc edit found) found.contentForReplacement
          position := by
      intro edit found matched
      obtain ⟨again, same, sole⟩ := sole edit matched.1
      rwa [← Option.some.inj (matched.2.symm.trans same.2)] at sole
    have counted := fun {edit found} (matched : MatchedAs nfkc content edits edit found) =>
      (matched.sole_iff unicode (once matched)).mp (alone matched)
    refine ⟨fun matched => (counted matched).1, fun matched => (counted matched).2.1, fun matched blank => ?_⟩
    have empty := (counted matched).2.2 blank
    refine ⟨empty, commutes_of_orderFree unicode ?_ free⟩
    rw [← (matched.place unicode).1, empty]
  · rintro ⟨plain_, kept, blank⟩
    refine ⟨⟨fun edit listed => ?_, apart⟩, ?_⟩
    · obtain ⟨found, matched, counted⟩ := found edit listed
      exact ⟨found, matched, (matched.sole_iff unicode counted).mpr
        ⟨plain_ matched, kept matched, fun none_ => (blank matched none_).1⟩⟩
    · by_cases filled : ∀ {edit found}, MatchedAs nfkc content edits edit found →
        matchedText nfkc edit found ≠ []
      · exact orderFree_of_filled unicode applied filled
      · push Not at filled
        obtain ⟨edit, found, matched, none_⟩ := filled
        obtain ⟨empty, commutes⟩ := blank matched none_
        refine orderFree_of_empty unicode applied ?_ commutes
        rw [← (matched.place unicode).1, empty]

/-- Two letters are swapped for two others, in either order of the edits. -/
theorem unambiguous_letters :
    Unambiguous id "ab".toList [⟨"b".toList, "y".toList⟩, ⟨"a".toList, "x".toList⟩] ∧
      OrderFree id "ab".toList [⟨"b".toList, "y".toList⟩, ⟨"a".toList, "x".toList⟩] "notes"
        ⟨"ab".toList, "xy".toList⟩ := by
  refine (unambiguous_iff isNfkc_id (by decide)).mpr ?_
  have letters : ∀ {edit found}, MatchedAs id "ab".toList
      [⟨"b".toList, "y".toList⟩, ⟨"a".toList, "x".toList⟩] edit found →
      (edit = ⟨"b".toList, "y".toList⟩ ∧ found = ⟨1, 1, false, "ab".toList⟩) ∨
        (edit = ⟨"a".toList, "x".toList⟩ ∧ found = ⟨0, 1, false, "ab".toList⟩) := by
    rintro edit found ⟨listed, met⟩
    have shown : normalizedEdits [⟨"b".toList, "y".toList⟩, ⟨"a".toList, "x".toList⟩]
        = [⟨"b".toList, "y".toList⟩, ⟨"a".toList, "x".toList⟩] := by decide
    have base : baseContentOf id "ab".toList
        [⟨"b".toList, "y".toList⟩, ⟨"a".toList, "x".toList⟩] = "ab".toList := by decide
    rw [shown] at listed
    rw [shown, base] at met
    rcases mem_cons.mp listed with rfl | listed
    · exact .inl ⟨rfl, (Option.some.inj met).symm⟩
    · obtain rfl := mem_singleton.mp listed
      exact .inr ⟨rfl, (Option.some.inj met).symm⟩
  refine ⟨fun matched => ?_, fun matched _ => ?_, fun matched none_ => ?_⟩
  · rintro ⟨stretch, -, -, -, longer, shorter⟩
    rcases letters matched with ⟨rfl, rfl⟩ | ⟨rfl, rfl⟩ <;> simp [matchedText] at longer shorter <;>
      omega
  · rcases letters matched with ⟨rfl, rfl⟩ | ⟨rfl, rfl⟩ <;> decide
  · rcases letters matched with ⟨rfl, rfl⟩ | ⟨rfl, rfl⟩ <;> cases none_

/-- Two places of the old text overlap, and the first of them is edited. -/
theorem ambiguous_edit_applied :
    ∃ result, applyEditsToNormalizedContent id "aaa".toList [⟨"aa".toList, "b".toList⟩] "notes"
        = .ok result ∧
      ¬ (Unambiguous id "aaa".toList [⟨"aa".toList, "b".toList⟩] ∧
        OrderFree id "aaa".toList [⟨"aa".toList, "b".toList⟩] "notes" result) := by
  refine ⟨⟨"aaa".toList, "ba".toList⟩, by decide, ?_⟩
  rintro ⟨⟨sole, -⟩, -⟩
  obtain ⟨found, ⟨-, met⟩, position, -, one⟩ := sole ⟨"aa".toList, "b".toList⟩ (by decide)
  have first : found = ⟨0, 2, false, "aaa".toList⟩ :=
    Option.some.inj (met.symm.trans (by decide))
  subst first
  have start := one 0 ⟨by decide, by decide⟩
  have next_ := one 1 ⟨by decide, by decide⟩
  omega

end
end QiongQi.UniqueEdits
