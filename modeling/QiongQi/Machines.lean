import Mathlib.Data.List.Basic

/-! Machines that take one action at a time and may refuse it: their runs, what
holds along every run, and tables of items that are looked up by a key. -/
namespace QiongQi.Machines
open List hiding drop

section
variable {σ α : Type}

/-- The state after the actions, if each of them could be taken. -/
def runActions (step : σ → α → Option σ) : σ → List α → Option σ
  | state, [] => some state
  | state, action :: rest =>
    match step state action with
    | none => none
    | some next => runActions step next rest

/-- Each action is taken where it is `fair`. -/
def Along (step : σ → α → Option σ) (fair : σ → α → Prop) : σ → List α → Prop
  | _, [] => True
  | state, action :: rest => fair state action ∧ match step state action with
    | none => True
    | some next => Along step fair next rest

instance decidableAlong (step : σ → α → Option σ) (fair : σ → α → Prop)
    [∀ state action, Decidable (fair state action)] :
    ∀ state actions, Decidable (Along step fair state actions)
  | _, [] => .isTrue trivial
  | state, action :: rest =>
    have : Decidable (match step state action with
        | none => True
        | some next => Along step fair next rest) :=
      match step state action with
      | none => .isTrue trivial
      | some next => decidableAlong step fair next rest
    inferInstanceAs (Decidable (_ ∧ _))

variable {step : σ → α → Option σ} {fair : σ → α → Prop} {inv : σ → Prop}

theorem runActions_append (first second : List α) :
    ∀ state : σ, runActions step state (first ++ second) =
      (runActions step state first).bind fun middle => runActions step middle second := by
  induction first with
  | nil => exact fun _ => rfl
  | cons action rest ih =>
    intro state
    simp only [cons_append, runActions]
    cases step state action with
    | none => rfl
    | some next => exact ih next

/-- What every fair step keeps, every fair run keeps. -/
theorem invariant_run (keeps : ∀ state action next, inv state → fair state action →
      step state action = some next → inv next) (actions : List α) :
    ∀ {state final : σ}, inv state → Along step fair state actions →
      runActions step state actions = some final → inv final := by
  induction actions with
  | nil =>
    intro state final holds _ ran
    cases ran
    exact holds
  | cons action rest ih =>
    intro state final holds along ran
    obtain ⟨first, others⟩ := along
    unfold runActions at ran
    cases stepped : step state action with
    | none =>
      rw [stepped] at ran
      cases ran
    | some next =>
      rw [stepped] at ran others
      exact ih (keeps state action next holds first stepped) others ran

/-- What every step keeps, every run keeps. -/
theorem invariant_always
    (keeps : ∀ state action next, inv state → step state action = some next → inv next)
    (actions : List α) {state final : σ} (holds : inv state)
    (ran : runActions step state actions = some final) : inv final := by
  have always : ∀ (actions : List α) (state : σ), Along step (fun _ _ => True) state actions := by
    intro actions
    induction actions with
    | nil => exact fun _ => trivial
    | cons action rest ih =>
      intro state
      refine ⟨trivial, ?_⟩
      split
      · trivial
      · exact ih _
  exact invariant_run (fun state action next holds _ => keeps state action next holds) actions
    holds (always actions state) ran

theorem along_iff_reached (exact_ : ∀ state action next, inv state → step state action = some next →
      (fair state action ↔ inv next)) (actions : List α) :
    ∀ {state final : σ}, inv state → runActions step state actions = some final →
      (Along step fair state actions ↔ ∀ front back middle, actions = front ++ back →
        runActions step state front = some middle → inv middle) := by
  induction actions with
  | nil =>
    intro state final holds _
    refine iff_of_true trivial fun front back middle split ran => ?_
    rw [(append_eq_nil_iff.mp split.symm).1] at ran
    cases ran
    exact holds
  | cons action rest ih =>
    intro state final holds ran
    unfold runActions at ran
    cases stepped : step state action with
    | none =>
      rw [stepped] at ran
      cases ran
    | some next =>
      rw [stepped] at ran
      constructor
      · rintro ⟨first, others⟩ front back middle split reached
        rw [stepped] at others
        have kept := (exact_ state action next holds stepped).mp first
        cases front with
        | nil =>
          cases reached
          exact holds
        | cons other front =>
          cases split
          unfold runActions at reached
          rw [stepped] at reached
          exact (ih kept ran).mp others front back middle rfl reached
      · intro reached
        have kept : inv next := by
          refine reached [action] rest next rfl ?_
          unfold runActions
          rw [stepped]
          rfl
        refine ⟨(exact_ state action next holds stepped).mpr kept, ?_⟩
        rw [stepped]
        refine (ih kept ran).mpr fun front back middle split later => ?_
        refine reached (action :: front) back middle (by rw [split]; rfl) ?_
        unfold runActions
        rw [stepped]
        exact later

/-- The same beside an invariant that every step keeps. -/
theorem along_iff_reached_beside {kept : σ → Prop}
    (keeps : ∀ state action next, kept state → step state action = some next → kept next)
    (exact_ : ∀ state action next, kept state ∧ inv state → step state action = some next →
      (fair state action ↔ kept next ∧ inv next)) (actions : List α) (start : kept state)
    (holds : inv state) (ran : runActions step state actions = some final) :
    (∀ front back middle, actions = front ++ back → runActions step state front = some middle → inv middle) ↔
      Along step fair state actions := by
  rw [along_iff_reached exact_ actions ⟨start, holds⟩ ran]
  constructor
  · intro always front back middle split reached
    exact ⟨invariant_always keeps front start reached, always front back middle split reached⟩
  · intro always front back middle split reached
    exact (always front back middle split reached).2

/-- A fair run goes on fairly from each state that it reaches. -/
theorem along_append (first : List α) :
    ∀ {rest : List α} {state middle : σ}, Along step fair state (first ++ rest) →
      runActions step state first = some middle →
      Along step fair state first ∧ Along step fair middle rest := by
  induction first with
  | nil =>
    intro rest state middle along ran
    cases ran
    exact ⟨trivial, along⟩
  | cons action others ih =>
    intro rest state middle along ran
    obtain ⟨fair, along⟩ := along
    unfold runActions at ran
    cases taken : step state action with
    | none =>
      rw [taken] at ran
      cases ran
    | some next =>
      simp only [taken] at ran along
      obtain ⟨front, back⟩ := ih along ran
      exact ⟨⟨fair, by simp only [taken]; exact front⟩, back⟩

end

theorem split_snoc (split : items ++ [last] = front ++ middle :: back) :
    (back = [] ∧ front = items ∧ middle = last) ∨
      ∃ rest, back = rest ++ [last] ∧ items = front ++ middle :: rest := by
  rcases eq_nil_or_concat back with rfl | ⟨rest, final, rfl⟩
  · obtain ⟨same, ended⟩ := append_inj' split rfl
    cases ended
    exact .inl ⟨rfl, same.symm, rfl⟩
  · have shifted : items ++ [last] = (front ++ middle :: rest) ++ [final] := by
      simpa using split
    obtain ⟨same, ended⟩ := append_inj' shifted rfl
    cases ended
    exact .inr ⟨rest, concat_eq_append, same⟩

section
variable {β κ : Type} [DecidableEq κ] {key : β → κ}

/-- The item takes the place of every item with its key. -/
def put (key : β → κ) (item : β) (items : List β) : List β :=
  item :: items.filter fun other => key other ≠ key item

def drop (key : β → κ) (name : κ) (items : List β) : List β :=
  items.filter fun other => key other ≠ name

def find (key : β → κ) (name : κ) (items : List β) : Option β :=
  items.find? fun item => key item = name

variable {items : List β}

@[simp] theorem mem_put {other : β} :
    other ∈ put key item items ↔ other = item ∨ other ∈ items ∧ key other ≠ key item := by
  simp [put]

@[simp] theorem mem_drop {other : β} :
    other ∈ drop key name items ↔ other ∈ items ∧ key other ≠ name := by
  simp [drop]

/-- Items with one key are one item. -/
def Keyed (key : β → κ) (items : List β) : Prop :=
  ∀ left ∈ items, ∀ right ∈ items, key left = key right → left = right

theorem keyed_put (keyed : Keyed key items) : Keyed key (put key item items) := by
  intro left foundLeft right foundRight same
  rcases mem_put.mp foundLeft with rfl | ⟨foundLeft, apartLeft⟩
  · rcases mem_put.mp foundRight with rfl | ⟨-, apartRight⟩
    · rfl
    · exact absurd same.symm apartRight
  · rcases mem_put.mp foundRight with rfl | ⟨foundRight, -⟩
    · exact absurd same apartLeft
    · exact keyed left foundLeft right foundRight same

theorem keyed_drop (keyed : Keyed key items) : Keyed key (drop key name items) :=
  fun left foundLeft right foundRight =>
    keyed left (mem_drop.mp foundLeft).1 right (mem_drop.mp foundRight).1

omit [DecidableEq κ] in
theorem keyed_cons (keyed : Keyed key items) (fresh : ∀ other ∈ items, key other ≠ key item) :
    Keyed key (item :: items) := by
  intro left foundLeft right foundRight same
  rcases mem_cons.mp foundLeft with rfl | heldLeft
  · rcases mem_cons.mp foundRight with rfl | heldRight
    · rfl
    · exact absurd same.symm (fresh right heldRight)
  · rcases mem_cons.mp foundRight with rfl | heldRight
    · exact absurd same (fresh left heldLeft)
    · exact keyed left heldLeft right heldRight same

theorem find_mem (found : find key name items = some item) : item ∈ items ∧ key item = name := by
  constructor
  · exact mem_of_find?_eq_some found
  · simpa using find?_some found

@[simp] theorem find_put_self (key : β → κ) (item : β) (items : List β) :
    find key (key item) (put key item items) = some item := by
  simp [find, put]

theorem find_put_other (other : key item ≠ name) :
    find key name (put key item items) = find key name items := by
  unfold find put
  rw [find?_cons_of_neg (by simpa using other), find?_filter]
  congr 1
  funext candidate
  by_cases same : key candidate = name
  · simp [same, Ne.symm other]
  · simp [same]

@[simp] theorem find_drop_self (key : β → κ) (name : κ) (items : List β) :
    find key name (drop key name items) = none := by
  simp [find, drop]

theorem find_drop_other {other : κ} (apart : other ≠ name) :
    find key other (drop key name items) = find key other items := by
  unfold find drop
  rw [find?_filter]
  congr 1
  funext item
  by_cases same : key item = other
  · simp [same, apart]
  · simp [same]

theorem find_keyed (keyed : Keyed key items) (held : item ∈ items) :
    find key (key item) items = some item := by
  cases found : find key (key item) items with
  | none =>
    have missing := find?_eq_none.mp found item held
    simp at missing
  | some other =>
    obtain ⟨heldOther, same⟩ := find_mem found
    rw [keyed other heldOther item held same]

end

end QiongQi.Machines
