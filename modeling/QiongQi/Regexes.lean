import Mathlib.Data.List.Basic

/-! Regular expressions that are matched by backtracking: alternatives are tried in their
order, a greedy repetition tries to go on first, a lazy one tries to stop first. -/
namespace QiongQi.Regexes

/-- Rather over the text than over all characters there are. -/
instance decidableAll (text : List Char) (p : Char → Prop) [DecidablePred p] :
    Decidable (∀ c ∈ text, p c) :=
  text.decidableBAll p

inductive Regex where
  | empty
  | one (accepts : Char → Bool)
  | seq (first second : Regex)
  | either (first second : Regex)
  | many (greedy : Bool) (body : Regex)
  | group (number : Nat) (body : Regex)
  /-- An assertion about the characters before and after the place. -/
  | here (holds : Option Char → Option Char → Bool)

/-- A place in a text, with what the groups have matched so far. -/
structure Cursor where
  /-- The characters before, the nearest first. -/
  passed : List Char
  rest : List Char
  groups : List (Nat × List Char) := []

/-- Repeats a body for as long as it takes up characters. -/
def repeatBody (greedy : Bool) (body : Cursor → (Cursor → Option Cursor) → Option Cursor) :
    Nat → Cursor → (Cursor → Option Cursor) → Option Cursor
  | 0, cursor, next => next cursor
  | more + 1, cursor, next =>
    let again := fun _ : Unit => body cursor fun later =>
      if later.rest.length < cursor.rest.length then repeatBody greedy body more later next else none
    if greedy then (again ()).orElse fun _ => next cursor else (next cursor).orElse again

/-- The first way to match from a place on after which `next` succeeds. -/
def Regex.run : Regex → Cursor → (Cursor → Option Cursor) → Option Cursor
  | .empty, cursor, next => next cursor
  | .one accepts, cursor, next =>
    match cursor.rest with
    | c :: rest =>
      if accepts c then next { cursor with passed := c :: cursor.passed, rest } else none
    | [] => none
  | .seq first second, cursor, next => first.run cursor fun later => second.run later next
  | .either first second, cursor, next => (first.run cursor next).orElse fun _ => second.run cursor next
  | .many greedy body, cursor, next =>
    repeatBody greedy (fun cursor next => body.run cursor next) cursor.rest.length cursor next
  | .group number body, cursor, next =>
    body.run cursor fun later =>
      let text := cursor.rest.take (cursor.rest.length - later.rest.length)
      next { later with groups := (number, text) :: later.groups }
  | .here holds, cursor, next =>
    if holds cursor.passed.head? cursor.rest.head? then next cursor else none

/-- The leftmost match, with the characters skipped before it. -/
def Regex.search (regex : Regex) (passed : List Char) : List Char → Option (List Char × Cursor)
  | [] => (regex.run ⟨passed, [], []⟩ some).map fun last => ([], last)
  | c :: rest =>
    match regex.run ⟨passed, c :: rest, []⟩ some with
    | some last => some ([], last)
    | none => (regex.search (c :: passed) rest).map fun found => (c :: found.1, found.2)

def Regex.test (regex : Regex) (text : List Char) : Bool := (regex.search [] text).isSome

/-- Where the leftmost match starts. -/
def Regex.index (regex : Regex) (text : List Char) : Option Nat :=
  (regex.search [] text).map fun found => found.1.length

/-- What a group of the leftmost match has matched. -/
def Regex.groupOf (regex : Regex) (number : Nat) (text : List Char) : Option (List Char) :=
  (regex.search [] text).bind fun found => found.2.groups.lookup number

/-- Replaces every match, from the left. After an empty match one character is passed. -/
def Regex.replaceFrom (regex : Regex) (replacement : List Char) :
    Nat → (passed rest : List Char) → List Char
  | 0, _, rest => rest
  | more + 1, passed, rest =>
    match regex.search passed rest with
    | none => rest
    | some (before, last) =>
      before ++ replacement ++ if before.length + last.rest.length < rest.length then
          regex.replaceFrom replacement more last.passed last.rest
        else
          match last.rest with
          | [] => []
          | c :: later => c :: regex.replaceFrom replacement more (c :: last.passed) later

def Regex.replaceAll (regex : Regex) (replacement text : List Char) : List Char :=
  regex.replaceFrom replacement (text.length + 1) [] text

/-- The text as it is, letters in either case if `anyCase`. -/
def literal (anyCase : Bool) (text : String) : Regex :=
  text.toList.foldr
    (fun c rest => .seq (.one fun d => d = c || (anyCase && d.toLower = c.toLower)) rest) .empty

def choice : List Regex → Regex
  | [] => .one fun _ => false
  | [only] => only
  | first :: rest => .either first (choice rest)

def sequence : List Regex → Regex
  | [] => .empty
  | [only] => only
  | first :: rest => .seq first (sequence rest)

def optional (body : Regex) : Regex := .either body .empty

def atLeastOne (body : Regex) : Regex := .seq body (.many true body)

def anything : Char → Bool := fun _ => true

def isWordChar (c : Char) : Bool := c.isAlphanum || c = '_'

def wordBoundary : Regex :=
  .here fun before after => before.any isWordChar != after.any isWordChar

def textEnd : Regex := .here fun _ after => after.isNone

/-- Every match begins with a character of the kind. -/
def Regex.BeginsWith (p : Char → Bool) (regex : Regex) : Prop :=
  ∀ cursor next, (∀ c ∈ cursor.rest.head?, p c = false) → regex.run cursor next = none

theorem beginsWith_one (only : ∀ c, accepts c = true → p c = true) :
    (Regex.one accepts).BeginsWith p := by
  intro cursor next apart
  rw [Regex.run]
  cases start : cursor.rest with
  | nil => rfl
  | cons c rest =>
    have other := apart c (by rw [start]; rfl)
    have refused : accepts c = false := by
      rw [← Bool.not_eq_true]
      intro accepted
      rw [only c accepted] at other
      cases other
    simp only [refused, Bool.false_eq_true, if_false]

theorem Regex.BeginsWith.seq (begins : first.BeginsWith p) (second : Regex) :
    (Regex.seq first second).BeginsWith p :=
  fun cursor _ apart => begins cursor _ apart

theorem Regex.BeginsWith.either (left : first.BeginsWith p) (right : second.BeginsWith p) :
    (Regex.either first second).BeginsWith p := by
  intro cursor next apart
  rw [Regex.run, left cursor next apart, right cursor next apart]
  rfl

theorem beginsWith_sequence (begins : first.BeginsWith p) (rest : List Regex) :
    (sequence (first :: rest)).BeginsWith p := by
  cases rest with
  | nil => exact begins
  | cons next rest => exact begins.seq _

theorem beginsWith_literal (spelled : text.toList = first :: rest)
    (only : ∀ c, c = first ∨ c.toLower = first.toLower → p c = true) :
    (literal anyCase text).BeginsWith p := by
  rw [literal, spelled, List.foldr_cons]
  apply Regex.BeginsWith.seq
  apply beginsWith_one
  intro c accepted
  simp only [Bool.or_eq_true, decide_eq_true_eq, Bool.and_eq_true] at accepted
  exact only c (accepted.imp_right And.right)

theorem Regex.BeginsWith.search {regex : Regex} (begins : regex.BeginsWith p)
    (apart : ∀ c ∈ text, p c = false) : ∀ passed, regex.search passed text = none := by
  induction text with
  | nil =>
    intro passed
    rw [Regex.search, begins _ _ (by simp)]
    rfl
  | cons c rest ih =>
    intro passed
    have here : regex.run ⟨passed, c :: rest, []⟩ some = none :=
      begins _ _ fun d held => apart d (by cases held; exact List.mem_cons_self)
    rw [Regex.search, here]
    rw [ih fun d held => apart d (List.mem_cons_of_mem _ held)]
    rfl

theorem eq_of_toLower {c mark : Char} (same : c.toLower = mark) (low : mark.toNat < 97 ∨ 122 < mark.toNat) :
    c = mark := by
  unfold Char.toLower at same
  split at same
  · rename_i upper
    subst same
    have first : 65 ≤ c.val.toNat := upper.1
    have last : c.val.toNat ≤ 90 := upper.2
    have shifted : (c.val + ('a'.val - 'A'.val)).toNat = c.val.toNat + 32 := by
      rw [UInt32.toNat_add]
      have gap : ('a'.val - 'A'.val).toNat = 32 := by decide
      omega
    simp only [Char.toNat, shifted] at low
    omega
  · exact same

/-- What follows a text that is spelled so, letters in either case. -/
def afterText : List Char → List Char → Option (List Char)
  | [], text => some text
  | _ :: _, [] => none
  | c :: spelled, d :: text =>
    if d = c || d.toLower = c.toLower then afterText spelled text else none

theorem afterText_some : afterText spelled text = some rest ↔
      ∃ front, text = front ++ rest ∧ front.map Char.toLower = spelled.map Char.toLower := by
  induction spelled generalizing text with
  | nil =>
    rw [afterText]
    constructor
    · intro same
      exact ⟨[], Option.some.inj same, rfl⟩
    · rintro ⟨front, rfl, spelled⟩
      rw [List.map_eq_nil_iff.mp spelled, List.nil_append]
  | cons c spelled ih =>
    cases text with
    | nil =>
      rw [afterText]
      refine iff_of_false (by simp) ?_
      rintro ⟨front, empty, spelled⟩
      rw [(List.append_eq_nil_iff.mp empty.symm).1] at spelled
      cases spelled
    | cons d text =>
      have alike : (d = c || d.toLower = c.toLower) = true ↔ d.toLower = c.toLower := by
        simp only [Bool.or_eq_true, decide_eq_true_eq]
        exact ⟨fun either => either.elim (congrArg Char.toLower) id, .inr⟩
      rw [afterText]
      by_cases same : d.toLower = c.toLower
      · rw [if_pos (alike.mpr same), ih]
        constructor
        · rintro ⟨front, rfl, spelled⟩
          exact ⟨d :: front, rfl, by rw [List.map_cons, List.map_cons, same, spelled]⟩
        · rintro ⟨front, whole, spelled⟩
          cases front with
          | nil => cases spelled
          | cons e front =>
            obtain ⟨rfl, rest⟩ := List.cons.inj whole
            exact ⟨front, rest, (List.cons.inj spelled).2⟩
      · rw [if_neg fun either => same (alike.mp either)]
        refine iff_of_false (by simp) ?_
        rintro ⟨front, whole, spelled⟩
        cases front with
        | nil => cases spelled
        | cons e front =>
          obtain ⟨rfl, -⟩ := List.cons.inj whole
          exact same (List.cons.inj spelled).1

theorem run_spelled : ∀ cursor : Cursor, ∀ next : Cursor → Option Cursor, (spelled.foldr (fun c rest =>
          Regex.seq (.one fun d => d = c || (true && d.toLower = c.toLower)) rest) .empty).run
        cursor next =
        (afterText spelled cursor.rest).bind fun rest =>
          next { cursor with
            passed := (cursor.rest.take spelled.length).reverse ++ cursor.passed
            rest } := by
  induction spelled with
  | nil => exact fun cursor next => rfl
  | cons c spelled ih =>
    intro cursor next
    obtain ⟨passed, rest, groups⟩ := cursor
    cases rest with
    | nil => rfl
    | cons d rest =>
      rw [afterText]
      show (if (d = c || (true && d.toLower = c.toLower)) = true then _ else none) = _
      rw [Bool.true_and]
      split
      · rw [ih]
        simp
      · rfl

theorem run_literal : (literal true text).run cursor next =
      (afterText text.toList cursor.rest).bind fun rest =>
        next { cursor with
          passed := (cursor.rest.take text.toList.length).reverse ++ cursor.passed
          rest } :=
  run_spelled cursor next

theorem run_choice : (choice alternatives).run cursor next =
      alternatives.findSome? fun regex => regex.run cursor next := by
  induction alternatives with
  | nil =>
    rw [choice, Regex.run]
    cases cursor.rest <;> rfl
  | cons first rest ih =>
    cases rest with
    | nil =>
      rw [choice, List.findSome?_cons, List.findSome?_nil]
      cases first.run cursor next <;> rfl
    | cons second rest =>
      have alternatives : (choice (first :: second :: rest)).run cursor next =
          (first.run cursor next).orElse fun _ => (choice (second :: rest)).run cursor next := rfl
      rw [alternatives, ih]
      conv_rhs => rw [List.findSome?_cons]
      cases first.run cursor next <;> rfl

end QiongQi.Regexes
