import Mathlib.Logic.Relation
import QiongQi.Regexes

/-! What a regular expression matches, as a relation between places of a text. The search by
backtracking ends at a place of that relation, and finds one whenever there is one that leads on.
A text falls into the matches that are found one after another and the characters between them. -/
namespace QiongQi.Regexes
open List

/-- The body may be repeated as long as it takes up characters. -/
def Regex.Matches : Regex → Cursor → Cursor → Prop
  | .empty, start, last => last = start
  | .one accepts, start, last =>
    ∃ c rest, start.rest = c :: rest ∧ accepts c = true ∧
      last = { start with passed := c :: start.passed, rest }
  | .seq first second, start, last =>
    ∃ middle, first.Matches start middle ∧ second.Matches middle last
  | .either first second, start, last => first.Matches start last ∨ second.Matches start last
  | .many _ body, start, last =>
    Relation.ReflTransGen
      (fun one next => body.Matches one next ∧ next.rest.length < one.rest.length) start last
  | .group number body, start, last =>
    ∃ middle, body.Matches start middle ∧ last = { middle with
      groups := (number, start.rest.take (start.rest.length - middle.rest.length)) ::
        middle.groups }
  | .here holds, start, last =>
    holds start.passed.head? start.rest.head? = true ∧ last = start

variable {last start : Cursor} {second body regex : Regex}
variable {taken : List Char} {p : Char → Prop} {text : String}
variable {accepts : Char → Bool}

theorem of_orElse {second : Unit → Option Cursor} (found : first.orElse second = some last) :
    first = some last ∨ second () = some last := by
  cases first with
  | some _ => exact .inl found
  | none => exact .inr found

theorem repeatBody_matches (sound : ∀ {start next last}, body.run start next = some last →
      ∃ middle, body.Matches start middle ∧ next middle = some last)
    (ran : repeatBody greedy (fun cursor next => body.run cursor next) fuel start next_ = some last) :
    ∃ middle, (Regex.many greedy body).Matches start middle ∧ next_ middle = some last := by
  induction fuel generalizing start with
  | zero => exact ⟨start, .refl, ran⟩
  | succ more ih =>
    have again : ∀ {found}, (body.run start fun later =>
        if later.rest.length < start.rest.length then
          repeatBody greedy (fun cursor next => body.run cursor next) more later next_
        else none) = some found →
        found = last →
        ∃ middle, (Regex.many greedy body).Matches start middle ∧ next_ middle = some last := by
      rintro found once rfl
      obtain ⟨later, matched, rest⟩ := sound once
      split at rest
      · rename_i shorter
        obtain ⟨middle, repeated, led⟩ := ih rest
        exact ⟨middle, .head ⟨matched, shorter⟩ repeated, led⟩
      · cases rest
    rw [repeatBody] at ran
    split at ran
    · obtain once | stopped := of_orElse ran
      · exact again once rfl
      · exact ⟨start, .refl, stopped⟩
    · obtain stopped | once := of_orElse ran
      · exact ⟨start, .refl, stopped⟩
      · exact again once rfl

theorem run_matches (regex : Regex) (ran : regex.run start next_ = some last) :
    ∃ middle, regex.Matches start middle ∧ next_ middle = some last := by
  induction regex generalizing start last next_ with
  | empty => exact ⟨start, rfl, ran⟩
  | one accepts =>
    rw [Regex.run] at ran
    split at ran
    · rename_i c rest held
      split at ran
      · rename_i accepted
        exact ⟨_, ⟨c, rest, held, accepted, rfl⟩, ran⟩
      · cases ran
    · cases ran
  | seq first second left right =>
    obtain ⟨middle, one, rest⟩ := left ran
    obtain ⟨finish, two, led⟩ := right rest
    exact ⟨finish, ⟨middle, one, two⟩, led⟩
  | either first second left right =>
    obtain one | two := of_orElse ran
    · obtain ⟨middle, matched, led⟩ := left one
      exact ⟨middle, .inl matched, led⟩
    · obtain ⟨middle, matched, led⟩ := right two
      exact ⟨middle, .inr matched, led⟩
  | many greedy body ih => exact repeatBody_matches ih ran
  | group number body ih =>
    obtain ⟨middle, matched, led⟩ := ih ran
    exact ⟨_, ⟨middle, matched, rfl⟩, led⟩
  | here holds =>
    rw [Regex.run] at ran
    split at ran
    · rename_i holding
      exact ⟨start, ⟨holding, rfl⟩, ran⟩
    · cases ran

theorem orElse_some {first : Option Cursor} {second : Unit → Option Cursor}
    (either : first.isSome ∨ (second ()).isSome) : (first.orElse second).isSome := by
  cases first with
  | some _ => rfl
  | none => simpa using either

theorem repeatBody_some
    (complete : ∀ {start next last}, body.Matches start last → (next last).isSome →
      (body.run start next).isSome) (matched : (Regex.many greedy body).Matches start last)
    (leads : (next_ last).isSome) (fuel : Nat) (enough : start.rest.length ≤ fuel) :
    (repeatBody greedy (fun cursor next => body.run cursor next) fuel start next_).isSome := by
  induction matched using Relation.ReflTransGen.head_induction_on generalizing fuel with
  | refl =>
    cases fuel with
    | zero => exact leads
    | succ more =>
      rw [repeatBody]
      split
      · exact orElse_some (.inr leads)
      · exact orElse_some (.inl leads)
  | @head start middle once _ ih =>
    cases fuel with
    | zero => exact absurd (Nat.lt_of_lt_of_le once.2 enough) (Nat.not_lt_zero _)
    | succ more =>
      have again : (body.run start fun later =>
          if later.rest.length < start.rest.length then
            repeatBody greedy (fun cursor next => body.run cursor next) more later next_
          else none).isSome := by
        apply complete once.1
        rw [if_pos once.2]
        exact ih more (by have := once.2; omega)
      rw [repeatBody]
      split
      · exact orElse_some (.inl again)
      · exact orElse_some (.inr again)

theorem run_some (regex : Regex) (matched : regex.Matches start last) (leads : (next_ last).isSome) :
    (regex.run start next_).isSome := by
  induction regex generalizing start last next_ with
  | empty =>
    subst matched
    exact leads
  | one accepts =>
    obtain ⟨c, rest, held, accepted, rfl⟩ := matched
    rw [Regex.run, held]
    dsimp only
    rw [if_pos accepted]
    exact leads
  | seq first second left right =>
    obtain ⟨middle, one, two⟩ := matched
    exact left one (right two leads)
  | either first second left right =>
    exact orElse_some (matched.imp (fun one => left one leads) fun two => right two leads)
  | many greedy body ih => exact repeatBody_some ih matched leads _ (Nat.le_refl _)
  | group number body ih =>
    obtain ⟨middle, matched, rfl⟩ := matched
    exact ih matched leads
  | here holds =>
    obtain ⟨holding, rfl⟩ := matched
    rw [Regex.run, if_pos holding]
    exact leads

/-- All characters the expression can take up are of a kind. -/
def Regex.Over (p : Char → Prop) : Regex → Prop
  | .empty | .here _ => True
  | .one accepts => ∀ c, accepts c = true → p c
  | .seq first second | .either first second => first.Over p ∧ second.Over p
  | .many _ body | .group _ body => body.Over p

/-- The last place is the first one after the characters. -/
def Cursor.Took (start last : Cursor) (taken : List Char) : Prop :=
  start.rest = taken ++ last.rest ∧ last.passed = taken.reverse ++ start.passed

theorem Cursor.Took.trans (first : start.Took middle front) (second : middle.Took last back) :
    start.Took last (front ++ back) := by
  constructor
  · rw [first.1, second.1, append_assoc]
  · rw [second.2, first.2, reverse_append, append_assoc]

theorem Cursor.Took.length (took : start.Took last taken) :
    start.rest.length = taken.length + last.rest.length := by
  rw [took.1, length_append]

theorem Regex.Over.took (covers : regex.Over p) (matched : regex.Matches start last) :
    ∃ taken, start.Took last taken ∧ ∀ c ∈ taken, p c := by
  induction regex generalizing start last with
  | empty =>
    subst matched
    exact ⟨[], ⟨rfl, rfl⟩, nofun⟩
  | one accepts =>
    obtain ⟨c, rest, held, accepted, rfl⟩ := matched
    exact ⟨[c], ⟨held, rfl⟩, by simpa using covers c accepted⟩
  | seq first second left right =>
    obtain ⟨middle, one, two⟩ := matched
    obtain ⟨front, before, frontOver⟩ := left covers.1 one
    obtain ⟨back, after, backOver⟩ := right covers.2 two
    exact ⟨front ++ back, before.trans after, forall_mem_append.mpr ⟨frontOver, backOver⟩⟩
  | either first second left right => exact matched.elim (left covers.1) (right covers.2)
  | many greedy body ih =>
    induction matched with
    | refl => exact ⟨[], ⟨rfl, rfl⟩, nofun⟩
    | tail _ once ih' =>
      obtain ⟨front, before, frontOver⟩ := ih'
      obtain ⟨back, after, backOver⟩ := ih covers once.1
      exact ⟨front ++ back, before.trans after, forall_mem_append.mpr ⟨frontOver, backOver⟩⟩
  | group number body ih =>
    obtain ⟨middle, matched, rfl⟩ := matched
    obtain ⟨taken, took, all⟩ := ih covers matched
    exact ⟨taken, took, all⟩
  | here holds =>
    obtain ⟨-, rfl⟩ := matched
    exact ⟨[], ⟨rfl, rfl⟩, nofun⟩

theorem over_true : regex.Over fun _ => True := by
  induction regex with
  | empty | here => trivial
  | one => exact fun _ _ => trivial
  | seq _ _ left right | either _ _ left right => exact ⟨left, right⟩
  | many _ _ ih | group _ _ ih => exact ih

theorem matches_took (matched : regex.Matches start last) : ∃ taken, start.Took last taken :=
  let ⟨taken, took, _⟩ := over_true.took matched
  ⟨taken, took⟩

/-- Every match takes up a character. -/
def Regex.Filled (regex : Regex) : Prop :=
  ∀ start last, regex.Matches start last → last.rest.length < start.rest.length

theorem filled_one (accepts : Char → Bool) : (Regex.one accepts).Filled := by
  rintro start last ⟨c, rest, held, -, rfl⟩
  rw [held]
  exact Nat.lt_succ_self _

theorem Regex.Filled.left (filled : first.Filled) (second : Regex) :
    (Regex.seq first second).Filled := by
  rintro start last ⟨middle, one, two⟩
  obtain ⟨taken, took⟩ := matches_took two
  have shorter := filled start middle one
  have length := took.length
  omega

theorem Regex.Filled.right (filled : second.Filled) (first : Regex) :
    (Regex.seq first second).Filled := by
  rintro start last ⟨middle, one, two⟩
  obtain ⟨taken, took⟩ := matches_took one
  have shorter := filled middle last two
  have length := took.length
  omega

theorem Regex.Filled.either (left : first.Filled) (right : second.Filled) :
    (Regex.either first second).Filled :=
  fun start last matched => matched.elim (left start last) (right start last)

theorem Regex.Filled.group (filled : body.Filled) (number : Nat) :
    (Regex.group number body).Filled := by
  rintro start last ⟨middle, matched, rfl⟩
  exact filled start middle matched

theorem filled_atLeastOne (filled : body.Filled) : (atLeastOne body).Filled :=
  filled.left _

theorem filled_literal (some_ : text.toList ≠ []) (anyCase : Bool) :
    (literal anyCase text).Filled := by
  obtain ⟨c, rest, spelled⟩ := exists_cons_of_ne_nil some_
  rw [literal, spelled, foldr_cons]
  exact (filled_one _).left _

theorem filled_choice (filled : ∀ regex ∈ alternatives, regex.Filled) :
    (choice alternatives).Filled := by
  induction alternatives with
  | nil => exact filled_one _
  | cons first rest ih =>
    cases rest with
    | nil => exact filled first mem_cons_self
    | cons second rest =>
      exact (filled first mem_cons_self).either (ih fun regex held => filled regex (.tail _ held))

/-- As it took, with the groups as they were. -/
def Cursor.Moved (start last : Cursor) (taken : List Char) : Prop :=
  start.Took last taken ∧ last.groups = start.groups

theorem matches_one (matched : (Regex.one accepts).Matches start last) :
    ∃ c, accepts c = true ∧ start.Moved last [c] := by
  obtain ⟨c, rest, held, accepted, rfl⟩ := matched
  exact ⟨c, accepted, ⟨held, rfl⟩, rfl⟩

theorem matches_many_one (matched : (Regex.many greedy (.one accepts)).Matches start last) :
    ∃ taken, (∀ c ∈ taken, accepts c = true) ∧ start.Moved last taken := by
  induction matched with
  | refl => exact ⟨[], nofun, ⟨rfl, rfl⟩, rfl⟩
  | tail _ once ih =>
    obtain ⟨taken, all, took, groups⟩ := ih
    obtain ⟨c, accepted, one, same⟩ := matches_one once.1
    refine ⟨taken ++ [c], ?_, took.trans one, same.trans groups⟩
    exact forall_mem_append.mpr ⟨all, by simpa using accepted⟩

theorem many_one_matches (greedy : Bool) (all : ∀ c ∈ taken, accepts c = true)
    (passed rest : List Char) (groups : List (Nat × List Char)) :
    (Regex.many greedy (.one accepts)).Matches ⟨passed, taken ++ rest, groups⟩
      ⟨taken.reverse ++ passed, rest, groups⟩ := by
  induction taken generalizing passed with
  | nil => exact .refl
  | cons c taken ih =>
    rw [reverse_cons, append_assoc]
    refine .head ⟨⟨c, taken ++ rest, rfl, all c mem_cons_self, rfl⟩, ?_⟩ ?_
    · exact Nat.lt_succ_self _
    · exact ih (fun d held => all d (mem_cons_of_mem _ held)) (c :: passed)

theorem matches_atLeastOne (matched : (atLeastOne (.one accepts)).Matches start last) :
    ∃ taken, taken ≠ [] ∧ (∀ c ∈ taken, accepts c = true) ∧ start.Moved last taken := by
  obtain ⟨middle, first, more⟩ := matched
  obtain ⟨c, accepted, one, same⟩ := matches_one first
  obtain ⟨taken, all, took, groups⟩ := matches_many_one more
  exact ⟨c :: taken, nofun, forall_mem_cons.mpr ⟨accepted, all⟩, one.trans took, groups.trans same⟩

theorem atLeastOne_matches (some_ : taken ≠ []) (all : ∀ c ∈ taken, accepts c = true)
    (passed rest : List Char) (groups : List (Nat × List Char)) :
    (atLeastOne (.one accepts)).Matches ⟨passed, taken ++ rest, groups⟩
      ⟨taken.reverse ++ passed, rest, groups⟩ := by
  obtain ⟨c, more, rfl⟩ := exists_cons_of_ne_nil some_
  obtain ⟨accepted, rest_⟩ := forall_mem_cons.mp all
  refine ⟨⟨c :: passed, more ++ rest, groups⟩, ⟨c, _, rfl, accepted, rfl⟩, ?_⟩
  rw [reverse_cons, append_assoc]
  exact many_one_matches true rest_ (c :: passed) rest groups

theorem matches_literal :
    (literal false text).Matches start last ↔ start.Moved last text.toList := by
  rw [literal]
  generalize text.toList = spelled
  induction spelled generalizing start with
  | nil =>
    constructor
    · rintro rfl
      exact ⟨⟨rfl, rfl⟩, rfl⟩
    · rintro ⟨⟨rest, passed⟩, groups⟩
      obtain ⟨_, _, _⟩ := start
      obtain ⟨_, _, _⟩ := last
      cases rest
      cases passed
      cases groups
      rfl
  | cons c spelled ih =>
    constructor
    · rintro ⟨middle, first, more⟩
      obtain ⟨d, accepted, one, same⟩ := matches_one first
      have same_ : d = c := by simpa using accepted
      subst same_
      obtain ⟨took, groups⟩ := ih.mp more
      exact ⟨one.trans took, groups.trans same⟩
    · rintro ⟨⟨rest, passed⟩, groups⟩
      refine ⟨⟨c :: start.passed, spelled ++ last.rest, start.groups⟩,
        ⟨c, _, rest, by simp, rfl⟩, ih.mpr ⟨⟨rfl, ?_⟩, groups⟩⟩
      rw [passed, reverse_cons, append_assoc]
      rfl

theorem matches_group (matched : (Regex.group number body).Matches start last) :
    ∃ middle taken, body.Matches start middle ∧ start.Took middle taken ∧
      start.Took last taken ∧ last.groups = (number, taken) :: middle.groups := by
  obtain ⟨middle, matched, rfl⟩ := matched
  obtain ⟨taken, took⟩ := matches_took matched
  refine ⟨middle, taken, matched, took, took, ?_⟩
  rw [took.1, length_append, Nat.add_sub_cancel, take_left]

theorem literal_matches (text : String) (passed rest : List Char) (groups : List (Nat × List Char)) :
    (literal false text).Matches ⟨passed, text.toList ++ rest, groups⟩
      ⟨text.toList.reverse ++ passed, rest, groups⟩ :=
  matches_literal.mpr ⟨⟨rfl, rfl⟩, rfl⟩

theorem over_literal
    (all : ∀ c ∈ text.toList, ∀ d, (d = c || (anyCase && d.toLower = c.toLower)) = true → p d) :
    (literal anyCase text).Over p := by
  rw [literal]
  generalize text.toList = spelled at all
  induction spelled with
  | nil => trivial
  | cons c spelled ih =>
    exact ⟨all c mem_cons_self, ih fun d held => all d (mem_cons_of_mem _ held)⟩

/-- A repetition that ends the expression goes on as long as it can. -/
theorem run_many_one : (Regex.many true (.one accepts)).run start some = some { start with
        passed := (start.rest.takeWhile accepts).reverse ++ start.passed
        rest := start.rest.dropWhile accepts } := by
  obtain ⟨passed, rest, groups⟩ := start
  rw [Regex.run]
  induction rest generalizing passed with
  | nil => rfl
  | cons c rest ih =>
    rw [length_cons, repeatBody]
    rw [if_pos rfl, Regex.run]
    dsimp only
    by_cases accepted : accepts c = true
    · rw [if_pos accepted, if_pos (by rw [length_cons]; exact Nat.lt_succ_self _), ih,
        takeWhile_cons_of_pos accepted, dropWhile_cons_of_pos accepted]
      simp
    · rw [if_neg accepted, takeWhile_cons_of_neg accepted, dropWhile_cons_of_neg accepted]
      rfl

/-- At the end of a match no word goes on. -/
def Cursor.AtWordEnd (last : Cursor) : Prop :=
  (∀ c ∈ last.passed.head?, isWordChar c = false) ∨ ∀ c ∈ last.rest.head?, isWordChar c = false

def Regex.EndsWord (regex : Regex) : Prop :=
  ∀ start last, regex.run start some = some last → last.AtWordEnd

theorem Regex.EndsWord.after (ends : second.EndsWord) (first : Regex) :
    (Regex.seq first second).EndsWord := by
  intro start last ran
  obtain ⟨middle, -, rest⟩ := run_matches first ran
  exact ends middle last rest

theorem endsWord_boundary : wordBoundary.EndsWord := by
  intro start last ran
  obtain ⟨middle, ⟨apart, rfl⟩, led⟩ := run_matches _ ran
  cases led
  cases before : last.passed.head? with
  | none => exact .inl (by simp [before])
  | some c =>
    cases after : last.rest.head? with
    | none => exact .inr (by simp [after])
    | some d =>
      rw [before, after] at apart
      rw [Cursor.AtWordEnd, before, after]
      cases word : isWordChar c with
      | false => exact .inl (by simpa using word)
      | true =>
        have other : isWordChar d = false := by simpa [word] using apart
        exact .inr (by simpa using other)

theorem endsWord_literal (front : List Char) (spelled : text.toList = front ++ [c])
    (outside : isWordChar c = false) : (literal false text).EndsWord := by
  intro start last ran
  obtain ⟨_, matched, led⟩ := run_matches _ ran
  cases led
  obtain ⟨took, -⟩ := matches_literal.mp matched
  refine .inl fun d held => ?_
  rw [took.2, spelled, reverse_append] at held
  cases held
  exact outside

theorem endsWord_many (words : ∀ c, isWordChar c = true → accepts c = true) :
    (Regex.many true (.one accepts)).EndsWord := by
  intro start last ran
  rw [run_many_one] at ran
  cases ran
  refine .inr fun c held => ?_
  have refused := head?_dropWhile_not accepts start.rest
  have held : (start.rest.dropWhile accepts).head? = some c := held
  rw [held] at refused
  dsimp only at refused
  rw [← Bool.not_eq_true]
  intro word
  rw [words c word] at refused
  cases refused

theorem isAlpha_of_toLower {c : Char} (alpha : c.toLower.isAlpha = true) : c.isAlpha = true := by
  unfold Char.toLower at alpha
  split at alpha
  · rename_i upper
    exact Bool.or_eq_true_iff.mpr (.inl (decide_eq_true upper))
  · exact alpha

theorem beginsWith_letter (letter : text.toList.head?.any fun c => c.toLower.isAlpha) :
    (literal true text).BeginsWith isWordChar := by
  obtain ⟨first, head, alpha⟩ := (Option.any_eq_true ..).mp letter
  obtain ⟨rest, spelled⟩ := head?_eq_some_iff.mp head
  refine beginsWith_literal spelled fun c same => ?_
  have letter : c.isAlpha = true := by
    obtain rfl | same := same
    · exact isAlpha_of_toLower alpha
    · exact isAlpha_of_toLower (same ▸ alpha)
  rw [isWordChar, Char.isAlphanum, letter]
  rfl

theorem beginsWith_choice {p : Char → Bool} (begins : ∀ regex ∈ alternatives, regex.BeginsWith p) :
    (choice alternatives).BeginsWith p := by
  intro cursor next apart
  rw [run_choice, findSome?_eq_none_iff]
  exact fun regex held => begins regex held cursor next apart

theorem boundary_before (begins : second.BeginsWith isWordChar)
    (ran : (Regex.seq wordBoundary second).run start next_ = some last) :
    ∀ c ∈ start.passed.head?, isWordChar c = false := by
  intro c held
  rw [Regex.run] at ran
  obtain ⟨middle, ⟨apart, same⟩, rest⟩ := run_matches wordBoundary ran
  subst same
  have word : ∃ d ∈ middle.rest.head?, isWordChar d = true := by
    by_contra none_
    push Not at none_
    rw [begins middle next_ fun d head => by simpa using none_ d head] at rest
    cases rest
  obtain ⟨d, head, word⟩ := word
  rw [held, head] at apart
  simpa [word] using apart

theorem over_choice (covers : ∀ regex ∈ alternatives, regex.Over p) :
    (choice alternatives).Over p := by
  induction alternatives with
  | nil => exact fun _ => nofun
  | cons first rest ih =>
    cases rest with
    | nil => exact covers first mem_cons_self
    | cons second rest =>
      exact ⟨covers first mem_cons_self, ih fun regex held => covers regex (.tail _ held)⟩

theorem over_plain (plain : '_' ∉ text.toList) (anyCase : Bool) :
    (literal anyCase text).Over fun c => c ≠ '_' := by
  refine over_literal fun c held d alike => ?_
  rintro rfl
  simp only [Bool.or_eq_true, decide_eq_true_eq, Bool.and_eq_true] at alike
  obtain rfl | ⟨-, same⟩ := alike
  · exact plain held
  · have same : c = '_' := eq_of_toLower same.symm (.inl (by decide))
    exact plain (same ▸ held)

inductive Piece where
  | kept (c : Char)
  | found (text : List Char) (groups : List (Nat × List Char))

/-- The matches from the left, each after the one before; the count is of characters of the last
match that are still to be passed. After an empty match one character is passed. -/
def Regex.pieces (regex : Regex) : Nat → (passed rest : List Char) → List Piece
  | _, passed, [] =>
    ((regex.run ⟨passed, [], []⟩ some).map fun last => Piece.found [] last.groups).toList
  | skipped + 1, passed, c :: rest => regex.pieces skipped (c :: passed) rest
  | 0, passed, c :: rest =>
    match regex.run ⟨passed, c :: rest, []⟩ some with
    | none => .kept c :: regex.pieces 0 (c :: passed) rest
    | some last =>
      if last.rest.length < rest.length + 1 then
        .found ((c :: rest).take (rest.length + 1 - last.rest.length)) last.groups ::
          regex.pieces (rest.length - last.rest.length) (c :: passed) rest
      else .found [] last.groups :: .kept c :: regex.pieces 0 (c :: passed) rest

def Piece.write (by_ : List Char → List (Nat × List Char) → List Char) : Piece → List Char
  | .kept c => [c]
  | .found text groups => by_ text groups

/-- Replaces every match by what its text and its groups give. -/
def Regex.replaceEach (regex : Regex) (by_ : List Char → List (Nat × List Char) → List Char)
    (text : List Char) : List Char :=
  (regex.pieces 0 [] text).flatMap (Piece.write by_)

theorem pieces_skip : ∀ passed rest, regex.pieces taken.length passed (taken ++ rest) =
      regex.pieces 0 (taken.reverse ++ passed) rest := by
  induction taken with
  | nil => exact fun passed rest => rfl
  | cons c taken ih =>
    intro passed rest
    rw [length_cons, cons_append, Regex.pieces, ih, reverse_cons, append_assoc]
    rfl

/-- Where every match takes up a character, a text is read character by character or match by
match. -/
theorem Regex.Filled.pieces_induction (filled : regex.Filled)
    {motive : List Char → List Char → List Piece → Prop} (done : ∀ passed, motive passed [] [])
    (kept : ∀ passed c rest, regex.run ⟨passed, c :: rest, []⟩ some = none →
      motive (c :: passed) rest (regex.pieces 0 (c :: passed) rest) →
      motive passed (c :: rest) (.kept c :: regex.pieces 0 (c :: passed) rest))
    (found : ∀ passed taken rest groups,
      regex.run ⟨passed, taken ++ rest, []⟩ some = some ⟨taken.reverse ++ passed, rest, groups⟩ →
      motive (taken.reverse ++ passed) rest (regex.pieces 0 (taken.reverse ++ passed) rest) →
      motive passed (taken ++ rest)
        (.found taken groups :: regex.pieces 0 (taken.reverse ++ passed) rest))
    (passed rest : List Char) : motive passed rest (regex.pieces 0 passed rest) := by
  induction size : rest.length using Nat.strongRecOn generalizing passed rest with
  | _ size ih =>
    subst size
    cases rest with
    | nil =>
      have none_ : regex.run ⟨passed, [], []⟩ some = none := by
        by_contra some_
        obtain ⟨last, ran⟩ := Option.ne_none_iff_exists'.mp some_
        obtain ⟨middle, matched, -⟩ := run_matches regex ran
        exact Nat.not_lt_zero _ (filled _ _ matched)
      rw [Regex.pieces, none_]
      exact done passed
    | cons c rest =>
      rw [Regex.pieces]
      cases ran : regex.run ⟨passed, c :: rest, []⟩ some with
      | none => exact kept passed c rest ran (ih _ (Nat.lt_succ_self _) _ _ rfl)
      | some last =>
        obtain ⟨middle, matched, led⟩ := run_matches regex ran
        cases led
        have shorter := filled _ _ matched
        obtain ⟨taken, whole, before⟩ := matches_took matched
        obtain ⟨after, left, groups⟩ := last
        dsimp only at whole before shorter ⊢
        rw [length_cons] at shorter
        have size := congrArg List.length whole
        rw [length_append, length_cons] at size
        rw [if_pos shorter]
        cases taken with
        | nil => simp at size; omega
        | cons d taken =>
          obtain ⟨rfl, rest_⟩ := List.cons.inj whole
          have rest_ : rest = taken ++ left := rest_
          rw [length_cons] at size
          have front : rest.length + 1 - left.length = (c :: taken).length := by
            rw [length_cons]
            omega
          have skip : rest.length - left.length = taken.length := by omega
          subst before
          rw [front, skip, whole, take_left, rest_, pieces_skip]
          have later := ih left.length (by rw [length_cons]; omega)
            ((c :: taken).reverse ++ passed) left rfl
          have step := found passed (c :: taken) left groups (by rw [← whole]; exact ran) later
          rw [reverse_cons, append_assoc] at step
          exact step

end QiongQi.Regexes
