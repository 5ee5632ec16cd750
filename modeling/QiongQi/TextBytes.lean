import Mathlib.Algebra.BigOperators.Group.List.Basic
import Mathlib.Algebra.Ring.Nat
import Mathlib.Data.List.Induction

/-! Texts by their length in UTF-8: what is left of one from a byte on, and its lines. A newline
at the end of a text opens no line. -/
namespace QiongQi.TextBytes
open List hiding count

def byteLength (text : List Char) : Nat := (text.map Char.utf8Size).sum

@[simp] theorem byteLength_nil : byteLength [] = 0 := rfl

@[simp] theorem byteLength_cons (c : Char) (rest : List Char) :
    byteLength (c :: rest) = c.utf8Size + byteLength rest := by
  simp [byteLength]

@[simp] theorem byteLength_append (front back : List Char) :
    byteLength (front ++ back) = byteLength front + byteLength back := by
  simp [byteLength]

/-- The text from a byte on; a character that the byte is inside of is left out. -/
def dropBytes : Nat → List Char → List Char
  | 0, text => text
  | _, [] => []
  | count + 1, c :: rest => dropBytes (count + 1 - c.utf8Size) rest

@[simp] theorem dropBytes_zero (text : List Char) : dropBytes 0 text = text := by
  cases text <;> rfl

@[simp] theorem dropBytes_nil (count : Nat) : dropBytes count [] = [] := by
  cases count <;> rfl

theorem dropBytes_cons (positive : 0 < count) :
    dropBytes count (c :: rest) = dropBytes (count - c.utf8Size) rest := by
  obtain ⟨_, rfl⟩ := Nat.exists_eq_succ_of_ne_zero (Nat.ne_of_gt positive)
  rfl

theorem dropBytes_append (back : List Char) : ∀ {count : Nat}, byteLength front ≤ count →
      dropBytes count (front ++ back) = dropBytes (count - byteLength front) back := by
  induction front with
  | nil => exact fun _ => rfl
  | cons c rest ih =>
    intro count inside
    have size := c.utf8Size_pos
    rw [byteLength_cons] at inside
    rw [cons_append, dropBytes_cons (by omega), ih (by omega), byteLength_cons]
    congr 1
    omega

theorem dropBytes_last (front back : List Char) (c : Char) (beyond : byteLength front < count)
    (within : count ≤ byteLength front + c.utf8Size) :
    dropBytes count (front ++ c :: back) = back := by
  rw [dropBytes_append _ (Nat.le_of_lt beyond), dropBytes_cons (by omega)]
  have spent : count - byteLength front - c.utf8Size = 0 := by omega
  rw [spent, dropBytes_zero]

variable {text : List Char}

/-- What is left out ends with the character that the cut is in, or ends at. -/
theorem dropBytes_split :
    ∀ {count : Nat}, count ≤ byteLength text → ∃ front, text = front ++ dropBytes count text ∧
      count ≤ byteLength front ∧ ∀ c ∈ front.getLast?, byteLength front < count + c.utf8Size := by
  induction text with
  | nil =>
    intro count inside
    exact ⟨[], by simp, inside, by simp⟩
  | cons c rest ih =>
    intro count inside
    rcases Nat.eq_zero_or_pos count with rfl | positive
    · exact ⟨[], by simp, Nat.zero_le _, by simp⟩
    · rw [dropBytes_cons positive]
      rw [byteLength_cons] at inside
      by_cases whole : count ≤ c.utf8Size
      · rw [Nat.sub_eq_zero_of_le whole, dropBytes_zero]
        refine ⟨[c], rfl, by simpa using whole, fun final found => ?_⟩
        cases found
        simpa using positive
      · obtain ⟨front, same, enough, last⟩ :=
          ih (show count - c.utf8Size ≤ byteLength rest by omega)
        refine ⟨c :: front, by rw [cons_append, ← same], by rw [byteLength_cons]; omega, ?_⟩
        intro final found
        cases front with
        | nil =>
          rw [byteLength_nil] at enough
          omega
        | cons next others =>
          have below := last final found
          rw [byteLength_cons]
          omega

def lines : List Char → List (List Char)
  | [] => []
  | c :: rest =>
    if c = '\n' then [] :: lines rest
    else
      match lines rest with
      | [] => [[c]]
      | first :: others => (c :: first) :: others

/-- The text ends inside a line. -/
def hasOpenLine (text : List Char) : Bool := !text.isEmpty && text.getLast? ≠ some '\n'

@[simp] theorem lines_nil : lines [] = [] := rfl

@[simp] theorem lines_newline (rest : List Char) : lines ('\n' :: rest) = [] :: lines rest := rfl

/-- A character that is no newline comes first in the first line. -/
theorem lines_cons (other : c ≠ '\n') :
    lines (c :: rest) = (c :: (lines rest).headD []) :: (lines rest).tail := by
  conv => lhs; unfold lines
  rw [if_neg other]
  cases lines rest <;> rfl

theorem lines_ne_nil (some_ : text ≠ []) : lines text ≠ [] := by
  cases text with
  | nil => exact absurd rfl some_
  | cons c rest =>
    by_cases newline : c = '\n'
    · rw [newline]
      exact cons_ne_nil _ _
    · rw [lines_cons newline]
      exact cons_ne_nil _ _

theorem lines_append : lines (front ++ '\n' :: back) = lines (front ++ ['\n']) ++ lines back := by
  induction front with
  | nil => rfl
  | cons c rest ih =>
    rw [cons_append, cons_append]
    by_cases newline : c = '\n'
    · subst newline
      rw [lines_newline, lines_newline, ih, cons_append]
    · rw [lines_cons newline, lines_cons newline, ih]
      cases shown : lines (rest ++ ['\n']) with
      | nil => exact absurd shown (lines_ne_nil (by simp))
      | cons first others => rfl

theorem lines_of_line (inside : '\n' ∉ line) (some_ : line ≠ []) : lines line = [line] := by
  induction line with
  | nil => exact absurd rfl some_
  | cons c rest ih =>
    have other : c ≠ '\n' := fun same => inside (same ▸ mem_cons_self)
    rw [lines_cons other]
    cases rest with
    | nil => rfl
    | cons next others =>
      rw [ih (fun found => inside (mem_cons_of_mem _ found)) (cons_ne_nil _ _)]
      rfl

theorem lines_of_ended (inside : '\n' ∉ line) : lines (line ++ ['\n']) = [line] := by
  induction line with
  | nil => rfl
  | cons c rest ih =>
    have other : c ≠ '\n' := fun same => inside (same ▸ mem_cons_self)
    rw [cons_append, lines_cons other, ih fun found => inside (mem_cons_of_mem _ found)]
    rfl

/-- Nothing, or complete lines. -/
def Ended (text : List Char) : Prop := text = [] ∨ text.getLast? = some '\n'

theorem lines_ended (ended : Ended front) : lines (front ++ back) = lines front ++ lines back := by
  rcases ended with rfl | last
  · rfl
  · obtain ⟨before, rfl⟩ := List.getLast?_eq_some_iff.mp last
    rw [append_assoc]
    exact lines_append

theorem split_line (text : List Char) : ∃ front line, text = front ++ line ∧ Ended front ∧
    '\n' ∉ line ∧ (line = [] ↔ Ended text) := by
  induction text using List.reverseRecOn with
  | nil => exact ⟨[], [], rfl, .inl rfl, by simp, by simp [Ended]⟩
  | append_singleton text c ih =>
    by_cases newline : c = '\n'
    · subst newline
      exact ⟨text ++ ['\n'], [], by simp, .inr (by simp), by simp, by simp [Ended]⟩
    · obtain ⟨front, line, rfl, ended, inside, -⟩ := ih
      refine ⟨front, line ++ [c], by simp, ended, ?_, ?_⟩
      · simp only [mem_append, mem_singleton, not_or]
        exact ⟨inside, fun same => newline same.symm⟩
      · simp [Ended, newline]

/-- The bytes of lines, with a newline behind each. -/
def width (texts : List (List Char)) : Nat := (texts.map fun line => byteLength line + 1).sum

@[simp] theorem width_nil : width [] = 0 := rfl

@[simp] theorem width_cons (line : List Char) (rest : List (List Char)) :
    width (line :: rest) = byteLength line + 1 + width rest := by
  simp [width]

@[simp] theorem width_reverse (texts : List (List Char)) : width texts.reverse = width texts := by
  simp [width, sum_reverse]

theorem hasOpenLine_cons :
    hasOpenLine (c :: rest) = if rest = [] then decide (c ≠ '\n') else hasOpenLine rest := by
  cases rest with
  | nil => simp [hasOpenLine]
  | cons next others => simp [hasOpenLine, List.getLast?_cons_cons]

theorem width_lines : width (lines text) = byteLength text + if hasOpenLine text then 1 else 0 := by
  induction text with
  | nil => rfl
  | cons c rest ih =>
    rw [hasOpenLine_cons, byteLength_cons]
    by_cases newline : c = '\n'
    · subst newline
      have one : '\n'.utf8Size = 1 := rfl
      rw [lines_newline, width_cons, ih, one]
      cases rest with
      | nil => rfl
      | cons next others => simp; omega
    · rw [lines_cons newline]
      cases rest with
      | nil => simp [newline]
      | cons next others =>
        cases shown : lines (next :: others) with
        | nil => exact absurd shown (lines_ne_nil (cons_ne_nil _ _))
        | cons first more =>
          rw [shown] at ih
          simp only [width_cons, byteLength_cons, headD_cons, tail_cons, cons_ne_nil, if_false] at ih ⊢
          omega

theorem length_lines :
    (lines text).length = text.count '\n' + if hasOpenLine text then 1 else 0 := by
  induction text with
  | nil => rfl
  | cons c rest ih =>
    rw [hasOpenLine_cons]
    by_cases newline : c = '\n'
    · subst newline
      cases rest with
      | nil => rfl
      | cons next others => simp; omega
    · rw [count_cons_of_ne newline]
      rw [lines_cons newline]
      cases rest with
      | nil => simp [newline]
      | cons next others =>
        cases shown : lines (next :: others) with
        | nil => exact absurd shown (lines_ne_nil (cons_ne_nil _ _))
        | cons first more =>
          rw [shown] at ih
          simpa using ih

/-- `lines.join('\n')`. -/
def joinLines (texts : List (List Char)) : List Char := ['\n'].intercalate texts

@[simp] theorem joinLines_nil : joinLines [] = [] := rfl

@[simp] theorem joinLines_singleton (line : List Char) : joinLines [line] = line := by
  simp [joinLines, List.intercalate]

theorem joinLines_cons (some_ : rest ≠ []) :
    joinLines (line :: rest) = line ++ '\n' :: joinLines rest := by
  cases rest with
  | nil => exact absurd rfl some_
  | cons next others => simp [joinLines, List.intercalate]

/-- Joined, the lines are the text without a newline at its end. -/
theorem joinLines_lines (text : List Char) :
    text = joinLines (lines text) ++ if text.isEmpty || hasOpenLine text then [] else ['\n'] := by
  induction text with
  | nil => rfl
  | cons c rest ih =>
    rw [hasOpenLine_cons]
    cases rest with
    | nil =>
      by_cases newline : c = '\n'
      · subst newline
        rfl
      · simp [lines, newline]
    | cons next others =>
      have more := lines_ne_nil (cons_ne_nil next others)
      simp only [isEmpty_cons, Bool.false_or, cons_ne_nil, if_false] at ih ⊢
      by_cases newline : c = '\n'
      · subst newline
        rw [lines_newline, joinLines_cons more, nil_append, cons_append, ← ih]
      · conv => lhs; rw [ih]
        rw [lines_cons newline, ← cons_append]
        congr 1
        cases shown : lines (next :: others) with
        | nil => exact absurd shown more
        | cons first others => cases others <;> simp [joinLines, List.intercalate]

theorem joinLines_open (inside : hasOpenLine text = true) : joinLines (lines text) = text := by
  have whole := joinLines_lines text
  rw [inside, Bool.or_true, if_pos rfl, append_nil] at whole
  exact whole.symm

theorem joinLines_ended (last : text.getLast? = some '\n') : joinLines (lines text) ≠ text := by
  have whole := joinLines_lines text
  have closed : (text.isEmpty || hasOpenLine text) = false := by
    cases text with
    | nil => cases last
    | cons c rest => simp [hasOpenLine, last]
  rw [closed] at whole
  intro same
  rw [same] at whole
  have longer := congrArg List.length whole
  simp at longer

end QiongQi.TextBytes
