import Mathlib.Data.List.Basic

/-! Texts as lines with their breaks. A break is a newline, with the carriage return right
before it if there is one; the last line has none. A text is its lines and breaks again,
and what two texts have between their newlines is determined by the texts. -/
namespace QiongQi.TextLines
open List hiding after

/-- A line with the break that ends it. -/
abbrev BrokenLine : Type := List Char × List Char

/-- A text cut at each `\r?\n`: every line with its break, the last one without. -/
def splitBreaks : List Char → List BrokenLine
  | [] => [([], [])]
  | '\n' :: rest => ([], ['\n']) :: splitBreaks rest
  | '\r' :: '\n' :: rest => ([], ['\r', '\n']) :: splitBreaks rest
  | c :: rest =>
    match splitBreaks rest with
    | (line, ending) :: others => (c :: line, ending) :: others
    | [] => [([c], [])]

example : splitBreaks [] = [([], [])] := by rw [splitBreaks]

/-- `text.split(/\r?\n/)`. -/
def splitLines (text : List Char) : List (List Char) := (splitBreaks text).map Prod.fst

/-- `lines.join(ending)`. -/
def joinLines (ending : List Char) (lines : List (List Char)) : List Char :=
  ending.intercalate lines

/-- `text.includes('\r\n')`. -/
def hasReturnBreak : List Char → Bool
  | '\r' :: '\n' :: _ => true
  | _ :: rest => hasReturnBreak rest
  | [] => false

def joinBreaks (lines : List BrokenLine) : List Char :=
  lines.flatMap fun line => line.1 ++ line.2

/-- What stands between two newlines: the line, and the return of its break. -/
def segment (line : BrokenLine) : List Char := line.1 ++ line.2.dropLast

/-- No line holds a newline, and all of them but the last one have a break. -/
inductive Loose : List BrokenLine → Prop where
  | last {line : List Char} (clean : '\n' ∉ line) : Loose [(line, [])]
  | plain {line : List Char} {rest : List BrokenLine} (clean : '\n' ∉ line) (others : Loose rest) :
      Loose ((line, ['\n']) :: rest)
  | returned {line : List Char} {rest : List BrokenLine} (clean : '\n' ∉ line)
      (others : Loose rest) : Loose ((line, ['\r', '\n']) :: rest)

/-- Moreover a return before a newline belongs to the break. -/
inductive Broken : List BrokenLine → Prop where
  | last {line : List Char} (clean : '\n' ∉ line) : Broken [(line, [])]
  | plain {line : List Char} {rest : List BrokenLine} (clean : '\n' ∉ line)
      (bare : line.getLast? ≠ some '\r') (others : Broken rest) :
      Broken ((line, ['\n']) :: rest)
  | returned {line : List Char} {rest : List BrokenLine} (clean : '\n' ∉ line)
      (others : Broken rest) : Broken ((line, ['\r', '\n']) :: rest)

variable {lines others : List BrokenLine} {line : BrokenLine}

theorem Broken.loose (broken : Broken lines) : Loose lines := by
  induction broken with
  | last clean => exact .last clean
  | plain clean _ _ ih => exact .plain clean ih
  | returned clean _ ih => exact .returned clean ih

theorem splitBreaks_cons {rest line ending : List Char} (unbroken : c ≠ '\n')
    (apart : c = '\r' → rest.head? ≠ some '\n')
    (split : splitBreaks rest = (line, ending) :: others) :
    splitBreaks (c :: rest) = (c :: line, ending) :: others := by
  rw [splitBreaks.eq_4 c rest unbroken fun later same starts =>
    apart same (by rw [starts]; rfl), split]

theorem splitBreaks_ne_nil (text : List Char) : splitBreaks text ≠ [] := by
  fun_cases splitBreaks text with
  | _ => simp

theorem joinBreaks_splitBreaks (text : List Char) : joinBreaks (splitBreaks text) = text := by
  induction text using splitBreaks.induct with
  | case1 => rfl
  | case2 rest ih | case3 rest ih => simpa [splitBreaks, joinBreaks] using ih
  | case4 c rest unbroken apart line ending others split ih =>
    rw [splitBreaks.eq_4 c rest unbroken apart, split]
    rw [split] at ih
    exact congrArg (c :: ·) ih
  | case5 c rest unbroken apart split ih => exact absurd split (splitBreaks_ne_nil rest)

theorem splitBreaks_broken (text : List Char) : Broken (splitBreaks text) := by
  induction text using splitBreaks.induct with
  | case1 => exact .last not_mem_nil
  | case2 rest ih => exact .plain not_mem_nil nofun ih
  | case3 rest ih => exact .returned not_mem_nil ih
  | case4 c rest unbroken apart line ending others split ih =>
    rw [splitBreaks.eq_4 c rest unbroken apart, split]
    have whole := joinBreaks_splitBreaks rest
    rw [split] at ih whole
    have clean : ∀ {line : List Char}, '\n' ∉ line → '\n' ∉ c :: line := fun clean found =>
      (mem_cons.mp found).elim (fun same => unbroken same.symm) clean
    cases ih with
    | last free => exact .last (clean free)
    | returned free later => exact .returned (clean free) later
    | plain free bare later =>
      refine .plain (clean free) ?_ later
      cases line with
      | nil =>
        intro last
        exact apart _ (Option.some.inj last) whole.symm
      | cons first more => rwa [getLast?_cons_cons]
  | case5 c rest unbroken apart split ih => exact absurd split (splitBreaks_ne_nil rest)

/-- Characters without a newline go before the first line of what follows, unless they end
in a return and a newline follows. -/
theorem splitBreaks_append {line ending : List Char} : ∀ {front tail : List Char}, '\n' ∉ front →
      (front.getLast? = some '\r' → tail.head? ≠ some '\n') →
      splitBreaks tail = (line, ending) :: others →
      splitBreaks (front ++ tail) = (front ++ line, ending) :: others := by
  intro front
  induction front with
  | nil => exact fun _ _ split => split
  | cons c rest ih =>
    intro tail clean apart split
    obtain ⟨unbroken, free⟩ := not_or.mp (mem_cons.not.mp clean)
    cases rest with
    | nil =>
      refine splitBreaks_cons (Ne.symm unbroken) (fun same => apart ?_) split
      rw [same]
      rfl
    | cons next more =>
      rw [getLast?_cons_cons] at apart
      refine splitBreaks_cons (Ne.symm unbroken) (fun _ starts => ?_) (ih free apart split)
      exact free (mem_cons.mpr (.inl (Option.some.inj starts).symm))

/-- Well-formed lines are cut apart where they were joined. -/
theorem splitBreaks_joinBreaks (broken : Broken lines) :
    splitBreaks (joinBreaks lines) = lines := by
  induction broken with
  | @last line clean =>
    have split : splitBreaks (line ++ []) = (line ++ [], []) :: [] :=
      splitBreaks_append clean (fun _ starts => by cases starts) rfl
    simpa [joinBreaks] using split
  | @plain line rest clean bare others ih =>
    have split : splitBreaks ('\n' :: joinBreaks rest) = ([], ['\n']) :: rest :=
      congrArg (([], ['\n']) :: ·) ih
    have whole := splitBreaks_append clean (fun same => absurd same bare) split
    simpa [joinBreaks] using whole
  | @returned line rest clean others ih =>
    have split : splitBreaks ('\r' :: '\n' :: joinBreaks rest) = ([], ['\r', '\n']) :: rest :=
      congrArg (([], ['\r', '\n']) :: ·) ih
    have whole := splitBreaks_append clean (fun _ starts => by cases starts) split
    simpa [joinBreaks] using whole

private theorem cut_newline (left : '\n' ∉ first) (right : '\n' ∉ second)
    (same : first ++ '\n' :: later = second ++ '\n' :: last) : first = second ∧ later = last := by
  induction first generalizing second with
  | nil =>
    cases second with
    | nil => exact ⟨rfl, tail_eq_of_cons_eq same⟩
    | cons c rest =>
      have head := head_eq_of_cons_eq same
      exact absurd (mem_cons.mpr (.inl head)) right
  | cons c rest ih =>
    cases second with
    | nil =>
      have head := head_eq_of_cons_eq same
      exact absurd (mem_cons.mpr (.inl head.symm)) left
    | cons d more =>
      obtain ⟨head, tail⟩ := cons_eq_cons.mp same
      obtain ⟨front, back⟩ := ih (fun found => left (mem_cons_of_mem _ found))
        (fun found => right (mem_cons_of_mem _ found)) tail
      exact ⟨by rw [head, front], back⟩

/-- The first line is the only one, or a newline stands behind its segment. -/
theorem Loose.first (loose : Loose lines) : (∃ line, lines = [(line, [])] ∧ '\n' ∉ line) ∨
      ∃ head rest, lines = head :: rest ∧ Loose rest ∧ '\n' ∉ segment head ∧
        joinBreaks lines = segment head ++ '\n' :: joinBreaks rest := by
  cases loose with
  | last clean => exact .inl ⟨_, rfl, clean⟩
  | @plain line rest clean others | @returned line rest clean others =>
    refine .inr ⟨_, rest, rfl, others, ?_, ?_⟩
    · simpa [segment] using clean
    · simp [segment, joinBreaks]

theorem segments_of_joinBreaks (left : Loose first) :
    ∀ {second : List BrokenLine}, Loose second → joinBreaks first = joinBreaks second →
      first.map segment = second.map segment := by
  induction first with
  | nil => cases left
  | cons head rest ih =>
    intro second right same
    rcases left.first with ⟨line, single, clean⟩ | ⟨_, _, split, others, free, whole⟩
    · rcases right.first with ⟨other, lone, -⟩ | ⟨next, later, split, -, -, whole⟩
      · rw [single, lone] at same ⊢
        simpa [joinBreaks, segment] using same
      · rw [single, whole] at same
        have found : '\n' ∈ line := by
          rw [show line = segment next ++ '\n' :: joinBreaks later by simpa [joinBreaks] using same]
          simp
        exact absurd found clean
    · cases split
      rcases right.first with ⟨other, lone, clean⟩ | ⟨next, later, rfl, more, open_, whole'⟩
      · rw [lone, whole] at same
        have found : '\n' ∈ other := by
          rw [show other = segment head ++ '\n' :: joinBreaks rest by
            simpa [joinBreaks] using same.symm]
          simp
        exact absurd found clean
      · rw [whole, whole'] at same
        obtain ⟨front, back⟩ := cut_newline free open_ same
        rw [map_cons, map_cons, front, ih others more back]

/-- The lines with one break behind each but the last. -/
def withBreak (ending : List Char) : List (List Char) → List BrokenLine
  | [] => []
  | [line] => [(line, [])]
  | line :: rest => (line, ending) :: withBreak ending rest

theorem joinLines_eq (ending : List Char) (lines : List (List Char)) :
    joinLines ending lines = joinBreaks (withBreak ending lines) := by
  fun_induction withBreak ending lines with
  | case1 => rfl
  | case2 line => simp [joinLines, joinBreaks]
  | case3 line rest several ih =>
    obtain ⟨next, more, rfl⟩ := exists_cons_of_ne_nil fun empty => several empty
    simp only [joinLines, joinBreaks, flatMap_cons] at ih ⊢
    rw [← ih]
    simp

theorem withBreak_loose (kind : ending = ['\n'] ∨ ending = ['\r', '\n'])
    {lines : List (List Char)} (some_ : lines ≠ []) (clean : ∀ line ∈ lines, '\n' ∉ line) :
    Loose (withBreak ending lines) := by
  fun_induction withBreak ending lines with
  | case1 => exact absurd rfl some_
  | case2 line => exact .last (clean line mem_cons_self)
  | case3 line rest several ih =>
    have later := ih (fun empty => several empty) fun other found =>
      clean other (mem_cons_of_mem _ found)
    have free := clean line mem_cons_self
    rcases kind with rfl | rfl
    · exact .plain free later
    · exact .returned free later

theorem length_withBreak (lines : List (List Char)) :
    (withBreak ending lines).length = lines.length := by
  fun_induction withBreak ending lines with
  | case1 => rfl
  | case2 line => rfl
  | case3 line rest several ih => rw [length_cons, length_cons, ih]

theorem getElem?_withBreak (ending : List Char) (lines : List (List Char)) (index : Nat) :
    (withBreak ending lines)[index]? =
      lines[index]?.map fun line => (line, if index + 1 = lines.length then [] else ending) := by
  fun_induction withBreak ending lines generalizing index with
  | case1 => rfl
  | case2 line => cases index <;> rfl
  | case3 line rest several ih =>
    cases index with
    | zero =>
      have more : rest ≠ [] := several
      simp [more]
    | succ index => simp [ih]

theorem withBreak_same (loose : Loose lines) (one : ∀ line ∈ lines, line.2 = ending ∨ line.2 = []) :
    withBreak ending (lines.map Prod.fst) = lines := by
  have step : ∀ {line own : List Char} {rest : List BrokenLine}, Loose rest → own ≠ [] →
      (∀ other ∈ (line, own) :: rest, other.2 = ending ∨ other.2 = []) →
      withBreak ending (rest.map Prod.fst) = rest →
      withBreak ending (((line, own) :: rest).map Prod.fst) = (line, own) :: rest := by
    intro line own rest others some_ one ih
    have same : own = ending := (one _ mem_cons_self).resolve_right some_
    cases rest with
    | nil => cases others
    | cons next more =>
      rw [map_cons, map_cons, withBreak, ← map_cons, ih, same]
      nofun
  induction loose with
  | last clean => rfl
  | plain clean others ih | returned clean others ih =>
    exact step others nofun one (ih fun line found => one line (mem_cons_of_mem _ found))

theorem Loose.ending (loose : Loose lines) (found : lines[index]? = some line) :
    (index + 1 = lines.length ∧ line.2 = []) ∨
      index + 1 ≠ lines.length ∧ (line.2 = ['\n'] ∨ line.2 = ['\r', '\n']) := by
  have step : ∀ {head : BrokenLine} {rest : List BrokenLine} {index : Nat}, Loose rest →
      (head.2 = ['\n'] ∨ head.2 = ['\r', '\n']) → (head :: rest)[index]? = some line →
      (∀ {index : Nat}, rest[index]? = some line → (index + 1 = rest.length ∧ line.2 = []) ∨
        index + 1 ≠ rest.length ∧ (line.2 = ['\n'] ∨ line.2 = ['\r', '\n'])) →
      (index + 1 = (head :: rest).length ∧ line.2 = []) ∨
        index + 1 ≠ (head :: rest).length ∧ (line.2 = ['\n'] ∨ line.2 = ['\r', '\n']) := by
    intro head rest index others kind found ih
    cases index with
    | zero =>
      cases found
      have more : rest ≠ [] := fun empty => by rw [empty] at others; cases others
      exact .inr ⟨by simpa using more.symm, kind⟩
    | succ index => simpa using ih found
  induction loose generalizing index with
  | last clean =>
    cases index with
    | zero => exact .inl ⟨rfl, by cases found; rfl⟩
    | succ index => cases found
  | plain clean others ih => exact step others (.inl rfl) found fun found => ih found
  | returned clean others ih => exact step others (.inr rfl) found fun found => ih found

theorem Broken.clean (broken : Broken lines) :
    ∀ line ∈ lines, '\n' ∉ line.1 ∧ (line.2 = ['\n'] → line.1.getLast? ≠ some '\r') := by
  induction broken with
  | last clean => simpa using clean
  | plain clean bare others ih => exact forall_mem_cons.mpr ⟨⟨clean, fun _ => bare⟩, ih⟩
  | returned clean others ih => exact forall_mem_cons.mpr ⟨⟨clean, nofun⟩, ih⟩

theorem Loose.replaced (loose : Loose (before ++ line :: after)) (clean : '\n' ∉ chars) :
    Loose (before ++ (chars, line.2) :: after) := by
  induction before with
  | nil =>
    cases loose with
    | last _ => exact .last clean
    | plain _ others => exact .plain clean others
    | returned _ others => exact .returned clean others
  | cons head rest ih =>
    rw [cons_append] at loose ⊢
    generalize whole : rest ++ line :: after = tail at loose ih
    cases loose with
    | last _ => simp at whole
    | plain free others => exact .plain free (ih others)
    | returned free others => exact .returned free (ih others)

theorem Broken.replaced (broken : Broken (before ++ line :: after)) (clean : '\n' ∉ chars)
    (last : chars.getLast? = line.1.getLast?) : Broken (before ++ (chars, line.2) :: after) := by
  induction before with
  | nil =>
    cases broken with
    | last _ => exact .last clean
    | plain _ bare others => exact .plain clean (last ▸ bare) others
    | returned _ others => exact .returned clean others
  | cons head rest ih =>
    rw [cons_append] at broken ⊢
    generalize whole : rest ++ line :: after = tail at broken ih
    cases broken with
    | last _ => simp at whole
    | plain free bare others => exact .plain free bare (ih others)
    | returned free others => exact .returned free (ih others)

/-- A return before a newline makes a break of the two. -/
theorem hasReturnBreak_iff (text : List Char) :
    hasReturnBreak text = true ↔ ∃ line ∈ splitBreaks text, line.2 = ['\r', '\n'] := by
  induction text using splitBreaks.induct with
  | case1 => simp [hasReturnBreak, splitBreaks]
  | case2 rest ih => simpa [hasReturnBreak, splitBreaks] using ih
  | case3 rest ih => simp [hasReturnBreak, splitBreaks]
  | case4 c rest unbroken apart line ending others split ih =>
    rw [splitBreaks.eq_4 c rest unbroken apart, split]
    rw [split] at ih
    rw [hasReturnBreak.eq_2 c rest apart, ih]
    simp
  | case5 c rest unbroken apart split ih => exact absurd split (splitBreaks_ne_nil rest)

/-- A text that is joined from lines with one break has each line where it is cut. -/
theorem joined_segment (kind : ending = ['\n'] ∨ ending = ['\r', '\n']) {lines : List (List Char)}
    (clean : ∀ line ∈ lines, '\n' ∉ line) (some_ : lines ≠ []) (loose : Loose others)
    (same : joinLines ending lines = joinBreaks others) (found : others[index]? = some line) :
    ∃ own, lines[index]? = some own ∧
      own ++ (if index + 1 = others.length then [] else ending.dropLast) = segment line := by
  rw [joinLines_eq] at same
  have segments := segments_of_joinBreaks (withBreak_loose kind some_ clean) loose same
  have length : lines.length = others.length := by
    simpa [length_withBreak] using congrArg List.length segments
  have here := congrArg (·[index]?) segments
  simp only [getElem?_map, getElem?_withBreak, found, Option.map_some, Option.map_map] at here
  obtain ⟨own, held, same⟩ := Option.map_eq_some_iff.mp here
  refine ⟨own, held, ?_⟩
  rw [← same, ← length]
  simp only [segment, Function.comp_apply]
  split <;> rfl

end QiongQi.TextLines
