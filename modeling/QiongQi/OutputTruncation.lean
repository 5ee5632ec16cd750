import QiongQi.TextBytes

/-! `truncateTail`: the last lines of a text that fit into a number of lines and of bytes. -/
namespace QiongQi.OutputTruncation
open TextBytes List

inductive TruncatedBy where
  | lines | bytes

structure TruncationResult where
  content : List Char
  truncated : Bool
  truncatedBy : Option TruncatedBy
  totalLines : Nat
  totalBytes : Nat
  outputLines : Nat
  outputBytes : Nat
  lastLinePartial : Bool
  firstLineExceedsLimit : Bool
  maxLines : Nat
  maxBytes : Nat

def splitLinesForCounting (content : List Char) : List (List Char) :=
  if content.isEmpty then []
  else
    let split := content.splitOn '\n'
    if content.getLast? = some '\n' then split.dropLast else split

def truncateStringToBytesFromEnd (text : List Char) (maxBytes : Nat) : List Char :=
  if byteLength text ≤ maxBytes then text else dropBytes (byteLength text - maxBytes) text

/-- The lines taken so far. -/
structure TailOutput where
  outputLines : List (List Char) := []
  outputBytes : Nat := 0
  truncatedBy : TruncatedBy := .lines
  lastLinePartial : Bool := false

/-- The bytes that a further line would come to. -/
def TailOutput.bytesWith (output : TailOutput) (line : List Char) : Nat :=
  output.outputBytes + (byteLength line + if output.outputLines.length > 0 then 1 else 0)

/-- A line that is too long ends the output, but the last line gives its end. -/
def TailOutput.exceed (maxBytes : Nat) (output : TailOutput) (line : List Char) : TailOutput :=
  if output.outputLines.length = 0 then
    let rest := truncateStringToBytesFromEnd line maxBytes
    { outputLines := [rest], outputBytes := byteLength rest, truncatedBy := .bytes
      lastLinePartial := true }
  else { output with truncatedBy := .bytes }

def TailOutput.add (output : TailOutput) (line : List Char) : TailOutput :=
  { output with
    outputLines := line :: output.outputLines
    outputBytes := output.bytesWith line }

section
variable (maxLines maxBytes : Nat)

/-- The loop over the lines, from the last one. -/
def takeLines : List (List Char) → TailOutput → TailOutput
  | [], output => output
  | line :: earlier, output =>
    if output.outputLines.length < maxLines then
      if output.bytesWith line > maxBytes then output.exceed maxBytes line
      else takeLines earlier (output.add line)
    else output

def truncateTail (content : List Char) : TruncationResult :=
  let totalBytes := byteLength content
  let lines := splitLinesForCounting content
  let totalLines := lines.length
  if totalLines ≤ maxLines ∧ totalBytes ≤ maxBytes then
    { content, truncated := false, truncatedBy := none, totalLines, totalBytes
      outputLines := totalLines, outputBytes := totalBytes, lastLinePartial := false
      firstLineExceedsLimit := false, maxLines, maxBytes }
  else
    let output := takeLines maxLines maxBytes lines.reverse {}
    let outputContent := joinLines output.outputLines
    { content := outputContent, truncated := true, truncatedBy := some output.truncatedBy
      totalLines, totalBytes, outputLines := output.outputLines.length
      outputBytes := byteLength outputContent, lastLinePartial := output.lastLinePartial
      firstLineExceedsLimit := false, maxLines, maxBytes }

end

private theorem splitOn_lines : content.splitOn '\n' =
      lines content ++ if content.isEmpty || content.getLast? = some '\n' then [[]] else [] := by
  induction content with
  | nil => rfl
  | cons c rest ih =>
    unfold List.splitOn at ih ⊢
    rw [splitOnP_cons_eq_if_modifyHead, ih]
    cases rest with
    | nil =>
      by_cases newline : c = '\n'
      · subst newline
        rfl
      · simp [lines, newline]
    | cons next others =>
      by_cases newline : c = '\n'
      · subst newline
        simp
      · have more := lines_ne_nil (cons_ne_nil next others)
        rw [lines_cons newline]
        cases shown : lines (next :: others) with
        | nil => exact absurd shown more
        | cons first others => simp [newline]

theorem splitLinesForCounting_eq : splitLinesForCounting content = lines content := by
  unfold splitLinesForCounting
  rw [splitOn_lines]
  cases content with
  | nil => rfl
  | cons c rest =>
    by_cases last : (c :: rest).getLast? = some '\n'
    · simp [last]
    · simp [last]

variable {maxLines maxBytes : Nat}

/-- The text has no more lines and bytes than allowed. -/
def Fits (maxLines maxBytes : Nat) (content : List Char) : Prop :=
  (lines content).length ≤ maxLines ∧ byteLength content ≤ maxBytes

instance (maxLines maxBytes : Nat) (content : List Char) :
    Decidable (Fits maxLines maxBytes content) :=
  inferInstanceAs (Decidable (_ ∧ _))

/-- The lines that a text is cut to. -/
def lastLines (maxLines maxBytes : Nat) (content : List Char) : List (List Char) :=
  (takeLines maxLines maxBytes (lines content).reverse {}).outputLines

theorem truncateTail_content : (truncateTail maxLines maxBytes content).content =
      if Fits maxLines maxBytes content then content
      else joinLines (lastLines maxLines maxBytes content) := by
  unfold truncateTail lastLines
  rw [splitLinesForCounting_eq]
  by_cases fits : Fits maxLines maxBytes content
  · rw [if_pos fits]
    exact congrArg TruncationResult.content (if_pos fits)
  · rw [if_neg fits]
    exact congrArg TruncationResult.content (if_neg fits)

theorem truncateTail_truncated : (truncateTail maxLines maxBytes content).truncated =
      !decide (Fits maxLines maxBytes content) := by
  unfold truncateTail
  rw [splitLinesForCounting_eq]
  by_cases fits : Fits maxLines maxBytes content
  · rw [decide_eq_true fits]
    exact congrArg TruncationResult.truncated (if_pos fits)
  · rw [decide_eq_false fits]
    exact congrArg TruncationResult.truncated (if_neg fits)

theorem truncateTail_totalLines :
    (truncateTail maxLines maxBytes content).totalLines = (lines content).length := by
  unfold truncateTail
  rw [splitLinesForCounting_eq]
  by_cases fits : Fits maxLines maxBytes content
  · exact congrArg TruncationResult.totalLines (if_pos fits)
  · exact congrArg TruncationResult.totalLines (if_neg fits)

/-- Whether a further line has a newline in front of the output. -/
def separators (output : TailOutput) : Nat := if output.outputLines.length > 0 then 1 else 0

theorem separators_add (output : TailOutput) : separators (output.add line) = 1 := rfl

theorem bytesWith_eq :
    output.bytesWith line = output.outputBytes + (byteLength line + separators output) := rfl

theorem exceed_lines {output : TailOutput} (begun : output.outputLines ≠ []) :
    (output.exceed maxBytes line).outputLines = output.outputLines := by
  have some_ : output.outputLines.length ≠ 0 := fun none => begun (length_eq_zero_iff.mp none)
  unfold TailOutput.exceed
  rw [if_neg some_]

/-- Once the lines or the bytes are used up, earlier lines make no difference. -/
theorem takeLines_append {texts : List (List Char)} :
    ∀ {output : TailOutput}, (texts = [] → output.outputLines ≠ []) →
      (maxLines ≤ output.outputLines.length + texts.length ∨
        maxBytes < output.outputBytes + width texts + separators output) →
      (takeLines maxLines maxBytes (texts ++ more) output).outputLines =
        (takeLines maxLines maxBytes texts output).outputLines := by
  induction texts with
  | nil =>
    intro output begun spent
    have begun := begun rfl
    have one : separators output = 1 := if_pos (length_pos_iff.mpr begun)
    rw [nil_append]
    cases more with
    | nil => rfl
    | cons line earlier =>
      unfold takeLines
      by_cases full : output.outputLines.length < maxLines
      · have exceeds : output.bytesWith line > maxBytes := by
          rw [bytesWith_eq, one]
          simp only [width_nil, length_nil, Nat.add_zero, one] at spent
          omega
        rw [if_pos full, if_pos exceeds]
        exact exceed_lines begun
      · rw [if_neg full]
  | cons line earlier ih =>
    intro output _ spent
    rw [cons_append]
    unfold takeLines
    by_cases full : output.outputLines.length < maxLines
    · rw [if_pos full, if_pos full]
      by_cases exceeds : output.bytesWith line > maxBytes
      · rw [if_pos exceeds, if_pos exceeds]
      · rw [if_neg exceeds, if_neg exceeds]
        refine ih (fun _ => cons_ne_nil _ _) ?_
        rw [separators_add]
        rw [width_cons, length_cons] at spent
        simp only [TailOutput.add, length_cons, bytesWith_eq]
        omega
    · rw [if_neg full, if_neg full]

theorem takeLines_all (more : List (List Char)) {texts : List (List Char)} :
    ∀ {output : TailOutput}, output.outputLines.length + texts.length ≤ maxLines →
      (texts ≠ [] → output.outputBytes + width texts + separators output ≤ maxBytes + 1) →
      ∃ after : TailOutput, after.outputLines = texts.reverse ++ output.outputLines ∧
        after.outputBytes + separators after = output.outputBytes + width texts + separators output ∧
        takeLines maxLines maxBytes (texts ++ more) output = takeLines maxLines maxBytes more after := by
  induction texts with
  | nil => exact fun _ _ => ⟨_, rfl, rfl, rfl⟩
  | cons line earlier ih =>
    intro output few small
    have small := small (cons_ne_nil _ _)
    rw [width_cons] at small
    rw [length_cons] at few
    have inside : ¬ output.bytesWith line > maxBytes := by
      rw [bytesWith_eq]
      omega
    obtain ⟨after, taken, bytes, same⟩ := @ih (output.add line)
      (by simp only [TailOutput.add, length_cons]; omega)
      (fun _ => by rw [separators_add]; simp only [TailOutput.add, bytesWith_eq]; omega)
    refine ⟨after, ?_, ?_, ?_⟩
    · rw [taken]
      simp [TailOutput.add]
    · rw [bytes, separators_add, width_cons]
      simp only [TailOutput.add, bytesWith_eq]
      omega
    · rw [cons_append, ← same]
      conv => lhs; unfold takeLines
      rw [if_pos (by omega), if_neg inside]

theorem separators_start : separators {} = 0 := rfl

theorem lastLines_ended (ended : Ended front) (long : maxBytes < byteLength text) :
    lastLines maxLines maxBytes (front ++ text) = lastLines maxLines maxBytes text := by
  have some_ : text ≠ [] := by
    rintro rfl
    cases long
  unfold lastLines
  rw [lines_ended ended, reverse_append]
  refine takeLines_append (fun none => ?_) (.inr ?_)
  · exact absurd (reverse_eq_nil_iff.mp none) (lines_ne_nil some_)
  · rw [width_reverse, width_lines, separators_start]
    show maxBytes < 0 + _ + 0
    omega

theorem lastLines_long (one : lines text = [line]) (long : maxBytes < byteLength line) :
    lastLines maxLines maxBytes text =
      if maxLines = 0 then [] else [truncateStringToBytesFromEnd line maxBytes] := by
  unfold lastLines
  rw [one]
  by_cases none : maxLines = 0
  · subst none
    rfl
  · have some_ : 0 < maxLines := Nat.pos_of_ne_zero none
    have exceeds : ({} : TailOutput).bytesWith line > maxBytes := by
      rw [bytesWith_eq, separators_start]
      show 0 + _ > _
      omega
    have room : ({} : TailOutput).outputLines.length < maxLines := some_
    rw [reverse_singleton, takeLines, if_pos room, if_pos exceeds, if_neg none]
    rfl

/-- The lines behind a newline are enough if they do not fit. -/
theorem lastLines_behind (inside : '\n' ∉ line) (exceeds : ¬ Fits maxLines maxBytes rest) :
    lastLines maxLines maxBytes (line ++ '\n' :: rest) = lastLines maxLines maxBytes rest := by
  have some_ : rest ≠ [] := by
    rintro rfl
    exact exceeds ⟨Nat.zero_le _, Nat.zero_le _⟩
  unfold lastLines
  rw [lines_append, lines_of_ended inside, reverse_append]
  refine takeLines_append (fun none => ?_) ?_
  · exact absurd (reverse_eq_nil_iff.mp none) (lines_ne_nil some_)
  · rw [width_reverse, width_lines, length_reverse, separators_start]
    show maxLines ≤ 0 + _ ∨ maxBytes < 0 + _ + 0
    unfold Fits at exceeds
    omega

/-- If they fit, and the line before them no more, then they are what is taken. -/
theorem lastLines_fitting (inside : '\n' ∉ line) (some_ : rest ≠ [])
    (fits : Fits maxLines maxBytes rest) (long : maxBytes < byteLength line + byteLength rest) :
    lastLines maxLines maxBytes (line ++ '\n' :: rest) = lines rest := by
  have counted := @width_lines rest
  unfold lastLines
  rw [lines_append, lines_of_ended inside, reverse_append]
  obtain ⟨after, taken, bytes, same⟩ := @takeLines_all maxLines maxBytes [line].reverse
    (lines rest).reverse {} (by
      rw [length_reverse]
      show 0 + _ ≤ _
      have few := fits.1
      omega)
    (fun _ => by
      rw [width_reverse, counted, separators_start]
      show 0 + _ + 0 ≤ _
      have small := fits.2
      split <;> omega)
  have all : after.outputLines = lines rest := by
    rw [taken]
    simp
  have one : separators after = 1 := by
    unfold separators
    rw [all]
    exact if_pos (length_pos_iff.mpr (lines_ne_nil some_))
  have exceeds : after.bytesWith line > maxBytes := by
    rw [bytesWith_eq, one]
    rw [one, width_reverse, counted, separators_start] at bytes
    have start : ({} : TailOutput).outputBytes = 0 := rfl
    omega
  rw [same]
  simp only [reverse_singleton, takeLines]
  by_cases full : after.outputLines.length < maxLines
  · rw [if_pos full, if_pos exceeds, exceed_lines, all]
    rw [all]
    exact lines_ne_nil some_
  · rw [if_neg full, all]

theorem truncateStringToBytesFromEnd_append (front : List Char) (long : maxBytes < byteLength back) :
    truncateStringToBytesFromEnd (front ++ back) maxBytes = truncateStringToBytesFromEnd back maxBytes := by
  unfold truncateStringToBytesFromEnd
  rw [byteLength_append, if_neg (by omega), if_neg (by omega), dropBytes_append _ (by omega)]
  congr 1
  omega

theorem truncateStringToBytesFromEnd_fitting (front : List Char)
    (fits : byteLength back ≤ maxBytes) (exceeds : maxBytes < byteLength back + c.utf8Size) :
    truncateStringToBytesFromEnd (front ++ c :: back) maxBytes = back := by
  unfold truncateStringToBytesFromEnd
  rw [byteLength_append, byteLength_cons, if_neg (by omega)]
  exact dropBytes_last front back c (by omega) (by omega)

theorem truncateStringToBytesFromEnd_nil (long : maxBytes < byteLength (front ++ [c])) :
    truncateStringToBytesFromEnd (front ++ [c]) maxBytes = [] ↔ maxBytes < c.utf8Size := by
  constructor
  · intro nothing
    unfold truncateStringToBytesFromEnd at nothing
    rw [if_neg (by omega)] at nothing
    obtain ⟨dropped, whole, -, last⟩ :=
      dropBytes_split (Nat.sub_le (byteLength (front ++ [c])) maxBytes)
    rw [nothing, append_nil] at whole
    have below := last c (by rw [← whole]; simp)
    rw [← whole] at below
    omega
  · intro large
    exact truncateStringToBytesFromEnd_fitting front (Nat.zero_le _) (by simpa using large)

end QiongQi.OutputTruncation
