import QiongQi.Machines
import QiongQi.OutputTruncation
import QiongQi.TextDecoders

/-! `OutputAccumulator`: the output of a command, decoded as it comes in, of which a rolling tail is
kept beside the numbers of all lines and bytes. -/
namespace QiongQi.OutputAccumulators
open Machines TextBytes OutputTruncation TextDecoders List

def startsWithUtf8Bom (buffer : List Nat) : Bool := [0xef, 0xbb, 0xbf].isPrefixOf buffer

def startsWithUtf16LeBom (buffer : List Nat) : Bool := [0xff, 0xfe].isPrefixOf buffer

def isHanCodePoint (codePoint : Nat) : Bool :=
  (0x3400 ≤ codePoint && codePoint ≤ 0x4dbf) || (0x4e00 ≤ codePoint && codePoint ≤ 0x9fff) ||
    (0xf900 ≤ codePoint && codePoint ≤ 0xfaff) || (0x20000 ≤ codePoint && codePoint ≤ 0x2ebef)

def isPrivateUseCodePoint (codePoint : Nat) : Bool :=
  (0xe000 ≤ codePoint && codePoint ≤ 0xf8ff) || (0xf0000 ≤ codePoint && codePoint ≤ 0xffffd) ||
    (0x100000 ≤ codePoint && codePoint ≤ 0x10fffd)

structure TextStats where
  total : Nat
  ascii : Nat
  han : Nat
  privateUse : Nat
  replacement : Nat
  control : Nat

def textStats (text : List Char) : TextStats :=
  let points := text.map Char.toNat
  { total := points.length
    ascii := points.countP (· ≤ 0x7f)
    han := points.countP isHanCodePoint
    privateUse := points.countP isPrivateUseCodePoint
    replacement := points.count 0xfffd
    control := points.countP fun point =>
      point < 0x20 && point ≠ 0x09 && point ≠ 0x0a && point ≠ 0x0d }

def looksLikeHanUtf16LeWithoutNuls (buffer : List Nat) : Bool :=
  if buffer.length < 4 || buffer.length % 2 ≠ 0 || buffer.contains 0 then false
  else
    let utf16 := textStats (decodeAll .utf16le buffer)
    let utf8 := textStats (decodeAll .utf8 buffer)
    if utf16.total = 0 || utf16.han < 2 then false
    else if utf16.replacement > 0 || utf16.control > 0 || utf16.privateUse > 0 then false
    else if utf16.han * 10 < utf16.total * 6 then false
    else if utf8.replacement > 0 then true
    else if utf8.han > 0 then false
    else utf8.ascii > 0 && utf8.ascii < utf8.total

/-- The bytes two by two; a last one by itself is left out. -/
def bytePairs : List Nat → List (Nat × Nat)
  | first :: second :: rest => (first, second) :: bytePairs rest
  | _ => []

def looksLikeUtf16Le (buffer : List Nat) : Bool :=
  if buffer.length < 4 then false
  else
    let sample := buffer.take 512
    let pairs := bytePairs sample
    let evenNuls := pairs.countP fun pair => pair.1 = 0
    let oddNuls := pairs.countP fun pair => pair.2 = 0
    if pairs.length < 2 then false
    else if oddNuls * 100 ≥ pairs.length * 45 && oddNuls > evenNuls * 2 then true
    else looksLikeHanUtf16LeWithoutNuls sample

def chooseOutputEncoding (buffer : List Nat) (final : Bool) : Option OutputTextEncoding :=
  if startsWithUtf16LeBom buffer || looksLikeUtf16Le buffer then some .utf16le
  else if startsWithUtf8Bom buffer then some .utf8
  else if buffer.length ≥ 32 || final then some .utf8
  else none

def stripKnownBom (buffer : List Nat) (encoding : OutputTextEncoding) : List Nat :=
  if encoding = .utf16le && startsWithUtf16LeBom buffer then buffer.drop 2
  else if encoding = .utf8 && startsWithUtf8Bom buffer then buffer.drop 3
  else buffer

/-- Besides what the class keeps, `appended` is all of the text. -/
structure OutputAccumulator where
  maxLines : Nat
  maxBytes : Nat
  decoder : Option TextDecoder := none
  decodeBuffer : List Nat := []
  tailText : List Char := []
  tailBytes : Nat := 0
  tailStartsAtLineBoundary : Bool := true
  totalRawBytes : Nat := 0
  totalDecodedBytes : Nat := 0
  completedLines : Nat := 0
  totalLines : Nat := 0
  currentLineBytes : Nat := 0
  hasOpenLine : Bool := false
  finished : Bool := false
  appended : List Char := []

/-- What follows the last newline. -/
def lastPiece (text : List Char) : List Char := (text.reverse.takeWhile (· ≠ '\n')).reverse

namespace OutputAccumulator

def maxRollingBytes (output : OutputAccumulator) : Nat := max (output.maxBytes * 2) 1

/-- The byte before the new tail is a newline just if the character before it is one. -/
def trimTail (output : OutputAccumulator) : OutputAccumulator :=
  let length := byteLength output.tailText
  if length ≤ output.maxRollingBytes then { output with tailBytes := length }
  else
    let tailText := dropBytes (length - output.maxRollingBytes) output.tailText
    let dropped := output.tailText.take (output.tailText.length - tailText.length)
    { output with
      tailText
      tailBytes := byteLength tailText
      tailStartsAtLineBoundary := dropped.getLast? = some '\n' }

/-- The text behind the tail, which is trimmed when it has grown to twice its size. -/
def extendTail (output : OutputAccumulator) (text : List Char) : OutputAccumulator :=
  let bytes := byteLength text
  let longer :=
    { output with
      totalDecodedBytes := output.totalDecodedBytes + bytes
      tailText := output.tailText ++ text
      tailBytes := output.tailBytes + bytes
      appended := output.appended ++ text }
  if longer.tailBytes > longer.maxRollingBytes * 2 then longer.trimTail else longer

def countLines (output : OutputAccumulator) (text : List Char) : OutputAccumulator :=
  let newlines := text.count '\n'
  let counted :=
    if newlines = 0 then
      { output with
        currentLineBytes := output.currentLineBytes + byteLength text
        hasOpenLine := true }
    else
      { output with
        completedLines := output.completedLines + newlines
        currentLineBytes := byteLength (lastPiece text)
        hasOpenLine := !(lastPiece text).isEmpty }
  { counted with totalLines := counted.completedLines + if counted.hasOpenLine then 1 else 0 }

def appendDecodedText (output : OutputAccumulator) (text : List Char) : OutputAccumulator :=
  if text.isEmpty then output else (output.extendTail text).countLines text

def appendDecodedBytes (output : OutputAccumulator) (data : List Nat) (final : Bool) :
    OutputAccumulator :=
  match output.decoder with
  | none =>
    let decodeBuffer := output.decodeBuffer ++ data
    match chooseOutputEncoding decodeBuffer final with
    | none => { output with decodeBuffer }
    | some encoding =>
      let (text, decoder) := ({ encoding : TextDecoder }).decode
        (stripKnownBom decodeBuffer encoding) (!final)
      { output with decoder := some decoder, decodeBuffer := [] }.appendDecodedText text
  | some decoder =>
    if data.isEmpty then output
    else
      let (text, next) := decoder.decode data true
      { output with decoder := some next }.appendDecodedText text

/-- A finished accumulator takes nothing more. -/
def append (output : OutputAccumulator) (data : List Nat) : Option OutputAccumulator :=
  if output.finished then none
  else
    some ({ output with totalRawBytes := output.totalRawBytes + data.length }.appendDecodedBytes
      data false)

/-- What the decoder still holds. -/
def flush (output : OutputAccumulator) : OutputAccumulator :=
  match output.decoder with
  | none => output
  | some decoder =>
    let (text, next) := decoder.decode [] false
    { output with decoder := some next }.appendDecodedText text

def finish (output : OutputAccumulator) : OutputAccumulator :=
  if output.finished then output
  else ({ output with finished := true }.appendDecodedBytes [] true).flush

def pendingUtf8PreviewText (output : OutputAccumulator) : List Char :=
  if output.decoder.isSome || output.decodeBuffer.isEmpty then []
  else decodeAll .utf8 output.decodeBuffer

/-- Without the line that the tail starts in, unless it goes on to the end. -/
def getSnapshotText (output : OutputAccumulator) : List Char :=
  let text := output.tailText ++ output.pendingUtf8PreviewText
  if output.tailStartsAtLineBoundary then text
  else
    match text.dropWhile (· ≠ '\n') with
    | [] => text
    | _ :: rest => rest

def snapshot (output : OutputAccumulator) : TruncationResult :=
  let tailTruncation := truncateTail output.maxLines output.maxBytes output.getSnapshotText
  let truncated :=
    output.totalLines > output.maxLines || output.totalDecodedBytes > output.maxBytes
  { tailTruncation with
    truncated
    truncatedBy :=
      if truncated then
        tailTruncation.truncatedBy.or
          (some (if output.totalDecodedBytes > output.maxBytes then .bytes else .lines))
      else none
    totalLines := output.totalLines
    totalBytes := output.totalDecodedBytes
    maxLines := output.maxLines
    maxBytes := output.maxBytes }

end OutputAccumulator

inductive OutputCall where
  | append (data : List Nat)
  | finish

def call (output : OutputAccumulator) : OutputCall → Option OutputAccumulator
  | .append data => output.append data
  | .finish => some output.finish

/-- All of the text so far, with the preview of what is not decoded yet. -/
def wholeText (output : OutputAccumulator) : List Char :=
  output.appended ++ output.pendingUtf8PreviewText

/-- The snapshot has the content, the flag and the lines of the whole text. -/
def Agrees (output : OutputAccumulator) : Prop :=
  let whole := truncateTail output.maxLines output.maxBytes (wholeText output)
  output.snapshot.content = whole.content ∧ output.snapshot.truncated = whole.truncated ∧
    output.snapshot.totalLines = whole.totalLines

/-- The tail starts inside a line, and what is behind this line fits and ends with a newline, or is
nothing although the end of the line could be shown. -/
def losesEnd (output : OutputAccumulator) : Bool :=
  let front := output.tailText.takeWhile (· ≠ '\n')
  match output.tailText.dropWhile (· ≠ '\n') with
  | [] => false
  | _ :: rest =>
    !output.tailStartsAtLineBoundary && 0 < output.maxLines &&
      if rest.isEmpty then front.getLast?.any fun c => c.utf8Size ≤ output.maxBytes
      else rest.getLast? = some '\n' && Fits output.maxLines output.maxBytes rest

theorem lastPiece_concat :
    lastPiece (text ++ [c]) = if c = '\n' then [] else lastPiece text ++ [c] := by
  by_cases newline : c = '\n' <;> simp [lastPiece, newline]

variable {text front cut : List Char}

theorem lastPiece_open (some_ : '\n' ∈ text) :
    (!(lastPiece text).isEmpty) = TextBytes.hasOpenLine text := by
  cases text using List.reverseRecOn with
  | nil => cases some_
  | append_singleton text c =>
    have more : ∀ front : List Char, (front ++ [c]).isEmpty = false := fun front => by
      cases front <;> rfl
    rw [lastPiece_concat]
    by_cases newline : c = '\n'
    · simp [TextBytes.hasOpenLine, newline]
    · simp [TextBytes.hasOpenLine, newline, more]

theorem take_front (split : text = front ++ back) :
    text.take (text.length - back.length) = front := by
  rw [split]
  simp

theorem hasOpenLine_append (some_ : back ≠ []) :
    TextBytes.hasOpenLine (front ++ back) = TextBytes.hasOpenLine back := by
  have last : (front ++ back).getLast? = back.getLast? := getLast?_append_of_ne_nil _ some_
  unfold TextBytes.hasOpenLine
  rw [last]
  cases front <;> cases back <;> simp_all

/-- What comes before the tail. If it is anything, the tail would be longer than is kept with one
character more. -/
structure Cut (output : OutputAccumulator) (cut : List Char) : Prop where
  whole : output.appended = cut ++ output.tailText
  boundary : output.tailStartsAtLineBoundary = true ↔ Ended cut
  long : ∀ c ∈ cut.getLast?, output.maxRollingBytes < byteLength output.tailText + c.utf8Size

structure Tracks (output : OutputAccumulator) : Prop where
  tail : ∃ cut, Cut output cut
  tailBytes : output.tailBytes = byteLength output.tailText
  decoded : output.totalDecodedBytes = byteLength output.appended
  completed : output.completedLines = output.appended.count '\n'
  openLine : output.hasOpenLine = TextBytes.hasOpenLine output.appended
  total : output.totalLines = (lines output.appended).length

variable {output : OutputAccumulator}

theorem cut_trimmed (known : Cut output cut) : ∃ cut, Cut output.trimTail cut := by
  unfold OutputAccumulator.trimTail
  by_cases short : byteLength output.tailText ≤ output.maxRollingBytes
  · simp only [if_pos short]
    exact ⟨cut, known.whole, known.boundary, known.long⟩
  · obtain ⟨dropped, split, enough, last⟩ := dropBytes_split
      (Nat.sub_le (byteLength output.tailText) output.maxRollingBytes)
    have front := take_front split
    have sizes := congrArg byteLength split
    rw [byteLength_append] at sizes
    have some_ : dropped ≠ [] := by
      rintro rfl
      rw [byteLength_nil] at enough
      omega
    have final : (cut ++ dropped).getLast? = dropped.getLast? :=
      getLast?_append_of_ne_nil _ some_
    simp only [if_neg short]
    refine ⟨cut ++ dropped, ?_, ?_, ?_⟩
    · show output.appended = _
      rw [known.whole, append_assoc, ← split]
    · simp only [front, decide_eq_true_eq]
      unfold Ended
      rw [final]
      exact ⟨.inr, fun ended => ended.resolve_left (by simp [some_])⟩
    · intro c found
      rw [final] at found
      have below := last c found
      show output.maxRollingBytes < byteLength (dropBytes _ output.tailText) + c.utf8Size
      omega

theorem trimTail_frame (output : OutputAccumulator) : output.trimTail.appended = output.appended ∧
      output.trimTail.totalDecodedBytes = output.totalDecodedBytes ∧
      output.trimTail.completedLines = output.completedLines ∧
      output.trimTail.currentLineBytes = output.currentLineBytes ∧
      output.trimTail.hasOpenLine = output.hasOpenLine ∧
      output.trimTail.tailBytes = byteLength output.trimTail.tailText := by
  unfold OutputAccumulator.trimTail
  simp only
  split <;> exact ⟨rfl, rfl, rfl, rfl, rfl, rfl⟩

theorem cut_extended (known : Cut output cut) : ∃ cut, Cut (output.extendTail text) cut := by
  have longer : ∀ bytes total, Cut { output with
      totalDecodedBytes := total
      tailText := output.tailText ++ text
      tailBytes := bytes
      appended := output.appended ++ text } cut := by
    intro bytes total
    refine ⟨?_, known.boundary, fun c found => ?_⟩
    · show output.appended ++ text = cut ++ (output.tailText ++ text)
      rw [known.whole, append_assoc]
    · have before := known.long c found
      show output.maxRollingBytes < byteLength (output.tailText ++ text) + c.utf8Size
      rw [byteLength_append]
      omega
  unfold OutputAccumulator.extendTail
  simp only
  split
  · exact cut_trimmed (longer _ _)
  · exact ⟨cut, longer _ _⟩

theorem extendTail_frame (tailBytes : output.tailBytes = byteLength output.tailText) :
    (output.extendTail text).appended = output.appended ++ text ∧
      (output.extendTail text).totalDecodedBytes = output.totalDecodedBytes + byteLength text ∧
      (output.extendTail text).completedLines = output.completedLines ∧
      (output.extendTail text).hasOpenLine = output.hasOpenLine ∧
      (output.extendTail text).tailBytes = byteLength (output.extendTail text).tailText := by
  unfold OutputAccumulator.extendTail
  simp only
  split
  · obtain ⟨appended, decoded, completed, -, openLine, bytes⟩ := trimTail_frame
      { output with
        totalDecodedBytes := output.totalDecodedBytes + byteLength text
        tailText := output.tailText ++ text
        tailBytes := output.tailBytes + byteLength text
        appended := output.appended ++ text }
    exact ⟨appended, decoded, completed, openLine, bytes⟩
  · refine ⟨rfl, rfl, rfl, rfl, ?_⟩
    show output.tailBytes + byteLength text = byteLength (output.tailText ++ text)
    rw [tailBytes, byteLength_append]

theorem tracks_appendDecodedText (tracks : Tracks output) :
    Tracks (output.appendDecodedText text) := by
  unfold OutputAccumulator.appendDecodedText
  by_cases empty : text.isEmpty
  · rw [if_pos empty]
    exact tracks
  rw [if_neg empty]
  have some_ : text ≠ [] := by simpa using empty
  obtain ⟨cut, known⟩ := tracks.tail
  obtain ⟨cut, known⟩ := cut_extended known
  obtain ⟨appended, decoded, completed, openLine, bytes⟩ := extendTail_frame tracks.tailBytes
  have more : (output.extendTail text).completedLines + text.count '\n' =
      (output.extendTail text).appended.count '\n' := by
    rw [completed, appended, count_append, tracks.completed]
  have opened : TextBytes.hasOpenLine (output.extendTail text).appended = TextBytes.hasOpenLine text := by
    rw [appended, hasOpenLine_append some_]
  have decodedAll : (output.extendTail text).totalDecodedBytes =
      byteLength (output.extendTail text).appended := by
    rw [decoded, appended, byteLength_append, tracks.decoded]
  unfold OutputAccumulator.countLines
  simp only
  by_cases none : text.count '\n' = 0
  · have inside : TextBytes.hasOpenLine text = true := by
      have no : '\n' ∉ text := count_eq_zero.mp none
      cases final : text.getLast? with
      | none => exact absurd (getLast?_eq_none_iff.mp final) some_
      | some last =>
        have other : last ≠ '\n' := fun same => no (same ▸ mem_of_getLast? final)
        simp [TextBytes.hasOpenLine, final, other, empty]
    rw [none, Nat.add_zero] at more
    simp only [if_pos none]
    refine ⟨⟨cut, known.whole, known.boundary, known.long⟩, bytes, decodedAll, more, ?_, ?_⟩
    · show true = TextBytes.hasOpenLine (output.extendTail text).appended
      rw [opened, inside]
    · show (output.extendTail text).completedLines + 1 = (lines (output.extendTail text).appended).length
      rw [length_lines, opened, inside, more]
      rfl
  · have found : '\n' ∈ text := count_pos_iff.mp (Nat.pos_of_ne_zero none)
    simp only [if_neg none]
    refine ⟨⟨cut, known.whole, known.boundary, known.long⟩, bytes, decodedAll, more, ?_, ?_⟩
    · show (!(lastPiece text).isEmpty) = TextBytes.hasOpenLine (output.extendTail text).appended
      rw [opened, lastPiece_open found]
    · show (output.extendTail text).completedLines + text.count '\n' +
          (if (!(lastPiece text).isEmpty) = true then 1 else 0) =
        (lines (output.extendTail text).appended).length
      rw [length_lines, opened, lastPiece_open found, more]

/-- The numbers are kept, and no text is there before the encoding is chosen. -/
structure Kept (output : OutputAccumulator) : Prop where
  tracks : Tracks output
  undecided : output.decoder = none → output.appended = []

theorem tracks_with (tracks : Tracks output) :
    Tracks { output with decoder, decodeBuffer, totalRawBytes, finished } := by
  obtain ⟨⟨cut, known⟩, tailBytes, decoded, completed, openLine, total⟩ := tracks
  exact ⟨⟨cut, known.whole, known.boundary, known.long⟩, tailBytes, decoded, completed, openLine, total⟩

theorem trimTail_decoder : output.trimTail.decoder = output.decoder := by
  unfold OutputAccumulator.trimTail
  simp only
  split <;> rfl

theorem appendDecodedText_decoder (output : OutputAccumulator) (text : List Char) :
    (output.appendDecodedText text).decoder = output.decoder := by
  unfold OutputAccumulator.appendDecodedText
  split
  · rfl
  · have counted : ∀ other : OutputAccumulator, (other.countLines text).decoder = other.decoder := by
      intro other
      unfold OutputAccumulator.countLines
      simp only
      split <;> rfl
    rw [counted]
    unfold OutputAccumulator.extendTail
    simp only
    split
    · exact trimTail_decoder
    · rfl

theorem kept_decoded (tracks : Tracks output) (decoded : output.decoder.isSome) :
    Kept (output.appendDecodedText text) := by
  refine ⟨tracks_appendDecodedText tracks, fun none => ?_⟩
  rw [appendDecodedText_decoder] at none
  rw [none] at decoded
  cases decoded

theorem kept_appendDecodedBytes (kept : Kept output) (data : List Nat) (final : Bool) :
    Kept (output.appendDecodedBytes data final) := by
  unfold OutputAccumulator.appendDecodedBytes
  cases chosen : output.decoder with
  | none =>
    simp only
    split
    · exact ⟨tracks_with kept.tracks, fun _ => kept.undecided chosen⟩
    · exact kept_decoded (tracks_with kept.tracks) rfl
  | some decoder =>
    simp only
    split
    · exact kept
    · exact kept_decoded (tracks_with kept.tracks) rfl

theorem kept_call (kept : Kept output) (request : OutputCall)
    (taken : call output request = some next_) : Kept next_ := by
  cases request with
  | append data =>
    unfold call OutputAccumulator.append at taken
    simp only at taken
    split at taken
    · cases taken
    · cases taken
      exact @kept_appendDecodedBytes
        { output with totalRawBytes := output.totalRawBytes + data.length }
        ⟨tracks_with kept.tracks, kept.undecided⟩ data false
  | finish =>
    cases taken
    unfold OutputAccumulator.finish
    split
    · exact kept
    · have last := @kept_appendDecodedBytes { output with finished := true }
        ⟨tracks_with kept.tracks, kept.undecided⟩ [] true
      unfold OutputAccumulator.flush
      split
      · exact last
      · exact kept_decoded (tracks_with last.tracks) rfl

theorem kept_start : Kept { maxLines, maxBytes } := by
  refine ⟨⟨⟨[], rfl, ?_, by simp⟩, rfl, rfl, rfl, rfl, rfl⟩, fun _ => rfl⟩
  exact ⟨fun _ => .inl rfl, fun _ => rfl⟩

theorem kept_run (ran : runActions call { maxLines, maxBytes } calls = some output) : Kept output :=
  invariant_always (fun _ request _ kept taken => kept_call kept request taken) calls kept_start ran

/-- After any calls the numbers are those of the whole text, and the tail is all of it, or its end
and as long as it may be but for a character. -/
theorem counts_exact (maxLines maxBytes : Nat) (calls : List OutputCall)
    (ran : runActions call { maxLines, maxBytes } calls = some output) :
    output.totalLines = (lines output.appended).length ∧
      output.totalDecodedBytes = byteLength output.appended ∧
      output.tailText <:+ output.appended ∧ (output.tailText = output.appended ∨
        output.maxRollingBytes < byteLength output.tailText + 4) := by
  obtain ⟨tracks, -⟩ := kept_run ran
  obtain ⟨cut, known⟩ := tracks.tail
  refine ⟨tracks.total, tracks.decoded, ⟨cut, known.whole.symm⟩, ?_⟩
  cases last : cut.getLast? with
  | none =>
    rw [getLast?_eq_none_iff] at last
    exact .inl (by rw [known.whole, last, nil_append])
  | some c =>
    have long := known.long c last
    have small := c.utf8Size_le_four
    exact .inr (by omega)

theorem pieces_line (inside : '\n' ∉ text) : text.dropWhile (· ≠ '\n') = [] := by
  induction text with
  | nil => rfl
  | cons c rest ih =>
    have other : c ≠ '\n' := fun same => inside (same ▸ mem_cons_self)
    rw [dropWhile_cons_of_pos (by simpa using other)]
    exact ih fun held => inside (mem_cons_of_mem _ held)

/-- The pieces in front of the first newline and behind it. -/
theorem pieces_split (inside : '\n' ∉ front) (rest : List Char) :
    (front ++ '\n' :: rest).takeWhile (· ≠ '\n') = front ∧
      (front ++ '\n' :: rest).dropWhile (· ≠ '\n') = '\n' :: rest := by
  induction front with
  | nil => simp
  | cons c others ih =>
    have other : c ≠ '\n' := fun same => inside (same ▸ mem_cons_self)
    obtain ⟨taken, left⟩ := ih fun held => inside (mem_cons_of_mem _ held)
    rw [cons_append, takeWhile_cons_of_pos (by simpa using other),
      dropWhile_cons_of_pos (by simpa using other), taken, left]
    exact ⟨rfl, rfl⟩

/-- The text that a snapshot cuts. -/
def tailOf (output : OutputAccumulator) : List Char :=
  (truncateTail output.maxLines output.maxBytes output.getSnapshotText).content

/-- What the whole text is cut to. -/
def wholeTail (output : OutputAccumulator) : List Char :=
  (truncateTail output.maxLines output.maxBytes output.appended).content

/-- Everything about a tail that does not begin with the text: the line it starts in. -/
structure Trimmed (output : OutputAccumulator) (start : List Char) : Prop where
  inside : '\n' ∉ start
  boundary : output.tailStartsAtLineBoundary = true ↔ start = []
  long : output.maxBytes < byteLength (start ++ output.tailText)
  last : ∀ c ∈ start.getLast?, output.maxRollingBytes < byteLength output.tailText + c.utf8Size
  content : wholeTail output =
    joinLines (lastLines output.maxLines output.maxBytes (start ++ output.tailText))

theorem trimmed_of_cut (known : Cut output cut) (some_ : cut ≠ []) :
    ∃ start, Trimmed output start := by
  obtain ⟨front, start, rfl, ended, inside, same⟩ := split_line cut
  have rolling : output.maxRollingBytes = max (output.maxBytes * 2) 1 := rfl
  have last : ∀ c ∈ start.getLast?, output.maxRollingBytes < byteLength output.tailText + c.utf8Size := by
    intro c found
    refine known.long c ?_
    have nonempty : start ≠ [] := by
      rintro rfl
      cases found
    rwa [getLast?_append_of_ne_nil _ nonempty]
  have long : output.maxBytes < byteLength (start ++ output.tailText) := by
    rw [byteLength_append]
    cases start using List.reverseRecOn with
    | nil =>
      rw [append_nil] at known some_
      obtain ⟨before, rfl⟩ := getLast?_eq_some_iff.mp (ended.resolve_left some_)
      have beyond := known.long '\n' (by simp)
      have one : '\n'.utf8Size = 1 := rfl
      rw [byteLength_nil]
      omega
    | append_singleton before c =>
      have beyond := last c (by simp)
      rw [byteLength_append, byteLength_cons]
      omega
  have whole : output.appended = front ++ (start ++ output.tailText) := by
    rw [known.whole, append_assoc]
  refine ⟨start, inside, known.boundary.trans same.symm, long, last, ?_⟩
  have exceeds : ¬ Fits output.maxLines output.maxBytes output.appended := by
    intro fits
    have small := fits.2
    rw [whole, byteLength_append] at small
    omega
  rw [wholeTail, truncateTail_content, if_neg exceeds, whole, lastLines_ended ended long]

theorem content_of_line (trimmed : Trimmed output start) (some_ : start ≠ [])
    (inside : '\n' ∉ output.tailText) :
    (truncateTail output.maxLines output.maxBytes output.tailText).content = wholeTail output := by
  have one : lines (start ++ output.tailText) = [start ++ output.tailText] :=
    lines_of_line (by simp [trimmed.inside, inside]) (by simp [some_])
  rw [trimmed.content, lastLines_long one trimmed.long, truncateTail_content]
  by_cases none : output.maxLines = 0
  · rw [if_pos none, joinLines_nil]
    split
    · next fits =>
      by_contra more
      have few := fits.1
      have counted := length_pos_iff.mpr (lines_ne_nil more)
      omega
    · next exceeds =>
      have full : lastLines output.maxLines output.maxBytes output.tailText = [] := by
        rw [none]
        unfold lastLines
        cases (lines output.tailText).reverse <;> rfl
      rw [full, joinLines_nil]
  · rw [if_neg none, joinLines_singleton]
    have single : output.tailText ≠ [] → lines output.tailText = [output.tailText] :=
      lines_of_line inside
    have few : (lines output.tailText).length ≤ 1 := by
      by_cases empty : output.tailText = []
      · rw [empty]
        exact Nat.zero_le 1
      · rw [single empty]
        exact Nat.le_refl 1
    by_cases small : byteLength output.tailText ≤ output.maxBytes
    · have fits : Fits output.maxLines output.maxBytes output.tailText := ⟨by omega, small⟩
      rw [if_pos fits]
      obtain ⟨before, c, rfl⟩ := eq_nil_or_concat start |>.resolve_left some_
      have beyond := trimmed.last c (by simp)
      have rolling : output.maxRollingBytes = max (output.maxBytes * 2) 1 := rfl
      rw [concat_eq_append, append_assoc, singleton_append,
        truncateStringToBytesFromEnd_fitting before small (by omega)]
    · have exceeds : ¬ Fits output.maxLines output.maxBytes output.tailText :=
        fun fits => small fits.2
      have empty : output.tailText ≠ [] := by
        intro empty
        rw [empty] at small
        exact small (Nat.zero_le _)
      rw [if_neg exceeds, lastLines_long (single empty) (by omega), if_neg none,
        joinLines_singleton, truncateStringToBytesFromEnd_append start (by omega)]

theorem content_of_lines (trimmed : Trimmed output start) (some_ : start ≠ [])
    (split : output.tailText = front ++ '\n' :: rest) (inside : '\n' ∉ front) :
    (truncateTail output.maxLines output.maxBytes rest).content = wholeTail output ↔
      losesEnd output = false := by
  obtain ⟨taken, left⟩ := pieces_split inside rest
  have boundary : output.tailStartsAtLineBoundary = false := by
    cases shown : output.tailStartsAtLineBoundary with
    | false => rfl
    | true => exact absurd (trimmed.boundary.mp shown) some_
  have rolling : output.maxRollingBytes = max (output.maxBytes * 2) 1 := rfl
  have whole : start ++ output.tailText = (start ++ front) ++ '\n' :: rest := by
    rw [split, append_assoc]
  have plain : '\n' ∉ start ++ front := by simp [trimmed.inside, inside]
  obtain ⟨before, c, rfl⟩ := eq_nil_or_concat start |>.resolve_left some_
  have beyond := trimmed.last c (by simp)
  rw [split, byteLength_append, byteLength_cons] at beyond
  have one : '\n'.utf8Size = 1 := rfl
  have long : output.maxBytes < byteLength (before.concat c ++ front) + byteLength rest := by
    rw [concat_eq_append, byteLength_append, byteLength_append, byteLength_cons]
    omega
  unfold losesEnd
  rw [split, taken, left, boundary, trimmed.content, whole, truncateTail_content]
  simp only [Bool.not_false, Bool.true_and]
  by_cases fits : Fits output.maxLines output.maxBytes rest
  · rw [if_pos fits]
    cases rest with
    | nil =>
      have exceeds : output.maxBytes < byteLength (before.concat c ++ front) := by simpa using long
      rw [lastLines_long (lines_of_ended plain) exceeds]
      by_cases none : output.maxLines = 0
      · simp [none]
      rw [if_neg none, joinLines_singleton]
      cases front using List.reverseRecOn with
      | nil =>
        rw [byteLength_nil] at beyond
        rw [append_nil, concat_eq_append] at exceeds ⊢
        refine iff_of_true ((truncateStringToBytesFromEnd_nil exceeds).mpr (by omega)).symm ?_
        simp
      | append_singleton front last =>
        rw [← append_assoc] at exceeds ⊢
        have nothing := truncateStringToBytesFromEnd_nil exceeds
        rw [eq_comm, nothing]
        simp [Nat.pos_of_ne_zero none]
    | cons first others =>
      rw [lastLines_fitting plain (cons_ne_nil _ _) fits long]
      have room : 0 < output.maxLines := by
        have counted := length_pos_iff.mpr (lines_ne_nil (cons_ne_nil first others))
        have few := fits.1
        omega
      by_cases ended : (first :: others).getLast? = some '\n'
      · have shown := joinLines_ended ended
        refine iff_of_false (fun same => shown same.symm) ?_
        simp [room, ended, fits]
      · have shown : TextBytes.hasOpenLine (first :: others) = true := by
          simp [TextBytes.hasOpenLine, ended]
        refine iff_of_true (joinLines_open shown).symm ?_
        simp [ended]
  · rw [if_neg fits, lastLines_behind plain fits]
    refine iff_of_true rfl ?_
    cases rest with
    | nil => exact absurd ⟨Nat.zero_le _, Nat.zero_le _⟩ fits
    | cons first others => simp [fits]

/-- The content of a snapshot is that of the whole text, unless the tail loses the end. -/
theorem content_agrees_iff (tracks : Tracks output) (decoded : output.pendingUtf8PreviewText = []) :
    output.snapshot.content = wholeTail output ↔ losesEnd output = false := by
  obtain ⟨cut, known⟩ := tracks.tail
  have content : output.snapshot.content =
      (truncateTail output.maxLines output.maxBytes output.getSnapshotText).content := rfl
  rw [content, OutputAccumulator.getSnapshotText, decoded, append_nil]
  by_cases none : cut = []
  · subst none
    have whole : output.appended = output.tailText := known.whole
    have boundary : output.tailStartsAtLineBoundary = true := known.boundary.mpr (.inl rfl)
    rw [boundary, if_pos rfl, wholeTail, whole]
    refine iff_of_true rfl ?_
    unfold losesEnd
    rw [boundary]
    simp only [Bool.not_true, Bool.false_and]
    split <;> rfl
  obtain ⟨start, trimmed⟩ := trimmed_of_cut known none
  cases boundary : output.tailStartsAtLineBoundary with
  | true =>
    have begun : start = [] := trimmed.boundary.mp boundary
    have long := trimmed.long
    have shown := trimmed.content
    rw [begun, nil_append] at long shown
    have exceeds : ¬ Fits output.maxLines output.maxBytes output.tailText := by
      intro fits
      have small := fits.2
      omega
    rw [if_pos rfl, shown, truncateTail_content, if_neg exceeds]
    refine iff_of_true rfl ?_
    unfold losesEnd
    rw [boundary]
    simp only [Bool.not_true, Bool.false_and]
    split <;> rfl
  | false =>
    have begun : start ≠ [] := by
      intro empty
      rw [trimmed.boundary.mpr empty] at boundary
      cases boundary
    rw [if_neg (by simp)]
    by_cases found : '\n' ∈ output.tailText
    · obtain ⟨front, rest, split, inside⟩ := eq_append_cons_of_mem found
      have left := (pieces_split inside rest).2
      rw [← split] at left
      rw [left]
      exact content_of_lines trimmed begun split inside
    · have left := pieces_line found
      rw [left]
      refine iff_of_true (content_of_line trimmed begun found) ?_
      unfold losesEnd
      rw [left]

private def longLine : List OutputCall :=
  [.append (utf8Bytes (List.replicate 17 'a' ++ ['\n'])), .finish]

theorem counts_exact_long : ∃ output, runActions call { maxLines := 5, maxBytes := 4 } longLine = some output ∧
    output.totalLines = (lines output.appended).length :=
  ⟨_, rfl, (counts_exact 5 4 longLine rfl).1⟩

/-- The lines of a short output are not counted while its encoding is open. -/
example : ((OutputAccumulator.append { maxLines := 5, maxBytes := 4 } (utf8Bytes ['o', 'k'])).map
    fun output => (output.snapshot.content, output.snapshot.totalLines))
      = some (['o', 'k'], 0) := by
  decide

theorem stripMark_plain (plain : text.head? ≠ some TextDecoder.byteOrderMark) :
    TextDecoder.stripMark bomSeen text = (text, bomSeen || !text.isEmpty) := by
  cases text with
  | nil => simp [TextDecoder.stripMark]
  | cons c rest =>
    have other : c ≠ TextDecoder.byteOrderMark := by simpa using plain
    simp [TextDecoder.stripMark, other]

theorem appendDecodedText_appended (output : OutputAccumulator) (text : List Char) :
    (output.appendDecodedText text).appended = output.appended ++ text := by
  unfold OutputAccumulator.appendDecodedText
  cases text with
  | nil => simp
  | cons c rest =>
    have counted : ∀ other : OutputAccumulator, (other.countLines (c :: rest)).appended = other.appended := by
      intro other
      unfold OutputAccumulator.countLines
      simp only
      split <;> rfl
    rw [isEmpty_cons, if_neg (by simp), counted]
    unfold OutputAccumulator.extendTail
    simp only
    split
    · exact (trimTail_frame _).1
    · rfl

end QiongQi.OutputAccumulators
