import QiongQi.TextDecoders

/-! `applyToolResultBudget`: the head and the tail that are shown of a tool's output where it is
too long, and how many bytes are said to be hidden. -/
namespace QiongQi.ToolResultBudgets
open TextBytes TextDecoders

structure ToolResultBudgetInput where
  toolName : String
  content : List Char
  maxInlineBytes : Option Int := none
  previewHeadBytes : Option Int := none
  previewTailBytes : Option Int := none

structure ToolResultBudgetApplied where
  externalized : Bool
  toolName : String
  modelVisibleText : List Char
  originalBytes : Nat
  omittedBytes : Nat
  persistedPath : Option String := none

def positiveInt (value : Option Int) (fallback : Nat) : Nat :=
  match value with
  | some value => if 0 < value then value.toNat else fallback
  | none => fallback

/-- `Buffer.toString('utf8')` -/
def bufferText (bytes : List Nat) : List Char :=
  let (text, final) := (inUtf8 true {}).readBytes bytes
  text ++ final.atEnd

def utf8ByteSlice (text : List Char) (startByte endByte : Nat) : List Char :=
  bufferText (((utf8Bytes text).take endByte).drop startByte)

structure Preview where
  persistedPath : Option String
  originalBytes : Nat
  omittedBytes : Nat
  head : List Char
  tail : List Char

def formatPreview (input : Preview) : List Char :=
  let counted := s!"[tool output omitted: {input.omittedBytes} of {input.originalBytes} bytes hidden]"
  let pathLine := input.persistedPath.elim "" fun path => s!"Full output: {path}"
  ['\n'].intercalate <| ([counted.toList, pathLine.toList, "--- head ---".toList, input.head,
    "--- tail ---".toList, input.tail]).filter fun part => 0 < part.length

def headBytes (input : ToolResultBudgetInput) : Nat := positiveInt input.previewHeadBytes (4 * 1024)

def tailBytes (input : ToolResultBudgetInput) : Nat := positiveInt input.previewTailBytes (4 * 1024)

/-- The preview of a content, which was written to a file if it has a path. -/
def previewOf (input : ToolResultBudgetInput) (persistedPath : Option String) : Preview :=
  let originalBytes := byteLength input.content
  let head := utf8ByteSlice input.content 0 (headBytes input)
  let tail := utf8ByteSlice input.content (originalBytes - tailBytes input) originalBytes
  { persistedPath, originalBytes, head, tail
    omittedBytes := originalBytes - byteLength head - byteLength tail }

def applyToolResultBudget (input : ToolResultBudgetInput) (persistedPath : Option String) :
    ToolResultBudgetApplied :=
  let maxInlineBytes := positiveInt input.maxInlineBytes (64 * 1024)
  let originalBytes := byteLength input.content
  if originalBytes ≤ maxInlineBytes then
    { externalized := false, toolName := input.toolName, modelVisibleText := input.content
      originalBytes, omittedBytes := 0 }
  else
    let preview := previewOf input persistedPath
    { externalized := true, toolName := input.toolName
      modelVisibleText := formatPreview preview
      originalBytes, omittedBytes := preview.omittedBytes, persistedPath }

/-- The head and the tail are stretches of the content of at most their sizes that do not
overlap, and all bytes between them are counted. -/
structure Exact (content : List Char) (headBytes tailBytes : Nat) (preview : Preview) : Prop where
  head : preview.head <+: content
  tail : preview.tail <:+ content
  headSize : byteLength preview.head ≤ headBytes
  tailSize : byteLength preview.tail ≤ tailBytes
  apart : byteLength preview.head + byteLength preview.tail ≤ byteLength content
  omitted : byteLength preview.head + byteLength preview.tail + preview.omittedBytes = byteLength content

/-- A character ends after so many bytes. -/
def IsCut (content : List Char) (count : Nat) : Prop :=
  ∃ front back, content = front ++ back ∧ byteLength front = count

theorem utf8Char_length : (utf8Char c).length = c.utf8Size := by
  have bound : ∀ limit : UInt32, c.val ≤ limit ↔ c.toNat ≤ limit.toNat := fun _ => UInt32.le_iff_toNat_le
  unfold utf8Char Char.utf8Size
  simp only [bound]
  split_ifs <;> simp_all <;> omega

theorem utf8Bytes_length : (utf8Bytes text).length = byteLength text := by
  induction text with
  | nil => rfl
  | cons c rest ih =>
    rw [byteLength_cons, ← ih, ← utf8Char_length, ← List.length_append]
    rfl

theorem utf8Bytes_append :
    utf8Bytes (front ++ back) = utf8Bytes front ++ utf8Bytes back := List.flatMap_append

/-- A count of bytes ends between two characters or inside one. -/
theorem cut_cases (within : count ≤ byteLength content) :
    IsCut content count ∨ ∃ front c back, content = front ++ c :: back ∧
      byteLength front < count ∧ count < byteLength front + c.utf8Size := by
  induction content generalizing count with
  | nil => exact .inl ⟨[], [], rfl, (Nat.le_zero.mp within).symm⟩
  | cons c rest ih =>
    rw [byteLength_cons] at within
    by_cases first : count = 0
    · exact .inl ⟨[], c :: rest, rfl, first.symm⟩
    by_cases inside : count < c.utf8Size
    · exact .inr ⟨[], c, rest, rfl, by simp; omega, by simpa using inside⟩
    · rcases @ih (count - c.utf8Size) (by omega) with
        ⟨front, back, rfl, size⟩ | ⟨front, d, back, rfl, low, high⟩
      · exact .inl ⟨c :: front, back, rfl, by rw [byteLength_cons]; omega⟩
      · exact .inr ⟨c :: front, d, back, rfl, by rw [byteLength_cons]; omega, by rw [byteLength_cons]; omega⟩

theorem bufferText_append : bufferText (utf8Bytes text ++ bytes) = text ++ bufferText bytes := by
  simp only [bufferText, readBytes_append, readBytes_utf8Bytes, List.append_assoc]

theorem bufferText_bytes : bufferText (utf8Bytes text) = text := by
  rw [← List.append_nil (utf8Bytes text), bufferText_append]
  exact List.append_nil text

/-- The first bytes of a character. -/
theorem bufferText_part (some_ : 0 < count) (part : count < c.utf8Size) :
    bufferText ((utf8Char c).take count) = [replacement] := by
  obtain ⟨state, needed, read⟩ := readBytes_part true some_ (by rwa [utf8Char_length])
  rw [bufferText, read]
  exact if_neg needed

/-- The bytes of a character without its first ones. -/
theorem bufferText_rest (some_ : 0 < count) : bufferText ((utf8Char c).drop count ++ bytes) =
      List.replicate (c.utf8Size - count) replacement ++ bufferText bytes := by
  have late : ∀ byte ∈ (utf8Char c).drop count, 0x80 ≤ byte ∧ byte ≤ 0xbf := by
    intro byte held
    obtain ⟨earlier, rfl⟩ : ∃ earlier, count = earlier + 1 := ⟨count - 1, by omega⟩
    rw [← List.drop_tail] at held
    exact utf8Char_tail byte (List.mem_of_mem_drop held)
  rw [← utf8Char_length, ← List.length_drop]
  generalize (utf8Char c).drop count = lost at late
  induction lost with
  | nil => rfl
  | cons byte others ih =>
    have lead : utf8Byte {} byte = ([replacement], {}) := by
      have bounds := late byte List.mem_cons_self
      show utf8Lead byte = _
      simp [utf8Lead, show ¬ byte ≤ 0x7f by omega, show ¬ 0xc2 ≤ byte by omega,
        show ¬ 0xe0 ≤ byte by omega, show ¬ 0xf0 ≤ byte by omega]
    have others := ih fun other held => late other (List.mem_cons_of_mem _ held)
    have read : ∀ rest, bufferText (byte :: rest) = replacement :: bufferText rest := by
      intro rest
      show (let (text, final) := (inUtf8 true {}).readBytes (byte :: rest); text ++ final.atEnd) = _
      simp only [TextDecoder.readBytes, TextDecoder.readByte, inUtf8, lead]
      rfl
    rw [List.cons_append, read, others, List.length_cons, List.replicate_succ, List.cons_append]

theorem head_slice : utf8ByteSlice (front ++ back) 0 (byteLength front) = front := by
  rw [utf8ByteSlice, List.drop_zero, ← utf8Bytes_length, utf8Bytes_append, List.take_left, bufferText_bytes]

theorem tail_slice :
    utf8ByteSlice (front ++ back) (byteLength front) (byteLength (front ++ back)) = back := by
  rw [utf8ByteSlice, List.take_of_length_le (by rw [utf8Bytes_length]), ← utf8Bytes_length,
    utf8Bytes_append, List.drop_left, bufferText_bytes]

/-- A head is cut between two characters, or ends with a replacement. -/
theorem head_cases (within : count ≤ byteLength content) :
    (IsCut content count ∧ byteLength (utf8ByteSlice content 0 count) = count) ∨
    ∃ front c back, content = front ++ c :: back ∧ count < byteLength front + c.utf8Size ∧
      utf8ByteSlice content 0 count = front ++ [replacement] := by
  rcases cut_cases within with ⟨front, back, rfl, rfl⟩ | ⟨front, c, back, rfl, low, high⟩
  · exact .inl ⟨⟨front, back, rfl, rfl⟩, by rw [head_slice]⟩
  · refine .inr ⟨front, c, back, rfl, high, ?_⟩
    have bytes : (utf8Bytes (front ++ c :: back)).take count =
        utf8Bytes front ++ (utf8Char c).take (count - byteLength front) := by
      rw [utf8Bytes_append, List.take_append,
        List.take_of_length_le (by rw [utf8Bytes_length]; omega), utf8Bytes_length]
      show _ ++ (utf8Char c ++ utf8Bytes back).take _ = _
      rw [List.take_append_of_le_length (by rw [utf8Char_length]; omega)]
    rw [utf8ByteSlice, List.drop_zero, bytes, bufferText_append, bufferText_part (by omega) (by omega)]

/-- A tail is cut between two characters, or begins with a replacement of each byte that is
left of a character. -/
theorem tail_cases (content : List Char) (within : start ≤ byteLength content) :
    (IsCut content start ∧ byteLength (utf8ByteSlice content start (byteLength content)) =
      byteLength content - start) ∨
    ∃ front c back lost, content = front ++ c :: back ∧ byteLength front < start ∧ 0 < lost ∧
      byteLength front + c.utf8Size = start + lost ∧
      utf8ByteSlice content start (byteLength content) = List.replicate lost replacement ++ back := by
  rcases cut_cases within with ⟨front, back, rfl, rfl⟩ | ⟨front, c, back, rfl, low, high⟩
  · exact .inl ⟨⟨front, back, rfl, rfl⟩, by rw [tail_slice, byteLength_append]; omega⟩
  · refine .inr ⟨front, c, back, byteLength front + c.utf8Size - start, rfl, low, by omega, by omega, ?_⟩
    have bytes : (utf8Bytes (front ++ c :: back)).drop start =
        (utf8Char c).drop (start - byteLength front) ++ utf8Bytes back := by
      rw [utf8Bytes_append, List.drop_append,
        List.drop_of_length_le (by rw [utf8Bytes_length]; omega), utf8Bytes_length,
        List.nil_append]
      show (utf8Char c ++ utf8Bytes back).drop _ = _
      rw [List.drop_append_of_le_length (by rw [utf8Char_length]; omega)]
    rw [utf8ByteSlice, List.take_of_length_le (by rw [utf8Bytes_length]), bytes,
      bufferText_rest (by omega), bufferText_bytes,
      show c.utf8Size - (start - byteLength front) = byteLength front + c.utf8Size - start by omega]

theorem positiveInt_pos (positive : 0 < fallback) : 0 < positiveInt value fallback := by
  unfold positiveInt
  split
  · split
    · omega
    · exact positive
  · exact positive

theorem byteLength_lost :
    byteLength (List.replicate lost replacement ++ back) = lost * 3 + byteLength back := by
  have three : replacement.utf8Size = 3 := by decide
  rw [byteLength_append, byteLength, List.map_replicate, List.sum_replicate_nat, three]

theorem whole_slice (enough : byteLength content ≤ count) :
    utf8ByteSlice content 0 count = content := by
  rw [utf8ByteSlice, List.drop_zero, List.take_of_length_le (by rwa [utf8Bytes_length]), bufferText_bytes]

/-- An exact head or tail is cut between two characters. -/
theorem head_cut (exact_ : Exact content head tail preview) (within : head ≤ byteLength content)
    (shown : preview.head = utf8ByteSlice content 0 head) :
    IsCut content head ∧ byteLength preview.head = head := by
  rcases head_cases within with ⟨cut, size⟩ | ⟨front, c, back, rfl, high, slice⟩
  · rw [shown]
    exact ⟨cut, size⟩
  · have size := exact_.headSize
    have start := exact_.head
    rw [shown, slice] at size start
    have same : [replacement] <+: c :: back := (List.prefix_append_right_inj front).mp start
    obtain rfl : replacement = c := (List.cons_prefix_cons.mp same).1
    rw [byteLength_append, byteLength_cons] at size
    omega

theorem tail_cut (exact_ : Exact content head tail preview)
    (shown : preview.tail = utf8ByteSlice content (byteLength content - tail) (byteLength content)) :
    IsCut content (byteLength content - tail) ∧
      byteLength preview.tail = byteLength content - (byteLength content - tail) := by
  rcases tail_cases content (Nat.sub_le _ tail) with
    ⟨cut, size⟩ | ⟨front, c, back, lost, rfl, low, some_, ends, slice⟩
  · rw [shown]
    exact ⟨cut, size⟩
  · have size := exact_.tailSize
    rw [shown, slice, byteLength_lost] at size
    rw [byteLength_append, byteLength_cons] at low ends
    omega

/-- The preview of a content that is put into a file is exact if and only if both parts are cut
between two characters and do not meet. -/
theorem preview_exact_iff {input : ToolResultBudgetInput} {persistedPath : Option String}
    (external : (applyToolResultBudget input persistedPath).externalized = true) :
    ((applyToolResultBudget input persistedPath).omittedBytes = (previewOf input persistedPath).omittedBytes ∧
        (applyToolResultBudget input persistedPath).modelVisibleText =
          formatPreview (previewOf input persistedPath)) ∧
      (Exact input.content (headBytes input) (tailBytes input) (previewOf input persistedPath) ↔
        headBytes input + tailBytes input ≤ byteLength input.content ∧ IsCut input.content (headBytes input) ∧
          IsCut input.content (byteLength input.content - tailBytes input)) := by
  have longer : ¬ byteLength input.content ≤ positiveInt input.maxInlineBytes (64 * 1024) := by
    intro short
    simp [applyToolResultBudget, short] at external
  have some_ : 0 < byteLength input.content := by omega
  have headSome : 0 < headBytes input := positiveInt_pos (by decide)
  have tailSome : 0 < tailBytes input := positiveInt_pos (by decide)
  refine ⟨by simp [applyToolResultBudget, longer], ?_⟩
  constructor
  · intro exact_
    obtain ⟨tailCut, tailSize⟩ := tail_cut exact_ rfl
    have apart := exact_.apart
    have within : headBytes input ≤ byteLength input.content := by
      by_contra beyond
      have whole : (previewOf input persistedPath).head = input.content :=
        whole_slice (by omega)
      rw [whole] at apart
      omega
    obtain ⟨headCut, headSize⟩ := head_cut exact_ within rfl
    exact ⟨by omega, headCut, tailCut⟩
  · rintro ⟨fits, ⟨front, rest, wholeFront, sizeFront⟩, first, back, wholeBack, sizeBack⟩
    have head : (previewOf input persistedPath).head = front := by
      show utf8ByteSlice input.content 0 (headBytes input) = front
      rw [wholeFront, ← sizeFront, head_slice]
    have tail : (previewOf input persistedPath).tail = back := by
      show utf8ByteSlice input.content (byteLength input.content - tailBytes input) _ = back
      rw [← sizeBack, wholeBack, tail_slice]
    have total := congrArg byteLength wholeBack
    rw [byteLength_append] at total
    have omitted : (previewOf input persistedPath).omittedBytes =
        byteLength input.content - byteLength front - byteLength back := by
      rw [← head, ← tail]
      rfl
    constructor
    · exact head ▸ ⟨rest, wholeFront.symm⟩
    · exact tail ▸ ⟨first, wholeBack.symm⟩
    all_goals
      simp only [head, tail, omitted]
      omega

/-- An output that is too long, with two bytes to be shown at each end. -/
def longOutput (content : List Char) : ToolResultBudgetInput :=
  { toolName := "bash", content, maxInlineBytes := some 4, previewHeadBytes := some 2
    previewTailBytes := some 2 }

theorem preview_exact_letters :
    Exact "letters".toList 2 2 (previewOf (longOutput "letters".toList) none) :=
  (@preview_exact_iff (longOutput "letters".toList) none (by decide)).2.mpr
    ⟨by decide, ⟨"le".toList, "tters".toList, rfl, rfl⟩,
      ⟨"lette".toList, "rs".toList, rfl, by decide⟩⟩

/-- A head that ends inside a character shows another one in its place. -/
theorem cut_character_replaced :
    (applyToolResultBudget (longOutput "aé, thé".toList) none).externalized = true ∧
      (previewOf (longOutput "aé, thé".toList) none).head = ['a', replacement] ∧
      ¬ Exact "aé, thé".toList 2 2 (previewOf (longOutput "aé, thé".toList) none) := by
  refine ⟨by decide, by decide, fun exact_ => ?_⟩
  exact absurd exact_.headSize (by decide)

end QiongQi.ToolResultBudgets
