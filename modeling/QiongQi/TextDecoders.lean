import QiongQi.TextBytes

/-! `TextDecoder` for UTF-8 and UTF-16LE, as the Encoding Standard runs it: byte by byte, with a
replacement character for what is malformed. Bytes are numbers below 256. -/
namespace QiongQi.TextDecoders
open TextBytes

def replacement : Char := Char.ofNat 0xfffd

/-- The bytes of a character that are read already, and the range of the next one. -/
structure Utf8State where
  codePoint : Nat := 0
  bytesNeeded : Nat := 0
  lowerBoundary : Nat := 0x80
  upperBoundary : Nat := 0xbf

/-- A byte where a character starts. -/
def utf8Lead (byte : Nat) : List Char × Utf8State :=
  if byte ≤ 0x7f then ([Char.ofNat byte], {})
  else if 0xc2 ≤ byte ∧ byte ≤ 0xdf then ([], { codePoint := byte - 0xc0, bytesNeeded := 1 })
  else if 0xe0 ≤ byte ∧ byte ≤ 0xef then
    ([], { codePoint := byte - 0xe0, bytesNeeded := 2
           lowerBoundary := if byte = 0xe0 then 0xa0 else 0x80
           upperBoundary := if byte = 0xed then 0x9f else 0xbf })
  else if 0xf0 ≤ byte ∧ byte ≤ 0xf4 then
    ([], { codePoint := byte - 0xf0, bytesNeeded := 3
           lowerBoundary := if byte = 0xf0 then 0x90 else 0x80
           upperBoundary := if byte = 0xf4 then 0x8f else 0xbf })
  else ([replacement], {})

/-- A byte that does not go on with the character is read again, as the start of one. -/
def utf8Byte (state : Utf8State) (byte : Nat) : List Char × Utf8State :=
  if state.bytesNeeded = 0 then utf8Lead byte
  else if byte < state.lowerBoundary ∨ state.upperBoundary < byte then
    let (text, next) := utf8Lead byte
    (replacement :: text, next)
  else
    let codePoint := state.codePoint * 64 + (byte - 0x80)
    if state.bytesNeeded = 1 then ([Char.ofNat codePoint], {})
    else ([], { codePoint, bytesNeeded := state.bytesNeeded - 1 })

def utf8End (state : Utf8State) : List Char :=
  if state.bytesNeeded = 0 then [] else [replacement]

structure Utf16State where
  leadByte : Option Nat := none
  leadSurrogate : Option Nat := none

def utf16Unit (codeUnit : Nat) : List Char × Utf16State :=
  if 0xd800 ≤ codeUnit ∧ codeUnit ≤ 0xdbff then ([], { leadSurrogate := some codeUnit })
  else if 0xdc00 ≤ codeUnit ∧ codeUnit ≤ 0xdfff then ([replacement], {})
  else ([Char.ofNat codeUnit], {})

/-- A unit that does not complete the surrogate pair is read again by itself. -/
def utf16Byte (state : Utf16State) (byte : Nat) : List Char × Utf16State :=
  match state.leadByte with
  | none => ([], { state with leadByte := some byte })
  | some low =>
    let codeUnit := byte * 256 + low
    match state.leadSurrogate with
    | none => utf16Unit codeUnit
    | some lead =>
      if 0xdc00 ≤ codeUnit ∧ codeUnit ≤ 0xdfff then
        ([Char.ofNat (0x10000 + (lead - 0xd800) * 1024 + (codeUnit - 0xdc00))], {})
      else
        let (text, next) := utf16Unit codeUnit
        (replacement :: text, next)

def utf16End (state : Utf16State) : List Char :=
  if state.leadByte.isSome || state.leadSurrogate.isSome then [replacement] else []

inductive OutputTextEncoding where
  | utf8 | utf16le
  deriving DecidableEq

/-- `bomSeen` is set by the first character, which is left out if it is a byte order mark. -/
structure TextDecoder where
  encoding : OutputTextEncoding
  bomSeen : Bool := false
  utf8 : Utf8State := {}
  utf16 : Utf16State := {}

namespace TextDecoder

def readByte (decoder : TextDecoder) (byte : Nat) : List Char × TextDecoder :=
  match decoder.encoding with
  | .utf8 =>
    let (text, utf8) := utf8Byte decoder.utf8 byte
    (text, { decoder with utf8 })
  | .utf16le =>
    let (text, utf16) := utf16Byte decoder.utf16 byte
    (text, { decoder with utf16 })

def readBytes (decoder : TextDecoder) : List Nat → List Char × TextDecoder
  | [] => ([], decoder)
  | byte :: rest =>
    let (text, next) := readByte decoder byte
    let (more, final) := readBytes next rest
    (text ++ more, final)

def atEnd (decoder : TextDecoder) : List Char :=
  match decoder.encoding with
  | .utf8 => utf8End decoder.utf8
  | .utf16le => utf16End decoder.utf16

def byteOrderMark : Char := Char.ofNat 0xfeff

def stripMark (bomSeen : Bool) (text : List Char) : List Char × Bool :=
  match text with
  | [] => ([], bomSeen)
  | c :: rest => (if !bomSeen && c = byteOrderMark then rest else c :: rest, true)

/-- `decoder.decode(bytes, { stream })`. Without `stream` the decoder starts over afterwards. -/
def decode (decoder : TextDecoder) (bytes : List Nat) (stream : Bool) : List Char × TextDecoder :=
  let (text, next) := readBytes decoder bytes
  if stream then
    let (shown, bomSeen) := stripMark decoder.bomSeen text
    (shown, { next with bomSeen })
  else ((stripMark decoder.bomSeen (text ++ atEnd next)).1, { encoding := decoder.encoding })

end TextDecoder

/-- `new TextDecoder(encoding).decode(bytes)`. -/
def decodeAll (encoding : OutputTextEncoding) (bytes : List Nat) : List Char :=
  ({ encoding : TextDecoder }.decode bytes false).1

/-- `Buffer.from(text, 'utf8')`, of one character. -/
def utf8Char (c : Char) : List Nat :=
  let n := c.toNat
  if n < 0x80 then [n]
  else if n < 0x800 then [0xc0 + n / 64, 0x80 + n % 64]
  else if n < 0x10000 then [0xe0 + n / 4096, 0x80 + n / 64 % 64, 0x80 + n % 64]
  else [0xf0 + n / 262144, 0x80 + n / 4096 % 64, 0x80 + n / 64 % 64, 0x80 + n % 64]

def utf8Bytes (text : List Char) : List Nat := text.flatMap utf8Char

private theorem ofNat_eq (same : n = c.toNat) : Char.ofNat n = c := by
  rw [same]
  exact Char.ofNat_toNat c

theorem readBytes_append (first second : List Nat) :
    ∀ decoder : TextDecoder, decoder.readBytes (first ++ second) =
      ((decoder.readBytes first).1 ++ ((decoder.readBytes first).2.readBytes second).1,
        ((decoder.readBytes first).2.readBytes second).2) := by
  induction first with
  | nil => exact fun _ => rfl
  | cons byte rest ih =>
    intro decoder
    simp only [List.cons_append, TextDecoder.readBytes, ih, List.append_assoc]

variable {state : Utf8State}

private theorem lead_two (low : 0xc2 ≤ byte) (high : byte ≤ 0xdf) :
    utf8Byte {} byte = ([], { codePoint := byte - 0xc0, bytesNeeded := 1 }) := by
  have lead : utf8Byte {} byte = utf8Lead byte := rfl
  rw [lead, utf8Lead, if_neg (by omega), if_pos ⟨low, high⟩]

private theorem lead_three (low : 0xe0 ≤ byte) (high : byte ≤ 0xef) :
    utf8Byte {} byte = ([], { codePoint := byte - 0xe0, bytesNeeded := 2
                              lowerBoundary := if byte = 0xe0 then 0xa0 else 0x80
                              upperBoundary := if byte = 0xed then 0x9f else 0xbf }) := by
  have lead : utf8Byte {} byte = utf8Lead byte := rfl
  rw [lead, utf8Lead, if_neg (by omega), if_neg (by omega), if_pos ⟨low, high⟩]

private theorem lead_four (low : 0xf0 ≤ byte) (high : byte ≤ 0xf4) :
    utf8Byte {} byte = ([], { codePoint := byte - 0xf0, bytesNeeded := 3
                              lowerBoundary := if byte = 0xf0 then 0x90 else 0x80
                              upperBoundary := if byte = 0xf4 then 0x8f else 0xbf }) := by
  have lead : utf8Byte {} byte = utf8Lead byte := rfl
  rw [lead, utf8Lead, if_neg (by omega), if_neg (by omega), if_neg (by omega), if_pos ⟨low, high⟩]

private theorem next_byte (needed : 2 ≤ state.bytesNeeded) (low : state.lowerBoundary ≤ byte)
    (high : byte ≤ state.upperBoundary) :
    utf8Byte state byte = ([], { codePoint := state.codePoint * 64 + (byte - 0x80)
                                 bytesNeeded := state.bytesNeeded - 1 }) := by
  rw [utf8Byte, if_neg (by omega), if_neg (by omega)]
  exact if_neg (by omega)

private theorem last_byte (c : Char) (needed : state.bytesNeeded = 1)
    (low : state.lowerBoundary ≤ byte) (high : byte ≤ state.upperBoundary)
    (point : state.codePoint * 64 + (byte - 0x80) = c.toNat) : utf8Byte state byte = ([c], {}) := by
  rw [utf8Byte, if_neg (by omega), if_neg (by omega)]
  exact (if_pos needed).trans (by rw [ofNat_eq point])

/-- A decoder of UTF-8 between two bytes. -/
def inUtf8 (bomSeen : Bool) (state : Utf8State) : TextDecoder :=
  { encoding := .utf8, bomSeen, utf8 := state }

private theorem readBytes_step (read : utf8Byte state byte = (text, next)) :
    (inUtf8 bomSeen state).readBytes (byte :: rest) = (text ++ ((inUtf8 bomSeen next).readBytes rest).1,
        ((inUtf8 bomSeen next).readBytes rest).2) := by
  have first : (inUtf8 bomSeen state).readByte byte = (text, inUtf8 bomSeen next) := by
    show ((utf8Byte state byte).1, inUtf8 bomSeen (utf8Byte state byte).2) = _
    rw [read]
  simp only [TextDecoder.readBytes, first]

theorem readBytes_utf8Char (bomSeen : Bool) (c : Char) :
    (inUtf8 bomSeen {}).readBytes (utf8Char c) = ([c], inUtf8 bomSeen {}) := by
  have valid : c.toNat < 0xd800 ∨ 0xdfff < c.toNat ∧ c.toNat < 0x110000 := c.valid
  unfold utf8Char
  generalize point : c.toNat = n at valid
  by_cases one : n < 0x80
  · have lead : utf8Byte {} n = utf8Lead n := rfl
    rw [utf8Lead, if_pos (by omega), ofNat_eq point.symm] at lead
    rw [if_pos one, readBytes_step lead]
    rfl
  by_cases two : n < 0x800
  · rw [if_neg one, if_pos two, readBytes_step (lead_two (by omega) (by omega)),
      readBytes_step (last_byte c rfl (by simp) (by simp; omega) (by simp; omega))]
    rfl
  by_cases three : n < 0x10000
  · rw [if_neg one, if_neg two, if_pos three, readBytes_step (lead_three (by omega) (by omega)),
      readBytes_step (next_byte (by simp) ?_ ?_),
      readBytes_step (last_byte c rfl (by simp) (by simp; omega) (by simp; omega))]
    · rfl
    all_goals
      simp only
      split <;> omega
  · rw [if_neg one, if_neg two, if_neg three, readBytes_step (lead_four (by omega) (by omega)),
      readBytes_step (next_byte (by simp) ?_ ?_),
      readBytes_step (next_byte (by simp) (by simp) (by simp; omega)),
      readBytes_step (last_byte c rfl (by simp) (by simp; omega) (by simp; omega))]
    · rfl
    all_goals
      simp only
      split <;> omega

theorem readBytes_part (bomSeen : Bool) (some_ : 0 < count)
    (part : count < (utf8Char c).length) : ∃ state, state.bytesNeeded ≠ 0 ∧
      (inUtf8 bomSeen {}).readBytes ((utf8Char c).take count) = ([], inUtf8 bomSeen state) := by
  have valid : c.toNat < 0xd800 ∨ 0xdfff < c.toNat ∧ c.toNat < 0x110000 := c.valid
  unfold utf8Char at part ⊢
  generalize c.toNat = n at valid part ⊢
  obtain ⟨more, rfl⟩ : ∃ more, count = more + 1 := ⟨count - 1, by omega⟩
  by_cases one : n < 0x80
  · simp [one] at part
  by_cases two : n < 0x800
  · obtain rfl : more = 0 := by simp [one, two] at part; omega
    rw [if_neg one, if_pos two, List.take_succ_cons, readBytes_step (lead_two (by omega) (by omega))]
    exact ⟨_, by simp, rfl⟩
  by_cases three : n < 0x10000
  · rw [if_neg one, if_neg two, if_pos three, List.take_succ_cons,
      readBytes_step (lead_three (by omega) (by omega))]
    obtain rfl | rfl : more = 0 ∨ more = 1 := by simp [one, two, three] at part; omega
    · exact ⟨_, by simp, rfl⟩
    · rw [List.take_succ_cons, readBytes_step (next_byte (by simp) ?_ ?_)]
      · exact ⟨_, by simp, rfl⟩
      all_goals
        simp only
        split <;> omega
  · rw [if_neg one, if_neg two, if_neg three, List.take_succ_cons,
      readBytes_step (lead_four (by omega) (by omega))]
    obtain rfl | ⟨later, rfl, last⟩ : more = 0 ∨ ∃ later, more = later + 1 ∧ later ≤ 1 := by
      simp [one, two, three] at part
      exact (Nat.eq_zero_or_pos more).imp_right fun _ => ⟨more - 1, by omega, by omega⟩
    · exact ⟨_, by simp, rfl⟩
    · rw [List.take_succ_cons, readBytes_step (next_byte (by simp) ?_ ?_)]
      · obtain rfl | rfl : later = 0 ∨ later = 1 := by omega
        · exact ⟨_, by simp, rfl⟩
        · rw [List.take_succ_cons, readBytes_step (next_byte (by simp) (by simp) (by simp; omega))]
          exact ⟨_, by simp, rfl⟩
      all_goals
        simp only
        split <;> omega

theorem utf8Char_tail : ∀ byte ∈ (utf8Char c).tail, 0x80 ≤ byte ∧ byte ≤ 0xbf := by
  unfold utf8Char
  dsimp only
  split_ifs <;> simp <;> omega

theorem readBytes_utf8Bytes (bomSeen : Bool) (text : List Char) :
    (inUtf8 bomSeen {}).readBytes (utf8Bytes text) = (text, inUtf8 bomSeen {}) := by
  induction text with
  | nil => rfl
  | cons c rest ih =>
    have split : utf8Bytes (c :: rest) = utf8Char c ++ utf8Bytes rest := rfl
    rw [split, readBytes_append, readBytes_utf8Char, ih]
    rfl

end QiongQi.TextDecoders
