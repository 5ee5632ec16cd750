import QiongQi.OutputAccumulators
import QiongQi.Utf16Readings

/-! What an `OutputAccumulator` makes of the bytes of a text, whatever chunks they come in. The
encoding is chosen from the first of them, and what follows is decoded as it comes. -/
namespace QiongQi.DecodedChunks
open Machines TextBytes TextDecoders OutputAccumulators Utf16Readings List

theorem readBytes_bomSeen : ∀ decoder : TextDecoder,
    ({ decoder with bomSeen } : TextDecoder).readBytes bytes =
      ((decoder.readBytes bytes).1, { (decoder.readBytes bytes).2 with bomSeen }) := by
  induction bytes with
  | nil => exact fun _ => rfl
  | cons byte rest ih =>
    intro decoder
    have step : ({ decoder with bomSeen } : TextDecoder).readByte byte =
        ((decoder.readByte byte).1, { (decoder.readByte byte).2 with bomSeen }) := by
      unfold TextDecoder.readByte
      cases decoder.encoding <;> rfl
    simp only [TextDecoder.readBytes, step, ih]

theorem stripMark_append : (TextDecoder.stripMark bomSeen (front ++ back)).1 =
      (TextDecoder.stripMark bomSeen front).1 ++
        (TextDecoder.stripMark (TextDecoder.stripMark bomSeen front).2 back).1 := by
  cases front with
  | nil => rfl
  | cons c rest =>
    have second : (TextDecoder.stripMark bomSeen (c :: rest)).2 = true := rfl
    have seen : (TextDecoder.stripMark true back).1 = back := by
      cases back <;> rfl
    rw [second, seen, cons_append]
    simp only [TextDecoder.stripMark]
    split <;> rfl

theorem decode_append (decoder : TextDecoder) :
    (decoder.decode front true).1 ++ ((decoder.decode front true).2.decode back false).1 =
      (decoder.decode (front ++ back) false).1 := by
  have atEnd : ∀ (decoder : TextDecoder) (bomSeen : Bool),
      ({ decoder with bomSeen } : TextDecoder).atEnd = decoder.atEnd := fun _ _ => rfl
  simp only [TextDecoder.decode, if_true, Bool.false_eq_true, if_false, readBytes_append,
    readBytes_bomSeen, atEnd, append_assoc]
  exact stripMark_append.symm

/-- The encoding that is chosen with these bytes buffered and these chunks to come. -/
def firstChoice (buffer : List Nat) : List (List Nat) → Option OutputTextEncoding
  | [] => chooseOutputEncoding buffer true
  | chunk :: rest =>
    (chooseOutputEncoding (buffer ++ chunk) false).or (firstChoice (buffer ++ chunk) rest)

theorem startsWith_append {mark front : List Nat} (enough : mark.length ≤ front.length) :
    mark.isPrefixOf (front ++ back) = mark.isPrefixOf front := by
  rw [Bool.eq_iff_iff, isPrefixOf_iff_prefix, isPrefixOf_iff_prefix]
  exact ⟨fun found => prefix_of_prefix_length_le found (prefix_append _ _) enough,
    fun found => found.trans (prefix_append _ _)⟩

private theorem drop_append (mark : List Nat) {front : List Nat}
    (enough : mark.length ≤ front.length) (back : List Nat) :
    (if mark.isPrefixOf (front ++ back) then (front ++ back).drop mark.length else front ++ back) =
      (if mark.isPrefixOf front then front.drop mark.length else front) ++ back := by
  rw [startsWith_append enough]
  split
  · exact drop_append_of_le_length enough
  · rfl

variable {buffer : List Nat}

theorem looks_long (looks : looksLikeUtf16Le buffer = true) : 4 ≤ buffer.length := by
  unfold looksLikeUtf16Le at looks
  split at looks
  · cases looks
  · omega

/-- By then the bytes of a mark are all there. -/
theorem stripKnownBom_append (chosen : chooseOutputEncoding buffer false = some encoding) :
    stripKnownBom (buffer ++ back) encoding = stripKnownBom buffer encoding ++ back := by
  have wide : encoding = .utf16le → 2 ≤ buffer.length := by
    rintro rfl
    unfold chooseOutputEncoding at chosen
    split at chosen
    · rename_i found
      rcases Bool.or_eq_true_iff.mp found with mark | looks
      · exact (List.isPrefixOf_iff_prefix.mp mark).length_le
      · have long := looks_long looks
        omega
    · split at chosen
      · cases chosen
      · split at chosen <;> cases chosen
  have wide8 : encoding = .utf8 → 3 ≤ buffer.length := by
    rintro rfl
    unfold chooseOutputEncoding at chosen
    split at chosen
    · cases chosen
    · split at chosen
      · rename_i mark
        exact (List.isPrefixOf_iff_prefix.mp mark).length_le
      · split at chosen
        · rename_i enough
          simp at enough
          omega
        · cases chosen
  cases encoding with
  | utf8 => exact drop_append [0xef, 0xbb, 0xbf] (wide8 rfl) back
  | utf16le => exact drop_append [0xff, 0xfe] (wide rfl) back

def decodedText (maxLines maxBytes : Nat) (chunks : List (List Nat)) : Option (List Char) :=
  (runActions call { maxLines, maxBytes } (chunks.map .append ++ [.finish])).map
    OutputAccumulator.appended

section
variable {output : OutputAccumulator}

theorem appendDecodedText_finished :
    (output.appendDecodedText text).finished = output.finished := by
  unfold OutputAccumulator.appendDecodedText
  split
  · rfl
  have counted : ∀ other : OutputAccumulator, (other.countLines text).finished = other.finished := by
    intro other
    unfold OutputAccumulator.countLines
    dsimp only
    split <;> rfl
  have trimmed : ∀ other : OutputAccumulator, other.trimTail.finished = other.finished := by
    intro other
    unfold OutputAccumulator.trimTail
    dsimp only
    split <;> rfl
  rw [counted]
  unfold OutputAccumulator.extendTail
  dsimp only
  split
  · exact trimmed _
  · rfl

section
variable (going : output.finished = false)
include going

/-- A chunk after the choice is decoded as the next piece. -/
theorem append_decoding (chosen : output.decoder = some decoder) :
    ∃ next later, call output (.append chunk) = some next ∧ next.finished = false ∧
      next.decoder = some later ∧ ∀ rest, next.appended ++ (later.decode rest false).1 =
        output.appended ++ (decoder.decode (chunk ++ rest) false).1 := by
  simp only [call, OutputAccumulator.append, going, Bool.false_eq_true, if_false,
    OutputAccumulator.appendDecodedBytes, chosen]
  by_cases empty : chunk.isEmpty = true
  · rw [if_pos empty, List.isEmpty_iff.mp empty]
    exact ⟨_, decoder, rfl, rfl, rfl, fun _ => rfl⟩
  · rw [if_neg empty]
    refine ⟨_, _, rfl, appendDecodedText_finished, appendDecodedText_decoder _ _, ?_⟩
    intro rest
    rw [appendDecodedText_appended, append_assoc, decode_append]

theorem append_buffered (open_ : output.decoder = none)
    (undecided : chooseOutputEncoding (output.decodeBuffer ++ chunk) false = none) :
    ∃ next, call output (.append chunk) = some next ∧ next.finished = false ∧
      next.decoder = none ∧ next.decodeBuffer = output.decodeBuffer ++ chunk ∧
        next.appended = output.appended := by
  simp only [call, OutputAccumulator.append, going, Bool.false_eq_true, if_false,
    OutputAccumulator.appendDecodedBytes, open_, undecided]
  exact ⟨_, rfl, rfl, rfl, rfl, rfl⟩

/-- With the chunk that decides, all that is buffered is the first piece. -/
theorem append_choosing (open_ : output.decoder = none)
    (chosen : chooseOutputEncoding (output.decodeBuffer ++ chunk) false = some encoding) :
    ∃ next later, call output (.append chunk) = some next ∧ next.finished = false ∧
      next.decoder = some later ∧ ∀ rest, next.appended ++ (later.decode rest false).1 = output.appended ++
          (({ encoding } : TextDecoder).decode
            (stripKnownBom (output.decodeBuffer ++ chunk ++ rest) encoding) false).1 := by
  simp only [call, OutputAccumulator.append, going, Bool.false_eq_true, if_false,
    OutputAccumulator.appendDecodedBytes, open_, chosen]
  refine ⟨_, _, rfl, appendDecodedText_finished, appendDecodedText_decoder _ _, ?_⟩
  intro rest
  rw [appendDecodedText_appended, append_assoc, Bool.not_false, decode_append, stripKnownBom_append chosen]

theorem finish_decoding (chosen : output.decoder = some decoder) :
    output.finish.appended = output.appended ++ (decoder.decode [] false).1 := by
  unfold OutputAccumulator.finish
  simp only [going, Bool.false_eq_true, if_false, OutputAccumulator.appendDecodedBytes, chosen,
    isEmpty_nil, if_true, OutputAccumulator.flush]
  exact appendDecodedText_appended _ _

theorem finish_choosing (open_ : output.decoder = none)
    (chosen : chooseOutputEncoding output.decodeBuffer true = some encoding) :
    output.finish.appended = output.appended ++ (({ encoding } : TextDecoder).decode
      (stripKnownBom output.decodeBuffer encoding) false).1 := by
  have fresh : ∀ bytes : List Nat,
      ((({ encoding } : TextDecoder).decode bytes false).2.decode [] false).1 = [] := by
    intro bytes
    cases encoding <;> rfl
  unfold OutputAccumulator.finish
  simp only [going, Bool.false_eq_true, if_false, OutputAccumulator.appendDecodedBytes, open_,
    append_nil, chosen, OutputAccumulator.flush, appendDecodedText_decoder, Bool.not_true,
    appendDecodedText_appended, fresh]

end

theorem run_decoding (chunks : List (List Nat)) : ∀ {output : OutputAccumulator}
    {decoder : TextDecoder}, output.finished = false → output.decoder = some decoder →
      (runActions call output (chunks.map .append ++ [.finish])).map OutputAccumulator.appended =
        some (output.appended ++ (decoder.decode chunks.flatten false).1) := by
  induction chunks with
  | nil => exact fun going chosen => congrArg some (finish_decoding going chosen)
  | cons chunk rest ih =>
    intro output decoder going chosen
    obtain ⟨next, later, taken, still, decided, same⟩ := append_decoding going chosen
    rw [map_cons, cons_append, runActions, taken]
    exact (ih still decided).trans (congrArg some (same rest.flatten))

theorem choose_final : (chooseOutputEncoding buffer true).isSome = true := by
  unfold chooseOutputEncoding
  split
  · rfl
  split
  · rfl
  · simp

/-- The text is all of the bytes in the encoding that is chosen first. -/
theorem run_choosing : ∀ {output : OutputAccumulator}, output.finished = false → output.decoder = none →
      (runActions call output (chunks.map .append ++ [.finish])).map OutputAccumulator.appended =
        (firstChoice output.decodeBuffer chunks).map fun encoding =>
          output.appended ++ (({ encoding } : TextDecoder).decode
            (stripKnownBom (output.decodeBuffer ++ chunks.flatten) encoding) false).1 := by
  induction chunks with
  | nil =>
    intro output going open_
    obtain ⟨encoding, chosen⟩ := Option.isSome_iff_exists.mp choose_final
    rw [firstChoice, chosen, flatten_nil, append_nil]
    exact congrArg some (finish_choosing going open_ chosen)
  | cons chunk rest ih =>
    intro output going open_
    rw [map_cons, cons_append, runActions, firstChoice, flatten_cons, ← append_assoc]
    cases chosen : chooseOutputEncoding (output.decodeBuffer ++ chunk) false with
    | none =>
      obtain ⟨next, taken, still, later, buffer, same⟩ := append_buffered going open_ chosen
      rw [taken, Option.none_or]
      rw [ih still later, buffer, same]
    | some encoding =>
      obtain ⟨next, later, taken, still, decided, same⟩ := append_choosing going open_ chosen
      rw [taken]
      exact (run_decoding rest still decided).trans (congrArg some (same rest.flatten))

theorem decodedText_chosen :
    decodedText maxLines maxBytes chunks = (firstChoice [] chunks).map fun encoding =>
      (({ encoding } : TextDecoder).decode (stripKnownBom chunks.flatten encoding) false).1 :=
  run_choosing rfl rfl

end

/-- As long as no encoding is chosen, the bytes so far do not look like UTF-16LE. -/
def KeepsUtf8 (buffer : List Nat) (chunks : List (List Nat)) : Prop :=
  ∀ count, (∀ before < count, chooseOutputEncoding (buffer ++ (chunks.take before).flatten) false = none) →
    looksLikeUtf16Le (buffer ++ (chunks.take count).flatten) = false

theorem startsWithUtf16LeBom_small (small : ∀ byte ∈ buffer, byte < 0xf5) :
    startsWithUtf16LeBom buffer = false := by
  cases buffer with
  | nil => rfl
  | cons byte rest =>
    have below := small byte mem_cons_self
    have other : ((0xff : Nat) == byte) = false := by
      rw [beq_eq_false_iff_ne]
      omega
    rw [startsWithUtf16LeBom, List.isPrefixOf, other, Bool.false_and]

theorem choose_looks (small : ∀ byte ∈ buffer, byte < 0xf5) (final : Bool) :
    chooseOutputEncoding buffer final = some .utf16le ↔ looksLikeUtf16Le buffer = true := by
  unfold chooseOutputEncoding
  rw [startsWithUtf16LeBom_small small, Bool.false_or]
  split
  · simp_all
  · split
    · simp_all
    · split <;> simp_all

theorem firstChoice_utf8_iff : ∀ {buffer : List Nat},
    (∀ byte ∈ buffer ++ chunks.flatten, byte < 0xf5) → chooseOutputEncoding buffer false = none →
      (firstChoice buffer chunks = some .utf8 ↔ KeepsUtf8 buffer chunks) := by
  have other : ∀ {encoding : OutputTextEncoding}, encoding ≠ .utf16le → encoding = .utf8 := by
    intro encoding different
    cases encoding
    · rfl
    · exact absurd rfl different
  induction chunks with
  | nil =>
    intro buffer small open_
    have plain : ¬ looksLikeUtf16Le buffer = true := by
      rw [← choose_looks (fun byte found => small byte (by simpa using found)) false, open_]
      simp
    obtain ⟨encoding, chosen⟩ := Option.isSome_iff_exists.mp choose_final
    have utf8 : encoding = .utf8 := other fun utf16 => by
      rw [utf16, choose_looks fun byte found => small byte (by simpa using found)] at chosen
      exact plain chosen
    rw [firstChoice, chosen, utf8]
    refine ⟨fun _ count _ => ?_, fun _ => rfl⟩
    simpa using plain
  | cons chunk rest ih =>
    intro buffer small open_
    have small_ : ∀ byte ∈ buffer ++ chunk ++ rest.flatten, byte < 0xf5 := by
      simpa [append_assoc] using small
    have front : ∀ byte ∈ buffer ++ chunk, byte < 0xf5 := fun byte found =>
      small_ byte (mem_append_left _ found)
    have looks := choose_looks front false
    have first : looksLikeUtf16Le buffer = false := by
      rw [← Bool.not_eq_true, ← choose_looks (fun byte found =>
        small byte (mem_append_left _ found)) false, open_]
      simp
    -- the first chunk is the second prefix
    have shift : ∀ count, buffer ++ ((chunk :: rest).take (count + 1)).flatten =
        buffer ++ chunk ++ (rest.take count).flatten := by
      intro count
      rw [take_succ_cons, flatten_cons, append_assoc]
    rw [firstChoice]
    cases chosen : chooseOutputEncoding (buffer ++ chunk) false with
    | none =>
      rw [Option.none_or, ih small_ chosen]
      constructor
      · intro keeps count undecided
        cases count with
        | zero => simpa using first
        | succ count =>
          rw [shift]
          refine keeps count fun before less => ?_
          rw [← shift]
          exact undecided (before + 1) (by omega)
      · intro keeps count undecided
        rw [← shift]
        refine keeps (count + 1) fun before less => ?_
        cases before with
        | zero => simpa using open_
        | succ before =>
          rw [shift]
          exact undecided before (by omega)
    | some encoding =>
      rw [Option.some_or]
      have second : buffer ++ ((chunk :: rest).take 1).flatten = buffer ++ chunk := by
        simp
      constructor
      · intro utf8 count undecided
        match count with
        | 0 => simpa using first
        | 1 =>
          rw [second, ← Bool.not_eq_true, ← looks, chosen, utf8]
          simp
        | count + 2 =>
          have open_ := undecided 1 (by omega)
          rw [second, chosen] at open_
          cases open_
      · intro keeps
        refine congrArg some (other fun utf16 => ?_)
        have plain := keeps 1 fun before less => by
          obtain rfl : before = 0 := by omega
          simpa using open_
        rw [utf16, looks, ← second, plain] at chosen
        cases chosen

/-- The text without a mark that it begins with. -/
def unmarked (text : List Char) : List Char := (TextDecoder.stripMark false text).1

@[simp] theorem unmarked_mark (text : List Char) :
    unmarked (TextDecoder.byteOrderMark :: text) = text := by
  simp [unmarked, TextDecoder.stripMark]

theorem unmarked_plain (plain : text.head? ≠ some TextDecoder.byteOrderMark) :
    unmarked text = text := by
  rw [unmarked, stripMark_plain plain]

theorem decodeAll_utf8 : decodeAll .utf8 (utf8Bytes text) = unmarked text := by
  have start : ({ encoding := .utf8 } : TextDecoder) = inUtf8 false {} := rfl
  have ended : (inUtf8 false {}).atEnd = [] := rfl
  unfold decodeAll
  rw [start]
  simp only [TextDecoder.decode, readBytes_utf8Bytes, Bool.false_eq_true, if_false, ended, append_nil]
  rfl

theorem startsWithUtf8Bom_iff :
    startsWithUtf8Bom (utf8Bytes text) = true ↔ text.head? = some TextDecoder.byteOrderMark := by
  constructor
  · intro marked
    obtain ⟨rest, same⟩ := List.isPrefixOf_iff_prefix.mp marked
    have read := readBytes_utf8Bytes false text
    have mark : utf8Char TextDecoder.byteOrderMark = [0xef, 0xbb, 0xbf] := by decide
    rw [← same, ← mark, readBytes_append, readBytes_utf8Char] at read
    have whole : TextDecoder.byteOrderMark :: ((inUtf8 false {}).readBytes rest).1 = text :=
      congrArg Prod.fst read
    rw [← whole]
    rfl
  · intro head
    cases text with
    | nil => cases head
    | cons c rest =>
      cases head
      rfl

/-- In UTF-8 the accumulator leaves out a mark and its decoder another one. -/
theorem decoded_utf8 : (({ encoding := .utf8 } : TextDecoder).decode
      (stripKnownBom (utf8Bytes text) .utf8) false).1 = unmarked (unmarked text) := by
  by_cases marked : text.head? = some TextDecoder.byteOrderMark
  · cases text with
    | nil => cases marked
    | cons c rest =>
      cases marked
      rw [unmarked_mark, ← decodeAll_utf8]
      rfl
  · have plain : startsWithUtf8Bom (utf8Bytes text) = false := by
      rwa [← Bool.not_eq_true, startsWithUtf8Bom_iff]
    have same : stripKnownBom (utf8Bytes text) .utf8 = utf8Bytes text := by
      unfold stripKnownBom
      rw [plain]
      rfl
    rw [same, unmarked_plain marked, ← decodeAll_utf8]
    rfl

theorem unmarked_twice_iff : unmarked (unmarked text) = unmarked text ↔
    ¬ [TextDecoder.byteOrderMark, TextDecoder.byteOrderMark] <+: text := by
  by_cases first : text.head? = some TextDecoder.byteOrderMark
  · cases text with
    | nil => cases first
    | cons c rest =>
      cases first
      rw [unmarked_mark, cons_prefix_cons]
      by_cases second : rest.head? = some TextDecoder.byteOrderMark
      · cases rest with
        | nil => cases second
        | cons d others =>
          cases second
          simp
      · rw [unmarked_plain second]
        refine iff_of_true rfl fun marks => second ?_
        obtain ⟨others, same⟩ := marks.2
        rw [← same]
        rfl
  · rw [unmarked_plain first, unmarked_plain first]
    refine iff_of_true rfl fun marks => first ?_
    obtain ⟨others, same⟩ := marks
    rw [← same]
    rfl

/-- In UTF-16LE no text is read as itself. -/
theorem decoded_utf16 (some_ : text ≠ []) : (({ encoding := .utf16le } : TextDecoder).decode
      (stripKnownBom (utf8Bytes text) .utf16le) false).1 ≠ unmarked text := by
  have small := bytes_small text
  have same : stripKnownBom (utf8Bytes text) .utf16le = utf8Bytes text := by
    unfold stripKnownBom
    rw [startsWithUtf16LeBom_small small]
    rfl
  have read : (({ encoding := .utf16le } : TextDecoder).decode (utf8Bytes text) false).1 =
      unmarked (utf16Read {} (utf8Bytes text)) := by
    rw [← readBytes_utf16 false]
    rfl
  rw [same, read, unmarked_plain (read_no_mark small)]
  by_cases marked : text.head? = some TextDecoder.byteOrderMark
  · cases text with
    | nil => cases marked
    | cons c rest =>
      cases marked
      exact read_behind rest (utf8Char TextDecoder.byteOrderMark) (by decide) (by decide)
  · rw [unmarked_plain marked]
    exact utf16Read_ne some_

/-- The chunks of a text are decoded to it exactly if they are never taken for UTF-16LE and do
not begin with two byte order marks. -/
theorem decoding_agrees_iff (maxLines maxBytes : Nat) {text : List Char} {chunks : List (List Nat)}
    (valid : chunks.flatten = utf8Bytes text) :
    decodedText maxLines maxBytes chunks = some (decodeAll .utf8 chunks.flatten) ↔
      KeepsUtf8 [] chunks ∧ ¬ [TextDecoder.byteOrderMark, TextDecoder.byteOrderMark] <+: text := by
  have small : ∀ byte ∈ [] ++ chunks.flatten, byte < 0xf5 := by
    rw [nil_append, valid]
    exact bytes_small text
  have choice := firstChoice_utf8_iff small rfl
  rw [decodedText_chosen, valid, decodeAll_utf8, ← unmarked_twice_iff, ← choice]
  cases chosen : firstChoice [] chunks with
  | none => simp
  | some encoding =>
    cases encoding with
    | utf8 => simp [decoded_utf8]
    | utf16le =>
      have some_ : text ≠ [] := by
        rintro rfl
        have empty : ∀ chunk ∈ chunks, chunk = [] := List.flatten_eq_nil_iff.mp valid
        have keeps : KeepsUtf8 [] chunks := by
          intro count _
          have none_ : (chunks.take count).flatten = [] := List.flatten_eq_nil_iff.mpr
            fun chunk found => empty chunk (mem_of_mem_take found)
          rw [none_]
          rfl
        rw [choice.mpr keeps] at chosen
        cases chosen
      simp [decoded_utf16 some_]

/-- A text that is cut inside a character. -/
theorem cut_character_decoded :
    decodedText 20 2000 [[0x7a, 0xc3], [0xbc, 0x67]] = some ['z', 'ü', 'g'] ∧
      KeepsUtf8 [] [[0x7a, 0xc3], [0xbc, 0x67]] :=
  ⟨by decide, ((decoding_agrees_iff 20 2000
    (show [[0x7a, 0xc3], [0xbc, 0x67]].flatten = utf8Bytes ['z', 'ü', 'g'] by decide)).mp
      (by decide)).1⟩

/-- Cut before the last byte of a character, a text is taken for UTF-16LE. -/
theorem cut_character_misread :
    ¬ ∀ (maxLines maxBytes : Nat) (text : List Char) (chunks : List (List Nat)),
      (∀ chunk ∈ chunks, chunk ≠ []) → chunks.flatten = utf8Bytes text →
        decodedText maxLines maxBytes chunks = some (decodeAll .utf8 chunks.flatten) := by
  intro claimed
  have same := claimed 20 2000 ['倀', 'a', '倀']
    [[0xe5, 0x80, 0x80, 0x61, 0xe5, 0x80], [0x80]] (by decide) (by decide)
  exact absurd same (by decide)

end QiongQi.DecodedChunks
