import QiongQi.TextDecoders

/-! Bytes of UTF-8 read as UTF-16LE. No text but the empty one is read as itself: its characters
of three bytes are read in pairs, so that ever more bytes are left over. -/
namespace QiongQi.Utf16Readings
open TextDecoders List

/-- What is read of the bytes, to the end. -/
def utf16Read (state : Utf16State) : List Nat → List Char
  | [] => utf16End state
  | byte :: rest => (utf16Byte state byte).1 ++ utf16Read (utf16Byte state byte).2 rest

/-- A decoder of UTF-16LE between two bytes. -/
def inUtf16 (bomSeen : Bool) (state : Utf16State) : TextDecoder :=
  { encoding := .utf16le, bomSeen, utf16 := state }

theorem readBytes_utf16 (bomSeen : Bool) (bytes : List Nat) : ∀ state : Utf16State,
    ((inUtf16 bomSeen state).readBytes bytes).1 ++
      ((inUtf16 bomSeen state).readBytes bytes).2.atEnd = utf16Read state bytes := by
  induction bytes with
  | nil => exact fun _ => rfl
  | cons byte rest ih =>
    intro state
    have later := ih (utf16Byte state byte).2
    simp only [TextDecoder.readBytes, utf16Read]
    rw [← later]
    exact append_assoc _ _ _

theorem toNat_ofNat (valid : n < 0xd800 ∨ 0xdfff < n ∧ n < 0x110000) :
    (Char.ofNat n).toNat = n := by
  have point : n.isValidChar := valid
  unfold Char.ofNat
  rw [dif_pos point]
  rfl

theorem toNat_replacement : replacement.toNat = 0xfffd := rfl

theorem read_unit (small : low < 0x100) (plain : high < 0xd8 ∨ 0xdf < high) :
    utf16Read {} (low :: high :: rest) = Char.ofNat (high * 256 + low) :: utf16Read {} rest := by
  have unit : utf16Unit (high * 256 + low) = ([Char.ofNat (high * 256 + low)], {}) := by
    rw [utf16Unit, if_neg (by omega), if_neg (by omega)]
  simp only [utf16Read, utf16Byte, unit]
  rfl

/-- Half of a pair is read with the other half or as a replacement, both beyond U+FFFC. -/
theorem read_surrogate (low high : Nat) (small : low < 0x100) (from_ : 0xd8 ≤ high)
    (to_ : high ≤ 0xdf) (rest : List Nat) (bytes : ∀ byte ∈ rest, byte < 0x100) :
    ∃ c others, utf16Read {} (low :: high :: rest) = c :: others ∧ 0xfffd ≤ c.toNat := by
  by_cases second : 0xdc ≤ high
  · have unit : utf16Unit (high * 256 + low) = ([replacement], {}) := by
      rw [utf16Unit, if_neg (by omega), if_pos (by omega)]
    refine ⟨replacement, utf16Read {} rest, ?_, toNat_replacement.ge⟩
    simp only [utf16Read, utf16Byte, unit]
    rfl
  have unit : utf16Unit (high * 256 + low) = ([], { leadSurrogate := some (high * 256 + low) }) := by
    rw [utf16Unit, if_pos (by omega)]
  have first : utf16Read {} (low :: high :: rest) =
      utf16Read { leadSurrogate := some (high * 256 + low) } rest := by
    simp only [utf16Read, utf16Byte, unit]
    rfl
  rw [first]
  match rest with
  | [] | [byte] => exact ⟨replacement, [], rfl, toNat_replacement.ge⟩
  | third :: fourth :: others =>
    have third_ : third < 0x100 := bytes third (by simp)
    by_cases paired : 0xdc00 ≤ fourth * 256 + third ∧ fourth * 256 + third ≤ 0xdfff
    · have point := toNat_ofNat (n := 0x10000 + (high * 256 + low - 0xd800) * 1024 +
        (fourth * 256 + third - 0xdc00)) (.inr ⟨by omega, by omega⟩)
      refine ⟨_, utf16Read {} others, ?_, point.ge.trans' (by omega)⟩
      simp only [utf16Read, utf16Byte, if_pos paired]
      rfl
    · refine ⟨replacement, (utf16Unit (fourth * 256 + third)).1 ++
        utf16Read (utf16Unit (fourth * 256 + third)).2 others, ?_, toNat_replacement.ge⟩
      simp only [utf16Read, utf16Byte, if_neg paired]
      rfl

/-- A byte after the first one of a character. -/
def Tail (byte : Nat) : Prop := 0x80 ≤ byte ∧ byte ≤ 0xbf

/-- The bytes of a character by its place. -/
inductive Sized (c : Char) : List Nat → Prop
  | one (point : c.toNat < 0x80) : Sized c [c.toNat]
  | two {a b} (from_ : 0x80 ≤ c.toNat) (to_ : c.toNat < 0x800) (lead : 0xc2 ≤ a ∧ a ≤ 0xdf)
      (tail : Tail b) : Sized c [a, b]
  | three {a b d} (from_ : 0x800 ≤ c.toNat) (to_ : c.toNat < 0x10000)
      (lead : 0xe0 ≤ a ∧ a ≤ 0xef) (tail : Tail b) (last : Tail d) : Sized c [a, b, d]
  | four {a b d e} (from_ : 0x10000 ≤ c.toNat) (lead : 0xf0 ≤ a ∧ a ≤ 0xf4) (tail : Tail b)
      (third : Tail d) (last : Tail e) : Sized c [a, b, d, e]

theorem sized_utf8Char (c : Char) : Sized c (utf8Char c) := by
  have valid : c.toNat < 0xd800 ∨ 0xdfff < c.toNat ∧ c.toNat < 0x110000 := c.valid
  unfold utf8Char
  simp only
  split
  · exact .one ‹_›
  split
  · exact .two (by omega) (by omega) ⟨by omega, by omega⟩ ⟨by omega, by omega⟩
  split
  · exact .three (by omega) (by omega) ⟨by omega, by omega⟩ ⟨by omega, by omega⟩
      ⟨by omega, by omega⟩
  · exact .four (by omega) ⟨by omega, by omega⟩ ⟨by omega, by omega⟩ ⟨by omega, by omega⟩
      ⟨by omega, by omega⟩

theorem utf8Bytes_cons : utf8Bytes (c :: rest) = utf8Char c ++ utf8Bytes rest := rfl

theorem bytes_small (text : List Char) : ∀ byte ∈ utf8Bytes text, byte < 0xf5 := by
  intro byte found
  obtain ⟨c, -, member⟩ := mem_flatMap.mp found
  have sized := sized_utf8Char c
  generalize utf8Char c = bytes at member sized
  cases sized <;> simp_all [Tail] <;> omega

/-- A byte that makes its unit a character of three bytes in UTF-8, whatever the other is. -/
def High (byte : Nat) : Prop := 0x80 ≤ byte ∧ byte < 0x100 ∧ (byte < 0xd8 ∨ 0xdf < byte)

instance (byte : Nat) : Decidable (High byte) :=
  inferInstanceAs (Decidable (0x80 ≤ byte ∧ byte < 0x100 ∧ (byte < 0xd8 ∨ 0xdf < byte)))

theorem Tail.high (tail : Tail byte) : High byte :=
  ⟨tail.1, by have := tail.2; omega, .inl (by have := tail.2; omega)⟩

/-- With two bytes left over there are three after one more character. -/
theorem read_behind (text : List Char) : ∀ queue : List Nat, 2 ≤ queue.length →
    (∀ byte ∈ queue, High byte) → utf16Read {} (queue ++ utf8Bytes text) ≠ text := by
  induction text with
  | nil =>
    intro queue enough high same
    match queue, enough with
    | low :: next :: rest, _ =>
      obtain ⟨-, small, -⟩ := high low (by simp)
      obtain ⟨-, -, plain⟩ := high next (by simp)
      rw [cons_append, cons_append, read_unit small plain] at same
      cases same
  | cons c text ih =>
    intro queue enough high same
    match queue, enough with
    | low :: next :: rest, _ =>
      obtain ⟨-, small, -⟩ := high low (by simp)
      obtain ⟨above, below, plain⟩ := high next (by simp)
      rw [cons_append, cons_append, read_unit small plain] at same
      obtain ⟨first, others⟩ := cons_eq_cons.mp same
      have point : c.toNat = next * 256 + low := by
        rw [← first, toNat_ofNat (by omega)]
      have sized := sized_utf8Char c
      rw [utf8Bytes_cons, ← append_assoc] at others
      generalize utf8Char c = bytes at sized others
      refine ih _ ?_ ?_ others
      · cases sized with
        | three from_ to_ lead tail last => simp
        | _ => omega
      · intro byte found
        rcases mem_append.mp found with found | found
        · exact high byte (by simp [found])
        · cases sized with
          | three from_ to_ lead tail last =>
            simp only [mem_cons, not_mem_nil, or_false] at found
            rcases found with rfl | rfl | rfl
            · exact ⟨by omega, by omega, .inr (by omega)⟩
            · exact tail.high
            · exact last.high
          | _ => omega

/-- With one byte less, of a first character read as itself, the second must be such a one. -/
theorem read_behind_one (tail : Tail low) : utf16Read {} (low :: utf8Bytes text) ≠ text := by
  obtain ⟨above, below⟩ := tail
  intro same
  cases text with
  | nil => cases same
  | cons c text =>
    rw [utf8Bytes_cons] at same
    have sized := sized_utf8Char c
    have small : ∀ byte ∈ utf8Char c ++ utf8Bytes text, byte < 0xf5 := bytes_small (c :: text)
    generalize utf8Char c = bytes at sized same small
    cases sized with
    | one point =>
      rw [cons_append, read_unit (by omega) (by omega)] at same
      have first := congrArg Char.toNat (cons_eq_cons.mp same).1
      rw [toNat_ofNat (by omega)] at first
      omega
    | @two a b from_ to_ lead next =>
      by_cases plain : a < 0xd8
      · rw [cons_append, read_unit (by omega) (.inl plain)] at same
        have first := congrArg Char.toNat (cons_eq_cons.mp same).1
        rw [toNat_ofNat (by omega)] at first
        omega
      · obtain ⟨d, others, read, beyond⟩ := read_surrogate low a (by omega)
          (by omega) (by omega) (b :: utf8Bytes text) fun byte found =>
            (small byte (by simp_all)).trans (by decide)
        rw [cons_append, cons_append, nil_append, read] at same
        have first := congrArg Char.toNat (cons_eq_cons.mp same).1
        omega
    | @three a b d from_ to_ lead next last =>
      rw [cons_append, read_unit (by omega) (by omega)] at same
      refine read_behind text [b, d] le_rfl ?_ (cons_eq_cons.mp same).2
      intro byte found
      simp only [mem_cons, not_mem_nil, or_false] at found
      rcases found with rfl | rfl
      · exact next.high
      · exact last.high
    | four from_ lead next third last =>
      rw [cons_append, read_unit (by omega) (by omega)] at same
      have first := congrArg Char.toNat (cons_eq_cons.mp same).1
      rw [toNat_ofNat (by omega)] at first
      omega

private theorem read_head (low high : Nat) (small : low < 0x100) (above : 0x80 ≤ high)
    (below : high < 0x100) (rest : List Nat) (bytes : ∀ byte ∈ rest, byte < 0x100) :
    ∃ c others, utf16Read {} (low :: high :: rest) = c :: others ∧ 0x8000 ≤ c.toNat := by
  by_cases plain : high < 0xd8 ∨ 0xdf < high
  · refine ⟨_, _, read_unit small plain, ?_⟩
    rw [toNat_ofNat (by omega)]
    omega
  · obtain ⟨c, others, read, beyond⟩ := read_surrogate low high small (by omega) (by omega)
      rest bytes
    exact ⟨c, others, read, by omega⟩

private theorem read_small (read : utf16Read {} (utf8Bytes (d :: text)) = c :: others)
    (before : c.toNat < 0x8000) :
    ∃ e rest, text = e :: rest ∧ c.toNat = e.toNat * 256 + d.toNat ∧
      others = utf16Read {} (utf8Bytes rest) := by
  have sized := sized_utf8Char d
  have bytes := bytes_small (d :: text)
  have beyond : ∀ {low high : Nat} {rest : List Nat},
      utf8Bytes (d :: text) = low :: high :: rest → 0x80 ≤ high → False := by
    intro low high rest same above
    rw [same] at read bytes
    have low_ := bytes low (by simp)
    have high_ := bytes high (by simp)
    obtain ⟨x, more, found, far⟩ := read_head low high (by omega) above (by omega) rest
      fun byte member => (bytes byte (by simp [member])).trans (by decide)
    rw [read] at found
    cases found
    omega
  rw [utf8Bytes_cons] at beyond read
  generalize utf8Char d = first at sized beyond read
  cases sized with
  | one point =>
    cases text with
    | nil =>
      cases read
      rw [toNat_replacement] at before
      omega
    | cons e rest =>
      have sized := sized_utf8Char e
      rw [utf8Bytes_cons] at beyond read
      generalize utf8Char e = second at sized beyond read
      cases sized with
      | one ascii =>
        rw [singleton_append, singleton_append, read_unit (by omega) (by omega)] at read
        obtain ⟨same, rest_⟩ := cons_eq_cons.mp read
        refine ⟨e, rest, rfl, ?_, rest_.symm⟩
        rw [← same, toNat_ofNat (by omega)]
      | two from_ to_ lead next | three from_ to_ lead next last
      | four from_ lead next third last => exact (beyond rfl (by omega)).elim
  | two from_ to_ lead next | three from_ to_ lead next last | four from_ lead next third last =>
    exact (beyond rfl next.1).elim

private theorem read_zeros (text : List Char) (count : Nat) :
    utf16Read {} (utf8Bytes text) ≠ List.replicate (count + 1) (Char.ofNat 0) ++ text := by
  intro same
  match text with
  | [] => cases same
  | d :: text =>
    rw [replicate_succ, cons_append] at same
    obtain ⟨e, rest, rfl, zero, others⟩ := read_small same (by decide)
    have none_ : (Char.ofNat 0).toNat = 0 := rfl
    have first : d = Char.ofNat 0 := by
      rw [← Char.ofNat_toNat d]
      congr 1
      omega
    have second : e = Char.ofNat 0 := by
      rw [← Char.ofNat_toNat e]
      congr 1
      omega
    refine read_zeros rest (count + 1) ?_
    rw [← others, first, second, replicate_succ', replicate_succ', append_assoc, append_assoc]
    rfl
termination_by text.length

/-- Nothing but the empty text is read as itself. -/
theorem utf16Read_ne (some_ : text ≠ []) : utf16Read {} (utf8Bytes text) ≠ text := by
  intro same
  cases text with
  | nil => exact some_ rfl
  | cons d text =>
    by_cases before : d.toNat < 0x8000
    · obtain ⟨e, rest, rfl, zero, others⟩ := read_small same before
      have second : e = Char.ofNat 0 := by
        rw [← Char.ofNat_toNat e]
        congr 1
        omega
      exact read_zeros rest 0 (others.symm.trans (by rw [second]; rfl))
    · have sized := sized_utf8Char d
      rw [utf8Bytes_cons] at same
      generalize utf8Char d = bytes at sized same
      cases sized with
      | three from_ to_ lead next last =>
        obtain ⟨above, below⟩ := next
        simp only [cons_append, nil_append] at same
        rw [read_unit (by omega) (by omega)] at same
        exact read_behind_one last (cons_eq_cons.mp same).2
      | four from_ lead next third last =>
        obtain ⟨above, below⟩ := next
        simp only [cons_append, nil_append] at same
        rw [read_unit (by omega) (by omega)] at same
        have first := congrArg Char.toNat (cons_eq_cons.mp same).1
        rw [toNat_ofNat (by omega)] at first
        omega
      | _ => omega

/-- What is read does not begin with a mark, whose first byte UTF-8 does not have. -/
theorem read_no_mark (small : ∀ byte ∈ bytes, byte < 0xf5) :
    (utf16Read {} bytes).head? ≠ some TextDecoder.byteOrderMark := by
  intro marked
  have point : TextDecoder.byteOrderMark.toNat = 0xfeff := rfl
  match bytes with
  | [] => cases marked
  | [low] =>
    have same : replacement = TextDecoder.byteOrderMark := Option.some.inj marked
    exact absurd same (by decide)
  | low :: high :: rest =>
    have low_ := small low (by simp)
    have high_ := small high (by simp)
    by_cases plain : high < 0xd8 ∨ 0xdf < high
    · rw [read_unit (by omega) plain] at marked
      have unit := congrArg Char.toNat (Option.some.inj marked)
      rw [toNat_ofNat (by omega), point] at unit
      omega
    · obtain ⟨c, others, read, beyond⟩ := read_surrogate low high (by omega) (by omega)
        (by omega) rest fun byte found => (small byte (by simp [found])).trans (by decide)
      rw [read] at marked
      have head : c = TextDecoder.byteOrderMark := Option.some.inj marked
      rw [head, point] at beyond
      omega

end QiongQi.Utf16Readings
