import Mathlib.Data.List.Infix

/-! Passes over a text that take out the words of a kind, each from the left to the right. What
stands in the text that is left came together from a stretch of the text before: a stretch over
whose edges no word reaches. -/
namespace QiongQi.Erasures
open List

section
variable {α : Type*}

/-- The length of the word with which a text starts, if it starts with one. -/
abbrev WordAt (α : Type*) := List α → Option Nat

/-- Whether a text starts with a word depends on the items of the word alone. -/
structure Reading (wordAt : WordAt α) : Prop where
  filled : ∀ {text size}, wordAt text = some size → 0 < size ∧ size ≤ text.length
  longer : ∀ {text size}, wordAt text = some size → ∀ tail, wordAt (text ++ tail) = some size
  shorter : ∀ {text tail size}, wordAt (text ++ tail) = some size → size ≤ text.length →
    wordAt text = some size

/-- Takes out the words, from left to right; the count is of items of the last word that are still
to be skipped. -/
def takeOut (wordAt : WordAt α) : Nat → List α → List α
  | _, [] => []
  | skipped + 1, _ :: rest => takeOut wordAt skipped rest
  | 0, item :: rest =>
    match wordAt (item :: rest) with
    | some size => takeOut wordAt (size - 1) rest
    | none => item :: takeOut wordAt 0 rest

/-- No word that is taken out of the first text reaches into what follows it. -/
def Uncrossed (wordAt : WordAt α) : Nat → List α → List α → Prop
  | skipped, [], _ => skipped = 0
  | skipped + 1, _ :: rest, back => Uncrossed wordAt skipped rest back
  | 0, item :: rest, back =>
    match wordAt (item :: (rest ++ back)) with
    | some size => Uncrossed wordAt (size - 1) rest back
    | none => Uncrossed wordAt 0 rest back

variable {wordAt : WordAt α}

theorem takeOut_zero_cons : takeOut wordAt 0 (item :: rest) = match wordAt (item :: rest) with
      | some size => takeOut wordAt (size - 1) rest
      | none => item :: takeOut wordAt 0 rest := rfl

theorem uncrossed_zero_cons : Uncrossed wordAt 0 (item :: rest) back ↔
      match wordAt (item :: (rest ++ back)) with
      | some size => Uncrossed wordAt (size - 1) rest back
      | none => Uncrossed wordAt 0 rest back := Iff.rfl

variable {front back text stretch : List α}

theorem Uncrossed.short (apart : Uncrossed wordAt skipped front back) : skipped ≤ front.length := by
  induction front generalizing skipped with
  | nil => exact Nat.le_of_eq apart
  | cons item rest ih =>
    cases skipped with
    | zero => exact Nat.zero_le _
    | succ skipped => exact Nat.succ_le_succ (ih apart)

theorem Reading.none_of_longer (reading : Reading wordAt) (none_ : wordAt (front ++ back) = none) :
    wordAt front = none := by
  by_contra some_
  obtain ⟨size, found⟩ := Option.ne_none_iff_exists'.mp some_
  rw [reading.longer found back] at none_
  cases none_

/-- Where no word reaches over the seam, the two texts are read by themselves. -/
theorem takeOut_append (reading : Reading wordAt) (apart : Uncrossed wordAt skipped front back) :
    takeOut wordAt skipped (front ++ back) = takeOut wordAt skipped front ++ takeOut wordAt 0 back := by
  induction front generalizing skipped with
  | nil =>
    rw [show skipped = 0 from apart]
    rfl
  | cons item rest ih =>
    cases skipped with
    | succ skipped => exact ih apart
    | zero =>
      rw [uncrossed_zero_cons] at apart
      rw [cons_append, takeOut_zero_cons, takeOut_zero_cons]
      cases here : wordAt (item :: (rest ++ back)) with
      | some size =>
        rw [here] at apart
        have filled := (reading.filled here).1
        have inside := apart.short
        rw [reading.shorter here (by rw [length_cons]; omega)]
        exact ih apart
      | none =>
        rw [here] at apart
        rw [reading.none_of_longer here]
        exact congrArg (item :: ·) (ih apart)

/-- Where something is left of a text, the text splits before the item with which that starts. -/
theorem takeOut_split (reading : Reading wordAt)
    (left : takeOut wordAt skipped text = front ++ item :: back) :
    ∃ first second, text = first ++ item :: second ∧
      Uncrossed wordAt skipped first (item :: second) ∧ takeOut wordAt skipped first = front ∧
      wordAt (item :: second) = none ∧ takeOut wordAt 0 second = back := by
  induction text generalizing skipped front with
  | nil => simp [takeOut] at left
  | cons c rest ih =>
    cases skipped with
    | succ skipped =>
      obtain ⟨first, second, rfl, apart, one, kept⟩ := ih left
      exact ⟨c :: first, second, rfl, apart, one, kept⟩
    | zero =>
      rw [takeOut_zero_cons] at left
      cases here : wordAt (c :: rest) with
      | some size =>
        rw [here] at left
        obtain ⟨first, second, rfl, apart, one, kept⟩ := ih left
        have filled := (reading.filled here).1
        have inside := apart.short
        refine ⟨c :: first, second, rfl, ?_, ?_, kept⟩
        · rw [uncrossed_zero_cons, here]
          exact apart
        · rw [← cons_append] at here
          rw [takeOut_zero_cons, reading.shorter here (by rw [length_cons]; omega)]
          exact one
      | none =>
        rw [here] at left
        cases front with
        | nil =>
          obtain ⟨rfl, rest_⟩ := List.cons.inj left
          exact ⟨[], rest, rfl, rfl, rfl, here, rest_⟩
        | cons d front =>
          obtain ⟨rfl, rest_⟩ := List.cons.inj left
          obtain ⟨first, second, rfl, apart, one, kept⟩ := ih rest_
          refine ⟨c :: first, second, rfl, ?_, ?_, kept⟩
          · rw [uncrossed_zero_cons, here]
            exact apart
          · rw [← cons_append] at here
            rw [takeOut_zero_cons, reading.none_of_longer here]
            exact congrArg (c :: ·) one

theorem takeOut_kept (kept : wordAt (item :: rest) = none) :
    takeOut wordAt 0 (item :: rest) = item :: takeOut wordAt 0 rest := by
  rw [takeOut_zero_cons, kept]

theorem Uncrossed.snoc (apart : Uncrossed wordAt skipped front (item :: back))
    (kept : wordAt (item :: back) = none) : Uncrossed wordAt skipped (front ++ [item]) back := by
  induction front generalizing skipped with
  | nil =>
    obtain rfl : skipped = 0 := apart
    rw [nil_append, uncrossed_zero_cons, nil_append, kept]
    rfl
  | cons c rest ih =>
    cases skipped with
    | succ skipped => exact ih apart
    | zero =>
      rw [uncrossed_zero_cons] at apart
      rw [cons_append, uncrossed_zero_cons, append_assoc, singleton_append]
      cases here : wordAt (c :: (rest ++ item :: back)) with
      | some size | none =>
        rw [here] at apart
        exact ih apart

/-- A stretch of what is left comes of a stretch of the text with the same edges. -/
theorem takeOut_stretch (reading : Reading wordAt) (some_ : stretch ≠ [])
    (left : takeOut wordAt 0 text = front ++ (stretch ++ back)) :
    ∃ first middle last, text = first ++ (middle ++ last) ∧
      Uncrossed wordAt 0 first (middle ++ last) ∧ Uncrossed wordAt 0 middle last ∧
      takeOut wordAt 0 first = front ∧ takeOut wordAt 0 middle = stretch ∧
      takeOut wordAt 0 last = back ∧
      middle.head? = stretch.head? ∧ middle.getLast? = stretch.getLast? := by
  obtain ⟨item, others, rfl⟩ := exists_cons_of_ne_nil some_
  rw [cons_append] at left
  obtain ⟨first, second, rfl, apart, one, kept, two⟩ := takeOut_split reading left
  have rest := takeOut_kept kept
  obtain ⟨before, final, whole⟩ : ∃ before final, item :: others = before ++ [final] :=
    ⟨_, _, (dropLast_append_getLast some_).symm⟩
  rw [two, ← cons_append, whole, append_assoc, singleton_append] at rest
  obtain ⟨inner, last, split, inside, three, ends, four⟩ := takeOut_split reading rest
  have edge : item :: second = (inner ++ [final]) ++ last := by
    rw [split, append_assoc, singleton_append]
  have seam := inside.snoc ends
  refine ⟨first, inner ++ [final], last, by rw [← edge], by rwa [← edge], seam, one, ?_, four, ?_, ?_⟩
  · have read := takeOut_append reading seam
    rw [← edge, takeOut_kept kept, two, four, ← cons_append, whole] at read
    rw [whole]
    exact (append_cancel_right read).symm
  · cases inner with
    | nil | cons c inner =>
      rw [(List.cons.inj edge).1]
      rfl
  · rw [whole, getLast?_append, getLast?_append]
    rfl

/-- The text starts with one of the words, and the size is that of the word. -/
def StartsWith (words : List α → Prop) (text : List α) (size : Nat) : Prop :=
  ∃ word rest, text = word ++ rest ∧ words word ∧ word.length = size

theorem reading_of_words (some_ : ∀ word, words word → word ≠ [])
    (reads : ∀ text size, wordAt text = some size ↔ StartsWith words text size) :
    Reading wordAt where
  filled {text size} here := by
    obtain ⟨word, rest, rfl, known, rfl⟩ := (reads _ _).mp here
    exact ⟨length_pos_iff.mpr (some_ word known), by simp⟩
  longer {text size} here tail := by
    obtain ⟨word, rest, rfl, known, rfl⟩ := (reads _ _).mp here
    exact (reads _ _).mpr ⟨word, rest ++ tail, append_assoc _ _ _, known, rfl⟩
  shorter {text tail size} here inside := by
    obtain ⟨word, rest, whole, known, rfl⟩ := (reads _ _).mp here
    obtain ⟨more, rfl⟩ := prefix_of_prefix_length_le (whole ▸ prefix_append word rest)
      (prefix_append text tail) inside
    exact (reads _ _).mpr ⟨word, more, rfl, known, rfl⟩

def runPasses (passes : List (WordAt α)) (text : List α) : List α :=
  passes.foldl (fun text pass => takeOut pass 0 text) text

/-- The passes leave the second text of the stretch, and never take its first or last item. -/
def Wears : List (WordAt α) → List α → List α → Prop
  | [], stretch, left => stretch = left
  | pass :: passes, stretch, left =>
    stretch.head? = left.head? ∧ stretch.getLast? = left.getLast? ∧ Wears passes (takeOut pass 0 stretch) left

variable {passes : List (WordAt α)}

theorem Wears.edges (worn : Wears passes stretch left) :
    stretch.head? = left.head? ∧ stretch.getLast? = left.getLast? := by
  cases passes with
  | nil =>
    rw [show stretch = left from worn]
    exact ⟨rfl, rfl⟩
  | cons pass passes => exact ⟨worn.1, worn.2.1⟩

theorem ne_nil_of_head (some_ : left ≠ []) (same : stretch.head? = left.head?) : stretch ≠ [] := by
  rintro rfl
  exact some_ (head?_eq_none_iff.mp same.symm)

/-- A stretch of what the passes leave comes of a stretch of the text. -/
theorem runPasses_stretch (readings : ∀ pass ∈ passes, Reading pass) (some_ : stretch ≠ [])
    (left : runPasses passes text = front ++ (stretch ++ back)) :
    ∃ first middle last, text = first ++ (middle ++ last) ∧ Wears passes middle stretch ∧
      runPasses passes first = front ∧ runPasses passes last = back := by
  induction passes generalizing text with
  | nil => exact ⟨front, stretch, back, left, rfl, rfl, rfl⟩
  | cons pass passes ih =>
    obtain ⟨reading, readings⟩ := forall_mem_cons.mp readings
    obtain ⟨before, inner, after, once, worn, one, two⟩ := ih readings left
    obtain ⟨head, tail⟩ := worn.edges
    obtain ⟨first, middle, last, whole, -, -, three, four, five, start, final⟩ :=
      takeOut_stretch reading (ne_nil_of_head some_ head) once
    refine ⟨first, middle, last, whole, ⟨start.trans head, final.trans tail, four ▸ worn⟩, ?_, ?_⟩
    · rw [← one, ← three]
      rfl
    · rw [← two, ← five]
      rfl

section
variable (opens closes : α → Bool)

/-- No word has an opening item behind its first or a closing one before its last. -/
def Bracketed (wordAt : WordAt α) : Prop :=
  ∀ text size, wordAt text = some size → (∀ item ∈ (text.take size).tail, opens item = false) ∧
      ∀ item ∈ text.take (size - 1), closes item = false

variable {opens closes}

theorem bracketed_of_words
    (reads : ∀ text size, wordAt text = some size ↔ StartsWith words text size)
    (within : ∀ word, words word → (∀ item ∈ word.tail, opens item = false) ∧
      ∀ item ∈ word.dropLast, closes item = false) : Bracketed opens closes wordAt := by
  intro text size here
  obtain ⟨word, rest, rfl, known, rfl⟩ := (reads _ _).mp here
  rw [take_left, take_append_of_le_length (Nat.sub_le _ 1), ← dropLast_eq_take]
  exact within word known

/-- No word reaches over an opening item. -/
theorem Bracketed.uncrossed_opens (bracketed : Bracketed opens closes wordAt)
    (opening : opens item = true) (short : skipped ≤ front.length) :
    Uncrossed wordAt skipped front (item :: rest) := by
  induction front generalizing skipped with
  | nil => exact Nat.le_zero.mp short
  | cons c others ih =>
    cases skipped with
    | succ skipped => exact ih (Nat.le_of_succ_le_succ short)
    | zero =>
      rw [uncrossed_zero_cons]
      cases here : wordAt (c :: (others ++ item :: rest)) with
      | none => exact ih (Nat.zero_le _)
      | some size =>
        refine ih ?_
        by_contra beyond
        have inside : item ∈ ((c :: (others ++ item :: rest)).take size).tail := by
          obtain ⟨more, rfl⟩ : ∃ more, size = others.length + 1 + 1 + more :=
            ⟨size - (others.length + 2), by omega⟩
          rw [Nat.add_right_comm, take_succ_cons, tail_cons, Nat.add_assoc,
            take_length_add_append, Nat.add_comm, take_succ_cons]
          simp
        rw [(bracketed _ size here).1 item inside] at opening
        cases opening

theorem Bracketed.uncrossed_closes (bracketed : Bracketed opens closes wordAt)
    (closing : closes item = true) (back : List α) (short : skipped ≤ front.length + 1) :
    Uncrossed wordAt skipped (front ++ [item]) back := by
  have inside : ∀ {c : α} {others : List α} {size : Nat},
      wordAt (c :: (others ++ [item] ++ back)) = some size → size - 1 ≤ others.length + 1 := by
    intro c others size here
    by_contra beyond
    have held : item ∈ (c :: (others ++ [item] ++ back)).take (size - 1) := by
      obtain ⟨more, same⟩ : ∃ more, size - 1 = others.length + (1 + more) + 1 :=
        ⟨size - 1 - (others.length + 2), by omega⟩
      rw [same, take_succ_cons, append_assoc, take_length_add_append,
        Nat.add_comm, singleton_append, take_succ_cons]
      simp
    rw [(bracketed _ size here).2 item held] at closing
    cases closing
  induction front generalizing skipped with
  | nil =>
    cases skipped with
    | succ skipped => exact Nat.le_zero.mp (Nat.le_of_succ_le_succ short)
    | zero =>
      rw [nil_append, uncrossed_zero_cons, nil_append]
      cases here : wordAt (item :: back) with
      | none => rfl
      | some size =>
        have first : ∀ c ∈ (item :: back).take (size - 1), closes c = false :=
          (bracketed _ size here).2
        show size - 1 = 0
        cases more : size - 1 with
        | zero => rfl
        | succ more =>
          rw [more] at first
          rw [first item (by simp)] at closing
          cases closing
  | cons c others ih =>
    cases skipped with
    | succ skipped => exact ih (Nat.le_of_succ_le_succ short)
    | zero =>
      rw [cons_append, uncrossed_zero_cons]
      cases here : wordAt (c :: (others ++ [item] ++ back)) with
      | none => exact ih (Nat.zero_le _)
      | some size => exact ih (inside here)

/-- A stretch between brackets that wears by itself wears so in the text. -/
theorem runPasses_append (readings : ∀ pass ∈ passes, Reading pass)
    (bracketed : ∀ pass ∈ passes, Bracketed opens closes pass) (worn : Wears passes middle left)
    (opening : ∃ item ∈ left.head?, opens item = true)
    (closing : ∃ item ∈ left.getLast?, closes item = true) :
    runPasses passes (first ++ (middle ++ last)) =
      runPasses passes first ++ (left ++ runPasses passes last) := by
  induction passes generalizing first middle last with
  | nil =>
    rw [show middle = left from worn]
    rfl
  | cons pass passes ih =>
    obtain ⟨reading, readings⟩ := forall_mem_cons.mp readings
    obtain ⟨here, bracketed⟩ := forall_mem_cons.mp bracketed
    obtain ⟨head, tail, later⟩ := worn
    obtain ⟨start, starts, opening_⟩ := opening
    obtain ⟨final, ends, closing_⟩ := closing
    have before : Uncrossed pass 0 first (middle ++ last) := by
      obtain ⟨rest, rfl⟩ := head?_eq_some_iff.mp (head.trans starts)
      exact here.uncrossed_opens opening_ (Nat.zero_le _)
    have behind : Uncrossed pass 0 middle last := by
      obtain ⟨front, rfl⟩ := getLast?_eq_some_iff.mp (tail.trans ends)
      exact here.uncrossed_closes closing_ last (Nat.zero_le _)
    have step : takeOut pass 0 (first ++ (middle ++ last)) =
        takeOut pass 0 first ++ (takeOut pass 0 middle ++ takeOut pass 0 last) := by
      rw [takeOut_append reading before, takeOut_append reading behind]
    exact (congrArg (runPasses passes) step).trans (ih readings bracketed later)

/-- The last pass may take words that reach over a bracket. Then a text stands in what is left if
and only if the passes leave it of a stretch of the text, and the last one takes no word that
reaches over an edge of the stretch. -/
theorem left_iff (readings : ∀ pass ∈ passes, Reading pass)
    (bracketed : ∀ pass ∈ passes, Bracketed opens closes pass) (reading : Reading wordAt)
    (opening : ∃ item ∈ left.head?, opens item = true)
    (closing : ∃ item ∈ left.getLast?, closes item = true) :
    left <:+: takeOut wordAt 0 (runPasses passes text) ↔
      ∃ first middle last worn, text = first ++ (middle ++ last) ∧ Wears passes middle worn ∧
        Wears [wordAt] worn left ∧
        Uncrossed wordAt 0 (runPasses passes first) (worn ++ runPasses passes last) ∧
        Uncrossed wordAt 0 worn (runPasses passes last) := by
  have some_ : left ≠ [] := by
    rintro rfl
    obtain ⟨_, held, -⟩ := opening
    cases held
  constructor
  · rintro ⟨front, back, same⟩
    rw [append_assoc] at same
    obtain ⟨before, worn, after, once, apart, inside, -, taken, -, head, tail⟩ :=
      takeOut_stretch reading some_ same.symm
    obtain ⟨first, middle, last, whole, wears, rfl, rfl⟩ :=
      runPasses_stretch readings (ne_nil_of_head some_ head) once
    exact ⟨first, middle, last, worn, whole, wears, ⟨head, tail, taken⟩, apart, inside⟩
  · rintro ⟨first, middle, last, worn, rfl, wears, ⟨head, tail, taken⟩, apart, inside⟩
    rw [← head] at opening
    rw [← tail] at closing
    rw [runPasses_append readings bracketed wears opening closing, takeOut_append reading apart,
      takeOut_append reading inside, show takeOut wordAt 0 worn = left from taken]
    exact ⟨_, _, append_assoc _ _ _⟩

end

end
end QiongQi.Erasures
