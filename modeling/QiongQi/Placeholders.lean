import Mathlib.Data.List.Induction
import QiongQi.RegexMatches

/-! Numbered placeholders in a text: how a reader finds them from the left to the right, where a
text may be cut without dividing one, and that what is found depends on the words of the text
only, each from its first underscore on. -/
namespace QiongQi.Placeholders
open Regexes List

/-- What stands before and after the number of a placeholder. -/
structure Form where
  opening : List Char
  closing : List Char
  led : ∃ rest, opening = '_' :: rest
  worded : ∀ c ∈ opening, isWordChar c = true ∧ c.isDigit = false
  closes : ∃ c rest, closing = c :: rest
  closed : ∀ c ∈ closing, isWordChar c = true ∧ c.isDigit = false

def Numeral (digits : List Char) : Prop := digits ≠ [] ∧ ∀ d ∈ digits, d.isDigit = true

namespace Form
variable (form : Form)

def text (digits : List Char) : List Char := form.opening ++ digits ++ form.closing

/-- A placeholder stands at the start. -/
def Begins (text : List Char) : Prop :=
  ∃ digits rest, Numeral digits ∧ text = form.text digits ++ rest

/-- The start is that of a placeholder, up to the first digit. -/
def Opens (text : List Char) : Prop := ∃ d rest, d.isDigit = true ∧ text = form.opening ++ d :: rest

/-- A placeholder stands somewhere in the text. -/
def Marked (text : List Char) : Prop := ∃ digits, Numeral digits ∧ form.text digits <:+: text

end Form

inductive Token where
  | char (c : Char)
  | mark (digits : List Char)

/-- The placeholders from the left to the right. No other character is passed where the text that
is left is barred. -/
inductive Reads (form : Form) (barred : List Char → Prop) : List Char → List Token → Prop
  | nil : Reads form barred [] []
  | mark {digits rest tokens} (numeral : Numeral digits) (later : Reads form barred rest tokens) :
    Reads form barred (form.text digits ++ rest) (.mark digits :: tokens)
  | char {c rest tokens} (apart : ¬ barred (c :: rest)) (later : Reads form barred rest tokens) :
    Reads form barred (c :: rest) (.char c :: tokens)

def marks (tokens : List Token) : List (List Char) :=
  tokens.filterMap fun token => match token with
    | .char _ => none
    | .mark digits => some digits

def expand (held : List Char → List Char) (tokens : List Token) : List Char :=
  tokens.flatMap fun token => match token with
    | .char c => [c]
    | .mark digits => held digits

@[simp] theorem marks_nil : marks [] = [] := rfl

@[simp] theorem marks_char (c : Char) (tokens : List Token) :
    marks (.char c :: tokens) = marks tokens := rfl

@[simp] theorem marks_mark (digits : List Char) (tokens : List Token) :
    marks (.mark digits :: tokens) = digits :: marks tokens := rfl

@[simp] theorem marks_append (front back : List Token) :
    marks (front ++ back) = marks front ++ marks back := filterMap_append

section
variable (held : List Char → List Char)
include held

@[simp] theorem expand_nil : expand held [] = [] := rfl

@[simp] theorem expand_char (c : Char) (tokens : List Token) :
    expand held (.char c :: tokens) = c :: expand held tokens := rfl

@[simp] theorem expand_mark (digits : List Char)
    (tokens : List Token) :
    expand held (.mark digits :: tokens) = held digits ++ expand held tokens := rfl

@[simp] theorem expand_append (front back : List Token) :
    expand held (front ++ back) = expand held front ++ expand held back := flatMap_append

end

variable {form : Form}
variable {digits text rest back front passed : List Char} {tokens : List Token} {regex : Regex}

theorem Numeral.head (numeral : Numeral digits) :
    ∃ d rest, digits = d :: rest ∧ d.isDigit = true := by
  obtain ⟨d, rest, rfl⟩ := exists_cons_of_ne_nil numeral.1
  exact ⟨d, rest, rfl, numeral.2 d mem_cons_self⟩

theorem Form.Begins.opens (begins : form.Begins text) : form.Opens text := by
  obtain ⟨digits, rest, numeral, rfl⟩ := begins
  obtain ⟨d, more, rfl, digit⟩ := numeral.head
  exact ⟨d, more ++ form.closing ++ rest, digit, by simp [Form.text]⟩

theorem Form.Opens.append (opens : form.Opens text) (rest : List Char) :
    form.Opens (text ++ rest) := by
  obtain ⟨d, back, digit, rfl⟩ := opens
  exact ⟨d, back ++ rest, digit, by simp⟩

theorem Form.text_cons (form : Form) (digits : List Char) :
    ∃ rest, form.text digits = '_' :: rest := by
  obtain ⟨rest, led⟩ := form.led
  exact ⟨rest ++ digits ++ form.closing, by rw [Form.text, led]; rfl⟩

theorem isWordChar_of_digit (digit : d.isDigit = true) : isWordChar d = true := by
  simp [isWordChar, Char.isAlphanum, digit]

theorem Form.text_words (form : Form) (numeral : Numeral digits) :
    ∀ c ∈ form.text digits, isWordChar c = true := by
  intro c held
  rw [Form.text, append_assoc, mem_append, mem_append] at held
  obtain opening | digit | closing := held
  · exact (form.worded c opening).1
  · exact isWordChar_of_digit (numeral.2 c digit)
  · exact (form.closed c closing).1

theorem takeWhile_digits (all : ∀ d ∈ digits, d.isDigit = true)
    (stops : ∀ c ∈ rest.head?, c.isDigit = false) :
    (digits ++ rest).takeWhile Char.isDigit = digits := by
  rw [takeWhile_append_of_pos all]
  cases rest with
  | nil => exact append_nil _
  | cons c rest =>
    rw [takeWhile_cons_of_neg (by simp [stops c rfl]), append_nil]

theorem Form.text_inj (form : Form) (first : Numeral one) (second : Numeral two)
    (same : form.text one ++ back = form.text two ++ rest) : one = two ∧ back = rest := by
  simp only [Form.text, append_assoc] at same
  have same := append_cancel_left same
  obtain ⟨c, more, closes⟩ := form.closes
  have stops : ∀ rest : List Char, ∀ d ∈ (form.closing ++ rest).head?, d.isDigit = false := by
    intro rest d held
    rw [closes] at held
    cases held
    exact (form.closed c (by rw [closes]; exact mem_cons_self)).2
  have digits := congrArg (List.takeWhile Char.isDigit) same
  rw [takeWhile_digits first.2 (stops back), takeWhile_digits second.2 (stops rest)] at digits
  subst digits
  exact ⟨rfl, append_cancel_left (append_cancel_left same)⟩

theorem Reads.weaken (implies : ∀ text, weaker text → barred text)
    (reads : Reads form barred text tokens) : Reads form weaker text tokens := by
  induction reads with
  | nil => exact .nil
  | mark numeral _ ih => exact .mark numeral ih
  | char apart _ ih => exact .char (apart ∘ implies _) ih

theorem Reads.cases_text (reads : Reads form barred text tokens) : (text = [] ∧ tokens = []) ∨
      (∃ digits rest later, Numeral digits ∧ text = form.text digits ++ rest ∧
        tokens = .mark digits :: later ∧ Reads form barred rest later) ∨
      ∃ c rest later, ¬ barred (c :: rest) ∧ text = c :: rest ∧ tokens = .char c :: later ∧
        Reads form barred rest later := by
  cases reads with
  | nil => exact .inl ⟨rfl, rfl⟩
  | mark numeral later => exact .inr (.inl ⟨_, _, _, numeral, rfl, rfl, later⟩)
  | char apart later => exact .inr (.inr ⟨_, _, _, apart, rfl, rfl, later⟩)

theorem Reads.unique (first : Reads form form.Begins text one)
    (second : Reads form form.Begins text two) : one = two := by
  induction first generalizing two with
  | nil =>
    obtain ⟨-, rfl⟩ | ⟨digits, rest, -, -, empty, -⟩ | ⟨c, rest, -, -, empty, -⟩ :=
      second.cases_text
    · rfl
    · obtain ⟨more, spelled⟩ := form.text_cons digits
      rw [spelled] at empty
      cases empty
    · cases empty
  | @mark digits rest tokens numeral _ ih =>
    obtain ⟨empty, -⟩ | ⟨others, back, later, numeral', same, rfl, reads⟩ |
        ⟨c, back, -, apart, same, -⟩ := second.cases_text
    · obtain ⟨more, spelled⟩ := form.text_cons digits
      rw [spelled] at empty
      cases empty
    · obtain ⟨rfl, rfl⟩ := form.text_inj numeral numeral' same
      rw [ih reads]
    · exact absurd ⟨digits, rest, numeral, same.symm⟩ apart
  | @char c rest tokens apart _ ih =>
    obtain ⟨empty, -⟩ | ⟨digits, back, -, numeral, same, -⟩ |
        ⟨d, back, later, -, same, rfl, reads⟩ := second.cases_text
    · cases empty
    · exact absurd ⟨digits, back, numeral, same⟩ apart
    · cases same
      rw [ih reads]

/-- A text has a placeholder when one is read. -/
theorem Reads.marked_iff (reads : Reads form form.Begins text tokens) :
    form.Marked text ↔ marks tokens ≠ [] := by
  induction reads with
  | nil =>
    refine iff_of_false ?_ (by simp)
    rintro ⟨digits, -, inside⟩
    obtain ⟨more, spelled⟩ := form.text_cons digits
    rw [spelled, infix_nil] at inside
    cases inside
  | @mark digits rest tokens numeral _ _ =>
    refine iff_of_true ⟨digits, numeral, ?_⟩ (by simp)
    exact (prefix_append _ _).isInfix
  | @char c rest tokens apart _ ih =>
    rw [marks_char, ← ih]
    constructor
    · rintro ⟨digits, numeral, inside⟩
      obtain ⟨back, starts⟩ | inside := infix_cons_iff.mp inside
      · exact absurd ⟨digits, back, numeral, starts.symm⟩ apart
      · exact ⟨digits, numeral, inside⟩
    · rintro ⟨digits, numeral, inside⟩
      exact ⟨digits, numeral, inside.trans (suffix_cons c rest).isInfix⟩

/-- What is held for the placeholders stands in the text in their order. -/
theorem expand_marks (held : List Char → List Char) (marked : digits ∈ marks tokens) :
    held digits <:+: expand held tokens := by
  induction tokens with
  | nil => cases marked
  | cons token tokens ih =>
    cases token with
    | char c => exact (ih marked).trans (suffix_cons c _).isInfix
    | mark others =>
      obtain rfl | later := mem_cons.mp marked
      · exact (prefix_append _ _).isInfix
      · exact (ih later).trans (suffix_append _ _).isInfix

/-- A text without placeholders stays as it is. -/
theorem Reads.expand_plain (reads : Reads form barred text tokens) (plain : marks tokens = [])
    (held : List Char → List Char) : expand held tokens = text := by
  induction reads with
  | nil => rfl
  | mark => cases plain
  | @char c _ _ _ _ ih => exact congrArg (c :: ·) (ih plain)

theorem Reads.of_plain (plain : ∀ back, back <:+ text → ¬ form.Opens back) :
    Reads form form.Opens text (text.map Token.char) := by
  induction text with
  | nil => exact .nil
  | cons c rest ih =>
    exact .char (plain _ suffix_rfl)
      (ih fun back later => plain back (later.trans (suffix_cons c rest)))

theorem marks_plain : marks (text.map Token.char) = [] := by
  induction text with
  | nil => rfl
  | cons c rest ih => exact ih

theorem expand_congr (same : ∀ digits ∈ marks tokens, held digits = other digits) :
    expand held tokens = expand other tokens := by
  induction tokens with
  | nil => rfl
  | cons token tokens ih =>
    cases token with
    | char c => exact congrArg (c :: ·) (ih same)
    | mark digits =>
      obtain ⟨first, later⟩ := forall_mem_cons.mp same
      rw [expand_mark, expand_mark, first, ih later]

/-- Whether a word goes on after a character from its first underscore on. -/
def goesOn (within : Bool) (c : Char) : Bool := isWordChar c && (within || c = '_')

def inKey (within : Bool) (text : List Char) : Bool := text.foldl goesOn within

/-- The words from their first underscore on, each after a blank. -/
def keys : Bool → List Char → List Char
  | _, [] => []
  | within, c :: rest =>
    (if goesOn within c then if within then [c] else [' ', c] else []) ++ keys (goesOn within c) rest

theorem inKey_cons : inKey within (c :: rest) = inKey (goesOn within c) rest := rfl

theorem inKey_append :
    inKey within (front ++ back) = inKey (inKey within front) back := foldl_append

theorem keys_append (within : Bool) (front back : List Char) :
    keys within (front ++ back) = keys within front ++ keys (inKey within front) back := by
  induction front generalizing within with
  | nil => rfl
  | cons c front ih => rw [cons_append, keys, keys, ih, inKey_cons, append_assoc]

theorem goesOn_nonword (outside : isWordChar c = false) : goesOn within c = false := by
  rw [goesOn, outside, Bool.false_and]

theorem inKey_mono (goes : inKey false text = true) : inKey within text = true := by
  cases within with
  | false => exact goes
  | true =>
    induction text with
    | nil => rfl
    | cons c rest ih =>
      rw [inKey_cons] at goes ⊢
      cases first : goesOn true c with
      | true =>
        cases same : goesOn false c with
        | true => rwa [same] at goes
        | false => exact ih (by rwa [same] at goes)
      | false =>
        have other : goesOn false c = false := by
          rw [goesOn, Bool.true_or, Bool.and_true] at first
          exact goesOn_nonword first
        rwa [other] at goes

theorem inKey_words (words : ∀ c ∈ text, isWordChar c = true) : inKey true text = true := by
  induction text with
  | nil => rfl
  | cons c rest ih =>
    obtain ⟨word, rest_⟩ := forall_mem_cons.mp words
    rw [inKey_cons, goesOn, word]
    exact ih rest_

theorem inKey_marked (words : ∀ c ∈ '_' :: text, isWordChar c = true) :
    inKey within ('_' :: text) = true := by
  apply inKey_mono
  rw [inKey_cons, show goesOn false '_' = true from rfl]
  exact inKey_words fun c held => words c (mem_cons_of_mem _ held)

/-- Where a key goes on, the last word has an underscore. -/
theorem inKey_split (goes : inKey false text = true) :
    ∃ front back, text = front ++ '_' :: back ∧ ∀ c ∈ back, isWordChar c = true := by
  induction text using List.reverseRecOn with
  | nil => cases goes
  | append_singleton text c ih =>
    rw [inKey_append, inKey_cons, inKey, foldl_nil, goesOn, Bool.and_eq_true,
      Bool.or_eq_true, decide_eq_true_eq] at goes
    obtain ⟨word, within | rfl⟩ := goes
    · obtain ⟨front, back, rfl, words⟩ := ih within
      refine ⟨front, back ++ [c], by simp, forall_mem_append.mpr ⟨words, ?_⟩⟩
      simpa using word
    · exact ⟨text, [], rfl, nofun⟩

theorem keys_nonwords (outside : ∀ c ∈ text, isWordChar c = false) (within : Bool) :
    keys within text = [] ∧ (text ≠ [] → inKey within text = false) := by
  induction text generalizing within with
  | nil => exact ⟨rfl, absurd rfl⟩
  | cons c rest ih =>
    obtain ⟨first, later⟩ := forall_mem_cons.mp outside
    rw [keys, inKey_cons, goesOn_nonword first]
    refine ⟨(ih later false).1, fun _ => ?_⟩
    cases rest with
    | nil => rfl
    | cons d rest => exact (ih later false).2 nofun

theorem keys_plain (plain : '_' ∉ text) : keys false text = [] ∧ inKey false text = false := by
  induction text with
  | nil => exact ⟨rfl, rfl⟩
  | cons c rest ih =>
    obtain ⟨first, later⟩ := not_or.mp (mem_cons.not.mp plain)
    have stays : goesOn false c = false := by
      rw [goesOn, Bool.false_or, decide_eq_false (Ne.symm first), Bool.and_false]
    rw [keys, inKey_cons, stays]
    exact ih later

/-- No placeholder reaches over the seam. -/
def Seam (front back : List Char) : Prop :=
  inKey false front = false ∨ ∀ c ∈ back.head?, isWordChar c = false

theorem Seam.tail (seam : Seam (c :: front) back) : Seam front back := by
  refine seam.imp_left fun outside => ?_
  rw [← Bool.not_eq_true]
  intro goes
  rw [inKey_cons, inKey_mono goes] at outside
  cases outside

theorem Seam.right (seam : Seam (front ++ middle) back) : Seam middle back := by
  induction front with
  | nil => exact seam
  | cons c front ih => exact ih seam.tail

theorem Reads.split (longer : ∀ text rest, barred text → barred (text ++ rest))
    (seam : Seam front back) (reads : Reads form barred (front ++ back) tokens) :
    ∃ one two, tokens = one ++ two ∧ Reads form barred front one ∧ Reads form barred back two := by
  induction tokens generalizing front with
  | nil =>
    obtain ⟨empty, -⟩ | ⟨_, _, _, -, -, impossible, -⟩ | ⟨_, _, _, -, -, impossible, -⟩ :=
      reads.cases_text
    · obtain ⟨rfl, rfl⟩ := append_eq_nil_iff.mp empty
      exact ⟨[], [], rfl, .nil, .nil⟩
    · cases impossible
    · cases impossible
  | cons token tokens ih =>
    cases front with
    | nil => exact ⟨[], token :: tokens, rfl, .nil, reads⟩
    | cons c front =>
      obtain ⟨-, impossible⟩ | ⟨digits, rest, later, numeral, same, spelled, reads⟩ |
          ⟨d, rest, later, apart, same, spelled, reads⟩ := reads.cases_text
      · cases impossible
      · cases spelled
        obtain ⟨more, front_, rest_⟩ | ⟨more, text_, back_⟩ := append_eq_append_iff.mp same
        · -- The placeholder ends after the seam.
          cases more with
          | nil =>
            rw [append_nil] at front_
            rw [nil_append] at rest_
            subst rest_
            refine ⟨[.mark digits], tokens, rfl, ?_, reads⟩
            rw [← front_, ← append_nil (form.text digits)]
            exact .mark numeral .nil
          | cons d more =>
            exfalso
            have words := form.text_words numeral
            rw [front_] at words
            obtain ⟨front_words, rest_words⟩ := forall_mem_append.mp words
            obtain inside | outside := seam
            · obtain ⟨tail, text_⟩ := form.text_cons digits
              rw [text_] at front_
              obtain ⟨rfl, -⟩ := List.cons.inj front_
              rw [inKey_marked front_words] at inside
              cases inside
            · have word := rest_words d mem_cons_self
              rw [outside d (by rw [rest_]; rfl)] at word
              cases word
        · subst back_
          rw [text_] at seam
          obtain ⟨one, two, rfl, first, second⟩ := ih seam.right reads
          refine ⟨.mark digits :: one, two, rfl, ?_, second⟩
          rw [text_]
          exact .mark numeral first
      · cases spelled
        obtain ⟨rfl, rfl⟩ := List.cons.inj same
        obtain ⟨one, two, rfl, first, second⟩ := ih seam.tail reads
        refine ⟨.char c :: one, two, rfl, .char (fun bar => ?_) first, second⟩
        exact apart (longer _ back bar)

theorem Form.Opens.of_text (opens : form.Opens (c :: front ++ (form.text digits ++ back))) :
    form.Opens (c :: front) := by
  obtain ⟨d, rest, digit, same⟩ := opens
  obtain ⟨more, text_, rest_⟩ | ⟨more, front_, -⟩ :=
    append_eq_append_iff.mp (same.trans (append_cons form.opening d rest))
  · cases more using List.reverseRecOn with
    | nil => exact ⟨d, [], digit, by rw [text_, append_nil]⟩
    | append_singleton more e _ =>
      -- The start ends with a digit in the opening of the placeholder.
      exfalso
      rw [← append_assoc] at text_
      obtain ⟨opening_, rfl⟩ := append_inj' text_ rfl |>.imp_right singleton_inj.mp
      have shorter : (more ++ [d]).length ≤ form.opening.length := by
        rw [opening_]
        simp
      have one : more ++ [d] <+: form.text digits ++ back := ⟨rest, rest_.symm⟩
      have two : form.opening <+: form.text digits ++ back :=
        ⟨digits ++ (form.closing ++ back), by simp [Form.text]⟩
      have inside := prefix_of_prefix_length_le one two shorter
      have plain := form.worded d (inside.subset (by simp))
      rw [plain.2] at digit
      cases digit
  · exact ⟨d, more, digit, by rw [front_, append_assoc]; rfl⟩

theorem Reads.join (first : Reads form form.Opens front one) (numeral : Numeral digits)
    (second : Reads form form.Opens back two) :
    Reads form form.Opens (front ++ (form.text digits ++ back)) (one ++ .mark digits :: two) := by
  induction first with
  | nil => exact .mark numeral second
  | mark others _ ih =>
    rw [append_assoc]
    exact .mark others ih
  | char apart _ ih => exact .char (fun opens => apart opens.of_text) ih

def tokenKeys : Bool → List Token → List Token
  | _, [] => []
  | within, .char c :: rest =>
    (if goesOn within c then if within then [.char c] else [.char ' ', .char c] else []) ++
      tokenKeys (goesOn within c) rest
  | within, .mark digits :: rest =>
    (if within then [] else [.char ' ']) ++ .mark digits :: tokenKeys true rest

theorem marks_tokenKeys : marks (tokenKeys within tokens) = marks tokens := by
  induction tokens generalizing within with
  | nil => rfl
  | cons token tokens ih =>
    cases token with
    | char c =>
      rw [tokenKeys, marks_append, ih, marks_char]
      split
      · split <;> rfl
      · rfl
    | mark digits =>
      rw [tokenKeys, marks_append, marks_mark, ih, marks_mark]
      split <;> rfl

theorem keys_false : keys false text = [] ∨ ∃ rest, keys false text = ' ' :: rest := by
  induction text with
  | nil => exact .inl rfl
  | cons c rest ih =>
    rw [keys]
    split
    · exact .inr ⟨_, rfl⟩
    · rename_i stays
      rw [Bool.not_eq_true] at stays
      rw [stays]
      exact ih

theorem tokenKeys_false :
    tokenKeys false tokens = [] ∨ ∃ rest, tokenKeys false tokens = .char ' ' :: rest := by
  induction tokens with
  | nil => exact .inl rfl
  | cons token tokens ih =>
    cases token with
    | char c =>
      rw [tokenKeys]
      split
      · exact .inr ⟨_, rfl⟩
      · rename_i stays
        rw [Bool.not_eq_true] at stays
        rw [stays]
        exact ih
    | mark digits => exact .inr ⟨_, rfl⟩

theorem takeWhile_keys (text : List Char) :
    (keys true text).takeWhile isWordChar = text.takeWhile isWordChar := by
  induction text with
  | nil => rfl
  | cons c rest ih =>
    rw [keys]
    cases word : isWordChar c with
    | true =>
      rw [goesOn, word, Bool.true_or, Bool.and_true, if_pos rfl, if_pos rfl, singleton_append,
        takeWhile_cons_of_pos word, takeWhile_cons_of_pos word, ih]
    | false =>
      rw [goesOn_nonword word, takeWhile_cons_of_neg (by simp [word]), if_neg Bool.false_ne_true, nil_append]
      obtain empty | ⟨more, blank⟩ := keys_false
      · rw [empty]
        rfl
      · rw [blank]
        exact takeWhile_cons_of_neg Bool.false_ne_true

theorem keys_words (words : ∀ c ∈ text, isWordChar c = true) : keys true text = text := by
  induction text with
  | nil => rfl
  | cons c rest ih =>
    obtain ⟨word, later⟩ := forall_mem_cons.mp words
    rw [keys, goesOn, word, Bool.true_or, Bool.and_true, if_pos rfl, if_pos rfl, ih later]
    rfl

theorem keys_text (numeral : Numeral digits) :
    keys within (form.text digits) = (if within then [] else [' ']) ++ form.text digits ∧
      inKey within (form.text digits) = true := by
  have words := form.text_words numeral
  obtain ⟨rest, spelled⟩ := form.text_cons digits
  rw [spelled] at words ⊢
  refine ⟨?_, inKey_marked words⟩
  have later := keys_words fun c held => words c (mem_cons_of_mem _ held)
  have goes : goesOn within '_' = true := by
    cases within <;> rfl
  rw [keys, goes, later]
  cases within <;> rfl

/-- Only a placeholder that stands in the text stands in its words. -/
theorem Form.Begins.of_keys (begins : form.Begins (c :: keys true rest)) :
    form.Begins (c :: rest) := by
  obtain ⟨digits, back, numeral, same⟩ := begins
  have words := form.text_words numeral
  obtain ⟨tail, spelled⟩ := form.text_cons digits
  have whole := spelled
  rw [spelled, cons_append] at same
  obtain ⟨rfl, later⟩ := List.cons.inj same
  rw [spelled] at words
  have tail_words : ∀ d ∈ tail, isWordChar d = true :=
    fun d held => words d (mem_cons_of_mem _ held)
  have starts := takeWhile_keys rest
  have later : keys true rest = tail ++ back := later
  rw [later, takeWhile_append_of_pos tail_words] at starts
  have front : tail <+: rest.takeWhile isWordChar := ⟨_, starts⟩
  obtain ⟨more, rest_⟩ := front.trans (List.takeWhile_prefix _)
  exact ⟨digits, more, numeral, by rw [whole, ← rest_]; rfl⟩

theorem Form.not_begins_blank (form : Form) (rest : List Char) : ¬ form.Begins (' ' :: rest) := by
  rintro ⟨digits, back, -, same⟩
  obtain ⟨tail, spelled⟩ := form.text_cons digits
  rw [spelled] at same
  cases same

theorem Reads.on_keys (reads : Reads form form.Begins text tokens) (within : Bool) :
    Reads form form.Begins (keys within text) (tokenKeys within tokens) := by
  induction reads generalizing within with
  | nil => exact .nil
  | @mark digits rest tokens numeral _ ih =>
    obtain ⟨written, goes⟩ := keys_text numeral
    rw [keys_append, written, goes, tokenKeys, append_assoc]
    have later := Reads.mark numeral (ih true)
    cases within with
    | true => exact later
    | false => exact .char (form.not_begins_blank _) later
  | @char c rest tokens apart _ ih =>
    rw [keys, tokenKeys]
    cases goes : goesOn within c with
    | false => exact ih false
    | true =>
      have later := Reads.char (fun begins => apart begins.of_keys) (ih true)
      cases within with
      | true => exact later
      | false => exact .char (form.not_begins_blank _) later

theorem keys_tokenKeys_false :
    keys other (expand held (tokenKeys false tokens)) =
      keys false (expand held (tokenKeys false tokens)) := by
  obtain empty | ⟨rest, blank⟩ := tokenKeys_false
  · rw [empty]
    cases other <;> rfl
  · rw [blank]
    cases other <;> rfl

/-- Whatever is put in for the placeholders, the words are those that come of the words alone. -/
theorem keys_expand (tokens : List Token) (within other : Bool) (outside : within = false → other = false) :
    keys other (expand held (tokenKeys within tokens)) = keys other (expand held tokens) := by
  induction tokens generalizing within other with
  | nil => rfl
  | cons token tokens ih =>
    cases token with
    | char c =>
      rw [tokenKeys, expand_append, expand_char]
      cases goes : goesOn within c with
      | true =>
        rw [if_pos rfl]
        have later := ih true (goesOn other c) nofun
        cases within with
        | true =>
          rw [if_pos rfl, expand_char, expand_nil, singleton_append, keys, keys, later]
        | false =>
          cases outside rfl
          have blank : keys false (expand held [.char ' ', .char c] ++ expand held (tokenKeys true tokens)) =
              keys false (c :: expand held (tokenKeys true tokens)) := rfl
          rw [if_neg Bool.false_ne_true, blank, keys, keys, later]
      | false =>
        rw [if_neg Bool.false_ne_true, expand_nil, nil_append, keys_tokenKeys_false, ih false false id]
        have stops : goesOn other c = false := by
          cases within with
          | true =>
            rw [goesOn, Bool.true_or, Bool.and_true] at goes
            exact goesOn_nonword goes
          | false => rwa [outside rfl]
        rw [keys, stops, if_neg Bool.false_ne_true, nil_append]
    | mark digits =>
      have later := ih true (inKey other (held digits)) nofun
      rw [tokenKeys, expand_append, expand_mark, expand_mark, keys_append _ (held digits)]
      cases within with
      | true => rw [if_pos rfl, expand_nil, nil_append, keys_append, later]
      | false =>
        cases outside rfl
        have blank : keys false (expand held [.char ' '] ++
            (held digits ++ expand held (tokenKeys true tokens))) =
            keys false (held digits ++ expand held (tokenKeys true tokens)) := rfl
        rw [if_neg Bool.false_ne_true, blank, keys_append, later]

/-- Two texts with the same words have the same placeholders, and whatever is put in for these,
the same words come of it. -/
theorem Reads.same_keys (first : Reads form form.Begins one tokens)
    (second : Reads form form.Begins two others) (same : keys false one = keys false two) :
    marks tokens = marks others ∧
      ∀ held, keys false (expand held tokens) = keys false (expand held others) := by
  have read := first.on_keys false
  rw [same] at read
  have tokens_ := read.unique (second.on_keys false)
  constructor
  · rw [← marks_tokenKeys, tokens_, marks_tokenKeys]
  · intro held
    rw [← keys_expand tokens false false id, tokens_, keys_expand others false false id]

def reader (opening closing : String) : Regex :=
  sequence [literal false opening, .group 1 (atLeastOne (.one Char.isDigit)), literal false closing]

/-- The number is the text of the group. -/
def tokenOf : Piece → Token
  | .kept c => .char c
  | .found _ groups => .mark ((groups.lookup 1).getD [])

theorem reader_filled : (reader opening closing).Filled := by
  apply Regex.Filled.right
  apply Regex.Filled.left
  exact ((filled_one _).left _).group 1

theorem matches_reader (matched : (reader opening closing).Matches ⟨passed, text, []⟩ last) :
    ∃ digits, Numeral digits ∧ text = opening.toList ++ digits ++ closing.toList ++ last.rest ∧
      last.groups = [(1, digits)] := by
  obtain ⟨first, opened, second, numbered, closed⟩ := matched
  obtain ⟨⟨one, -⟩, groups⟩ := matches_literal.mp opened
  obtain ⟨middle, digits, counted, inner, two, number⟩ := matches_group numbered
  obtain ⟨others, some_, all, ⟨same, -⟩, unchanged⟩ := matches_atLeastOne counted
  obtain ⟨⟨three, -⟩, kept⟩ := matches_literal.mp closed
  dsimp only at one groups three kept
  have numeral : digits = others := append_cancel_right (inner.1.symm.trans same)
  subst numeral
  refine ⟨digits, ⟨some_, all⟩, ?_, ?_⟩
  · rw [one, two.1, three]
    simp
  · rw [kept, number, unchanged, groups]

theorem reader_matches (numeral : Numeral digits) : ∃ last, (reader opening closing).Matches
      ⟨passed, opening.toList ++ (digits ++ (closing.toList ++ rest)), []⟩ last := by
  have opened := literal_matches opening passed (digits ++ (closing.toList ++ rest)) []
  have counted := atLeastOne_matches numeral.1 numeral.2 (opening.toList.reverse ++ passed)
    (closing.toList ++ rest) []
  exact ⟨_, _, opened, _, ⟨_, counted, rfl⟩, literal_matches closing _ rest _⟩

/-- The matches of the regular expression are what is read. -/
theorem reads_pieces (opened : form.opening = opening.toList)
    (closed : form.closing = closing.toList) (passed text : List Char) :
    Reads form form.Begins text (((reader opening closing).pieces 0 passed text).map tokenOf) := by
  refine reader_filled.pieces_induction
    (motive := fun _ rest pieces => Reads form form.Begins rest (pieces.map tokenOf))
    ?_ ?_ ?_ passed text
  · exact fun passed => .nil
  · intro passed c rest none_ ih
    refine .char ?_ ih
    rintro ⟨digits, back, numeral, same⟩
    obtain ⟨last, matched⟩ := reader_matches numeral
    have found : ((reader opening closing).run ⟨passed, _, []⟩ some).isSome :=
      run_some _ matched rfl
    rw [Form.text, opened, closed, append_assoc, append_assoc] at same
    rw [← same, none_] at found
    cases found
  · intro passed taken rest groups ran ih
    obtain ⟨last, matched, led⟩ := run_matches _ ran
    cases led
    obtain ⟨digits, numeral, whole, groups_⟩ := matches_reader matched
    dsimp only at whole groups_
    rw [← opened, ← closed] at whole
    have taken_ := append_cancel_right whole
    subst taken_ groups_
    exact .mark numeral ih

/-- What is put in for a match leaves the words from their first underscore on as they are, inside
such a word only where the character before is one of a word. -/
def KeepsKeys (regex : Regex) (by_ : List Char → List (Nat × List Char) → List Char) : Prop :=
  ∀ passed taken rest groups,
    regex.run ⟨passed, taken ++ rest, []⟩ some = some ⟨taken.reverse ++ passed, rest, groups⟩ →
    ∀ within, (within = true → ∃ c ∈ passed.head?, isWordChar c = true) →
      keys within (by_ taken groups) = keys within taken ∧
        inKey within (by_ taken groups) = inKey within taken

theorem inKey_before (goes : inKey false passed.reverse = true) :
    ∃ c ∈ passed.head?, isWordChar c = true := by
  cases passed with
  | nil => cases goes
  | cons c passed =>
    rw [reverse_cons, inKey_append] at goes
    exact ⟨c, rfl, (Bool.and_eq_true_iff.mp goes).1⟩

theorem KeepsKeys.replaceEach (filled : regex.Filled) (keeps : KeepsKeys regex by_)
    (text : List Char) : keys false (regex.replaceEach by_ text) = keys false text := by
  refine filled.pieces_induction
    (motive := fun passed rest pieces =>
      keys (inKey false passed.reverse) (pieces.flatMap (Piece.write by_)) =
        keys (inKey false passed.reverse) rest)
    ?_ ?_ ?_ [] text
  · exact fun passed => rfl
  · intro passed c rest _ ih
    rw [reverse_cons, inKey_append] at ih
    exact congrArg (_ ++ ·) ih
  · intro passed taken rest groups ran ih
    obtain ⟨same, state⟩ := keeps passed taken rest groups ran _ inKey_before
    rw [reverse_append, reverse_reverse, inKey_append] at ih
    rw [flatMap_cons, Piece.write, keys_append, keys_append, same, state, ih]

/-- Words without underscores may be taken out where none goes on. -/
theorem keepsKeys_erase (covers : regex.Over fun c => c ≠ '_')
    (starts : ∀ passed rest last, regex.run ⟨passed, rest, []⟩ some = some last →
      ∀ c ∈ passed.head?, isWordChar c = false) : KeepsKeys regex fun _ _ => [] := by
  intro passed taken rest groups ran within before
  have outside : within = false := by
    rw [← Bool.not_eq_true]
    intro goes
    obtain ⟨c, head, word⟩ := before goes
    rw [starts _ _ _ ran c head] at word
    cases word
  subst outside
  obtain ⟨last, matched, led⟩ := run_matches regex ran
  cases led
  obtain ⟨others, took, plain⟩ := covers.took matched
  have same : taken = others := append_cancel_right took.1
  subst same
  obtain ⟨none_, stays⟩ := keys_plain fun held => plain '_' held rfl
  exact ⟨none_.symm, stays.symm⟩

theorem keepsKeys_outside (outside : ∀ passed taken rest groups,
      regex.Matches ⟨passed, taken ++ rest, []⟩ ⟨taken.reverse ++ passed, rest, groups⟩ →
      ∀ text, text = taken ∨ text = by_ taken groups →
        text ≠ [] ∧ ∀ c ∈ text, isWordChar c = false) : KeepsKeys regex by_ := by
  intro passed taken rest groups ran within _
  obtain ⟨last, matched, led⟩ := run_matches regex ran
  cases led
  have facts := outside passed taken rest groups matched
  obtain ⟨some_, one⟩ := facts taken (.inl rfl)
  obtain ⟨others, two⟩ := facts (by_ taken groups) (.inr rfl)
  obtain ⟨none_, stops⟩ := keys_nonwords one within
  obtain ⟨none', stops'⟩ := keys_nonwords two within
  exact ⟨none'.trans none_.symm, (stops' others).trans (stops some_).symm⟩

/-- A match in a word, after an underscore of it, would have been found at that underscore. -/
def KeyStart (regex : Regex) : Prop :=
  ∀ front back rest, (∀ c ∈ back, isWordChar c = true) → (∃ c ∈ rest.head?, isWordChar c = true) →
    (regex.run ⟨back.reverse ++ '_' :: front, rest, []⟩ some).isSome →
    (regex.run ⟨front, '_' :: (back ++ rest), []⟩ some).isSome

theorem keyStart_boundary (second : Regex) : KeyStart (.seq wordBoundary second) := by
  intro front back rest words starts ran
  exfalso
  obtain ⟨last, ran⟩ := Option.isSome_iff_exists.mp ran
  obtain ⟨_, ⟨middle, ⟨apart, -⟩, -⟩, -⟩ := run_matches _ ran
  obtain ⟨c, head, word⟩ := starts
  have before : ∃ d ∈ (back.reverse ++ '_' :: front).head?, isWordChar d = true := by
    cases reversed : back.reverse with
    | nil => exact ⟨'_', rfl, by decide⟩
    | cons d others =>
      refine ⟨d, rfl, words d (mem_reverse.mp ?_)⟩
      rw [reversed]
      exact mem_cons_self
  obtain ⟨d, head', word'⟩ := before
  dsimp only at apart
  rw [head, head'] at apart
  simp [word, word'] at apart

theorem keyStart_outside (begins : regex.BeginsWith fun c => !isWordChar c) : KeyStart regex := by
  intro front back rest _ starts ran
  obtain ⟨c, head, word⟩ := starts
  have none_ : regex.run ⟨back.reverse ++ '_' :: front, rest, []⟩ some = none := by
    refine begins _ _ fun d held => ?_
    have same : d = c := Option.some.inj (held.symm.trans head)
    subst same
    exact (congrArg (!·) word : (!isWordChar d) = !true)
  rw [none_] at ran
  cases ran

theorem KeyStart.seam (starts : KeyStart regex)
    (ran : (regex.run ⟨kept.reverse ++ before, rest, []⟩ some).isSome)
    (unmatched : ∀ front back, kept = front ++ back → back ≠ [] →
      regex.run ⟨front.reverse ++ before, back ++ rest, []⟩ some = none) : Seam kept rest := by
  by_cases word : ∃ c ∈ rest.head?, isWordChar c = true
  · refine .inl ?_
    rw [← Bool.not_eq_true]
    intro goes
    obtain ⟨front, back, rfl, words⟩ := inKey_split goes
    have earlier := starts (front.reverse ++ before) back rest words word (by simpa using ran)
    have none_ := unmatched front ('_' :: back) rfl nofun
    rw [cons_append] at none_
    rw [none_] at earlier
    cases earlier
  · push Not at word
    exact .inr fun c held => by simpa using word c held

theorem seam_after (ends : (⟨taken.reverse ++ passed, rest, groups⟩ : Cursor).AtWordEnd) :
    Seam taken rest := by
  refine ends.imp_left fun outside => ?_
  rw [← Bool.not_eq_true]
  intro goes
  rw [← reverse_reverse taken] at goes
  obtain ⟨c, head, word⟩ := inKey_before goes
  rw [outside c (by simp [Option.mem_def.mp head])] at word
  cases word

end QiongQi.Placeholders
