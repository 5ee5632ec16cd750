import Mathlib.Data.List.TakeWhile
import QiongQi.ModelTexts
import QiongQi.Placeholders

/-! `compressProse` of `loop/src/token-economy.ts`: code, URLs, paths and names are held back
behind numbered markers, the words around them are shortened, and the markers are replaced by what
they stand for, in one pass. -/
namespace QiongQi.ProseCompressions
open ModelTexts Placeholders Regexes RuntimeContracts List

def nothing : List Char → List (Nat × List Char) → List Char := fun _ _ => []

def groupText (groups : List (Nat × List Char)) (number : Nat) : List Char :=
  (groups.lookup number).getD []

/-- With or without the apostrophe, as in `let'?s`. -/
def contracted (front back : String) : Regex :=
  sequence [literal true front, optional (literal true "'"), literal true back]

def oneOf (chars : String) : Regex := .one fun c => chars.toList.contains c

/-- `^` with the flag `m` -/
def lineStart : Regex := .here fun before _ => before.all isLineEnd

/-- `/^(?:i'?ll|i will|i can|i'?d|you can|we will|we can|let me|let'?s)\s+/gim` -/
def leadersRe : Regex :=
  sequence [lineStart,
    choice [contracted "i" "ll", literal true "i will", literal true "i can", contracted "i" "d",
      literal true "you can", literal true "we will", literal true "we can", literal true "let me",
      contracted "let" "s"],
    someSpaces]

/-- `/\b(?:please|…|i'?d be happy)\b[,.]?\s*/gi` -/
def pleasantriesRe : Regex :=
  sequence [wordBoundary, choice [literal true "please", literal true "kindly", literal true "thank you",
      literal true "thanks", literal true "sure", literal true "certainly",
      literal true "of course", literal true "happy to", contracted "i" "d be happy"],
    wordBoundary, optional (oneOf ",."), spaces]

/-- `/\b(?:perhaps|…|it appears)\b\s*/gi` -/
def hedgesRe : Regex :=
  sequence [wordBoundary,
    wordIn ["perhaps", "maybe", "might", "could potentially", "would like to", "i think",
      "in my opinion", "it seems", "it appears"],
    wordBoundary, spaces]

/-- `/\b(?:just|…|generally)\b/gi` -/
def fillersRe : Regex :=
  sequence [wordBoundary,
    wordIn ["just", "really", "basically", "actually", "simply", "quite", "very", "essentially",
      "literally", "generally"],
    wordBoundary]

/-- `/\b(?:a|an|the)\s+(?=[a-z])/gi` -/
def articlesRe : Regex :=
  sequence [wordBoundary, wordIn ["a", "an", "the"], someSpaces, .here fun _ after => after.any Char.isAlpha]

/-- `/[ \t]{2,}/g` -/
def blanksRe : Regex := sequence [oneOf " \t", oneOf " \t", .many true (oneOf " \t")]

/-- `/\s+([,.;:!?])/g` -/
def spacedPunctuationRe : Regex := sequence [someSpaces, .group 1 (oneOf ",.;:!?")]

/-- `/\n{3,}/g` -/
def blankLinesRe : Regex :=
  sequence [oneOf "\n", oneOf "\n", oneOf "\n", .many true (oneOf "\n")]

/-- `/(^|[.!?]\s+)([a-z])/g` -/
def sentenceStartRe : Regex :=
  sequence [.group 1 (.either (.here fun before _ => before.isNone) (sequence [oneOf ".!?", someSpaces])),
    .group 2 (.one Char.isLower)]

/-- The function that `compressProse` hands to `withProtectedSegments`. -/
def shorten (value : List Char) : List Char :=
  let out := leadersRe.replaceEach nothing value
  let out := pleasantriesRe.replaceEach nothing out
  let out := hedgesRe.replaceEach nothing out
  let out := fillersRe.replaceEach nothing out
  let out := articlesRe.replaceEach nothing out
  let out := blanksRe.replaceEach (fun _ _ => [' ']) out
  let out := spacedPunctuationRe.replaceEach (fun _ groups => groupText groups 1) out
  let out := blankLinesRe.replaceEach (fun _ _ => ['\n', '\n']) out
  let out := sentenceStartRe.replaceEach
    (fun _ groups => groupText groups 1 ++ (groupText groups 2).map Char.toUpper) out
  trimChars out

/-- The patterns of `PROTECTED_PATTERNS`, in their order. -/
inductive ProtectedPattern where
  | fencedCode | inlineCode | url | path | constant | member | call | version

def isIdentifierStart (c : Char) : Bool := c.isAlpha || c = '_'

def isPathChar (c : Char) : Bool := isWordChar c || c = '.' || c = '/' || c = '\\' || c = '-'

/-- `[A-Z][A-Za-z0-9]*` -/
def capitalized : Regex := .seq (.one Char.isUpper) (.many true (.one Char.isAlphanum))

def wordChars : Regex := atLeastOne (.one isWordChar)

def digitChars : Regex := atLeastOne (.one Char.isDigit)

def ProtectedPattern.regex : ProtectedPattern → Regex
  /- ```` /```[\s\S]*?```/g ```` -/
  | .fencedCode => sequence [literal false "```", anyText false, literal false "```"]
  /- ``/`[^`\n]+`/g`` -/
  | .inlineCode =>
    sequence [literal false "`", atLeastOne (.one fun c => c ≠ '`' && c ≠ '\n'), literal false "`"]
  /- `/\bhttps?:\/\/\S+/gi` -/
  | .url =>
    sequence [wordBoundary, literal true "http", optional (literal true "s"), literal true "://",
      atLeastOne (.one fun c => !isJsSpace c)]
  /- `/\b[\w.-]*[/\\][\w./\\-]+/g` -/
  | .path =>
    sequence [wordBoundary, .many true (.one fun c => isWordChar c || c = '.' || c = '-'),
      oneOf "/\\", atLeastOne (.one isPathChar)]
  /- `/\b[A-Z][A-Za-z0-9]*(?:_[A-Z][A-Za-z0-9]*)+\b/g` -/
  | .constant =>
    sequence [wordBoundary, capitalized, atLeastOne (.seq (literal false "_") capitalized), wordBoundary]
  /- `/\b\w+\.\w+(?:\.\w+)*\(\)?/g` -/
  | .member =>
    sequence [wordBoundary, wordChars, literal false ".", wordChars,
      .many true (.seq (literal false ".") wordChars), literal false "(",
      optional (literal false ")")]
  /- `/[A-Za-z_][A-Za-z0-9_]*\s*\([^)]*\)/g` -/
  | .call =>
    sequence [.one isIdentifierStart, .many true (.one isWordChar), spaces, literal false "(",
      .many true (.one fun c => c ≠ ')'), literal false ")"]
  /- `/\b\d+\.\d+\.\d+\b/g` -/
  | .version =>
    sequence [wordBoundary, digitChars, literal false ".", digitChars, literal false ".",
      digitChars, wordBoundary]

def protectedPatterns : List ProtectedPattern :=
  [.fencedCode, .inlineCode, .url, .path, .constant, .member, .call, .version]

/-- An entry of `segments`, with the pattern that matched it. -/
structure Segment where
  pattern : ProtectedPattern
  text : List Char

def protectedSegmentPrefix : String := "__QIONGQI_PROTECTED_SEGMENT_"

def protectedSegmentSuffix : String := "__"

def marker (index : Nat) : List Char :=
  protectedSegmentPrefix.toList ++ Nat.toDigits 10 index ++ protectedSegmentSuffix.toList

/-- The replacement function of one pattern over its matches. -/
def holdBack (pattern : ProtectedPattern) : List Piece → List Segment → List Char × List Segment
  | [], segments => ([], segments)
  | .kept c :: pieces, segments =>
    let later := holdBack pattern pieces segments
    (c :: later.1, later.2)
  | .found text _ :: pieces, segments =>
    let later := holdBack pattern pieces (segments ++ [⟨pattern, text⟩])
    (marker segments.length ++ later.1, later.2)

/-- One round of the loop over the patterns. -/
def protectWith (state : List Char × List Segment) (pattern : ProtectedPattern) :
    List Char × List Segment :=
  holdBack pattern (pattern.regex.pieces 0 [] state.1) state.2

/-- `working` and `segments` after the loop. -/
def protect (text : List Char) : List Char × List Segment :=
  protectedPatterns.foldl protectWith (text, [])

def markerRe : Regex := reader protectedSegmentPrefix protectedSegmentSuffix

/-- `segments[Number(index)] ?? ''` -/
def segmentOf (segments : List (List Char)) (index : List Char) : List Char :=
  (segments[Nat.ofDigitChars 10 index 0]?).getD []

def restore (segments : List (List Char)) (text : List Char) : List Char :=
  markerRe.replaceEach (fun _ groups => segmentOf segments (groupText groups 1)) text

def withProtectedSegments (text : List Char) (transform : List Char → List Char) : List Char :=
  restore ((protect text).2.map Segment.text) (transform (protect text).1)

def compressProse (text : List Char) : List Char :=
  if trimChars text = [] then text else withProtectedSegments text shorten

theorem isWordChar_range (word : isWordChar c = true) : 48 ≤ c.toNat ∧ c.toNat ≤ 122 := by
  unfold isWordChar Char.isAlphanum Char.isAlpha Char.isUpper Char.isLower Char.isDigit at word
  simp only [Bool.or_eq_true, Bool.and_eq_true, decide_eq_true_eq, ge_iff_le,
    UInt32.le_iff_toNat_le] at word
  have whole : c.val.toNat = c.toNat := rfl
  obtain ((upper | lower) | digit) | rfl := word
  · have first : 'A'.val.toNat = 65 := rfl
    have last : 'Z'.val.toNat = 90 := rfl
    omega
  · have first : 'a'.val.toNat = 97 := rfl
    have last : 'z'.val.toNat = 122 := rfl
    omega
  · have first : '0'.val.toNat = 48 := rfl
    have last : '9'.val.toNat = 57 := rfl
    omega
  · decide

theorem isWordChar_space (space : isJsSpace c = true) : isWordChar c = false := by
  rw [← Bool.not_eq_true]
  intro word
  have range := isWordChar_range word
  simp only [isJsSpace, Bool.or_eq_true, Bool.and_eq_true, decide_eq_true_eq] at space
  omega

theorem over_spaces : spaces.Over fun c => c ≠ '_' := by
  rintro c space rfl
  exact absurd space (by decide)

theorem over_someSpaces : someSpaces.Over fun c => c ≠ '_' := ⟨over_spaces, over_spaces⟩

theorem over_contracted (first : '_' ∉ front.toList) (second : '_' ∉ back.toList) :
    (contracted front back).Over fun c => c ≠ '_' :=
  ⟨over_plain first true, ⟨over_plain (by decide) true, trivial⟩, over_plain second true⟩

theorem over_wordIn (plain : ∀ word ∈ words, '_' ∉ word.toList) :
    (wordIn words).Over fun c => c ≠ '_' := by
  refine over_choice fun regex held => ?_
  obtain ⟨word, member, rfl⟩ := mem_map.mp held
  exact over_plain (plain word member) true

theorem begins_contracted (letter : front.toList.head?.any fun c => c.toLower.isAlpha) :
    (contracted front back).BeginsWith isWordChar :=
  (beginsWith_letter letter).seq _

theorem begins_wordIn (letters : ∀ word ∈ words, word.toList.head?.any fun c => c.toLower.isAlpha) :
    (wordIn words).BeginsWith isWordChar := by
  refine beginsWith_choice fun regex held => ?_
  obtain ⟨word, member, rfl⟩ := mem_map.mp held
  exact beginsWith_letter (letters word member)

theorem isJsSpace_lineEnd (ends : isLineEnd c = true) : isJsSpace c = true := by
  simp only [isLineEnd, Bool.or_eq_true, decide_eq_true_eq] at ends
  simp only [isJsSpace, Bool.or_eq_true, Bool.and_eq_true, decide_eq_true_eq]
  obtain ((rfl | rfl) | paragraph) | line := ends
  · decide
  · decide
  · omega
  · omega

theorem leaders_keep : KeepsKeys leadersRe nothing := by
  refine keepsKeys_erase ⟨trivial, over_choice ?_, over_someSpaces⟩ ?_
  · simp only [forall_mem_cons]
    exact ⟨over_contracted (by decide) (by decide), over_plain (by decide) true,
      over_plain (by decide) true, over_contracted (by decide) (by decide),
      over_plain (by decide) true, over_plain (by decide) true, over_plain (by decide) true,
      over_plain (by decide) true, over_contracted (by decide) (by decide), nofun⟩
  · intro passed rest last ran c held
    obtain ⟨_, ⟨middle, ⟨starts, rfl⟩, -⟩, -⟩ := run_matches leadersRe ran
    have starts : passed.head?.all isLineEnd = true := starts
    rw [Option.mem_def.mp held] at starts
    exact isWordChar_space (isJsSpace_lineEnd starts)

theorem pleasantries_keep : KeepsKeys pleasantriesRe nothing := by
  refine keepsKeys_erase
    ⟨trivial, over_choice ?_, trivial, ⟨fun c comma => ?_, trivial⟩, over_spaces⟩ ?_
  · simp only [forall_mem_cons]
    exact ⟨over_plain (by decide) true, over_plain (by decide) true, over_plain (by decide) true,
      over_plain (by decide) true, over_plain (by decide) true, over_plain (by decide) true,
      over_plain (by decide) true, over_plain (by decide) true,
      over_contracted (by decide) (by decide), nofun⟩
  · rintro rfl
    exact absurd comma (by decide)
  · intro passed rest last ran
    refine boundary_before ((beginsWith_choice ?_).seq _) ran
    simp only [forall_mem_cons]
    exact ⟨beginsWith_letter (by decide), beginsWith_letter (by decide),
      beginsWith_letter (by decide), beginsWith_letter (by decide), beginsWith_letter (by decide),
      beginsWith_letter (by decide), beginsWith_letter (by decide), beginsWith_letter (by decide),
      begins_contracted (by decide), nofun⟩

theorem hedges_keep : KeepsKeys hedgesRe nothing := by
  refine keepsKeys_erase ⟨trivial, over_wordIn (by decide), trivial, over_spaces⟩ ?_
  exact fun passed rest last ran => boundary_before ((begins_wordIn (by decide)).seq _) ran

theorem fillers_keep : KeepsKeys fillersRe nothing := by
  refine keepsKeys_erase ⟨trivial, over_wordIn (by decide), trivial⟩ ?_
  exact fun passed rest last ran => boundary_before ((begins_wordIn (by decide)).seq _) ran

theorem articles_keep : KeepsKeys articlesRe nothing := by
  refine keepsKeys_erase ⟨trivial, over_wordIn (by decide), over_someSpaces, trivial⟩ ?_
  exact fun passed rest last ran => boundary_before ((begins_wordIn (by decide)).seq _) ran

/-- What a class of characters outside of words matches, more than once. -/
theorem matches_repeated (outside : ∀ c ∈ chars.toList, isWordChar c = false)
    (matched : (Regex.many true (oneOf chars)).Matches start last) :
    ∃ taken, start.Took last taken ∧ ∀ c ∈ taken, isWordChar c = false := by
  obtain ⟨taken, all, took, -⟩ := matches_many_one matched
  refine ⟨taken, took, fun c held => outside c ?_⟩
  simpa using all c held

theorem matches_oneOf (outside : ∀ c ∈ chars.toList, isWordChar c = false)
    (matched : (oneOf chars).Matches start last) :
    ∃ c, start.Moved last [c] ∧ isWordChar c = false := by
  obtain ⟨c, held, took⟩ := matches_one matched
  exact ⟨c, took, outside c (by simpa using held)⟩

theorem Took_inj (took : (⟨passed, taken ++ rest, one⟩ : Cursor).Took
      ⟨taken.reverse ++ passed, rest, two⟩ others) : taken = others :=
  append_cancel_right took.1

theorem blanks_keep : KeepsKeys blanksRe fun _ _ => [' '] := by
  refine keepsKeys_outside fun passed taken rest groups matched text either => ?_
  obtain ⟨_, first, _, second, more⟩ := matched
  obtain ⟨c, ⟨one, -⟩, blank⟩ := matches_oneOf (by decide) first
  obtain ⟨d, ⟨two, -⟩, space⟩ := matches_oneOf (by decide) second
  obtain ⟨back, three, blanks⟩ := matches_repeated (by decide) more
  obtain rfl | rfl := either
  · rw [Took_inj (one.trans (two.trans three))]
    refine ⟨nofun, ?_⟩
    simp only [singleton_append, forall_mem_cons]
    exact ⟨blank, space, blanks⟩
  · exact ⟨nofun, by decide⟩

theorem blankLines_keep : KeepsKeys blankLinesRe fun _ _ => ['\n', '\n'] := by
  refine keepsKeys_outside fun passed taken rest groups matched text either => ?_
  obtain ⟨_, first, _, second, _, third, more⟩ := matched
  obtain ⟨c, ⟨one, -⟩, blank⟩ := matches_oneOf (by decide) first
  obtain ⟨d, ⟨two, -⟩, space⟩ := matches_oneOf (by decide) second
  obtain ⟨e, ⟨three, -⟩, line⟩ := matches_oneOf (by decide) third
  obtain ⟨back, four, blanks⟩ := matches_repeated (by decide) more
  obtain rfl | rfl := either
  · rw [Took_inj (one.trans (two.trans (three.trans four)))]
    refine ⟨nofun, ?_⟩
    simp only [singleton_append, forall_mem_cons]
    exact ⟨blank, space, line, blanks⟩
  · exact ⟨nofun, by decide⟩

theorem spacedPunctuation_keep :
    KeepsKeys spacedPunctuationRe fun _ groups => groupText groups 1 := by
  refine keepsKeys_outside fun passed taken rest groups matched text either => ?_
  obtain ⟨_, spaced, grouped⟩ := matched
  obtain ⟨blanks, some_, all, one, -⟩ := matches_atLeastOne spaced
  obtain ⟨middle, point, stop, inner, two, number⟩ := matches_group grouped
  obtain ⟨c, ⟨once, -⟩, outside⟩ := matches_oneOf (by decide) stop
  have point_ : point = [c] := append_cancel_right (inner.1.symm.trans once.1)
  subst point_
  have number : groups = (1, [c]) :: middle.groups := number
  subst number
  obtain rfl | rfl := either
  · rw [Took_inj (one.trans two)]
    refine ⟨by simp, forall_mem_append.mpr ⟨fun d held => ?_, by simpa using outside⟩⟩
    exact isWordChar_space (all d held)
  · exact ⟨nofun, forall_mem_singleton.mpr outside⟩

theorem toUpper_ne_underscore {c : Char} (lower : c.isLower = true) : c.toUpper ≠ '_' := by
  intro same
  have bounds : 'a'.val ≤ c.val ∧ c.val ≤ 'z'.val := by
    unfold Char.isLower at lower
    simpa using lower
  unfold Char.toUpper at same
  rw [dif_pos bounds] at same
  have value := congrArg (fun d : Char => d.val.toNat) same
  have shift : ('A'.val - 'a'.val).toNat = 4294967264 := by decide
  have mark : '_'.val.toNat = 95 := by decide
  simp only [UInt32.toNat_add, shift, mark, UInt32.le_iff_toNat_le] at value bounds
  have first : 'a'.val.toNat = 97 := by decide
  have last : 'z'.val.toNat = 122 := by decide
  omega

/-- What stands before the letter ends no word. -/
theorem sentenceStart_stops (before : within = true → ∃ c ∈ passed.head?, isWordChar c = true)
    (opened : (Regex.either (.here fun before _ => before.isNone)
      (sequence [oneOf ".!?", someSpaces])).Matches ⟨passed, text, []⟩ last)
    (took : (⟨passed, text, []⟩ : Cursor).Took last front) : inKey within front = false := by
  obtain ⟨start, rfl⟩ | ⟨middle, stop, spaced⟩ := opened
  · have front_ : front = [] := append_cancel_right took.1.symm
    subst front_
    rw [inKey, foldl_nil, ← Bool.not_eq_true]
    intro goes
    obtain ⟨c, head, -⟩ := before goes
    have start : passed.head?.isNone = true := start
    rw [Option.mem_def.mp head] at start
    cases start
  · obtain ⟨c, ⟨one, -⟩, outside⟩ := matches_oneOf (by decide) stop
    obtain ⟨blanks, -, all, two, -⟩ := matches_atLeastOne spaced
    have front_ : front = [c] ++ blanks :=
      append_cancel_right (took.1.symm.trans (one.trans two).1)
    subst front_
    refine (keys_nonwords ?_ within).2 (List.cons_ne_nil _ _)
    exact forall_mem_cons.mpr ⟨outside, fun d held => isWordChar_space (all d held)⟩

theorem sentenceStart_keep : KeepsKeys sentenceStartRe fun _ groups =>
    groupText groups 1 ++ (groupText groups 2).map Char.toUpper := by
  intro passed taken rest groups ran within before
  obtain ⟨last, matched, led⟩ := run_matches _ ran
  cases led
  obtain ⟨first, starts, ended⟩ := matched
  obtain ⟨_, front, opened, before_, one, number⟩ := matches_group starts
  obtain ⟨middle, back, letter, inner, two, number'⟩ := matches_group ended
  obtain ⟨c, lower, once, kept⟩ := matches_one letter
  have back_ : back = [c] := append_cancel_right (inner.1.symm.trans once.1)
  have written : groups = (2, [c]) :: (1, front) :: _ :=
    number'.trans (by rw [back_, kept, number])
  subst written back_
  rw [Took_inj (one.trans two)]
  show keys within (front ++ [c.toUpper]) = keys within (front ++ [c]) ∧
    inKey within (front ++ [c.toUpper]) = inKey within (front ++ [c])
  have stops := sentenceStart_stops before opened before_
  have plain : ∀ d, d ≠ '_' → keys false [d] = [] ∧ inKey false [d] = false :=
    fun d other => keys_plain (by simpa using other.symm)
  obtain ⟨upper, upper'⟩ := plain _ (toUpper_ne_underscore lower)
  have other : c ≠ '_' := by
    rintro rfl
    cases lower
  obtain ⟨same, same'⟩ := plain c other
  rw [Placeholders.keys_append, Placeholders.keys_append, inKey_append, inKey_append, stops, upper, upper', same, same']
  exact ⟨rfl, rfl⟩

theorem filled_someSpaces : someSpaces.Filled := filled_atLeastOne (filled_one _)

theorem filled_contracted (some_ : front.toList ≠ []) : (contracted front back).Filled :=
  (filled_literal some_ true).left _

theorem filled_wordIn (some_ : ∀ word ∈ words, word.toList ≠ []) : (wordIn words).Filled := by
  refine filled_choice fun regex held => ?_
  obtain ⟨word, member, rfl⟩ := mem_map.mp held
  exact filled_literal (some_ word member) true

theorem leaders_filled : leadersRe.Filled := (filled_someSpaces.right _).right _

theorem pleasantries_filled : pleasantriesRe.Filled := by
  refine ((filled_choice ?_).left _).right _
  simp only [forall_mem_cons]
  exact ⟨filled_literal (by decide) true, filled_literal (by decide) true,
    filled_literal (by decide) true, filled_literal (by decide) true,
    filled_literal (by decide) true, filled_literal (by decide) true,
    filled_literal (by decide) true, filled_literal (by decide) true,
    filled_contracted (by decide), nofun⟩

theorem hedges_filled : hedgesRe.Filled := ((filled_wordIn (by decide)).left _).right _

theorem fillers_filled : fillersRe.Filled := ((filled_wordIn (by decide)).left _).right _

theorem articles_filled : articlesRe.Filled := ((filled_wordIn (by decide)).left _).right _

theorem blanks_filled : blanksRe.Filled := (filled_one _).left _

theorem spacedPunctuation_filled : spacedPunctuationRe.Filled := filled_someSpaces.left _

theorem blankLines_filled : blankLinesRe.Filled := (filled_one _).left _

theorem sentenceStart_filled : sentenceStartRe.Filled := ((filled_one _).group 2).right _

theorem trimChars_split (text : List Char) : ∃ front back,
    text = front ++ trimChars text ++ back ∧ (∀ c ∈ front, isWordChar c = false) ∧
      ∀ c ∈ back, isWordChar c = false := by
  refine ⟨text.takeWhile isJsSpace,
    ((text.dropWhile isJsSpace).reverse.takeWhile isJsSpace).reverse, ?_, ?_, ?_⟩
  · rw [trimChars, append_assoc, ← reverse_append, takeWhile_append_dropWhile,
      reverse_reverse, takeWhile_append_dropWhile]
  · exact fun c held => isWordChar_space (mem_takeWhile_imp held)
  · exact fun c held => isWordChar_space (mem_takeWhile_imp (mem_reverse.mp held))

theorem keys_trimChars : keys false (trimChars text) = keys false text := by
  obtain ⟨front, back, whole, before, after⟩ := trimChars_split text
  obtain ⟨none_, stops⟩ := keys_nonwords before false
  have start : inKey false front = false := by
    cases front with
    | nil => rfl
    | cons c front => exact stops nofun
  conv_rhs => rw [whole]
  rw [Placeholders.keys_append, Placeholders.keys_append, none_, start, (keys_nonwords after _).1, append_nil, nil_append]

/-- No step of the shortening touches a word from its first underscore on. -/
theorem keys_shorten (value : List Char) : keys false (shorten value) = keys false value := by
  rw [shorten, keys_trimChars, sentenceStart_keep.replaceEach sentenceStart_filled,
    blankLines_keep.replaceEach blankLines_filled,
    spacedPunctuation_keep.replaceEach spacedPunctuation_filled,
    blanks_keep.replaceEach blanks_filled, articles_keep.replaceEach articles_filled,
    fillers_keep.replaceEach fillers_filled, hedges_keep.replaceEach hedges_filled,
    pleasantries_keep.replaceEach pleasantries_filled, leaders_keep.replaceEach leaders_filled]

end QiongQi.ProseCompressions
