import QiongQi.ProseCompressions

/-! What becomes of the segments that `compressProse` holds back. Every marker is put back in its
place, so that nothing is lost as long as no pattern has taken in the marker of an earlier one;
a marker that was taken in is never replaced. -/
namespace QiongQi.ProtectedSegments
open Placeholders ProseCompressions Regexes RuntimeContracts List

def markerForm : Form where
  opening := protectedSegmentPrefix.toList
  closing := protectedSegmentSuffix.toList
  led := ⟨_, rfl⟩
  worded := by decide
  closes := ⟨_, _, rfl⟩
  closed := by decide

def tokens (text : List Char) : List Token := (markerRe.pieces 0 [] text).map tokenOf

def indexOf (digits : List Char) : Nat := Nat.ofDigitChars 10 digits 0

/-- The numbers of the markers in a text. -/
def indices (text : List Char) : List Nat := (marks (tokens text)).map indexOf

/-- The code, URLs and file paths. -/
def isNamed : ProtectedPattern → Bool
  | .fencedCode | .inlineCode | .url | .path => true
  | .constant | .member | .call | .version => false

/-- What a segment was in the text, and the code, URLs and paths that it keeps. -/
structure Uncovered where
  original : List Char
  named : List (List Char)

def uncover (known : List Uncovered) (segment : Segment) : List Uncovered :=
  let original := restore (known.map Uncovered.original) segment.text
  known ++ [{
    original
    named := if isNamed segment.pattern then [original]
      else (indices segment.text).flatMap fun index =>
        ((known[index]?).map Uncovered.named).getD [] }]

def uncovered (segments : List Segment) : List Uncovered := segments.foldl uncover []

/-- What `compressProse` holds back: nothing of a blank text. -/
def heldBack (text : List Char) : List Char × List Segment :=
  if trimChars text = [] then (text, []) else protect text

/-- The code, URLs and paths that are held back, in their order in the text. -/
def captured (text : List Char) : List (List Char) :=
  (indices (heldBack text).1).flatMap fun index =>
    (((uncovered (heldBack text).2)[index]?).map Uncovered.named).getD []

/-- The pieces stand in the text one after another. -/
def InOrder : List (List Char) → List Char → Prop
  | [], _ => True
  | piece :: pieces, text => ∃ front back, text = front ++ piece ++ back ∧ InOrder pieces back

structure SegmentsSurvive (text : List Char) : Prop where
  verbatim : ∀ segment ∈ uncovered (heldBack text).2, ∀ piece ∈ segment.named, piece <:+: compressProse text
  ordered : InOrder (captured text) (compressProse text)
  cleared : ¬ markerForm.Marked (compressProse text)

/-- The text does not contain the start of a marker. -/
def Unmarked (text : List Char) : Prop :=
  ∀ d, d.isDigit = true → ¬ protectedSegmentPrefix.toList ++ [d] <:+: text

/-- No pattern has taken in a marker. -/
def Unnested (text : List Char) : Prop :=
  ∀ segment ∈ (heldBack text).2, ¬ markerForm.Marked segment.text

theorem pattern_filled (pattern : ProtectedPattern) : pattern.regex.Filled := by
  cases pattern with
  | fencedCode | inlineCode => exact (filled_literal (by decide) false).left _
  | url => exact ((filled_literal (by decide) true).left _).right _
  | path => exact (((filled_one _).left _).right _).right _
  | constant => exact (((filled_one _).left _).left _).right _
  | member => exact ((filled_atLeastOne (filled_one _)).left _).right _
  | call => exact (filled_one _).left _
  | version => exact ((filled_atLeastOne (filled_one _)).left _).right _

theorem beginsWith_backtick (spelled : text.toList = '`' :: rest) :
    (sequence (literal false text :: more)).BeginsWith fun c => !isWordChar c := by
  apply beginsWith_sequence
  rw [literal, spelled, foldr_cons]
  refine (beginsWith_one fun c accepted => ?_).seq _
  have same : c = '`' := by simpa using accepted
  subst same
  decide

/-- An identifier that a word goes on with is the rest of one that starts at the underscore. -/
theorem call_keyStart : KeyStart ProtectedPattern.call.regex := by
  intro front back rest words _ ran
  obtain ⟨last, ran⟩ := Option.isSome_iff_exists.mp ran
  obtain ⟨last', ⟨first, ⟨c, more, held, start, rfl⟩, middle, goes, called⟩, -⟩ :=
    run_matches _ ran
  have held : rest = c :: more := held
  subst held
  have word : isWordChar c = true := by
    rw [isIdentifierStart, Bool.or_eq_true] at start
    rw [isWordChar, Char.isAlphanum, Bool.or_eq_true, Bool.or_eq_true]
    exact start.imp_left .inl
  have before := many_one_matches true words ('_' :: front) (c :: more) []
  have once : (Regex.one isWordChar).Matches ⟨back.reverse ++ '_' :: front, c :: more, []⟩
      ⟨c :: (back.reverse ++ '_' :: front), more, []⟩ := ⟨c, more, rfl, word, rfl⟩
  have matched : ProtectedPattern.call.regex.Matches
      ⟨front, '_' :: (back ++ c :: more), []⟩ last' :=
    ⟨⟨'_' :: front, back ++ c :: more, []⟩, ⟨'_', _, rfl, by decide, rfl⟩, middle,
      before.trans (.head ⟨once, Nat.lt_succ_self _⟩ goes), called⟩
  exact run_some _ matched rfl

theorem pattern_keyStart (pattern : ProtectedPattern) : KeyStart pattern.regex := by
  cases pattern with
  | fencedCode | inlineCode => exact keyStart_outside (beginsWith_backtick rfl)
  | call => exact call_keyStart
  | _ => exact keyStart_boundary _

theorem optionalParen_endsWord :
    (sequence [literal false "(", optional (literal false ")")]).EndsWord := by
  intro start last ran
  obtain ⟨_, ⟨middle, opened, closed | same⟩, led⟩ := run_matches _ ran
  · cases led
    obtain ⟨took, -⟩ := matches_literal.mp closed
    refine .inl fun d held => ?_
    rw [took.2] at held
    cases held
    rfl
  · cases led
    obtain ⟨took, -⟩ := matches_literal.mp opened
    have same : last = middle := same
    subst same
    refine .inl fun d held => ?_
    rw [took.2] at held
    cases held
    rfl

theorem isPathChar_word (word : isWordChar c = true) : isPathChar c = true := by
  simp only [isPathChar, word, Bool.true_or]

theorem pattern_endsWord (pattern : ProtectedPattern) : pattern.regex.EndsWord := by
  have paren : (literal false ")").EndsWord := endsWord_literal [] rfl rfl
  cases pattern with
  | fencedCode => exact ((endsWord_literal ['`', '`'] rfl rfl).after _).after _
  | inlineCode => exact ((endsWord_literal [] rfl rfl).after _).after _
  | url =>
    refine (((((endsWord_many fun c word => ?_).after _).after _).after _).after _).after _
    rw [Bool.not_eq_true', ← Bool.not_eq_true]
    intro space
    rw [isWordChar_space space] at word
    cases word
  | path => exact ((((endsWord_many fun _ => isPathChar_word).after _).after _).after _).after _
  | constant => exact ((endsWord_boundary.after _).after _).after _
  | member => exact ((((optionalParen_endsWord.after _).after _).after _).after _).after _
  | call => exact ((((paren.after _).after _).after _).after _).after _
  | version => exact (((((endsWord_boundary.after _).after _).after _).after _).after _).after _

theorem tokens_reads :
    Reads markerForm markerForm.Begins text (tokens text) := reads_pieces rfl rfl [] text

theorem restore_eq : restore segments text = expand (segmentOf segments) (tokens text) := by
  rw [restore, Regex.replaceEach, expand, tokens, flatMap_map]
  congr 1
  funext piece
  cases piece <;> rfl

variable {text front back : List Char} {segments : List Segment}

theorem restore_plain (segments : List (List Char)) (plain : indices text = []) :
    restore segments text = text := by
  rw [restore_eq]
  exact tokens_reads.expand_plain (map_eq_nil_iff.mp plain) _

theorem marked_iff (text : List Char) : markerForm.Marked text ↔ indices text ≠ [] := by
  rw [tokens_reads.marked_iff, indices, Ne, Ne, map_eq_nil_iff]

/-- Besides the markers nothing in the text starts like one. -/
def Sound (text : List Char) : Prop := Reads markerForm markerForm.Opens text (tokens text)

theorem sound_of_reads (reads : Reads markerForm markerForm.Opens text found) :
    tokens text = found ∧ Sound text := by
  have same := tokens_reads.unique (reads.weaken fun _ => Form.Begins.opens)
  exact ⟨same, by rwa [Sound, same]⟩

theorem sound_split (seam : Seam front back) (sound : Sound (front ++ back)) :
    Sound front ∧ Sound back ∧ tokens (front ++ back) = tokens front ++ tokens back := by
  obtain ⟨one, two, whole, first, second⟩ :=
    sound.split (fun _ rest opens => opens.append rest) seam
  obtain ⟨rfl, left⟩ := sound_of_reads first
  obtain ⟨rfl, right⟩ := sound_of_reads second
  exact ⟨left, right, whole⟩

theorem numeral_toDigits (index : Nat) : Numeral (Nat.toDigits 10 index) :=
  ⟨Nat.toDigits_ne_nil, fun _ held => Nat.isDigit_of_mem_toDigits (by omega) (by omega) held⟩

theorem sound_join (first : Sound front) (second : Sound back) :
    Sound (front ++ (marker index ++ back)) ∧ tokens (front ++ (marker index ++ back)) =
        tokens front ++ .mark (Nat.toDigits 10 index) :: tokens back := by
  have joined := Reads.join first (numeral_toDigits index) second
  exact (sound_of_reads joined).symm

theorem indices_split (same : tokens (front ++ back) = tokens front ++ tokens back) :
    indices (front ++ back) = indices front ++ indices back := by
  rw [indices, same, marks_append, map_append]
  rfl

theorem indices_join (same : tokens (front ++ (marker index ++ back)) =
      tokens front ++ .mark (Nat.toDigits 10 index) :: tokens back) :
    indices (front ++ (marker index ++ back)) = indices front ++ index :: indices back := by
  rw [indices, same, marks_append, marks_mark, map_append, map_cons]
  have number : indexOf (Nat.toDigits 10 index) = index := Nat.ofDigitChars_ten_toDigits
  rw [number]
  rfl

/-- What a round over a text leaves, with the segments that it adds to those before. -/
structure Passed (input output : List Char) (segments added : List Segment) : Prop where
  sound : Sound output
  taken : ∀ segment ∈ added, Sound segment.text ∧ ∀ i ∈ indices segment.text, i ∈ indices input
  below : ∀ i ∈ indices output, i ∈ indices input ∨ segments.length ≤ i ∧ i < segments.length + added.length
  kept : ∀ i ∈ indices input, i ∈ indices output ∨ ∃ segment ∈ added, i ∈ indices segment.text
  placed : ∀ i, segments.length ≤ i → i < segments.length + added.length → i ∈ indices output
  restored : ∀ later, (∀ segment ∈ added, indices segment.text = []) →
    restore ((segments ++ added ++ later).map Segment.text) output =
      restore ((segments ++ added ++ later).map Segment.text) input

theorem passed_none (sound : Sound text) : Passed text text segments [] where
  sound := sound
  taken := nofun
  below _ held := .inl held
  kept _ held := .inl held
  placed _ low high := absurd high (Nat.not_lt.mpr low)
  restored _ _ := rfl

theorem segmentOf_added : segmentOf ((segments ++ segment_ :: added).map Segment.text)
      (Nat.toDigits 10 segments.length) = segment_.text := by
  rw [segmentOf, Nat.ofDigitChars_ten_toDigits, getElem?_map]
  simp

theorem Passed.found {kept taken rest output : List Char} (before : Seam kept (taken ++ rest))
    (after : Seam taken rest) (sound : Sound (kept ++ (taken ++ rest)))
    (passed : Passed rest output (segments ++ [⟨pattern, taken⟩]) added) :
    Passed (kept ++ (taken ++ rest)) (kept ++ (marker segments.length ++ output)) segments
      (⟨pattern, taken⟩ :: added) := by
  obtain ⟨soundKept, soundRest, whole⟩ := sound_split before sound
  obtain ⟨soundTaken, -, later⟩ := sound_split after soundRest
  obtain ⟨soundOut, joined⟩ := sound_join soundKept passed.sound
  have input : indices (kept ++ (taken ++ rest)) = indices kept ++ (indices taken ++ indices rest) := by
    rw [indices_split whole, indices_split later]
  have output_ := indices_join joined
  have length : (segments ++ [(⟨pattern, taken⟩ : Segment)]).length = segments.length + 1 := by simp
  constructor
  · exact soundOut
  · intro segment held
    obtain rfl | held := mem_cons.mp held
    · exact ⟨soundTaken, fun i inside => by rw [input]; simp [inside]⟩
    · obtain ⟨sound, inside⟩ := passed.taken segment held
      exact ⟨sound, fun i found => by rw [input]; simp [inside i found]⟩
  · intro i held
    rw [output_, mem_append, mem_cons] at held
    rw [input, length_cons]
    obtain held | rfl | held := held
    · exact .inl (mem_append_left _ held)
    · exact .inr ⟨Nat.le_refl _, by omega⟩
    · have bound := passed.below i held
      obtain inside | ⟨low, high⟩ := bound
      · exact .inl (by simp [inside])
      · exact .inr ⟨by omega, by omega⟩
  · intro i held
    rw [input, mem_append, mem_append] at held
    rw [output_]
    obtain held | held | held := held
    · exact .inl (mem_append_left _ held)
    · exact .inr ⟨_, mem_cons_self, held⟩
    · obtain inside | ⟨segment, member, inside⟩ := passed.kept i held
      · exact .inl (by simp [inside])
      · exact .inr ⟨segment, mem_cons_of_mem _ member, inside⟩
  · intro i low high
    rw [output_, mem_append, mem_cons]
    rw [length_cons] at high
    obtain rfl | more := Nat.eq_or_lt_of_le low
    · exact .inr (.inl rfl)
    · exact .inr (.inr (passed.placed i (by rw [length]; omega) (by rw [length]; omega)))
  · intro others plain
    obtain ⟨first, rest_⟩ := forall_mem_cons.mp plain
    have step := passed.restored others rest_
    have same : segments ++ [(⟨pattern, taken⟩ : Segment)] ++ added ++ others =
        segments ++ (⟨pattern, taken⟩ :: added) ++ others := by simp
    rw [same, restore_eq, restore_eq] at step
    have own : restore ((segments ++ (⟨pattern, taken⟩ :: added) ++ others).map Segment.text)
        taken = taken := restore_plain _ first
    rw [restore_eq] at own
    rw [restore_eq, restore_eq, joined, whole, later, expand_append, expand_mark, expand_append,
      expand_append, step, own, append_assoc segments, cons_append, segmentOf_added]

theorem holdBack_passed (pattern : ProtectedPattern) (segments : List Segment)
    (sound : Sound text) : let round := holdBack pattern (pattern.regex.pieces 0 [] text) segments
    ∃ added, round.2 = segments ++ added ∧ Passed text round.1 segments added := by
  -- The characters that were kept since the last match are carried along.
  have carried := (pattern_filled pattern).pieces_induction
    (motive := fun passed rest pieces => ∀ kept before segments, passed = kept.reverse ++ before →
      (∀ front back, kept = front ++ back → back ≠ [] →
        pattern.regex.run ⟨front.reverse ++ before, back ++ rest, []⟩ some = none) →
      Sound (kept ++ rest) → ∃ added, (holdBack pattern pieces segments).2 = segments ++ added ∧
        Passed (kept ++ rest) (kept ++ (holdBack pattern pieces segments).1) segments added)
    ?_ ?_ ?_ [] text [] [] segments rfl ?_ sound
  · exact carried
  · intro passed kept before segments _ _ sound
    exact ⟨[], (append_nil _).symm, passed_none sound⟩
  · intro passed c rest none_ ih kept before segments start unmatched sound
    have carried := ih (kept ++ [c]) before segments (by simp [start]) ?_ (by simpa using sound)
    · obtain ⟨added, later, step⟩ := carried
      refine ⟨added, later, ?_⟩
      simpa [holdBack] using step
    · intro front back whole some_
      obtain rfl | ⟨back, d, rfl⟩ := eq_nil_or_concat back
      · exact absurd rfl some_
      · rw [concat_eq_append, ← append_assoc] at whole
        obtain ⟨rfl, last⟩ := append_inj' whole rfl
        obtain rfl := singleton_inj.mp last
        rw [concat_eq_append, append_assoc]
        by_cases empty : back = []
        · subst empty
          rw [append_nil] at start
          rw [← start]
          exact none_
        · exact unmatched front back rfl empty
  · intro passed taken rest groups ran ih kept before segments start unmatched sound
    have found : (pattern.regex.run ⟨kept.reverse ++ before, taken ++ rest, []⟩ some).isSome := by
      rw [← start, ran]
      rfl
    have first := (pattern_keyStart pattern).seam found unmatched
    have second := seam_after (pattern_endsWord pattern _ _ ran)
    obtain ⟨-, soundRest, -⟩ := sound_split first sound
    obtain ⟨-, soundRest, -⟩ := sound_split second soundRest
    obtain ⟨added, later, step⟩ := ih [] (taken.reverse ++ passed) (segments ++ [⟨pattern, taken⟩])
      rfl (fun front back whole some_ => by simp at whole; exact absurd whole.2 some_) soundRest
    refine ⟨⟨pattern, taken⟩ :: added, ?_, step.found first second sound⟩
    rw [holdBack, later, append_assoc]
    rfl
  · intro front back whole some_
    simp at whole
    exact absurd whole.2 some_

/-- What holds between the rounds. -/
structure Tracked (text working : List Char) (segments : List Segment) : Prop where
  sound : Sound working
  below : ∀ i ∈ indices working, i < segments.length
  earlier : ∀ j segment, segments[j]? = some segment → ∀ i ∈ indices segment.text, i < j
  covered : ∀ j < segments.length, j ∈ indices working ∨ ∃ segment ∈ segments, j ∈ indices segment.text
  restored : (∀ segment ∈ segments, indices segment.text = []) →
    restore (segments.map Segment.text) working = text

theorem tracked_start (plain : Unmarked text) : Tracked text text [] := by
  have reads : Reads markerForm markerForm.Opens text (text.map Token.char) := by
    refine .of_plain fun back later opens => ?_
    obtain ⟨d, rest, digit, rfl⟩ := opens
    refine plain d digit (List.IsInfix.trans ⟨[], rest, ?_⟩ later.isInfix)
    simp [markerForm]
  obtain ⟨same, sound⟩ := sound_of_reads reads
  have none_ : indices text = [] := by
    rw [indices, same, marks_plain]
    rfl
  constructor
  · exact sound
  · simp [none_]
  · intro j segment held
    simp at held
  · exact fun j low => absurd low (Nat.not_lt_zero j)
  · exact fun _ => restore_plain _ none_

theorem Tracked.round (tracked : Tracked text working segments) (pattern : ProtectedPattern) :
    Tracked text (protectWith (working, segments) pattern).1
      (protectWith (working, segments) pattern).2 := by
  obtain ⟨added, later, passed⟩ := holdBack_passed pattern segments tracked.sound
  rw [protectWith, later]
  constructor
  · exact passed.sound
  · intro i held
    rw [length_append]
    obtain inside | ⟨-, high⟩ := passed.below i held
    · have bound := tracked.below i inside
      omega
    · exact high
  · intro j segment held i inside
    obtain low | high := Nat.lt_or_ge j segments.length
    · rw [getElem?_append_left low] at held
      exact tracked.earlier j segment held i inside
    · rw [getElem?_append_right high] at held
      have bound := tracked.below i ((passed.taken segment (mem_of_getElem? held)).2 i inside)
      omega
  · intro j bound
    rw [length_append] at bound
    obtain low | high := Nat.lt_or_ge j segments.length
    · obtain inside | ⟨segment, member, inside⟩ := tracked.covered j low
      · obtain still | ⟨segment, member, inside⟩ := passed.kept j inside
        · exact .inl still
        · exact .inr ⟨segment, mem_append_right _ member, inside⟩
      · exact .inr ⟨segment, mem_append_left _ member, inside⟩
    · exact .inl (passed.placed j high bound)
  · intro plain
    obtain ⟨old, new⟩ := forall_mem_append.mp plain
    have step := passed.restored [] new
    rw [append_nil] at step
    refine step.trans (Eq.trans ?_ (tracked.restored old))
    rw [restore_eq, restore_eq]
    refine expand_congr fun digits marked => ?_
    have bound := tracked.below _ (mem_map_of_mem marked)
    rw [segmentOf, segmentOf, map_append, getElem?_append_left]
    rw [length_map]
    exact bound

theorem tracked_protect (plain : Unmarked text) :
    Tracked text (protect text).1 (protect text).2 := by
  have rounds : ∀ (patterns : List ProtectedPattern) (state : List Char × List Segment),
      Tracked text state.1 state.2 →
      Tracked text (patterns.foldl protectWith state).1 (patterns.foldl protectWith state).2 := by
    intro patterns
    induction patterns with
    | nil => exact fun state tracked => tracked
    | cons pattern patterns ih => exact fun state tracked => ih _ (tracked.round pattern)
  exact rounds protectedPatterns (text, []) (tracked_start plain)

theorem tracked_heldBack (plain : Unmarked text) :
    Tracked text (heldBack text).1 (heldBack text).2 := by
  rw [heldBack]
  split
  · exact tracked_start plain
  · exact tracked_protect plain

theorem uncover_plain (plain : ∀ segment ∈ segments, indices segment.text = []) :
    uncovered segments = segments.map fun segment =>
      { original := segment.text
        named := if isNamed segment.pattern then [segment.text] else [] } := by
  induction segments using List.reverseRecOn with
  | nil => rfl
  | append_singleton segments segment ih =>
    obtain ⟨front, last⟩ := forall_mem_append.mp plain
    have own := last segment (mem_singleton_self segment)
    rw [uncovered, foldl_append, foldl_cons, foldl_nil, map_append]
    rw [show segments.foldl uncover [] = _ from ih front, uncover, restore_plain _ own, own]
    rfl

theorem inOrder_append (order : InOrder pieces text) : InOrder pieces (front ++ text) := by
  cases pieces with
  | nil => trivial
  | cons piece pieces =>
    obtain ⟨before, back, rfl, later⟩ := order
    exact ⟨front ++ before, back, by simp, later⟩

/-- What is put in for the marks stands in their order. -/
theorem inOrder_expand (held : List Char → List Char) (chosen : List Char → Bool) (tokens : List Token) :
    InOrder ((marks tokens).flatMap fun digits => if chosen digits then [held digits] else [])
      (expand held tokens) := by
  induction tokens with
  | nil => trivial
  | cons token tokens ih =>
    cases token with
    | char c => exact inOrder_append ih
    | mark digits =>
      rw [marks_mark, flatMap_cons, expand_mark]
      split
      · exact ⟨[], expand held tokens, rfl, ih⟩
      · exact inOrder_append ih

section
variable (plain : Unmarked text)
include plain

theorem indices_start : indices text = [] :=
  eq_nil_iff_forall_not_mem.mpr fun i held =>
    absurd ((tracked_start plain).below i held) (Nat.not_lt_zero i)

/-- What comes out is what was held back, put into a text with the words of the working text. -/
theorem compressProse_restores : ∃ written, keys false written = keys false (heldBack text).1 ∧
      compressProse text = restore ((heldBack text).2.map Segment.text) written := by
  rw [compressProse, heldBack]
  split
  · exact ⟨text, rfl, (restore_plain _ (indices_start plain)).symm⟩
  · exact ⟨_, keys_shorten _, rfl⟩

theorem segment_returns (held : (heldBack text).2[j]? = some segment_)
    (found : j ∈ indices (heldBack text).1) : segment_.text <:+: compressProse text := by
  obtain ⟨written, same, output⟩ := compressProse_restores plain
  obtain ⟨marks_, -⟩ := tokens_reads.same_keys tokens_reads same
  obtain ⟨digits, marked, rfl⟩ := mem_map.mp found
  rw [← marks_] at marked
  have stands : segmentOf ((heldBack text).2.map Segment.text) digits = segment_.text := by
    have held : (heldBack text).2[Nat.ofDigitChars 10 digits 0]? = some segment_ := held
    rw [segmentOf, getElem?_map, held]
    rfl
  rw [output, restore_eq, ← stands]
  exact expand_marks _ marked

theorem survive_of_unnested (unnested : Unnested text) : SegmentsSurvive text := by
  have tracked := tracked_heldBack plain
  have bare : ∀ segment ∈ (heldBack text).2, indices segment.text = [] := by
    intro segment held
    have none_ := unnested segment held
    rw [marked_iff] at none_
    exact not_ne_iff.mp none_
  obtain ⟨written, same, output⟩ := compressProse_restores plain
  obtain ⟨marks_, words⟩ := tokens_reads.same_keys tokens_reads same
  have bounded : ∀ digits ∈ marks (tokens written), ∃ segment,
      (heldBack text).2[indexOf digits]? = some segment ∧
        segmentOf ((heldBack text).2.map Segment.text) digits = segment.text := by
    intro digits marked
    rw [marks_] at marked
    have bound := tracked.below _ (mem_map_of_mem marked)
    refine ⟨_, getElem?_eq_getElem bound, ?_⟩
    rw [segmentOf, getElem?_map]
    have held : (heldBack text).2[Nat.ofDigitChars 10 digits 0]? = _ :=
      getElem?_eq_getElem bound
    rw [held]
    rfl
  constructor
  · intro uncovered_ held piece named
    rw [uncover_plain bare] at held
    obtain ⟨segment, member, rfl⟩ := mem_map.mp held
    have own : piece = segment.text := by
      split at named
      · exact mem_singleton.mp named
      · cases named
    subst own
    obtain ⟨j, bound, here⟩ := mem_iff_getElem.mp member
    obtain found | ⟨other, inside, marked⟩ := tracked.covered j bound
    · exact segment_returns plain (by rw [getElem?_eq_getElem bound, here]) found
    · rw [bare other inside] at marked
      cases marked
  · have order := inOrder_expand (segmentOf ((heldBack text).2.map Segment.text))
      (fun digits => (((heldBack text).2[indexOf digits]?).map fun segment =>
        isNamed segment.pattern).getD false) (tokens written)
    rw [output, restore_eq, captured, indices, flatMap_map, ← marks_]
    refine cast (congrArg (InOrder · _) ?_) order
    refine flatMap_congr fun digits marked => ?_
    obtain ⟨segment, held, stands⟩ := bounded digits marked
    rw [uncover_plain bare, getElem?_map, held, stands]
    rfl
  · have restored := tracked.restored bare
    have same := words (segmentOf ((heldBack text).2.map Segment.text))
    rw [← restore_eq, ← restore_eq, ← output, restored] at same
    obtain ⟨marks_, -⟩ := tokens_reads.same_keys tokens_reads same
    rw [marked_iff, not_ne_iff, indices, marks_]
    exact indices_start plain

/-- Of the segments that have taken in a marker the last one is put back with it. -/
theorem unnested_of_cleared
    (cleared : ¬ markerForm.Marked (compressProse text)) : Unnested text := by
  have tracked := tracked_heldBack plain
  -- By induction on the number of segments after the one with the marker.
  have none_ : ∀ n j segment, (heldBack text).2.length - j = n →
      (heldBack text).2[j]? = some segment → ¬ markerForm.Marked segment.text := by
    intro n
    induction n using Nat.strongRecOn with
    | _ n ih =>
      intro j segment size held marked
      obtain ⟨bound, -⟩ := List.getElem?_eq_some_iff.mp held
      obtain found | ⟨other, member, inside⟩ := tracked.covered j bound
      · obtain ⟨digits, numeral, inside⟩ := marked
        exact cleared ⟨digits, numeral, inside.trans (segment_returns plain held found)⟩
      · obtain ⟨i, high, here⟩ := mem_iff_getElem.mp member
        have at_ : (heldBack text).2[i]? = some other := by rw [getElem?_eq_getElem high, here]
        have later := tracked.earlier i other at_ j inside
        refine ih _ ?_ i other rfl at_ ((marked_iff _).mpr (ne_nil_of_mem inside))
        omega
  intro segment member
  obtain ⟨j, bound, here⟩ := mem_iff_getElem.mp member
  exact none_ _ j segment rfl (by rw [getElem?_eq_getElem bound, here])

end

/-- In a text that does not itself contain the start of a marker, the code, URLs and paths that are
held back come back in their order, with no marker left, exactly when no pattern takes in the
marker of an earlier one. -/
theorem segments_survive_iff (text : List Char) (plain : Unmarked text) :
    SegmentsSurvive text ↔ Unnested text :=
  ⟨fun survive => unnested_of_cleared plain survive.cleared, survive_of_unnested plain⟩

theorem unmarked_of_no_underscore (none_ : '_' ∉ text) : Unmarked text :=
  fun _ _ inside => none_ (inside.subset (mem_append_left _ (by decide)))

theorem segments_survive_iff_code :
    '_' ∉ "see `npm test`".toList ∧ SegmentsSurvive "see `npm test`".toList := by
  have none_ : '_' ∉ "see `npm test`".toList := by decide
  refine ⟨none_, (segments_survive_iff _ (unmarked_of_no_underscore none_)).mpr ?_⟩
  have bare : ∀ segment ∈ (heldBack "see `npm test`".toList).2, indices segment.text = [] := by
    decide
  exact fun segment held => by rw [marked_iff, bare segment held]; exact not_not.mpr rfl

/-- A call with a code segment among its arguments. -/
theorem marker_left : ¬ SegmentsSurvive "call foo(`x`) now".toList := by
  intro survive
  have output : compressProse "call foo(`x`) now".toList =
      "Call foo(__QIONGQI_PROTECTED_SEGMENT_0__) now".toList := by decide
  have cleared := survive.cleared
  exact cleared ⟨['0'], ⟨nofun, by decide⟩, by decide +kernel⟩

end QiongQi.ProtectedSegments
