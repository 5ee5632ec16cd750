import QiongQi.ModelTexts

/-! `InlineReasoningExtractor` on a text that comes in chunks: it gives what it gives for the whole
text, and every character outside of the tags once. -/
namespace QiongQi.InlineReasoning
open ModelTexts Regexes
open List hiding tail

/-- A tag, spelled in lower case. -/
def tagText (closing : Bool) (name : String) : List Char :=
  '<' :: ((if closing then ['/'] else []) ++ name.toList) ++ ['>']

/-- A tag of one of the names, letters in either case. -/
def IsTag (closing : Bool) (tag : List Char) : Prop :=
  ∃ name ∈ reasoningTagNames, tag.map Char.toLower = tagText closing name

instance (closing : Bool) (tag : List Char) : Decidable (IsTag closing tag) :=
  inferInstanceAs (Decidable (∃ name ∈ reasoningTagNames, _))

def tagRe (closing : Bool) : Regex := if closing then closerRe else openerRe

/-- What follows a tag that the text begins with. -/
def afterTag (closing : Bool) (text : List Char) : Option (List Char) :=
  reasoningTagNames.findSome? fun name => afterText (tagText closing name) text

theorem tagText_lower :
    ∀ name ∈ reasoningTagNames, (tagText closing name).map Char.toLower = tagText closing name := by
  cases closing <;> decide

theorem tagName_plain (closing : Bool) : ∀ name ∈ reasoningTagNames,
    '<' ∉ (if closing then ['/'] else []) ++ name.toList ∧
      '>' ∉ (if closing then ['/'] else []) ++ name.toList ∧
      ((if closing then ['/'] else []) ++ name.toList).length ≤ 11 := by
  cases closing <;> decide

variable {closing inside : Bool} {rest more text before work : List Char} {pieces : List Piece}
variable {state : InlineReasoningExtractor}

/-- A tag has its angle brackets at its ends only, and is not long. -/
theorem isTag_shape (isTag : IsTag closing tag) :
    ∃ body, tag = '<' :: body ++ ['>'] ∧ '<' ∉ body ∧ '>' ∉ body ∧ body.length ≤ 11 := by
  obtain ⟨name, known, spelled⟩ := isTag
  have plain := tagName_plain closing name known
  unfold tagText at spelled
  generalize (if closing then ['/'] else []) ++ name.toList = inner at plain spelled
  obtain ⟨front, last, rfl, spelledFront, spelledLast⟩ := map_eq_append_iff.mp spelled
  obtain ⟨c, body, rfl, lowC, spelledBody⟩ := map_eq_cons_iff.mp spelledFront
  obtain ⟨d, rest, rfl, lowD, spelledRest⟩ := map_eq_cons_iff.mp spelledLast
  have first : c = '<' := eq_of_toLower lowC (by decide)
  have final : d = '>' := eq_of_toLower lowD (by decide)
  rw [map_eq_nil_iff.mp spelledRest, first, final]
  refine ⟨body, rfl, fun held => plain.1 ?_, fun held => plain.2.1 ?_, ?_⟩
  · rw [← spelledBody]
    exact mem_map.mpr ⟨'<', held, by decide⟩
  · rw [← spelledBody]
    exact mem_map.mpr ⟨'>', held, by decide⟩
  · rw [← length_map Char.toLower, spelledBody]
    exact plain.2.2

/-- Two tags that a text begins with are one. -/
theorem isTag_unique (isLeft : IsTag closing left) (isRight : IsTag other right)
    (same : left ++ rest = right ++ more) : left = right ∧ rest = more := by
  obtain ⟨body, rfl, -, plain, -⟩ := isTag_shape isLeft
  obtain ⟨inner, rfl, -, plainInner, -⟩ := isTag_shape isRight
  have cut : ∀ {front tail : List Char}, '>' ∉ front →
      ('<' :: front ++ ['>'] ++ tail).takeWhile (fun c => c ≠ '>') = '<' :: front := by
    intro front tail apart
    rw [append_assoc, takeWhile_append_of_pos]
    · simp
    · intro c held
      rcases mem_cons.mp held with rfl | held
      · decide
      · simp only [ne_eq, decide_not, Bool.not_eq_eq_eq_not, Bool.not_true, decide_eq_false_iff_not]
        rintro rfl
        exact apart held
  have begins := congrArg (List.takeWhile fun c => c ≠ '>') same
  rw [cut plain, cut plainInner] at begins
  rw [begins] at same ⊢
  exact ⟨rfl, append_cancel_left same⟩

theorem afterTag_some :
    afterTag closing text = some rest ↔ ∃ tag, IsTag closing tag ∧ text = tag ++ rest := by
  have spelled : ∀ name ∈ reasoningTagNames, ∀ rest, afterText (tagText closing name) text = some rest ↔
        ∃ tag, text = tag ++ rest ∧ tag.map Char.toLower = tagText closing name := by
    intro name known rest
    rw [afterText_some, tagText_lower name known]
  constructor
  · intro found
    obtain ⟨name, known, after⟩ := exists_of_findSome?_eq_some found
    obtain ⟨tag, whole, same⟩ := (spelled name known rest).mp after
    exact ⟨tag, ⟨name, known, same⟩, whole⟩
  · rintro ⟨tag, ⟨name, known, same⟩, whole⟩
    have after := (spelled name known rest).mpr ⟨tag, whole, same⟩
    cases found : afterTag closing text with
    | none =>
      have missing := findSome?_eq_none_iff.mp found name known
      rw [after] at missing
      cases missing
    | some other =>
      obtain ⟨otherName, otherKnown, otherAfter⟩ := exists_of_findSome?_eq_some found
      obtain ⟨otherTag, otherWhole, otherSame⟩ := (spelled otherName otherKnown other).mp otherAfter
      have unique := isTag_unique ⟨otherName, otherKnown, otherSame⟩ ⟨name, known, same⟩
        (otherWhole.symm.trans whole)
      rw [unique.2]

theorem afterText_append (front back text : List Char) :
    afterText (front ++ back) text = (afterText front text).bind (afterText back) := by
  induction front generalizing text with
  | nil => rfl
  | cons c front ih =>
    cases text with
    | nil => rfl
    | cons d text =>
      rw [cons_append, afterText, afterText]
      split
      · exact ih text
      · rfl

theorem run_tagRe (closing : Bool) (passed text : List Char) :
    ((tagRe closing).run ⟨passed, text, []⟩ some).map (fun last => last.rest) = afterTag closing text := by
  have spelled : ∀ opening : String,
      ((sequence [literal true opening, wordIn reasoningTagNames, literal true ">"]).run
          ⟨passed, text, []⟩ some).map (fun last => last.rest) =
        reasoningTagNames.findSome? fun name =>
          afterText (opening.toList ++ name.toList ++ ['>']) text := by
    intro opening
    have closes : ">".toList = ['>'] := rfl
    show ((Regex.seq (literal true opening)
      (.seq (wordIn reasoningTagNames) (literal true ">"))).run _ some).map _ = _
    rw [Regex.run, run_literal]
    cases opened : afterText opening.toList text with
    | none =>
      have missing : ∀ name : String, afterText (opening.toList ++ name.toList ++ ['>']) text = none := by
        intro name
        rw [append_assoc, afterText_append, opened]
        rfl
      simp only [missing]
      rfl
    | some rest =>
      rw [Option.bind_some, Regex.run, wordIn, run_choice, findSome?_map, map_findSome?]
      congr 1
      funext name
      rw [Function.comp_apply, Function.comp_apply, run_literal, afterText_append,
        afterText_append, opened, Option.bind_some]
      cases afterText name.toList rest with
      | none => rfl
      | some later =>
        rw [Option.bind_some, run_literal, Option.bind_some, closes]
        cases afterText ['>'] later <;> rfl
  cases closing with
  | false => exact spelled "<"
  | true => exact spelled "</"

/-- The first tag of a text: what stands before it, and what follows it. -/
def findTag (closing : Bool) : List Char → Option (List Char × List Char)
  | [] => none
  | c :: text =>
    match afterTag closing (c :: text) with
    | some rest => some ([], rest)
    | none => (findTag closing text).map fun found => (c :: found.1, found.2)

example : findTag closing [] = none := by rw [findTag]

theorem afterTag_nil : afterTag closing [] = none := by
  cases closing <;> rfl

theorem search_tagRe : ∀ passed : List Char,
    ((tagRe closing).search passed text).map (fun found => (found.1, found.2.rest)) =
      findTag closing text := by
  induction text with
  | nil =>
    intro passed
    have run := run_tagRe closing passed []
    rw [afterTag_nil, Option.map_eq_none_iff] at run
    rw [Regex.search, run]
    rfl
  | cons c text ih =>
    intro passed
    have run := run_tagRe closing passed (c :: text)
    rw [Regex.search, findTag, ← run]
    cases (tagRe closing).run ⟨passed, c :: text, []⟩ some with
    | some last => rfl
    | none =>
      rw [← ih (c :: passed), Option.map_map, Option.map_map]
      rfl

/-- The text is a tag up to an end that is missing. -/
def BeginsTag (closing : Bool) (text : List Char) : Prop :=
  ∃ missing, missing ≠ [] ∧ IsTag closing (text ++ missing)

/-- Only the first character of what begins a tag opens a bracket. -/
theorem beginsTag_shape (begins : BeginsTag closing (c :: text)) :
    c = '<' ∧ '<' ∉ text ∧ text.length ≤ 11 := by
  obtain ⟨missing, more, isTag⟩ := begins
  obtain ⟨body, whole, plain, -, short⟩ := isTag_shape isTag
  rw [cons_append, cons_append] at whole
  obtain ⟨rfl, same⟩ := List.cons.inj whole
  obtain ⟨final, last, rfl⟩ := (eq_nil_or_concat' missing).resolve_left more
  rw [← append_assoc] at same
  have inner : text ++ final = body := append_inj_left' same rfl
  subst inner
  rw [length_append] at short
  exact ⟨rfl, fun held => plain (mem_append_left _ held), by omega⟩

theorem beginsTag_held (begins : BeginsTag closing text) : couldBeTagStart text = true := by
  obtain ⟨missing, more, name, known, spelled⟩ := begins
  obtain ⟨final, last, rfl⟩ := (eq_nil_or_concat' missing).resolve_left more
  rw [← append_assoc, map_append, tagText] at spelled
  have front := append_inj_left' spelled rfl
  rw [map_append] at front
  have start : text.map Char.toLower <+: '<' :: ((if closing then ['/'] else []) ++ name.toList) :=
    ⟨_, front⟩
  rw [couldBeTagStart, Bool.or_eq_true, Bool.or_eq_true, any_eq_true]
  refine .inl (.inl ⟨name, known, ?_⟩)
  rw [Bool.or_eq_true, isPrefixOf_iff_prefix, isPrefixOf_iff_prefix]
  cases closing with
  | false => exact .inl start
  | true => exact .inr start

theorem afterTag_grown (missing : afterTag closing text = none)
    (grown : afterTag closing (text ++ more) = some rest) : BeginsTag closing text := by
  obtain ⟨tag, isTag, whole⟩ := afterTag_some.mp grown
  rcases append_eq_append_iff.mp whole with ⟨final, same, -⟩ | ⟨kept, same, -⟩
  · refine ⟨final, ?_, same ▸ isTag⟩
    rintro rfl
    rw [append_nil] at same
    rw [afterTag_some.mpr ⟨tag, isTag, by rw [same, append_nil]⟩] at missing
    cases missing
  · rw [afterTag_some.mpr ⟨tag, isTag, same⟩] at missing
    cases missing

theorem afterTag_append (found : afterTag closing text = some rest) :
    afterTag closing (text ++ more) = some (rest ++ more) := by
  obtain ⟨tag, isTag, rfl⟩ := afterTag_some.mp found
  exact afterTag_some.mpr ⟨tag, isTag, append_assoc ..⟩

theorem findTag_some (found : findTag closing text = some (before, rest)) :
    ∃ tag, IsTag closing tag ∧ text = before ++ tag ++ rest := by
  induction text generalizing before with
  | nil => cases found
  | cons c text ih =>
    rw [findTag] at found
    split at found
    · rename_i after
      cases found
      exact afterTag_some.mp after
    · obtain ⟨⟨inner, rest'⟩, later, same⟩ := Option.map_eq_some_iff.mp found
      cases same
      obtain ⟨tag, isTag, rfl⟩ := ih later
      exact ⟨tag, isTag, rfl⟩

theorem findTag_shorter (found : findTag closing work = some (before, rest)) :
    rest.length < work.length := by
  obtain ⟨tag, isTag, rfl⟩ := findTag_some found
  obtain ⟨body, rfl, -⟩ := isTag_shape isTag
  simp only [length_append, length_cons]
  omega

theorem findTag_append (found : findTag closing text = some (before, rest)) (more : List Char) :
    findTag closing (text ++ more) = some (before, rest ++ more) := by
  induction text generalizing before with
  | nil => cases found
  | cons c text ih =>
    rw [findTag] at found
    rw [cons_append, findTag]
    cases here : afterTag closing (c :: text) with
    | some after =>
      rw [here] at found
      cases found
      rw [← cons_append, afterTag_append here]
    | none =>
      rw [here] at found
      obtain ⟨⟨inner, rest'⟩, later, same⟩ := Option.map_eq_some_iff.mp found
      cases same
      have apart : afterTag closing (c :: (text ++ more)) = none := by
        rw [Option.eq_none_iff_forall_ne_some]
        intro after grown
        obtain ⟨-, plain, -⟩ := beginsTag_shape (afterTag_grown here grown)
        obtain ⟨tag, isTag, rfl⟩ := findTag_some later
        obtain ⟨body, rfl, -⟩ := isTag_shape isTag
        apply plain
        simp
      rw [apart, ih later]
      rfl

theorem findTag_none_append (missing : findTag closing (front ++ back) = none) :
    findTag closing back = none := by
  induction front with
  | nil => exact missing
  | cons c front ih =>
    rw [cons_append, findTag] at missing
    split at missing
    · cases missing
    · exact ih (Option.map_eq_none_iff.mp missing)

theorem findTag_passed (missing : findTag closing (safe ++ tail) = none)
    (apart : ∀ front back, safe = front ++ back → back ≠ [] → ¬ BeginsTag closing (back ++ tail))
    (more : List Char) : findTag closing (safe ++ tail ++ more) =
      (findTag closing (tail ++ more)).map fun found => (safe ++ found.1, found.2) := by
  induction safe with
  | nil => exact Option.map_id.symm ▸ rfl
  | cons c safe ih =>
    rw [cons_append, findTag] at missing
    cases here : afterTag closing (c :: (safe ++ tail)) with
    | some after =>
      rw [here] at missing
      cases missing
    | none =>
      rw [here] at missing
      have none_more : afterTag closing (c :: (safe ++ tail ++ more)) = none := by
        rw [Option.eq_none_iff_forall_ne_some]
        intro after grown
        exact apart [] (c :: safe) rfl (cons_ne_nil _ _) (afterTag_grown here grown)
      rw [cons_append, cons_append, findTag, none_more,
        ih (Option.map_eq_none_iff.mp missing) fun front back whole =>
          apart (c :: front) back (congrArg (c :: ·) whole),
        Option.map_map]
      rfl

theorem last_bracket (held : '<' ∈ work) :
    ∃ front ending, work = front ++ '<' :: ending ∧ '<' ∉ ending := by
  obtain ⟨ending, front, whole, plain⟩ := eq_append_cons_of_mem (mem_reverse.mpr held)
  refine ⟨front.reverse, ending.reverse, ?_, fun found => plain (mem_reverse.mp found)⟩
  rw [← reverse_reverse work, whole]
  simp

/-- What is held back is nothing, or begins with the last opening bracket; where it is nothing,
no end of the text begins a tag. -/
theorem stripUnsafeTail_split (closing : Bool) :
    ∃ safe tail, stripUnsafeTail work = (safe, tail) ∧ work = safe ++ tail ∧
      ∀ front back, safe = front ++ back → back ≠ [] → ¬ BeginsTag closing (back ++ tail) := by
  by_cases held : '<' ∈ work
  · obtain ⟨front, ending, rfl, plain⟩ := last_bracket held
    have tail : ((front ++ '<' :: ending).reverse.takeWhile fun c => c ≠ '<').reverse = ending := by
      rw [reverse_append, reverse_cons, append_assoc, takeWhile_append_of_pos]
      · simp
      · intro c found
        have other : c ≠ '<' := by
          rintro rfl
          exact plain (mem_reverse.mp found)
        simpa using other
    have inFront : ∀ start back, front = start ++ back → back ≠ [] →
        ¬ BeginsTag closing (back ++ '<' :: ending) := by
      intro start back _ some begins
      obtain ⟨c, back, rfl⟩ := exists_cons_of_ne_nil some
      apply (beginsTag_shape begins).2.1
      simp
    rw [stripUnsafeTail, if_pos (by simp)]
    simp only [tail]
    by_cases unsafeTail : ('<' :: ending).length ≤ maxTagLen ∧ couldBeTagStart ('<' :: ending)
    · rw [if_pos unsafeTail]
      refine ⟨front, '<' :: ending, ?_, rfl, inFront⟩
      rw [length_append, Nat.add_sub_cancel, take_left]
    · rw [if_neg unsafeTail]
      refine ⟨_, [], rfl, (append_nil _).symm, ?_⟩
      have atBracket : ¬ BeginsTag closing ('<' :: ending) := by
        intro begins
        have short := (beginsTag_shape begins).2.2
        refine unsafeTail ⟨?_, beginsTag_held begins⟩
        rw [length_cons, maxTagLen]
        omega
      intro start back whole some begins
      rw [append_nil] at begins
      rcases append_eq_append_iff.mp whole with ⟨more, -, same⟩ | ⟨more, same, rfl⟩
      · cases more with
        | nil =>
          exact atBracket (same ▸ begins)
        | cons c more =>
          obtain ⟨rfl, rfl⟩ := List.cons.inj same
          obtain ⟨c, back, rfl⟩ := exists_cons_of_ne_nil some
          obtain ⟨rfl, -, -⟩ := beginsTag_shape begins
          exact plain (by simp)
      · cases more with
        | nil => exact atBracket begins
        | cons c more => exact inFront start _ same (cons_ne_nil _ _) begins
  · rw [stripUnsafeTail, if_neg (by simpa using held)]
    refine ⟨work, [], rfl, (append_nil _).symm, ?_⟩
    intro front back whole some begins
    obtain ⟨c, back, rfl⟩ := exists_cons_of_ne_nil some
    obtain ⟨rfl, -, -⟩ := beginsTag_shape begins
    apply held
    rw [whole]
    simp

inductive Piece
  | content (reasoning : Bool) (chars : List Char)
  | mark (closing : Bool) (tag : List Char)

def Piece.chars : Piece → List Char
  | .content _ chars => chars
  | .mark _ tag => tag

/-- What the pieces of a kind hold. -/
def Piece.of (reasoning : Bool) : Piece → List Char
  | .content kind chars => if kind = reasoning then chars else []
  | .mark _ _ => []

/-- A text, cut at the first tag of the kind that is looked for, and at the first of the other
kind after it, and so on. -/
inductive Cut : Bool → List Char → List Piece → Prop
  | ended {inside : Bool} {text : List Char} (none : findTag inside text = none) :
      Cut inside text [.content inside text]
  | tagged {inside : Bool} {before tag rest : List Char} {pieces : List Piece}
      (isTag : IsTag inside tag)
      (found : findTag inside (before ++ tag ++ rest) = some (before, rest))
      (later : Cut (!inside) rest pieces) :
      Cut inside (before ++ tag ++ rest) (.content inside before :: .mark inside tag :: pieces)

theorem Cut.chars (cut : Cut inside text pieces) : pieces.flatMap Piece.chars = text := by
  induction cut with
  | ended => exact append_nil _
  | tagged _ _ _ ih =>
    rw [flatMap_cons, flatMap_cons, ih, Piece.chars, Piece.chars, append_assoc]

theorem Cut.marks (cut : Cut inside text pieces) :
    ∀ closing tag, .mark closing tag ∈ pieces → IsTag closing tag := by
  induction cut with
  | ended =>
    intro closing tag held
    cases mem_singleton.mp held
  | tagged isTag _ _ ih =>
    intro closing tag held
    rcases mem_cons.mp held with same | held
    · cases same
    rcases mem_cons.mp held with same | held
    · cases same
      exact isTag
    · exact ih closing tag held

theorem Cut.unique (cut : Cut inside text pieces) (other : Cut inside text others) :
    pieces = others := by
  induction cut generalizing others with
  | ended none =>
    cases other with
    | ended => rfl
    | tagged _ found _ =>
      rw [none] at found
      cases found
  | @tagged inside before tag rest pieces isTag found later ih =>
    generalize whole : before ++ tag ++ rest = text at found other
    cases other with
    | ended none =>
      rw [none] at found
      cases found
    | @tagged _ before' tag' rest' others isTag' found' later' =>
      rw [found] at found'
      cases found'
      rw [append_cancel_left (append_cancel_right whole), ih later']

/-- What is emitted of a kind. -/
def emittedOf (reasoning : Bool) (out : ExtractorOutput) : List Char :=
  if reasoning then out.reasoning else out.text

theorem search_found (found : findTag closing work = some (before, rest)) :
    ∃ last : Cursor, (tagRe closing).search [] work = some (before, last) ∧ last.rest = rest := by
  rw [← search_tagRe []] at found
  obtain ⟨⟨_, last⟩, search, same⟩ := Option.map_eq_some_iff.mp found
  cases same
  exact ⟨last, search, rfl⟩

theorem search_missing (missing : findTag closing work = none) :
    (tagRe closing).search [] work = none := by
  rw [← search_tagRe []] at missing
  exact Option.map_eq_none_iff.mp missing

theorem pushLoop_found (more : Nat) (found : findTag state.insideReasoning work = some (before, rest)) :
    (pushLoop (more + 1) state work).1 =
        (pushLoop more { state with insideReasoning := !state.insideReasoning } rest).1 ∧
      ∀ kind, emittedOf kind (pushLoop (more + 1) state work).2 =
        Piece.of kind (.content state.insideReasoning before) ++ emittedOf kind
            (pushLoop more { state with insideReasoning := !state.insideReasoning } rest).2 := by
  obtain ⟨last, search, rfl⟩ := search_found found
  obtain ⟨tag, isTag, rfl⟩ := findTag_some found
  obtain ⟨body, rfl, -⟩ := isTag_shape isTag
  have some : (before ++ ('<' :: body ++ ['>']) ++ last.rest).isEmpty = false := by simp
  obtain ⟨inside, pending⟩ := state
  rw [pushLoop, some]
  cases inside with
  | false =>
    have opened : openerRe.search [] (before ++ ('<' :: body ++ ['>']) ++ last.rest) =
        .some (before, last) := search
    simp only [Bool.false_eq_true, if_false, opened]
    refine ⟨rfl, fun kind => ?_⟩
    cases kind <;> rfl
  | true =>
    have closed : closerRe.search [] (before ++ ('<' :: body ++ ['>']) ++ last.rest) =
        .some (before, last) := search
    simp only [Bool.false_eq_true, if_false, if_true, closed]
    refine ⟨rfl, fun kind => ?_⟩
    cases kind <;> rfl

theorem pushLoop_ended (more : Nat) (some : work ≠ [])
    (missing : findTag state.insideReasoning work = none) : (pushLoop (more + 1) state work).1 =
        { state with pendingTail := (stripUnsafeTail work).2 } ∧
      ∀ kind, emittedOf kind (pushLoop (more + 1) state work).2 =
        Piece.of kind (.content state.insideReasoning (stripUnsafeTail work).1) := by
  have search := search_missing missing
  have notEmpty : work.isEmpty = false := by simpa using some
  obtain ⟨inside, pending⟩ := state
  rw [pushLoop, notEmpty]
  cases inside with
  | false =>
    have opened : openerRe.search [] work = none := search
    simp only [Bool.false_eq_true, if_false, opened]
    refine ⟨trivial, fun kind => ?_⟩
    cases kind <;> rfl
  | true =>
    have closed : closerRe.search [] work = none := search
    simp only [Bool.false_eq_true, if_false, if_true, closed]
    refine ⟨trivial, fun kind => ?_⟩
    cases kind <;> rfl

/-- The pieces of a text that goes on after a chunk are those that the chunk gives, and those of
the end that is held back and of what follows. -/
theorem pushLoop_cut :
    ∀ (fuel : Nat) (state : InlineReasoningExtractor) (work : List Char) (pieces : List Piece),
      work.length < fuel → state.pendingTail = [] →
      Cut (pushLoop fuel state work).1.insideReasoning
        ((pushLoop fuel state work).1.pendingTail ++ more) pieces →
      ∃ whole, Cut state.insideReasoning (work ++ more) whole ∧ ∀ kind, whole.flatMap (Piece.of kind) =
          emittedOf kind (pushLoop fuel state work).2 ++ pieces.flatMap (Piece.of kind) := by
  intro fuel
  induction fuel with
  | zero => exact fun _ _ _ short => absurd short (Nat.not_lt_zero _)
  | succ fuel ih =>
    intro state work pieces short clean cut
    by_cases empty : work = []
    · subst empty
      have idle : pushLoop (fuel + 1) state [] = (state, {}) := rfl
      rw [idle] at cut ⊢
      rw [clean] at cut
      refine ⟨pieces, cut, fun kind => ?_⟩
      cases kind <;> rfl
    cases found : findTag state.insideReasoning work with
    | some split =>
      obtain ⟨before, rest⟩ := split
      obtain ⟨later, output⟩ := pushLoop_found fuel found
      have shorter : rest.length < fuel := by
        have dropped := findTag_shorter found
        omega
      obtain ⟨tag, isTag, rfl⟩ := findTag_some found
      rw [later] at cut
      obtain ⟨pieces', cut', output'⟩ :=
        ih { state with insideReasoning := !state.insideReasoning } rest pieces shorter clean cut
      have foundMore := findTag_append found more
      rw [append_assoc _ rest more] at foundMore ⊢
      refine ⟨_, .tagged isTag foundMore cut', fun kind => ?_⟩
      rw [flatMap_cons, flatMap_cons, output' kind, output kind, append_assoc]
      rfl
    | none =>
      obtain ⟨later, output⟩ := pushLoop_ended fuel empty found
      obtain ⟨safe, tail, stripped, whole, apart⟩ :=
        stripUnsafeTail_split state.insideReasoning
      rw [stripped] at later output
      rw [later] at cut
      rw [whole] at found
      have further := findTag_passed found apart more
      subst whole
      generalize ended : tail ++ more = final at cut further
      cases cut with
      | ended none =>
        rw [none] at further
        refine ⟨_, .ended further, fun kind => ?_⟩
        rw [output kind, append_assoc, ended]
        cases state.insideReasoning <;> cases kind <;> simp [Piece.of]
      | @tagged _ before tag rest pieces isTag foundLater cut' =>
        rw [foundLater, Option.map_some] at further
        rw [append_assoc safe, ended, ← append_assoc, ← append_assoc] at further ⊢
        refine ⟨_, .tagged isTag further cut', fun kind => ?_⟩
        rw [output kind]
        cases state.insideReasoning <;> cases kind <;> simp [Piece.of]

theorem pushLoop_tail : ∀ (fuel : Nat) (state : InlineReasoningExtractor) (work : List Char),
      work.length < fuel → state.pendingTail = [] →
      findTag (pushLoop fuel state work).1.insideReasoning
        (pushLoop fuel state work).1.pendingTail = none := by
  intro fuel
  induction fuel with
  | zero => exact fun _ _ short => absurd short (Nat.not_lt_zero _)
  | succ fuel ih =>
    intro state work short clean
    by_cases empty : work = []
    · subst empty
      have idle : pushLoop (fuel + 1) state [] = (state, {}) := rfl
      rw [idle, clean]
      rfl
    cases found : findTag state.insideReasoning work with
    | some split =>
      have shorter := findTag_shorter found
      rw [(pushLoop_found fuel found).1]
      exact ih { state with insideReasoning := !state.insideReasoning } split.2 (by omega) clean
    | none =>
      obtain ⟨safe, tail, stripped, whole, -⟩ := stripUnsafeTail_split state.insideReasoning
      rw [(pushLoop_ended fuel empty found).1, stripped]
      rw [whole] at found
      exact findTag_none_append found

/-- No tag is held back. -/
def Waiting (state : InlineReasoningExtractor) : Prop :=
  findTag state.insideReasoning state.pendingTail = none

theorem push_waiting (waiting : Waiting state) : Waiting (state.push chunk).1 := by
  rw [InlineReasoningExtractor.push]
  split
  · exact waiting
  · exact pushLoop_tail _ _ _ (Nat.lt_succ_self _) rfl

theorem push_cut
    (cut : Cut (state.push chunk).1.insideReasoning ((state.push chunk).1.pendingTail ++ more)
      pieces) : ∃ whole, Cut state.insideReasoning (state.pendingTail ++ (chunk ++ more)) whole ∧
      ∀ kind, whole.flatMap (Piece.of kind) =
        emittedOf kind (state.push chunk).2 ++ pieces.flatMap (Piece.of kind) := by
  rw [InlineReasoningExtractor.push] at cut ⊢
  split at cut
  · rename_i empty
    rw [isEmpty_iff.mp empty]
    refine ⟨pieces, cut, fun kind => ?_⟩
    cases kind <;> rfl
  · rename_i some
    rw [if_neg some, ← append_assoc]
    exact pushLoop_cut _ { state with pendingTail := [] } _ pieces (Nat.lt_succ_self _) rfl cut

/-- Pushes the chunks one by one and flushes. -/
def extractAll (state : InlineReasoningExtractor) : List (List Char) → ExtractorOutput
  | [] => state.flush
  | chunk :: chunks =>
    let out := (state.push chunk).2
    let later := extractAll (state.push chunk).1 chunks
    { text := out.text ++ later.text, reasoning := out.reasoning ++ later.reasoning }

/-- The chunks give the pieces of the text as a whole. -/
theorem extractAll_cut : ∀ state : InlineReasoningExtractor, Waiting state →
      ∃ pieces, Cut state.insideReasoning (state.pendingTail ++ chunks.flatten) pieces ∧
        ∀ kind, emittedOf kind (extractAll state chunks) = pieces.flatMap (Piece.of kind) := by
  induction chunks with
  | nil =>
    intro state waiting
    rw [flatten_nil, append_nil]
    refine ⟨_, .ended waiting, fun kind => ?_⟩
    rw [extractAll, InlineReasoningExtractor.flush]
    cases state.insideReasoning <;> cases kind <;> simp [Piece.of, emittedOf]
  | cons chunk chunks ih =>
    intro state waiting
    obtain ⟨pieces, cut, output⟩ := ih _ (push_waiting waiting)
    obtain ⟨whole, cutWhole, outputWhole⟩ := push_cut cut
    rw [flatten_cons]
    refine ⟨whole, cutWhole, fun kind => ?_⟩
    rw [outputWhole kind, ← output kind]
    cases kind <;> rfl

/-- Chunks give what the whole text gives: what stands outside of its tags, each character once. -/
theorem extractAll_chunks (chunks : List (List Char)) :
    extractAll {} chunks = extractAll {} [chunks.flatten] ∧
      ∃ pieces, Cut false chunks.flatten pieces ∧ pieces.flatMap Piece.chars = chunks.flatten ∧
        (∀ closing tag, .mark closing tag ∈ pieces → IsTag closing tag) ∧
        (extractAll {} chunks).text = pieces.flatMap (Piece.of false) ∧
        (extractAll {} chunks).reasoning = pieces.flatMap (Piece.of true) := by
  obtain ⟨pieces, cut, output⟩ := extractAll_cut {} rfl
  obtain ⟨others, other, outputOther⟩ := extractAll_cut {} rfl
  rw [flatten_singleton] at other
  rw [cut.unique other] at output
  refine ⟨?_, others, other, other.chars, other.marks, output false, output true⟩
  have text : (extractAll {} chunks).text = (extractAll {} [chunks.flatten]).text :=
    (output false).trans (outputOther false).symm
  have reasoning : (extractAll {} chunks).reasoning = (extractAll {} [chunks.flatten]).reasoning :=
    (output true).trans (outputOther true).symm
  cases whole : extractAll {} [chunks.flatten]
  cases parts : extractAll {} chunks
  rw [whole, parts] at text reasoning
  rw [ExtractorOutput.mk.injEq]
  exact ⟨text, reasoning⟩

example : extractAll {} ["a<thi".toList, "nk>b</THINK>c<".toList] =
    { text := "ac<".toList, reasoning := "b".toList } := by
  decide

end QiongQi.InlineReasoning
