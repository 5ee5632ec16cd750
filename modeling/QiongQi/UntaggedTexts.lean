import QiongQi.ModelTexts
import QiongQi.RegexMatches

/-! What the removal of tool-call markers does to a text without tags and without phrases of
tool calls. -/
namespace QiongQi.UntaggedTexts
open ModelTexts Regexes

/-- Every match takes place before a character of the kind. -/
def Needs (p : Char → Prop) (regex : Regex) : Prop :=
  ∀ start last, regex.Matches start last → ∃ c ∈ start.rest, p c

theorem Needs.left (needs : Needs p first) (second : Regex) : Needs p (.seq first second) :=
  fun start _ ⟨middle, one, _⟩ => needs start middle one

theorem Needs.right (needs : Needs p second) (first : Regex) : Needs p (.seq first second) := by
  rintro start last ⟨middle, one, two⟩
  obtain ⟨taken, took⟩ := matches_took one
  obtain ⟨c, held, kind⟩ := needs middle last two
  exact ⟨c, took.1 ▸ List.mem_append_right taken held, kind⟩

/-- A fixed text needs each of its characters, letters in either case. -/
theorem needs_literal (held : mark ∈ text.toList)
    (alone : ∀ c : Char, c.toLower = mark.toLower → p c) (self : p mark) :
    Needs p (literal anyCase text) := by
  rw [literal]
  generalize text.toList = spelled at held
  induction spelled with
  | nil => cases held
  | cons first rest ih =>
    rw [List.foldr_cons]
    rcases List.mem_cons.mp held with rfl | later
    · apply Needs.left
      rintro start last ⟨c, others, whole, accepted, -⟩
      refine ⟨c, whole ▸ List.mem_cons_self, ?_⟩
      simp only [Bool.or_eq_true, decide_eq_true_eq, Bool.and_eq_true] at accepted
      rcases accepted with rfl | ⟨-, same⟩
      · exact self
      · exact alone c same
    · exact (ih later).right _

/-- Every match takes up that many characters. -/
def Takes (count : Nat) (regex : Regex) : Prop :=
  ∀ start last, regex.Matches start last → last.rest.length + count ≤ start.rest.length

theorem Takes.left (takes : Takes count first) (second : Regex) :
    Takes count (.seq first second) := by
  rintro start last ⟨middle, one, two⟩
  obtain ⟨taken, took⟩ := matches_took two
  have length := took.length
  have long := takes start middle one
  omega

theorem Takes.right (takes : Takes count second) (first : Regex) :
    Takes count (.seq first second) := by
  rintro start last ⟨middle, one, two⟩
  obtain ⟨taken, took⟩ := matches_took one
  have length := took.length
  have long := takes middle last two
  omega

theorem takes_literal : Takes text.toList.length (literal false text) := by
  intro start last matched
  have length := (matches_literal.mp matched).1.length
  omega

theorem search_found {regex : Regex} (found : regex.search passed text = some (before, last)) :
    ∃ start, regex.Matches start last ∧ text = before ++ start.rest := by
  induction text generalizing passed before with
  | nil =>
    obtain ⟨final, ran, same⟩ := Option.map_eq_some_iff.mp found
    cases same
    obtain ⟨middle, matched, ended⟩ := run_matches regex ran
    cases ended
    exact ⟨_, matched, rfl⟩
  | cons c rest ih =>
    rw [Regex.search] at found
    split at found
    · rename_i final ran
      cases found
      obtain ⟨middle, matched, ended⟩ := run_matches regex ran
      cases ended
      exact ⟨_, matched, rfl⟩
    · obtain ⟨⟨skipped, final⟩, later, same⟩ := Option.map_eq_some_iff.mp found
      cases same
      obtain ⟨start, matched, whole⟩ := ih later
      exact ⟨start, matched, by rw [whole, List.cons_append]⟩

theorem replaceAll_unfound (regex : Regex) (unfound : regex.test text = false) :
    regex.replaceAll replacement text = text := by
  rw [Regex.test, Option.isSome_eq_false_iff, Option.isNone_iff_eq_none] at unfound
  rw [Regex.replaceAll, Regex.replaceFrom, unfound]

theorem Needs.unfound {regex : Regex} (needs : Needs p regex) (plain : ∀ c ∈ text, ¬ p c) :
    regex.test text = false := by
  rw [Regex.test, Option.isSome_eq_false_iff, Option.isNone_iff_eq_none]
  cases found : regex.search [] text with
  | none => rfl
  | some skipped =>
    obtain ⟨start, matched, whole⟩ := search_found found
    obtain ⟨c, held, kind⟩ := needs _ _ matched
    exact absurd kind (plain c (whole ▸ List.mem_append_right _ held))

/-- What stands in the place of longer matches makes a text shorter, and adds no characters. -/
theorem replaceFrom_shorter {regex : Regex} (takes : Takes count regex)
    (short : replacement.length < count) : ∀ passed rest : List Char,
    (regex.replaceFrom replacement fuel passed rest).length ≤ rest.length ∧
      (0 < fuel → (regex.search passed rest).isSome →
        (regex.replaceFrom replacement fuel passed rest).length < rest.length) ∧
      ∀ c ∈ regex.replaceFrom replacement fuel passed rest, c ∈ replacement ∨ c ∈ rest := by
  induction fuel with
  | zero => exact fun passed rest => ⟨Nat.le_refl _, nofun, fun c held => .inr held⟩
  | succ more ih =>
    intro passed rest
    rw [Regex.replaceFrom]
    cases found : regex.search passed rest with
    | none => exact ⟨Nat.le_refl _, nofun, fun c held => .inr held⟩
    | some skipped =>
      obtain ⟨before, last⟩ := skipped
      obtain ⟨start, matched, whole⟩ := search_found found
      have long := takes _ _ matched
      obtain ⟨taken, took⟩ := matches_took matched
      have length := congrArg List.length whole
      rw [List.length_append] at length
      have moves : before.length + last.rest.length < rest.length := by omega
      obtain ⟨bound, -, chars⟩ := ih last.passed last.rest
      simp only [moves, if_true, List.length_append]
      refine ⟨by omega, fun _ _ => by omega, fun c held => ?_⟩
      rcases List.mem_append.mp held with shown | later
      · rcases List.mem_append.mp shown with earlier | new
        · exact .inr (whole ▸ List.mem_append_left _ earlier)
        · exact .inl new
      · refine (chars c later).imp_right fun inside => ?_
        rw [whole, took.1]
        exact List.mem_append_right _ (List.mem_append_right _ inside)

theorem replaceAll_shorter {regex : Regex} (takes : Takes count regex)
    (short : replacement.length < count) (text : List Char) :
    (regex.replaceAll replacement text).length ≤ text.length ∧
      ((regex.replaceAll replacement text).length = text.length → regex.test text = false) ∧
      ∀ c ∈ regex.replaceAll replacement text, c ∈ replacement ∨ c ∈ text := by
  obtain ⟨bound, found, chars⟩ := replaceFrom_shorter takes short [] text
  refine ⟨bound, fun same => ?_, chars⟩
  rw [Regex.test, ← Bool.not_eq_true]
  intro some_
  exact absurd same (Nat.ne_of_lt (found (Nat.succ_pos _) some_))

def IsMark (c : Char) : Prop := c = '<' ∨ c = '('

theorem needs_mark (anyCase : Bool) (held : '<' ∈ text.toList ∨ '(' ∈ text.toList) :
    Needs IsMark (literal anyCase text) := by
  rcases held with held | held
  · exact needs_literal held (fun c same => .inl (eq_of_toLower same (by decide))) (.inl rfl)
  · exact needs_literal held (fun c same => .inr (eq_of_toLower same (by decide))) (.inr rfl)

theorem invokeOpen_needs : Needs IsMark invokeOpen := (needs_mark true (by decide)).left _

theorem functionCallsOpen_needs : Needs IsMark functionCallsOpen :=
  (needs_mark true (by decide)).right _

theorem bracketInvokeOpen_needs : Needs IsMark bracketInvokeOpen :=
  (needs_mark true (by decide)).left _

theorem bracketAntmlOpen_needs : Needs IsMark bracketAntmlOpen :=
  (needs_mark true (by decide)).left _

theorem bracketCloseRe_needs : Needs IsMark bracketCloseRe := (needs_mark true (by decide)).left _

theorem anthropicToOpen_needs : Needs IsMark anthropicToOpen := (needs_mark true (by decide)).left _

/-- The replacements before and after those of bare square brackets. -/
theorem markers_needs : ∀ step ∈ markerReplacements.take 13 ++ markerReplacements.drop 16,
    Needs IsMark step.1 := by
  simp only [markerReplacements, List.take, List.drop, List.cons_append, List.nil_append,
    List.forall_mem_cons]
  refine ⟨needs_mark false (by decide), invokeOpen_needs.left _,
    (invokeOpen_needs.left _).right _, (needs_mark true (by decide)).left _,
    functionCallsOpen_needs.left _, functionCallsOpen_needs.left _,
    bracketInvokeOpen_needs.left _, bracketInvokeOpen_needs.left _,
    (needs_mark true (by decide)).left _, (bracketCloseRe_needs.right _).right _,
    bracketAntmlOpen_needs.left _, (bracketAntmlOpen_needs.left _).right _, bracketCloseRe_needs,
    anthropicToOpen_needs.left _, anthropicToOpen_needs.left _,
    (needs_mark true (by decide)).left _, (needs_mark true (by decide)).left _, nofun⟩

theorem steps_unchanged (plain : ∀ c ∈ text, ¬ IsMark c) (steps : List (Regex × String))
    (needs : ∀ step ∈ steps, Needs IsMark step.1) :
    steps.foldl (fun out step => step.1.replaceAll step.2.toList out) text = text := by
  induction steps with
  | nil => rfl
  | cons step rest ih =>
    rw [List.foldl_cons, replaceAll_unfound _ ((needs step List.mem_cons_self).unfound plain)]
    exact ih fun other held => needs other (List.mem_cons_of_mem _ held)

theorem strayBracketSpacesRe_takes : Takes 1 strayBracketSpacesRe := takes_literal.left _

theorem strayBracketPairRe_takes : Takes 2 strayBracketPairRe :=
  (takes_literal.left _).right _

theorem bracketCommandLeakRe_takes : Takes 1 bracketCommandLeakRe :=
  (takes_literal.left _).right _

/-- The replacements of bare square brackets, between those of tags and of phrases. -/
theorem strip_brackets (plain : ∀ c ∈ text, c ≠ '<' ∧ c ≠ '(') :
    markerReplacements.foldl (fun out step => step.1.replaceAll step.2.toList out) text =
      bracketCommandLeakRe.replaceAll []
        (strayBracketPairRe.replaceAll [' '] (strayBracketSpacesRe.replaceAll [] text)) := by
  have unmarked {other : List Char} (from_ : ∀ c ∈ other, c = ' ' ∨ c ∈ text) :
      ∀ c ∈ other, ¬ IsMark c := by
    rintro c held (rfl | rfl) <;> rcases from_ _ held with same | inside
    · cases same
    · exact (plain _ inside).1 rfl
    · cases same
    · exact (plain _ inside).2 rfl
  have parts : markerReplacements = markerReplacements.take 13 ++
      ([(strayBracketSpacesRe, ""), (strayBracketPairRe, " "), (bracketCommandLeakRe, "")] ++
        markerReplacements.drop 16) := rfl
  have chars {c : Char} (held : c ∈ bracketCommandLeakRe.replaceAll []
      (strayBracketPairRe.replaceAll [' '] (strayBracketSpacesRe.replaceAll [] text))) :
      c = ' ' ∨ c ∈ text := by
    have third := (replaceAll_shorter bracketCommandLeakRe_takes (by decide) _).2.2 c held
    have second := (replaceAll_shorter strayBracketPairRe_takes (by decide) _).2.2 c
      (third.resolve_left nofun)
    refine second.imp List.mem_singleton.mp fun inside => ?_
    exact ((replaceAll_shorter strayBracketSpacesRe_takes (by decide) _).2.2 c inside).resolve_left
      nofun
  rw [parts, List.foldl_append, List.foldl_append,
    steps_unchanged (unmarked fun c held => .inr held) _ fun step held =>
      markers_needs step (List.mem_append_left _ held)]
  exact steps_unchanged (unmarked fun c => chars) _ fun step held =>
    markers_needs step (List.mem_append_right _ held)

/-- A text without tags and phrases is left as it is if and only if it holds no marker, or none of
the bare brackets that are taken for remains of one. -/
theorem plain_unchanged_iff (text : List Char) (plain : ∀ c ∈ text, c ≠ '<' ∧ c ≠ '(') :
    stripInlineToolCallMarkers text = text ↔ hasMarkerRe.test text = false ∨
      (strayBracketSpacesRe.test text = false ∧ strayBracketPairRe.test text = false ∧
        bracketCommandLeakRe.test text = false) := by
  rw [stripInlineToolCallMarkers]
  cases marked : hasMarkerRe.test text with
  | false => simp
  | true =>
    simp only [if_true, Bool.true_eq_false, false_or]
    rw [strip_brackets plain]
    constructor
    · intro same
      have lengths := congrArg List.length same
      have one := replaceAll_shorter strayBracketSpacesRe_takes (show [].length < 1 by decide) text
      have two := replaceAll_shorter strayBracketPairRe_takes (show [' '].length < 2 by decide)
        (strayBracketSpacesRe.replaceAll [] text)
      have three := replaceAll_shorter bracketCommandLeakRe_takes (show [].length < 1 by decide)
        (strayBracketPairRe.replaceAll [' '] (strayBracketSpacesRe.replaceAll [] text))
      have spaces := one.2.1 (by omega)
      rw [replaceAll_unfound _ spaces] at lengths two three
      have pair := two.2.1 (by omega)
      rw [replaceAll_unfound _ pair] at lengths three
      exact ⟨spaces, pair, three.2.1 (by omega)⟩
    · rintro ⟨spaces, pair, leak⟩
      rw [replaceAll_unfound _ spaces, replaceAll_unfound _ pair, replaceAll_unfound _ leak]

theorem plain_unchanged_list :
    stripInlineToolCallMarkers "- [x] a[0][1]".toList = "- [x] a[0][1]".toList :=
  (plain_unchanged_iff "- [x] a[0][1]".toList (by decide)).mpr (.inr (by decide))

/-- The neighbour of two indices is taken for a marker, and then an empty list for a remain of
one. -/
theorem empty_list_removed : (∀ c ∈ "a[0][1] = []".toList, c ≠ '<' ∧ c ≠ '(') ∧
    stripInlineToolCallMarkers "a[0][1] = []".toList = "a[0][1] = ".toList := by
  decide

end QiongQi.UntaggedTexts
