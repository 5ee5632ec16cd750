import Mathlib.Data.List.Sort
import QiongQi.FuzzyTexts
import QiongQi.Splices

/-! `applyEditsToNormalizedContent` of `adapter-fs/src/edit-diff.ts`: edits of a file's text, each
found where its old text stands. When one of them is found only by a fuzzy match, all of them are
made in the normal form of the text. -/
namespace QiongQi.EditDiffs
open FuzzyTexts Splices
open List hiding after head tail

structure Edit where
  oldText : List Char
  newText : List Char
  deriving DecidableEq

/-- What `fuzzyFindText` says of a text that it has found. -/
structure FuzzyMatchResult where
  index : Nat
  matchLength : Nat
  usedFuzzyMatch : Bool
  contentForReplacement : List Char
  deriving DecidableEq

structure MatchedEdit where
  editIndex : Nat
  matchIndex : Nat
  matchLength : Nat
  newText : List Char
  deriving DecidableEq

structure AppliedEditsResult where
  baseContent : List Char
  newContent : List Char
  deriving DecidableEq

def getNotFoundError (path : String) (editIndex totalEdits : Nat) : String :=
  if totalEdits = 1 then
    s!"Could not find the exact text in {path}. " ++
      "The old text must match exactly including all whitespace and newlines."
  else
    s!"Could not find edits[{editIndex}] in {path}. " ++
      "The oldText must match exactly including all whitespace and newlines."

def getDuplicateError (path : String) (editIndex totalEdits : Nat) (occurrences : Int) : String :=
  if totalEdits = 1 then
    s!"Found {occurrences} occurrences of the text in {path}. " ++
      "The text must be unique. Please provide more context to make it unique."
  else
    s!"Found {occurrences} occurrences of edits[{editIndex}] in {path}. " ++
      "Each oldText must be unique. Please provide more context to make it unique."

def getEmptyOldTextError (path : String) (editIndex totalEdits : Nat) : String :=
  if totalEdits = 1 then s!"oldText must not be empty in {path}."
  else s!"edits[{editIndex}].oldText must not be empty in {path}."

def getNoChangeError (path : String) (totalEdits : Nat) : String :=
  if totalEdits = 1 then
    s!"No changes made to {path}. The replacement produced identical content. " ++
      "This might indicate an issue with special characters or the text not existing as expected."
  else s!"No changes made to {path}. The replacements produced identical content."

def overlapError (path : String) (previous current : MatchedEdit) : String :=
  s!"edits[{previous.editIndex}] and edits[{current.editIndex}] overlap in {path}. " ++
    "Merge them into one edit or target disjoint regions."

section
variable (nfkc : List Char → List Char)

/-- None when the text is not found. -/
def fuzzyFindText (content oldText : List Char) : Option FuzzyMatchResult :=
  match indexOf oldText content with
  | some exactIndex => some {
      index := exactIndex, matchLength := oldText.length
      usedFuzzyMatch := false, contentForReplacement := content }
  | none =>
    let fuzzyContent := normalizeForFuzzyMatch nfkc content
    let fuzzyOldText := normalizeForFuzzyMatch nfkc oldText
    (indexOf fuzzyOldText fuzzyContent).map fun fuzzyIndex => {
      index := fuzzyIndex, matchLength := fuzzyOldText.length
      usedFuzzyMatch := true, contentForReplacement := fuzzyContent }

/-- How often the needle is met from left to right; the count is of characters still to be
skipped, those of the occurrence met last. -/
def occurrencesFrom (needle : List Char) : Nat → List Char → Nat
  | _, [] => 0
  | skipped + 1, _ :: rest => occurrencesFrom needle skipped rest
  | 0, c :: rest =>
    if needle.isPrefixOf (c :: rest) then occurrencesFrom needle (needle.length - 1) rest + 1
    else occurrencesFrom needle 0 rest

example : occurrencesFrom ['a', 'a'] 0 ['a', 'a', 'a'] = 1 := by simp [occurrencesFrom]

/-- `text.split(separator).length`: an empty separator splits into the code units of UTF-16. -/
def splitLength (text separator : List Char) : Nat :=
  if separator.isEmpty then (text.map fun c => if c.toNat < 0x10000 then 1 else 2).sum
  else occurrencesFrom separator 0 text + 1

def countOccurrences (content oldText : List Char) : Int :=
  splitLength (normalizeForFuzzyMatch nfkc content) (normalizeForFuzzyMatch nfkc oldText) - 1

def normalizedEdits (edits : List Edit) : List Edit :=
  edits.map fun edit =>
    { oldText := normalizeToLF edit.oldText, newText := normalizeToLF edit.newText }

/-- `baseContent`: the normal form as soon as one edit is found by a fuzzy match. -/
def baseContentOf (content : List Char) (edits : List Edit) : List Char :=
  let initialMatches := edits.map fun edit => fuzzyFindText nfkc content edit.oldText
  if initialMatches.any fun found => (found.map (·.usedFuzzyMatch)).getD false then
    normalizeForFuzzyMatch nfkc content
  else content

def matchedEdit (edit : Edit) (index : Nat) (found : FuzzyMatchResult) : MatchedEdit :=
  { editIndex := index, matchIndex := found.index, matchLength := found.matchLength
    newText := edit.newText }

def matchEdits (baseContent : List Char) (path : String) (totalEdits : Nat) :
    List (Edit × Nat) → Except String (List MatchedEdit)
  | [] => .ok []
  | (edit, index) :: rest =>
    match fuzzyFindText nfkc baseContent edit.oldText with
    | none => .error (getNotFoundError path index totalEdits)
    | some found =>
      let occurrences := countOccurrences nfkc baseContent edit.oldText
      if occurrences > 1 then .error (getDuplicateError path index totalEdits occurrences)
      else do
        let later ← matchEdits baseContent path totalEdits rest
        .ok (matchedEdit edit index found :: later)

/-- `matchedEdits.sort((a, b) => a.matchIndex - b.matchIndex)`. -/
def sortMatched (matchedEdits : List MatchedEdit) : List MatchedEdit :=
  matchedEdits.insertionSort fun left right => left.matchIndex ≤ right.matchIndex

/-- The first two neighbours that overlap. -/
def firstOverlap : List MatchedEdit → Option (MatchedEdit × MatchedEdit)
  | previous :: current :: rest =>
    if previous.matchIndex + previous.matchLength > current.matchIndex then
      some (previous, current)
    else firstOverlap (current :: rest)
  | _ => none

def MatchedEdit.replaceIn (edit : MatchedEdit) (newContent : List Char) : List Char :=
  newContent.take edit.matchIndex ++ edit.newText ++ newContent.drop (edit.matchIndex + edit.matchLength)

def applyEditsToNormalizedContent (normalizedContent : List Char) (edits : List Edit)
    (path : String) : Except String AppliedEditsResult :=
  let normalized := normalizedEdits edits
  match normalized.findIdx? (·.oldText.isEmpty) with
  | some index => .error (getEmptyOldTextError path index normalized.length)
  | none =>
    let baseContent := baseContentOf nfkc normalizedContent normalized
    match matchEdits nfkc baseContent path normalized.length normalized.zipIdx with
    | .error message => .error message
    | .ok matchedEdits =>
      match firstOverlap (sortMatched matchedEdits) with
      | some (previous, current) => .error (overlapError path previous current)
      | none =>
        -- from the last match to the first
        let newContent := (sortMatched matchedEdits).foldr MatchedEdit.replaceIn baseContent
        if baseContent = newContent then .error (getNoChangeError path normalized.length)
        else .ok { baseContent, newContent }

end

/-- The stretch of the content that the edit replaces. -/
def MatchedEdit.patch (edit : MatchedEdit) : Patch Char :=
  { start := edit.matchIndex, length := edit.matchLength, text := edit.newText }

theorem replaceIn_eq (edit : MatchedEdit) :
    edit.replaceIn newContent = edit.patch.splice newContent := rfl

theorem foldr_replaceIn (matched : List MatchedEdit) (content : List Char) :
    matched.foldr MatchedEdit.replaceIn content
      = spliceAll (matched.map MatchedEdit.patch) content := by
  induction matched with
  | nil => rfl
  | cons edit rest ih => rw [foldr_cons, ih, replaceIn_eq, map_cons]; rfl

theorem firstOverlap_none (none_ : firstOverlap matched = none) :
    (matched.map MatchedEdit.patch).IsChain fun left right => left.stop ≤ right.start := by
  induction matched with
  | nil => exact .nil
  | cons previous rest ih =>
    cases rest with
    | nil => exact .singleton _
    | cons current others =>
      simp only [firstOverlap] at none_
      split at none_
      · cases none_
      · next apart => exact .cons_cons (Nat.not_lt.mp apart) (ih none_)

section
variable (nfkc : List Char → List Char)

/-- Where each edit is found in a content, from left to right. -/
def regionsIn (content : List Char) (edits : List Edit) : List MatchedEdit :=
  sortMatched (edits.zipIdx.filterMap fun (edit, index) =>
    (fuzzyFindText nfkc content edit.oldText).map (matchedEdit edit index))

end

section
variable {nfkc : List Char → List Char}
variable {content baseContent newContent : List Char} {edits : List Edit}

theorem fuzzyFindText_some (met : fuzzyFindText nfkc content oldText = some found) :
    (found.index + found.matchLength ≤ found.contentForReplacement.length ∧
      (found.contentForReplacement.drop found.index).take found.matchLength =
        if found.usedFuzzyMatch then normalizeForFuzzyMatch nfkc oldText else oldText) ∧
    found.contentForReplacement =
      if found.usedFuzzyMatch then normalizeForFuzzyMatch nfkc content else content := by
  simp only [fuzzyFindText] at met
  split at met
  · next index exact_ =>
    obtain rfl := Option.some.inj met
    exact ⟨indexOf_some exact_, rfl⟩
  · obtain ⟨index, fuzzy, rfl⟩ := Option.map_eq_some_iff.mp met
    exact ⟨indexOf_some fuzzy, rfl⟩

/-- An exact match comes before every fuzzy one. -/
theorem fuzzyFindText_exact {oldText : List Char} (held : oldText <:+: content) :
    ∃ found, fuzzyFindText nfkc content oldText = some found ∧ found.usedFuzzyMatch = false := by
  obtain ⟨index, met⟩ := Option.isSome_iff_exists.mp (indexOf_isSome.mpr held)
  exact ⟨_, by simp only [fuzzyFindText, met]; rfl, rfl⟩

/-- The matched edits are those of the edits that are found, and every edit is. -/
theorem matchEdits_ok (done : matchEdits nfkc content path total pairs = .ok matched) :
    (matched = pairs.filterMap fun (edit, index) =>
      (fuzzyFindText nfkc content edit.oldText).map (matchedEdit edit index)) ∧
    matched.map (·.editIndex) = pairs.map (·.2) := by
  induction pairs generalizing matched with
  | nil => cases done; exact ⟨rfl, rfl⟩
  | cons pair rest ih =>
    obtain ⟨edit, index⟩ := pair
    simp only [matchEdits] at done
    split at done
    · cases done
    · next found met =>
      split at done
      · cases done
      · cases later : matchEdits nfkc content path total rest with
        | error message => rw [later] at done; cases done
        | ok others =>
          rw [later] at done
          obtain rfl : _ = matched := Except.ok.inj done
          obtain ⟨same, indices⟩ := ih later
          exact ⟨by simp [met, ← same], by simp [indices, matchedEdit]⟩

/-- What an accepted list of edits says of the content. -/
structure Accepted (nfkc : List Char → List Char) (content : List Char) (edits : List Edit)
    (baseContent newContent : List Char) : Prop where
  base : baseContent = baseContentOf nfkc content (normalizedEdits edits)
  indices : ((regionsIn nfkc baseContent (normalizedEdits edits)).map (·.editIndex)).Perm
    (List.range edits.length)
  neighbours : firstOverlap (regionsIn nfkc baseContent (normalizedEdits edits)) = none
  new : newContent = spliceAll
    ((regionsIn nfkc baseContent (normalizedEdits edits)).map MatchedEdit.patch) baseContent

theorem accepted_of_ok
    (applied : applyEditsToNormalizedContent nfkc content edits path = .ok result) :
    Accepted nfkc content edits result.baseContent result.newContent := by
  simp only [applyEditsToNormalizedContent] at applied
  split at applied
  · cases applied
  split at applied
  · cases applied
  next matched done =>
  obtain ⟨same, indices⟩ := matchEdits_ok done
  have regions : regionsIn nfkc (baseContentOf nfkc content (normalizedEdits edits))
      (normalizedEdits edits) = sortMatched matched := by rw [regionsIn, ← same]
  split at applied
  · cases applied
  next none_ =>
  split at applied
  · cases applied
  obtain rfl := Except.ok.inj applied
  refine ⟨rfl, ?_, by rw [regions, none_], by rw [regions, ← foldr_replaceIn]⟩
  rw [regions]
  have sorted : (sortMatched matched).Perm matched := perm_insertionSort _ matched
  refine (sorted.map _).trans ?_
  rw [indices, zipIdx_map_snd, normalizedEdits, length_map, range_eq_range']

theorem region_found (held : region ∈ regionsIn nfkc content edits) :
    ∃ edit found, edits[region.editIndex]? = some edit ∧
      fuzzyFindText nfkc content edit.oldText = some found ∧
      region = matchedEdit edit region.editIndex found := by
  have unsorted := (perm_insertionSort _ _).mem_iff.mp held
  obtain ⟨⟨edit, index⟩, listed, met⟩ := mem_filterMap.mp unsorted
  obtain ⟨found, here, rfl⟩ := Option.map_eq_some_iff.mp met
  exact ⟨edit, found, mem_zipIdx_iff_getElem?.mp listed, here, rfl⟩

/-- Either no edit is found by a fuzzy match alone, or the edits are made in the normal form. -/
theorem baseContentOf_cases : (baseContentOf nfkc content edits = content ∧ ∀ edit ∈ edits, ∀ found,
      fuzzyFindText nfkc content edit.oldText = some found → found.usedFuzzyMatch = false) ∨
    baseContentOf nfkc content edits = normalizeForFuzzyMatch nfkc content := by
  simp only [baseContentOf]
  split
  · exact .inr rfl
  · next exact_ =>
    refine .inl ⟨rfl, fun edit listed found met => ?_⟩
    simp only [any_map, any_eq_true, Function.comp_apply, not_exists, not_and, Bool.not_eq_true] at exact_
    simpa [met] using exact_ edit listed

theorem baseContentOf_exact (exact_ : ∀ edit ∈ edits, edit.oldText <:+: content) :
    baseContentOf nfkc content edits = content := by
  simp only [baseContentOf, any_map]
  rw [if_neg]
  simp only [any_eq_true, Function.comp_apply, not_exists, not_and, Bool.not_eq_true]
  intro edit listed
  obtain ⟨found, met, plain_⟩ := @fuzzyFindText_exact nfkc _ _ (exact_ edit listed)
  rw [met, Option.map_some, Option.getD_some, plain_]

/-- The content in which the edits are made is the one in which they are found. -/
theorem found_in_base (unicode : IsNfkc nfkc) (listed : edit ∈ edits)
    (met : fuzzyFindText nfkc (baseContentOf nfkc content edits) edit.oldText = some found) :
    found.contentForReplacement = baseContentOf nfkc content edits := by
  have place := (fuzzyFindText_some met).2
  rcases baseContentOf_cases with ⟨same, exact_⟩ | normal
  · rw [same] at met place ⊢
    simpa [exact_ edit listed found met] using place
  · rw [normal, normalizeForFuzzyMatch_idem unicode, ite_self] at place
    rw [normal, place]

/-- A text that is read as the old text: it is the old text, or it has its normal form. -/
def Reads (nfkc : List Char → List Char) (text oldText : List Char) : Prop :=
  text = oldText ∨ normalizeForFuzzyMatch nfkc text = normalizeForFuzzyMatch nfkc oldText

/-- The cut takes out a text that is read as the old text of the region's edit, and puts the
edit's new text there. -/
def Covers (nfkc : List Char → List Char) (edits : List Edit) (cut : Cut Char)
    (region : MatchedEdit) : Prop :=
  ∃ edit, edits[region.editIndex]? = some edit ∧ Reads nfkc cut.old edit.oldText ∧ cut.new = edit.newText

/-- The regions lie in the base content one behind the other, and the cuts that they make there
cover their edits. -/
theorem regions_cut (unicode : IsNfkc nfkc) (neighbours : firstOverlap
      (regionsIn nfkc (baseContentOf nfkc content edits) edits) = none) :
    let baseContent := baseContentOf nfkc content edits
    let patches := (regionsIn nfkc baseContent edits).map MatchedEdit.patch
    Apart 0 patches baseContent.length ∧ List.Forall₂ (Covers nfkc edits) (cutsOf baseContent 0 patches)
        (regionsIn nfkc baseContent edits) := by
  intro baseContent patches
  have spots : ∀ region ∈ regionsIn nfkc baseContent edits,
      ∃ (edit : Edit) (fuzzy : Bool), edits[region.editIndex]? = some edit ∧
        region.newText = edit.newText ∧ region.patch.stop ≤ baseContent.length ∧
        (baseContent.drop region.matchIndex).take region.matchLength =
          if fuzzy then normalizeForFuzzyMatch nfkc edit.oldText else edit.oldText := by
    intro region held
    obtain ⟨edit, found, listed, met, same⟩ := region_found held
    have place := (fuzzyFindText_some met).1
    rw [found_in_base unicode (mem_of_getElem? listed) met] at place
    rw [same]
    exact ⟨edit, found.usedFuzzyMatch, listed, rfl, place⟩
  constructor
  · refine apart_of_neighbours (by simp) (Nat.zero_le _) ?_ (firstOverlap_none neighbours)
    intro patch listed
    obtain ⟨region, held, rfl⟩ := mem_map.mp listed
    obtain ⟨_, _, _, _, inside, _⟩ := spots region held
    exact inside
  · have cuts := forall₂_map_right_iff.mp (cutsOf_forall₂ baseContent 0 patches)
    refine (forall₂_iff_zip.mpr ⟨cuts.length_eq, fun zipped => ?_⟩)
    obtain ⟨new, old⟩ := (forall₂_iff_zip.mp cuts).2 zipped
    obtain ⟨edit, fuzzy, listed, text, _, stretch⟩ := spots _ (of_mem_zip zipped).2
    refine ⟨edit, listed, ?_, new.trans text⟩
    rw [old.trans stretch]
    cases fuzzy
    · exact .inl rfl
    · exact .inr (normalizeForFuzzyMatch_idem unicode _)

/-- Where the edits of a content are found: in its base content. -/
def matchedRegions (nfkc : List Char → List Char) (content : List Char) (edits : List Edit) :
    List MatchedEdit :=
  regionsIn nfkc (baseContentOf nfkc content (normalizedEdits edits)) (normalizedEdits edits)

def matchedPatches (nfkc : List Char → List Char) (content : List Char) (edits : List Edit) :
    List (Patch Char) :=
  (matchedRegions nfkc content edits).map MatchedEdit.patch

/-- Each edit is found once, and the new content is the content with a text that is read as the
old text of each edit replaced by its new text: as many characters apart as the regions in which
the edits were found, with every character between them as it was. -/
def OutsideUnchanged (nfkc : List Char → List Char) (content : List Char) (edits : List Edit)
    (newContent : List Char) : Prop :=
  ((matchedRegions nfkc content edits).map (·.editIndex)).Perm (List.range edits.length) ∧
  ∃ (cuts : List (Cut Char)) (tail : List Char), before cuts tail = content ∧ after cuts tail = newContent ∧
    List.Forall₂ (Covers nfkc (normalizedEdits edits)) cuts (matchedRegions nfkc content edits) ∧
    cuts.map (·.gap.length) = distances 0 (matchedPatches nfkc content edits)

/-- What stands between the regions in the normal form of the content stands in the content
itself, around texts that are read as the old texts: the normal form differs from the content
inside the regions alone. -/
def SameOutside (nfkc : List Char → List Char) (content : List Char) (edits : List Edit) : Prop :=
  let copy := baseContentOf nfkc content (normalizedEdits edits)
  let patches := matchedPatches nfkc content edits
  ∃ cuts : List (Cut Char), before cuts (tailOf copy 0 patches) = content ∧
    List.Forall₂ (Covers nfkc (normalizedEdits edits)) cuts (matchedRegions nfkc content edits) ∧
    cuts.map (·.gap) = (cutsOf copy 0 patches).map (·.gap)

theorem covers_news (first : List.Forall₂ (Covers nfkc edits) left regions)
    (second : List.Forall₂ (Covers nfkc edits) right regions) :
    List.Forall₂ (fun cut other => cut.new = other.new) left right := by
  induction first generalizing right with
  | nil => cases second; exact .nil
  | cons head _ ih =>
    cases second with
    | cons other rest =>
      obtain ⟨edit, listed, _, text⟩ := head
      obtain ⟨same, again, _, copy⟩ := other
      obtain rfl : edit = same := Option.some.inj (listed.symm.trans again)
      exact .cons (text.trans copy.symm) (ih rest)

section
variable (unicode : IsNfkc nfkc) (accepted : Accepted nfkc content edits baseContent newContent)
include unicode accepted

/-- The base content and the new content, cut at the regions. -/
theorem accepted_cuts : let cuts := cutsOf baseContent 0 (matchedPatches nfkc content edits)
    let tail := tailOf baseContent 0 (matchedPatches nfkc content edits)
    before cuts tail = baseContent ∧ after cuts tail = newContent ∧
      List.Forall₂ (Covers nfkc (normalizedEdits edits)) cuts (matchedRegions nfkc content edits) ∧
      cuts.map (·.gap.length) = distances 0 (matchedPatches nfkc content edits) := by
  obtain ⟨rfl, -, neighbours, rfl⟩ := accepted
  obtain ⟨apart, covered⟩ := regions_cut unicode neighbours
  exact ⟨before_cutsOf apart, (spliceAll_eq apart).symm, covered, gap_lengths apart⟩

theorem sameOutside_of_base (same : baseContentOf nfkc content (normalizedEdits edits) = content) :
    SameOutside nfkc content edits := by
  obtain ⟨whole, _, covered, _⟩ := accepted_cuts unicode accepted
  rw [accepted.base, same] at whole covered
  simp only [SameOutside, same]
  exact ⟨_, whole, covered, rfl⟩

theorem outsideUnchanged_of_same (outside : SameOutside nfkc content edits) :
    OutsideUnchanged nfkc content edits newContent := by
  obtain ⟨_, new, covered, apart⟩ := accepted_cuts unicode accepted
  obtain ⟨cuts, old, covers, gaps⟩ := outside
  have indices := accepted.indices
  rw [accepted.base] at new covered apart indices
  refine ⟨indices, cuts, _, old, ?_, covers, ?_⟩
  · rw [← new]
    exact after_congr _ (covers_news covers covered) gaps
  · have lengths := congrArg (List.map List.length) gaps
    simpa only [map_map, Function.comp_def, apart] using lengths

theorem same_of_outsideUnchanged (unchanged : OutsideUnchanged nfkc content edits newContent) :
    SameOutside nfkc content edits := by
  obtain ⟨_, new, covered, apart⟩ := accepted_cuts unicode accepted
  obtain ⟨-, cuts, tail, old, replaced, covers, lengths⟩ := unchanged
  rw [accepted.base] at new covered apart
  obtain ⟨gaps, rfl⟩ := gaps_of_after (covers_news covers covered)
    (lengths.trans apart.symm) (replaced.trans new.symm)
  exact ⟨cuts, old, covers, gaps⟩

end

/-- The characters outside the regions stay as they are if and only if the normal form that a
fuzzy match works on has them as the content has them. -/
theorem outside_unchanged_iff (unicode : IsNfkc nfkc) {content : List Char} {edits : List Edit}
    {path : String} {result : AppliedEditsResult}
    (applied : applyEditsToNormalizedContent nfkc content edits path = .ok result) :
    OutsideUnchanged nfkc content edits result.newContent ↔
      (∀ edit ∈ edits, normalizeToLF edit.oldText <:+: content) ∨
      normalizeForFuzzyMatch nfkc content = content ∨ SameOutside nfkc content edits := by
  have accepted := accepted_of_ok applied
  constructor
  · exact fun unchanged => .inr (.inr (same_of_outsideUnchanged unicode accepted unchanged))
  · intro same
    refine outsideUnchanged_of_same unicode accepted ?_
    rcases same with exact_ | normal | outside
    · refine sameOutside_of_base unicode accepted (baseContentOf_exact fun edit listed => ?_)
      obtain ⟨given_, held, rfl⟩ := mem_map.mp listed
      exact exact_ given_ held
    · refine sameOutside_of_base unicode accepted ?_
      rcases baseContentOf_cases with ⟨same, _⟩ | copy
      · exact same
      · exact copy.trans normal
    · exact outside

/-- Quotes that are told apart only by their form, in a text that is otherwise in the normal
form. -/
theorem outside_unchanged_quotes :
    OutsideUnchanged id "say “x” now".toList [⟨"\"x\"".toList, "y".toList⟩] "say y now".toList := by
  have regions : matchedRegions id "say “x” now".toList [⟨"\"x\"".toList, "y".toList⟩]
      = [⟨0, 4, 3, "y".toList⟩] := by decide
  have applied : applyEditsToNormalizedContent id "say “x” now".toList
      [⟨"\"x\"".toList, "y".toList⟩] "notes"
      = .ok ⟨"say \"x\" now".toList, "say y now".toList⟩ := by decide
  refine (outside_unchanged_iff isNfkc_id applied).mpr (.inr (.inr ?_))
  refine ⟨[⟨"say ".toList, "“x”".toList, "y".toList⟩], ?_, ?_, ?_⟩
  · decide
  · rw [regions]
    exact .cons ⟨⟨"\"x\"".toList, "y".toList⟩, rfl, .inr (by decide), rfl⟩ .nil
  · decide

/-- An edit of the second line takes the blanks from the end of the first. -/
theorem outside_changed_blanks : ∃ result, applyEditsToNormalizedContent id "a  \n“x”\n".toList
        [⟨"\"x\"".toList, "y".toList⟩] "notes" = .ok result ∧
      ¬ OutsideUnchanged id "a  \n“x”\n".toList [⟨"\"x\"".toList, "y".toList⟩]
        result.newContent := by
  refine ⟨⟨"a\n\"x\"\n".toList, "a\ny\n".toList⟩, by decide, ?_⟩
  rintro ⟨-, cuts, tail, old, new, covers, lengths⟩
  have regions : matchedRegions id "a  \n“x”\n".toList [⟨"\"x\"".toList, "y".toList⟩]
      = [⟨0, 2, 3, "y".toList⟩] := by decide
  rw [matchedPatches, regions] at lengths
  cases covers with
  | @cons cut _ _ _ _ rest =>
    cases rest
    have two : cut.gap.length = 2 := by simpa [distances, MatchedEdit.patch] using lengths
    rw [before_cons] at old
    rw [after_cons] at new
    have kept : cut.gap = "a ".toList := by
      have front := congrArg (List.take 2) old
      rwa [take_left' two] at front
    have written : cut.gap = "a\n".toList := by
      have front := congrArg (List.take 2) new
      rwa [take_left' two] at front
    exact absurd (kept.symm.trans written) (by decide)

end
end QiongQi.EditDiffs
