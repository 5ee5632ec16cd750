import Mathlib.Data.List.DropRight
import QiongQi.RuntimeContracts
import QiongQi.TextBytes

/-! The texts of `adapter-fs/src/edit-diff.ts`: line endings, the form in which a fuzzy match
compares texts, and where a text is found. `nfkc` stands for `text.normalize('NFKC')`. -/
namespace QiongQi.FuzzyTexts
open RuntimeContracts TextBytes List

/-- `text.replace(/\r\n/g, '\n')`. -/
def replaceCrLf : List Char → List Char
  | [] => []
  | [c] => [c]
  | c :: next :: rest =>
    if c = '\r' ∧ next = '\n' then '\n' :: replaceCrLf rest else c :: replaceCrLf (next :: rest)

def normalizeToLF (text : List Char) : List Char :=
  (replaceCrLf text).map fun c => if c = '\r' then '\n' else c

def trimEnd (line : List Char) : List Char := line.rdropWhile isJsSpace

def plainApostrophe (c : Char) : Char :=
  if 0x2018 ≤ c.toNat ∧ c.toNat ≤ 0x201b then Char.ofNat 0x27 else c

def plainQuote (c : Char) : Char :=
  if 0x201c ≤ c.toNat ∧ c.toNat ≤ 0x201f then Char.ofNat 0x22 else c

def plainHyphen (c : Char) : Char :=
  if (0x2010 ≤ c.toNat ∧ c.toNat ≤ 0x2015) ∨ c.toNat = 0x2212 then '-' else c

def plainSpace (c : Char) : Char :=
  if c.toNat = 0xa0 ∨ (0x2002 ≤ c.toNat ∧ c.toNat ≤ 0x200a) ∨ c.toNat = 0x202f ∨
      c.toNat = 0x205f ∨ c.toNat = 0x3000 then ' ' else c

/-- `text.split('\n').map((line) => line.trimEnd()).join('\n')`. -/
def trimLines (text : List Char) : List Char := joinLines ((text.splitOn '\n').map trimEnd)

def normalizeForFuzzyMatch (nfkc : List Char → List Char) (text : List Char) : List Char :=
  ((((trimLines (nfkc text)).map plainApostrophe).map plainQuote).map plainHyphen).map plainSpace

def plain (c : Char) : Char := plainSpace (plainHyphen (plainQuote (plainApostrophe c)))

theorem normalizeForFuzzyMatch_eq :
    normalizeForFuzzyMatch nfkc text = (trimLines (nfkc text)).map plain := by
  simp only [normalizeForFuzzyMatch, map_map]
  rfl

/-- The line feed, and the characters that the normal form writes for others. -/
def marks : List Char := ['\n', Char.ofNat 0x27, Char.ofNat 0x22, '-', ' ']

theorem plain_cases (c : Char) : plain c = c ∨ plain c ∈ marks.tail ∧ (isJsSpace (plain c) = true →
    isJsSpace c = true) := by
  unfold plain plainApostrophe
  split
  · exact .inr ⟨by decide, fun space => absurd space (by decide)⟩
  unfold plainQuote
  split
  · exact .inr ⟨by decide, fun space => absurd space (by decide)⟩
  unfold plainHyphen
  split
  · exact .inr ⟨by decide, fun space => absurd space (by decide)⟩
  unfold plainSpace
  split
  · next space =>
    refine .inr ⟨by decide, fun _ => ?_⟩
    simp only [isJsSpace, Bool.or_eq_true, Bool.and_eq_true, decide_eq_true_eq]
    omega
  · exact .inl rfl

theorem plain_mark (mark : c ∈ marks) : plain c = c := by
  simp only [marks, mem_cons, not_mem_nil, or_false] at mark
  rcases mark with rfl | rfl | rfl | rfl | rfl <;> decide

theorem plain_plain : plain (plain c) = plain c := by
  rcases plain_cases c with same | ⟨mark, _⟩
  · rw [same, same]
  · exact plain_mark (mem_of_mem_tail mark)

theorem plain_newline : plain c = '\n' ↔ c = '\n' := by
  constructor
  · intro shown
    rcases plain_cases c with same | ⟨mark, _⟩
    · rw [← same, shown]
    · rw [shown] at mark
      exact absurd mark (by decide)
  · rintro rfl
    decide

theorem isJsSpace_of_plain (space : isJsSpace (plain c) = true) : isJsSpace c = true := by
  rcases plain_cases c with same | ⟨_, blank⟩
  · rwa [same] at space
  · exact blank space

/-- A text is one line, or a line and the text behind its line feed. -/
theorem byLines {P : List Char → Prop} (line : ∀ line, '\n' ∉ line → P line)
    (more : ∀ line rest, '\n' ∉ line → P rest → P (line ++ '\n' :: rest)) (text : List Char) :
    P text := by
  induction size : text.length using Nat.strong_induction_on generalizing text with
  | _ size ih =>
    by_cases inside : '\n' ∈ text
    · obtain ⟨front, rest, rfl, outside⟩ := eq_append_cons_of_mem inside
      refine more front rest outside (ih rest.length ?_ rest rfl)
      simp only [length_append, length_cons] at size
      omega
    · exact line text inside

theorem trimLines_line (inside : '\n' ∉ line) : trimLines line = trimEnd line := by
  have alone : line.splitOn '\n' = [line] :=
    splitOnP_eq_singleton fun c held => by
      simpa using fun same : c = '\n' => inside (same ▸ held)
  rw [trimLines, alone, map_singleton, joinLines_singleton]

theorem trimLines_more (inside : '\n' ∉ line) :
    trimLines (line ++ '\n' :: rest) = trimEnd line ++ '\n' :: trimLines rest := by
  have cut : (line ++ '\n' :: rest).splitOn '\n' = line :: rest.splitOn '\n' :=
    splitOnP_append_cons_of_forall_mem
      (fun c held => by simpa using fun same : c = '\n' => inside (same ▸ held)) '\n' (by simp) rest
  rw [trimLines, cut, map_cons, joinLines_cons (by simp), trimLines]

theorem mem_of_trimEnd (held : c ∈ trimEnd line) : c ∈ line :=
  (List.rdropWhile_prefix isJsSpace line).subset held

theorem trimEnd_plain : trimEnd ((trimEnd line).map plain) = (trimEnd line).map plain := by
  refine rdropWhile_eq_self_iff.mpr fun some_ space => ?_
  have held : trimEnd line ≠ [] := fun none_ => some_ (by simp [none_])
  rw [getLast_map] at space
  exact rdropWhile_last_not isJsSpace line held (isJsSpace_of_plain space)

theorem trimLines_plain : trimLines ((trimLines text).map plain) = (trimLines text).map plain := by
  have outside : ∀ line : List Char, '\n' ∉ line → '\n' ∉ (trimEnd line).map plain := by
    intro line inside held
    obtain ⟨c, kept, shown⟩ := mem_map.mp held
    exact inside (plain_newline.mp shown ▸ mem_of_trimEnd kept)
  induction text using byLines with
  | line line inside =>
    rw [trimLines_line inside, trimLines_line (outside line inside), trimEnd_plain]
  | more line rest inside ih =>
    rw [trimLines_more inside, map_append, map_cons, plain_newline.mpr rfl,
      trimLines_more (outside line inside), trimEnd_plain, ih]

/-- What the Unicode standard says of NFKC: it leaves its own results alone and every part of
them, and no character composes with one of the marks. -/
structure IsNfkc (nfkc : List Char → List Char) : Prop where
  idempotent : ∀ text, nfkc (nfkc text) = nfkc text
  substring : ∀ front text back, nfkc (front ++ text ++ back) = front ++ text ++ back → nfkc text = text
  boundary : ∀ c ∈ marks, ∀ front back, nfkc (front ++ c :: back) = nfkc front ++ c :: nfkc back

theorem isNfkc_id : IsNfkc id := ⟨fun _ => rfl, fun _ _ _ _ => rfl, fun _ _ _ _ => rfl⟩

section
variable {nfkc : List Char → List Char} (unicode : IsNfkc nfkc)
include unicode

theorem nfkc_sides (normal : nfkc (front ++ c :: back) = front ++ c :: back) :
    nfkc front = front ∧ nfkc back = back :=
  ⟨unicode.substring [] front (c :: back) (by simpa using normal),
    unicode.substring (front ++ [c]) back [] (by simpa using normal)⟩

theorem nfkc_trimLines {text : List Char} (normal : nfkc text = text) :
    nfkc (trimLines text) = trimLines text := by
  have trimmed : ∀ line, nfkc line = line → nfkc (trimEnd line) = trimEnd line := by
    intro line whole
    obtain ⟨blank, cut⟩ := List.rdropWhile_prefix isJsSpace line
    refine unicode.substring [] (trimEnd line) blank ?_
    rwa [nil_append, trimEnd, cut]
  induction text using byLines with
  | line line inside => rw [trimLines_line inside, trimmed line normal]
  | more line rest inside ih =>
    obtain ⟨left, right⟩ := nfkc_sides unicode normal
    rw [trimLines_more inside, unicode.boundary '\n' (by decide), trimmed line left, ih right]

theorem nfkc_plain (front : List Char) (normal : nfkc (front ++ text) = front ++ text) :
    nfkc (front ++ text.map plain) = front ++ text.map plain := by
  induction text generalizing front with
  | nil => exact normal
  | cons c rest ih =>
    have once : nfkc (front ++ [plain c] ++ rest) = front ++ [plain c] ++ rest := by
      rcases plain_cases c with same | ⟨mark, _⟩
      · simpa [same] using normal
      · obtain ⟨left, right⟩ := nfkc_sides unicode normal
        simpa [left, right] using unicode.boundary (plain c) (mem_of_mem_tail mark) front rest
    simpa using ih (front ++ [plain c]) once

theorem normalizeForFuzzyMatch_idem (text : List Char) :
    normalizeForFuzzyMatch nfkc (normalizeForFuzzyMatch nfkc text)
      = normalizeForFuzzyMatch nfkc text := by
  have trimmed := nfkc_trimLines unicode (unicode.idempotent text)
  have normal : nfkc ((trimLines (nfkc text)).map plain) = (trimLines (nfkc text)).map plain :=
    nfkc_plain unicode [] trimmed
  have twice : plain ∘ plain = plain := by
    funext c
    rw [Function.comp_apply, plain_plain]
  simp only [normalizeForFuzzyMatch_eq]
  rw [normal, trimLines_plain, map_map, twice]

end

/-- `text.indexOf(needle)`, none for -1. -/
def indexOf (needle : List Char) : List Char → Option Nat
  | [] => if needle = [] then some 0 else none
  | c :: rest =>
    if needle.isPrefixOf (c :: rest) then some 0 else (indexOf needle rest).map (· + 1)

theorem indexOf_some (found : indexOf needle text = some index) :
    index + needle.length ≤ text.length ∧ (text.drop index).take needle.length = needle := by
  induction text generalizing index with
  | nil =>
    simp only [indexOf] at found
    split at found
    · next empty =>
      obtain rfl : 0 = index := Option.some.inj found
      simp [empty]
    · cases found
  | cons c rest ih =>
    simp only [indexOf] at found
    split at found
    · next starts =>
      obtain rfl : 0 = index := Option.some.inj found
      have start := List.isPrefixOf_iff_prefix.mp starts
      exact ⟨by simpa using start.length_le, (prefix_iff_eq_take.mp start).symm⟩
    · obtain ⟨inner, later, rfl⟩ := Option.map_eq_some_iff.mp found
      have held := ih later
      exact ⟨by simp only [length_cons]; omega, by simpa using held.2⟩

theorem indexOf_isSome : (indexOf needle text).isSome = true ↔ needle <:+: text := by
  induction text with
  | nil => by_cases empty : needle = [] <;> simp [indexOf, empty]
  | cons c rest ih =>
    rw [infix_cons_iff, ← ih, ← isPrefixOf_iff_prefix, indexOf]
    split
    · next starts => simp [starts]
    · next other => simp [other]

end QiongQi.FuzzyTexts
