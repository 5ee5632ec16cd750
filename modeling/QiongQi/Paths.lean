import Mathlib.Data.List.Basic

/-! POSIX paths by their text alone: what `resolve` and `relative` of `node:path` make of
them, and that a relative path leads back. -/
namespace QiongQi.Paths
open List

/-- What stands between two slashes. -/
abbrev Segment := List Char

/-- A segment that names an entry of a directory. -/
def IsName (segment : Segment) : Prop :=
  segment ≠ [] ∧ segment ≠ ['.'] ∧ segment ≠ ['.', '.'] ∧ '/' ∉ segment

def segments (path : List Char) : List Segment := path.splitOn '/'

/-- The names on the way to a place, after one more segment. -/
def enter (names : List Segment) (segment : Segment) : List Segment :=
  if segment = [] ∨ segment = ['.'] then names
  else if segment = ['.', '.'] then names.dropLast
  else names ++ [segment]

def walk (names : List Segment) (segments : List Segment) : List Segment :=
  segments.foldl enter names

/-- The names on the way from the root to an absolute path, without dots. -/
def normalize (path : List Char) : List Segment := walk [] (segments path)

def pathText (names : List Segment) : List Char := '/' :: ['/'].intercalate names

def isAbsolute (path : List Char) : Bool := path.head? = some '/'

/-- `resolve(base, path)` for an absolute base. -/
def resolve (base path : List Char) : List Char :=
  pathText (normalize (if isAbsolute path then path else base ++ '/' :: path))

/-- How many names two paths have in common at their beginnings. -/
def shared : List Segment → List Segment → Nat
  | left :: lefts, right :: rights => if left = right then shared lefts rights + 1 else 0
  | _, _ => 0

/-- The way up from the base to the last common place, and down from there. -/
def relative (base target : List Char) : List Char :=
  let common := shared (normalize base) (normalize target)
  ['/'].intercalate (List.replicate ((normalize base).length - common) ['.', '.'] ++
    (normalize target).drop common)

/-- The path is the base, or lies below it. -/
def Below (base path : List Char) : Prop := normalize base <+: normalize path

instance (base path : List Char) : Decidable (Below base path) :=
  inferInstanceAs (Decidable (_ <+: _))

theorem mem_splitOnP {text piece : List Char} (found : piece ∈ text.splitOnP p) :
    ∀ c ∈ piece, p c = false := by
  induction text generalizing piece with
  | nil => simp_all
  | cons c rest ih =>
    rw [splitOnP_cons_eq_if_modifyHead] at found
    split at found
    · rcases mem_cons.mp found with rfl | later
      · exact fun _ held => by cases held
      · exact ih later
    · rename_i apart
      obtain ⟨first, others, split_⟩ := exists_cons_of_ne_nil (splitOnP_ne_nil p rest)
      rw [split_] at found ih
      rcases mem_cons.mp found with rfl | later
      · intro d held
        rcases mem_cons.mp held with rfl | held
        · simpa using apart
        · exact ih mem_cons_self d held
      · exact ih (mem_cons_of_mem _ later)

theorem mem_segments {path : List Char} (found : segment_ ∈ segments path) : '/' ∉ segment_ := by
  intro held
  simpa using mem_splitOnP found '/' held

theorem enter_names (whole : '/' ∉ segment_) (clean : ∀ name ∈ names, IsName name) :
    ∀ name ∈ enter names segment_, IsName name := by
  unfold enter
  split
  · exact clean
  · rename_i visible
    obtain ⟨full, notHere⟩ := not_or.mp visible
    split
    · exact fun name held => clean name ((dropLast_sublist names).subset held)
    · rename_i notUp
      intro name held
      rcases mem_append.mp held with old | last
      · exact clean name old
      · rw [mem_singleton.mp last]
        exact ⟨full, notHere, notUp, whole⟩

theorem walk_names :
    ∀ {names : List Segment}, (∀ segment ∈ path, '/' ∉ segment) → (∀ name ∈ names, IsName name) →
      ∀ name ∈ walk names path, IsName name := by
  induction path with
  | nil => exact fun _ clean => clean
  | cons segment rest ih =>
    intro names whole clean
    exact ih (fun other held => whole other (mem_cons_of_mem _ held))
      (enter_names (whole segment mem_cons_self) clean)

theorem normalize_names (path : List Char) : ∀ name ∈ normalize path, IsName name :=
  walk_names (fun _ found => mem_segments found) (fun _ held => by cases held)

@[simp] theorem enter_name (names : List Segment) {name : Segment} (clean : IsName name) :
    enter names name = names ++ [name] := by
  obtain ⟨full, notHere, notUp, -⟩ := clean
  simp [enter, full, notHere, notUp]

theorem walk_down (path : List Segment) :
    ∀ names : List Segment, (∀ name ∈ path, IsName name) → walk names path = names ++ path := by
  induction path with
  | nil => exact fun names _ => (append_nil names).symm
  | cons name rest ih =>
    intro names clean
    show walk (enter names name) rest = names ++ name :: rest
    rw [enter_name names (clean name mem_cons_self),
      ih _ fun other held => clean other (mem_cons_of_mem _ held)]
    simp

theorem walk_append : walk names (first ++ second) = walk (walk names first) second :=
  foldl_append

theorem segments_pathText (clean : ∀ name ∈ names, IsName name) (some_ : names ≠ []) :
    segments (pathText names) = [] :: names := by
  have inner : (['/'].intercalate names).splitOn '/' = names :=
    splitOn_intercalate '/' (fun name held => (clean name held).2.2.2) some_
  unfold segments pathText
  rw [splitOn_cons_eq_if_modifyHead, if_pos (by simp), inner]

theorem normalize_pathText (clean : ∀ name ∈ names, IsName name) :
    normalize (pathText names) = names := by
  by_cases empty : names = []
  · rw [empty]
    decide
  · rw [normalize, segments_pathText clean empty]
    show walk (enter [] []) names = names
    rw [walk_down names _ clean]
    rfl

theorem normalize_resolve (base path : List Char) : normalize (resolve base path) =
      if isAbsolute path then normalize path else walk (normalize base) (segments path) := by
  unfold resolve
  rw [normalize_pathText (normalize_names _)]
  split
  · rfl
  · rw [normalize, segments, splitOn_append_cons_self]
    exact walk_append

theorem pathText_resolve : pathText (normalize (resolve base path)) = resolve base path := by
  unfold resolve
  rw [normalize_pathText (normalize_names _)]

theorem resolve_eq_iff : resolve base left = resolve base right ↔
      normalize (resolve base left) = normalize (resolve base right) := by
  constructor
  · exact congrArg normalize
  · intro same
    rw [← pathText_resolve, same, pathText_resolve]

theorem normalize_resolve_segment (base : List Char) (whole : '/' ∉ segment_) :
    normalize (resolve base segment_) = enter (normalize base) segment_ := by
  have relative_ : isAbsolute segment_ = false := by
    cases segment_ with
    | nil => rfl
    | cons c rest =>
      refine decide_eq_false fun first => whole ?_
      rw [Option.some.inj first]
      exact mem_cons_self
  rw [normalize_resolve, if_neg (by simp [relative_]), segments, splitOn_eq_singleton whole]
  rfl

theorem shared_below (below : base <+: target) : shared base target = base.length := by
  induction base generalizing target with
  | nil => cases target <;> rfl
  | cons name rest ih =>
    obtain ⟨tail, rfl⟩ := below
    rw [cons_append, shared, if_pos rfl, ih (prefix_append rest tail)]
    rfl

theorem shared_le (base target : List Segment) :
    shared base target ≤ base.length ∧ (shared base target = base.length → base <+: target) := by
  induction base generalizing target with
  | nil => exact ⟨Nat.zero_le _, fun _ => nil_prefix⟩
  | cons name rest ih =>
    cases target with
    | nil => exact ⟨Nat.zero_le _, fun same => by cases same⟩
    | cons other others =>
      obtain ⟨bound, whole⟩ := ih others
      unfold shared
      split
      · rename_i same
        refine ⟨Nat.succ_le_succ bound, fun full => ?_⟩
        rw [same]
        exact cons_prefix_cons.mpr ⟨rfl, whole (Nat.succ.inj full)⟩
      · exact ⟨Nat.zero_le _, fun same => by cases same⟩

theorem relative_below (below : normalize target = normalize base ++ rest) :
    relative base target = ['/'].intercalate rest := by
  unfold relative
  dsimp only
  rw [shared_below ⟨rest, below.symm⟩, Nat.sub_self, below, drop_left]
  rfl

theorem relative_outside (outside : ¬ Below base target) :
    ∃ rest, relative base target = ['/'].intercalate (['.', '.'] :: rest) := by
  obtain ⟨bound, whole⟩ := shared_le (normalize base) (normalize target)
  have short : shared (normalize base) (normalize target) ≠ (normalize base).length :=
    fun same => outside (whole same)
  unfold relative
  dsimp only
  obtain ⟨more, steps⟩ : ∃ more, (normalize base).length -
      shared (normalize base) (normalize target) = more + 1 :=
    ⟨_, (Nat.succ_pred_eq_of_pos (by omega)).symm⟩
  rw [steps, replicate_succ]
  exact ⟨_, rfl⟩

end QiongQi.Paths
