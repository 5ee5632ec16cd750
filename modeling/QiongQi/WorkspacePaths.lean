import QiongQi.Paths
import QiongQi.RuntimeContracts

/-! `resolveWorkspacePath`: where the path that a tool is given lies in the workspace, on a
POSIX platform. -/
namespace QiongQi.WorkspacePaths
open Paths RuntimeContracts List

def workspaceRoot (cwd workspace : List Char) : List Char :=
  if trimChars workspace = [] then cwd else resolve cwd workspace

/-- `text.split(/[/\\]/).pop()`. -/
def lastPiece (text : List Char) : List Char :=
  (text.splitOnP fun c => c = '/' || c = Char.ofNat 0x5c).getLast?.getD []

/-- `/^\/(tmp|mnt|var|private\/tmp)\//`. -/
def isTemporary (text : List Char) : Bool :=
  ["/tmp/", "/mnt/", "/var/", "/private/tmp/"].any fun start => start.toList.isPrefixOf text

/-- Only the name is kept of a path to one of these directories. -/
def isRedirected (trimmed : List Char) : Bool := isTemporary trimmed && lastPiece trimmed ≠ []

def sanitizePathForWorkspace (inputPath : List Char) : List Char :=
  let trimmed := trimChars inputPath
  if isRedirected trimmed then lastPiece trimmed else trimmed

structure WorkspacePath where
  workspaceRoot : List Char
  absolutePath : List Char
  relativePath : List Char

def leaves (relativePath : List Char) : Bool :=
  relativePath = ['.', '.'] || ['.', '.', '/'].isPrefixOf relativePath || isAbsolute relativePath

/-- `text || fallback`. -/
def orElse (text fallback : List Char) : List Char := if text = [] then fallback else text

def resolveWorkspacePath (cwd inputPath workspace : List Char) : WorkspacePath :=
  let root := workspaceRoot cwd workspace
  let sanitized := sanitizePathForWorkspace inputPath
  let absolutePath := resolve root sanitized
  let relativePath := relative root absolutePath
  if leaves relativePath then
    let basename := orElse (lastPiece sanitized) "output.txt".toList
    { workspaceRoot := root, absolutePath := resolve root basename, relativePath := basename }
  else
    { workspaceRoot := root, absolutePath, relativePath := orElse relativePath ['.'] }

theorem lastPiece_whole : ∀ c ∈ lastPiece text, c ≠ '/' ∧ c ≠ Char.ofNat 0x5c := by
  unfold lastPiece
  cases last : (text.splitOnP fun c => c = '/' || c = Char.ofNat 0x5c).getLast? with
  | none => exact fun _ held => by cases held
  | some piece =>
    intro c held
    simpa using mem_splitOnP (List.mem_of_getLast? last) c held

theorem slash_notMem_lastPiece (text : List Char) : '/' ∉ lastPiece text :=
  fun held => (lastPiece_whole '/' held).1 rfl

theorem lastPiece_idem : lastPiece (lastPiece text) = lastPiece text := by
  have alone : (lastPiece text).splitOnP (fun c => c = '/' || c = Char.ofNat 0x5c) = [lastPiece text] := by
    refine splitOnP_eq_singleton fun c held => ?_
    simpa using lastPiece_whole c held
  rw [lastPiece, alone]
  rfl

/-- A way of names does not leave the place where it starts. -/
theorem leaves_names (clean : ∀ name ∈ rest, IsName name) :
    leaves (['/'].intercalate rest) = false := by
  cases rest with
  | nil => rfl
  | cons name others =>
    obtain ⟨full, -, notUp, whole⟩ := clean name mem_cons_self
    have split_ : segments (['/'].intercalate (name :: others)) = name :: others :=
      splitOn_intercalate '/' (fun other held => (clean other held).2.2.2) (by simp)
    generalize ['/'].intercalate (name :: others) = text at *
    unfold leaves
    simp only [Bool.or_eq_false_iff, decide_eq_false_iff_not]
    refine ⟨⟨?_, ?_⟩, ?_⟩
    · rintro rfl
      rw [segments, splitOn_eq_singleton (by decide)] at split_
      cases split_
      exact notUp rfl
    · rw [← Bool.not_eq_true, isPrefixOf_iff_prefix]
      rintro ⟨tail, rfl⟩
      have apart : '/' ∉ (['.', '.'] : List Char) := by decide
      have cut : segments (['.', '.', '/'] ++ tail) = ['.', '.'] :: segments tail :=
        splitOn_append_cons_self_of_not_mem apart tail
      rw [cut] at split_
      cases split_
      exact notUp rfl
    · cases text with
      | nil => rfl
      | cons c tail =>
        refine decide_eq_false fun first => ?_
        cases first
        rw [segments, splitOn_cons_eq_if_modifyHead, if_pos (by simp)] at split_
        cases split_
        exact full rfl

/-- The test of the relative path tells whether the path is below the root. -/
theorem leaves_relative : leaves (relative root target) = true ↔ ¬ Below root target := by
  constructor
  · rintro left ⟨rest, below⟩
    rw [relative_below below.symm, leaves_names] at left
    · cases left
    · intro name held
      refine normalize_names target name ?_
      rw [← below]
      exact mem_append_right _ held
  · intro outside
    obtain ⟨rest, up⟩ := relative_outside outside
    rw [up]
    cases rest with
    | nil => rfl
    | cons name others => simp [leaves]

/-- The path that an input denotes; the white space around it is no part of it. -/
def denoted (root inputPath : List Char) : List Char := resolve root (trimChars inputPath)

/-- The path is the root or lies below it, its relative path leads there, and an input that
denotes such a path is resolved to it. -/
structure Placed (root inputPath : List Char) (path : WorkspacePath) : Prop where
  contained : Below root path.absolutePath
  led : resolve root path.relativePath = path.absolutePath
  kept : Below root (denoted root inputPath) → path.absolutePath = denoted root inputPath

/-- An input whose last piece is not a step up, if it does not denote a path in the workspace
by itself; and of a path to a temporary directory, one in the workspace is the entry of the
root with its name. -/
def Placeable (root inputPath : List Char) : Prop :=
  (lastPiece (trimChars inputPath) = ['.', '.'] → normalize root = [] ∨
      Below root (denoted root inputPath) ∧ isRedirected (trimChars inputPath) = false) ∧
    (isRedirected (trimChars inputPath) = true → Below root (denoted root inputPath) →
      denoted root inputPath = resolve root (lastPiece (trimChars inputPath)))

instance (root inputPath : List Char) : Decidable (Placeable root inputPath) :=
  inferInstanceAs (Decidable ((_ → _ ∨ _ ∧ _) ∧ (_ → _ → _)))

/-- A single segment leads out of the root just when it is a step up. -/
theorem below_segment (whole : '/' ∉ segment_) :
    Below root (resolve root segment_) ↔ (segment_ = ['.', '.'] → normalize root = []) := by
  unfold Below
  rw [normalize_resolve_segment root whole, enter]
  split
  · rename_i dot
    refine iff_of_true (prefix_refl _) fun up => ?_
    rcases dot with same | same
    all_goals
      rw [up] at same
      cases same
  · split
    · rename_i up
      rw [forall_prop_of_true up]
      constructor
      · intro below
        have bound := below.length_le
        rw [length_dropLast] at bound
        exact eq_nil_of_length_eq_zero (by omega)
      · intro empty
        rw [empty]
        exact nil_prefix
    · rename_i notUp
      exact iff_of_true (prefix_append _ _) fun up => absurd up notUp

/-- Below the root, the relative path leads to the path. -/
theorem resolve_relative (below : Below root (resolve root path)) :
    resolve root (orElse (relative root (resolve root path)) ['.']) = resolve root path := by
  obtain ⟨rest, same⟩ := below
  have clean : ∀ name ∈ rest, IsName name := by
    intro name held
    refine normalize_names (resolve root path) name ?_
    rw [← same]
    exact mem_append_right _ held
  apply resolve_eq_iff.mpr
  rw [← same, relative_below same.symm]
  cases rest with
  | nil =>
    show normalize (resolve root ['.']) = normalize root ++ []
    rw [normalize_resolve_segment root (by decide), append_nil]
    rfl
  | cons name others =>
    have stays := leaves_names clean
    have split_ : segments (['/'].intercalate (name :: others)) = name :: others :=
      splitOn_intercalate '/' (fun other held => (clean other held).2.2.2) (by simp)
    generalize ['/'].intercalate (name :: others) = text at *
    have full : text ≠ [] := by
      rintro rfl
      cases split_
      exact (clean [] mem_cons_self).1 rfl
    have notAbsolute : isAbsolute text = false := by
      unfold leaves at stays
      simp only [Bool.or_eq_false_iff] at stays
      exact stays.2
    rw [orElse, if_neg full, normalize_resolve, if_neg (by simp [notAbsolute]), split_]
    exact walk_down _ _ clean

variable {cwd workspace inputPath : List Char}

theorem resolve_below (below : Below (workspaceRoot cwd workspace)
      (resolve (workspaceRoot cwd workspace) (sanitizePathForWorkspace inputPath))) :
    resolveWorkspacePath cwd inputPath workspace =
      { workspaceRoot := workspaceRoot cwd workspace
        absolutePath :=
          resolve (workspaceRoot cwd workspace) (sanitizePathForWorkspace inputPath)
        relativePath := orElse (relative (workspaceRoot cwd workspace)
            (resolve (workspaceRoot cwd workspace) (sanitizePathForWorkspace inputPath)))
          ['.'] } := by
  unfold resolveWorkspacePath
  dsimp only
  rw [if_neg fun left => leaves_relative.mp left below]

theorem resolve_outside (outside : ¬ Below (workspaceRoot cwd workspace)
      (resolve (workspaceRoot cwd workspace) (sanitizePathForWorkspace inputPath))) :
    resolveWorkspacePath cwd inputPath workspace =
      { workspaceRoot := workspaceRoot cwd workspace
        absolutePath := resolve (workspaceRoot cwd workspace)
          (orElse (lastPiece (sanitizePathForWorkspace inputPath)) "output.txt".toList)
        relativePath :=
          orElse (lastPiece (sanitizePathForWorkspace inputPath)) "output.txt".toList } := by
  unfold resolveWorkspacePath
  dsimp only
  rw [if_pos (leaves_relative.mpr outside)]

/-- Of a path to a temporary directory the name alone is looked up in the root. -/
theorem resolve_redirected (redirected : isRedirected (trimChars inputPath) = true) :
    (resolveWorkspacePath cwd inputPath workspace).absolutePath =
        resolve (workspaceRoot cwd workspace) (lastPiece (trimChars inputPath)) ∧
      resolve (workspaceRoot cwd workspace)
          (resolveWorkspacePath cwd inputPath workspace).relativePath =
        (resolveWorkspacePath cwd inputPath workspace).absolutePath := by
  have named : sanitizePathForWorkspace inputPath = lastPiece (trimChars inputPath) := by
    simp only [sanitizePathForWorkspace, redirected, if_true]
  have full : lastPiece (trimChars inputPath) ≠ [] := by
    simp only [isRedirected, Bool.and_eq_true, decide_eq_true_eq] at redirected
    exact redirected.2
  by_cases below : Below (workspaceRoot cwd workspace)
      (resolve (workspaceRoot cwd workspace) (sanitizePathForWorkspace inputPath))
  · rw [resolve_below below]
    exact ⟨by rw [named], resolve_relative below⟩
  · rw [resolve_outside below]
    refine ⟨?_, rfl⟩
    rw [named, lastPiece_idem, orElse, if_neg full]

/-- A path is placed as it should just where it is placeable. -/
theorem resolveWorkspacePath_placed_iff (cwd workspace inputPath : List Char) :
    Placed (workspaceRoot cwd workspace) inputPath (resolveWorkspacePath cwd inputPath workspace) ↔
      Placeable (workspaceRoot cwd workspace) inputPath := by
  have whole := slash_notMem_lastPiece (trimChars inputPath)
  by_cases redirected : isRedirected (trimChars inputPath) = true
  · obtain ⟨absolute, led⟩ :=
      @resolve_redirected cwd workspace inputPath redirected
    have stays : Below (workspaceRoot cwd workspace)
        (resolveWorkspacePath cwd inputPath workspace).absolutePath ↔
          (lastPiece (trimChars inputPath) = ['.', '.'] → normalize (workspaceRoot cwd workspace) = []) := by
      rw [absolute]
      exact below_segment whole
    constructor
    · rintro ⟨contained, -, kept⟩
      refine ⟨fun up => .inl (stays.mp contained up), fun _ inside => ?_⟩
      rw [← kept inside, absolute]
    · rintro ⟨up, entry⟩
      refine ⟨stays.mpr fun same => ?_, led, fun inside => ?_⟩
      · rcases up same with empty | ⟨-, plain⟩
        · exact empty
        · rw [redirected] at plain
          cases plain
      · rw [absolute, entry redirected inside]
  · have plain : isRedirected (trimChars inputPath) = false := by simpa using redirected
    have same : resolve (workspaceRoot cwd workspace) (sanitizePathForWorkspace inputPath) =
        denoted (workspaceRoot cwd workspace) inputPath := by
      simp only [sanitizePathForWorkspace, plain, denoted, Bool.false_eq_true, if_false]
    by_cases inside : Below (workspaceRoot cwd workspace)
        (denoted (workspaceRoot cwd workspace) inputPath)
    · refine iff_of_true ?_
        ⟨fun _ => .inr ⟨inside, plain⟩, fun temporary => absurd temporary redirected⟩
      rw [resolve_below (by rw [same]; exact inside)]
      exact ⟨by rw [same]; exact inside, resolve_relative (by rw [same]; exact inside), fun _ => same⟩
    · -- The name is looked up in the root, which a step up leaves.
      have notRoot : normalize (workspaceRoot cwd workspace) ≠ [] := by
        intro empty
        refine inside ?_
        unfold Below
        rw [empty]
        exact nil_prefix
      have kept_name : sanitizePathForWorkspace inputPath = trimChars inputPath := by
        simp only [sanitizePathForWorkspace, plain, Bool.false_eq_true, if_false]
      rw [resolve_outside (by rw [same]; exact inside), kept_name]
      have up_iff : orElse (lastPiece (trimChars inputPath)) "output.txt".toList = ['.', '.'] ↔
          lastPiece (trimChars inputPath) = ['.', '.'] := by
        by_cases empty : lastPiece (trimChars inputPath) = []
        · rw [empty]
          decide
        · rw [orElse, if_neg empty]
      have wholeName : '/' ∉ orElse (lastPiece (trimChars inputPath)) "output.txt".toList := by
        by_cases empty : lastPiece (trimChars inputPath) = []
        · rw [empty]
          decide
        · rw [orElse, if_neg empty]
          exact whole
      constructor
      · rintro ⟨contained, -, -⟩
        refine ⟨fun up => ?_, fun temporary => absurd temporary redirected⟩
        exact absurd ((below_segment wholeName).mp contained (up_iff.mpr up)) notRoot
      · rintro ⟨notUp, -⟩
        refine ⟨(below_segment wholeName).mpr fun up => ?_, rfl, fun held => absurd held inside⟩
        rcases notUp (up_iff.mp up) with empty | ⟨held, -⟩
        · exact absurd empty notRoot
        · exact absurd held inside

/-- A step up from a workspace is placed in the parent of the workspace, and a file in a
workspace below `/tmp` is placed elsewhere. -/
theorem resolveWorkspacePath_misplaces :
    (resolveWorkspacePath "/".toList "..".toList "/home/ws".toList).absolutePath = "/home".toList ∧
      ¬ Placed "/home/ws".toList "..".toList
        (resolveWorkspacePath "/".toList "..".toList "/home/ws".toList) ∧
      (resolveWorkspacePath "/".toList "/tmp/ws/a/b".toList "/tmp/ws".toList).absolutePath =
        "/tmp/ws/b".toList ∧
      denoted "/tmp/ws".toList "/tmp/ws/a/b".toList = "/tmp/ws/a/b".toList ∧
      ¬ Placed "/tmp/ws".toList "/tmp/ws/a/b".toList
        (resolveWorkspacePath "/".toList "/tmp/ws/a/b".toList "/tmp/ws".toList) := by
  have parent : (resolveWorkspacePath "/".toList "..".toList "/home/ws".toList).absolutePath =
      "/home".toList := by decide
  have moved : (resolveWorkspacePath "/".toList "/tmp/ws/a/b".toList
      "/tmp/ws".toList).absolutePath = "/tmp/ws/b".toList := by decide
  refine ⟨parent, fun placed => ?_, moved, by decide, fun placed => ?_⟩
  · have contained := placed.contained
    rw [parent] at contained
    revert contained
    decide
  · have kept := placed.kept (by decide)
    rw [moved] at kept
    revert kept
    decide

end QiongQi.WorkspacePaths
