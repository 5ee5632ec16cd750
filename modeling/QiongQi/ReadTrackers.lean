import Mathlib.Data.List.Infix
import Mathlib.Logic.Function.Basic
import QiongQi.WorkspacePaths

/-! `ReadTracker`, the guard of a tool host that lets a file be edited only after it was read
in the same turn, beside the read and edit tools, which resolve their paths in another way. -/
namespace QiongQi.ReadTrackers
open Paths WorkspacePaths RuntimeContracts

abbrev Text := List Char

structure ReadTrackerOptions where
  enabled : Bool
  requireOldTextInRead : Bool

structure ToolHostContext where
  threadId : String
  turnId : String
  workspace : Text

structure EditArgument where
  oldText : Option Text
  newText : Option Text

/-- The arguments that are texts or, for `edits`, a list. -/
structure Arguments where
  path : Option Text
  oldText : Option Text := none
  newText : Option Text := none
  edits : List EditArgument := []

structure ToolCall where
  toolName : String
  arguments : Arguments

structure ReadOutput where
  path : Text
  relativePath : Option Text
  content : Option Text
  truncated : Bool

structure ReadRecord where
  absolutePath : Text
  relativePath : Option Text
  content : Option Text
  truncated : Bool
  turnId : String

/-- The maps of the tracker, by the record under a thread and a path. -/
abbrev Records := String → Text → Option ReadRecord

def normalizePath (cwd path workspace : Text) : Text :=
  if isAbsolute path then resolve cwd path
  else resolve (resolve cwd (orElse workspace ['.'])) path

def displayPath (cwd path workspace : Text) : String :=
  let absolutePath := normalizePath cwd path workspace
  let rel := if workspace = [] then [] else relative (resolve cwd workspace) absolutePath
  String.ofList (if rel ≠ [] && ! ['.', '.'].isPrefixOf rel then rel else absolutePath)

def isEditTool (call : ToolCall) : Bool :=
  call.toolName = "edit" || call.toolName = "edit_file" || call.toolName = "apply_patch"

def oldTextFragments (args : Arguments) : List Text :=
  args.oldText.toList ++ args.edits.filterMap EditArgument.oldText

def isMissing (record : ReadRecord) (fragment : Text) : Bool :=
  trimChars fragment ≠ [] &&
    record.content.all fun content => content = [] || !decide (fragment <:+: content)

/-- An output of `none` is an error or nothing that names a file. -/
def observeToolResult (options : ReadTrackerOptions) (cwd : Text) (context : ToolHostContext)
    (call : ToolCall) (output : Option ReadOutput) (records : Records) : Records :=
  if !options.enabled || call.toolName ≠ "read" then records
  else match output with
    | none => records
    | some output =>
      let absolutePath := normalizePath cwd output.path context.workspace
      Function.update records context.threadId <|
        Function.update (records context.threadId) absolutePath <| some
          { absolutePath, relativePath := output.relativePath, content := output.content
            truncated := output.truncated, turnId := context.turnId }

/-- The message of a call that is refused. -/
def validateBeforeTool (options : ReadTrackerOptions) (cwd : Text) (context : ToolHostContext)
    (call : ToolCall) (records : Records) : Option String :=
  let rawPath := call.arguments.path.getD []
  let blocked := "read-before-edit guard blocked edit for "
  if !options.enabled || !isEditTool call || trimChars rawPath = [] then none
  else match records context.threadId (normalizePath cwd rawPath context.workspace) with
    | none => some (blocked ++ displayPath cwd rawPath context.workspace ++
        ". Read the current file contents in this turn before editing so SEARCH text is " ++
        "based on fresh bytes.")
    | some record =>
      if record.turnId ≠ context.turnId then
        some (blocked ++ displayPath cwd rawPath context.workspace ++
          ". The previous read is from an earlier turn; read the file again before editing.")
      else if options.requireOldTextInRead &&
          (oldTextFragments call.arguments).any (isMissing record) then
        some (blocked ++ (record.relativePath.map String.ofList).getD
          (displayPath cwd rawPath context.workspace) ++
          ". At least one oldText fragment was not present in the latest read output; " ++
          "read a narrower range that includes the exact text before editing.")
      else none

/-- The call without a thread, or with the empty name of one, clears all. -/
def clear (threadId : Option String) (records : Records) : Records := fun other =>
  if threadId = none ∨ threadId = some "" ∨ threadId = some other then fun _ => none
  else records other

/-- What is read of a file. -/
structure ReadAnswer where
  content : Option Text
  truncated : Bool := false

def readTool (cwd : Text) (context : ToolHostContext) (args : Arguments)
    (answer : Option ReadAnswer) : Option ReadOutput :=
  let rawPath := args.path.getD []
  let path := resolveWorkspacePath cwd rawPath context.workspace
  if trimChars rawPath = [] then none
  else answer.map fun answer =>
    { path := path.absolutePath, relativePath := path.relativePath
      content := answer.content, truncated := answer.truncated }

def parseEditInstructions (args : Arguments) : List (Text × Text) :=
  let pair (oldText newText : Option Text) := oldText.bind fun oldText =>
    newText.map fun newText => (oldText, newText)
  let edits := args.edits.filterMap fun edit => pair edit.oldText edit.newText
  if edits ≠ [] then edits else (pair args.oldText args.newText).toList

/-- The file that an edit writes, where the edit can be made. -/
def editTool (cwd : Text) (context : ToolHostContext) (args : Arguments) (made : Bool) :
    Option Text :=
  let rawPath := args.path.getD []
  if trimChars rawPath = [] || parseEditInstructions args = [] || !made then none
  else some (resolveWorkspacePath cwd rawPath context.workspace).absolutePath

/-- A call of the host, with the answer of the file system: none to a call that is not
approved or that fails there. -/
structure HostCall where
  context : ToolHostContext
  call : ToolCall
  answer : Option ReadAnswer

inductive Step where
  | execute (call : HostCall)
  | clearReadTracker (threadId : Option String)

def HostCall.output (cwd : Text) (call : HostCall) : Option ReadOutput :=
  if call.call.toolName = "read" then
    readTool cwd call.context call.call.arguments call.answer
  else none

/-- The file that a call changes that the guard lets pass. -/
def HostCall.edited (cwd : Text) (call : HostCall) : Option Text :=
  if call.call.toolName = "edit" then
    editTool cwd call.context call.call.arguments call.answer.isSome
  else none

section
variable (options : ReadTrackerOptions) (cwd : Text)

def refused (call : HostCall) (records : Records) : Option String :=
  validateBeforeTool options cwd call.context call.call records

def step (records : Records) : Step → Records
  | .execute call =>
    if (refused options cwd call records).isSome then records
    else observeToolResult options cwd call.context call.call (call.output cwd) records
  | .clearReadTracker threadId => clear threadId records

def run (steps : List Step) : Records := steps.foldl (step options cwd) fun _ _ => none

/-- The step reads a file in a turn of a thread. -/
def IsRead (threadId turnId : String) (output : ReadOutput) : Step → Prop
  | .execute call => call.context.threadId = threadId ∧ call.context.turnId = turnId ∧
      call.output cwd = some output
  | .clearReadTracker _ => False

/-- The latest read of a file in a turn of a thread. -/
def LatestRead (threadId turnId : String) (file : Text) (content : Option Text) (steps : List Step) : Prop :=
  ∃ front last back output, steps = front ++ last :: back ∧
    IsRead cwd threadId turnId output last ∧ output.path = file ∧ output.content = content ∧
    ∀ later ∈ back, ∀ other, IsRead cwd threadId turnId other later → other.path ≠ file

/-- If the call is let pass, then what it changes was read before in its turn, and what was
read there last has every text that the call replaces. -/
def Guarded (steps : List Step) (call : HostCall) : Prop :=
  refused options cwd call (run options cwd steps) = none → ∀ file, call.edited cwd = some file →
      ∃ content, LatestRead cwd call.context.threadId call.context.turnId file content steps ∧
        (options.requireOldTextInRead = true →
          ∀ fragment ∈ oldTextFragments call.call.arguments, trimChars fragment ≠ [] →
            ∃ text, content = some text ∧ fragment <:+: text)

/-- A path of an edit under which the guard finds a read of the turn denotes the same file to
the tool. -/
def Aligned (steps : List Step) (call : HostCall) : Prop :=
  let rawPath := call.call.arguments.path.getD []
  let absolutePath := normalizePath cwd rawPath call.context.workspace
  isEditTool call.call = true →
    ∀ record, run options cwd steps call.context.threadId absolutePath = some record →
      record.turnId = call.context.turnId →
      (resolveWorkspacePath cwd rawPath call.context.workspace).absolutePath = absolutePath
end

section
variable {options : ReadTrackerOptions} {cwd : Text} {records : Records} {threadId : String}
  {path : Text} {record : ReadRecord}

theorem normalizePath_resolved :
    normalizePath cwd (resolveWorkspacePath cwd inputPath workspace).absolutePath workspace =
      (resolveWorkspacePath cwd inputPath workspace).absolutePath := by
  obtain ⟨base, tail, resolved⟩ : ∃ base tail,
      (resolveWorkspacePath cwd inputPath workspace).absolutePath = resolve base tail := by
    unfold resolveWorkspacePath
    dsimp only
    split <;> exact ⟨_, _, rfl⟩
  have absolute : isAbsolute (resolve base tail) = true := rfl
  rw [resolved, normalizePath, if_pos absolute, resolve, if_pos absolute, pathText_resolve]

variable (enabled : options.enabled = true)
include enabled

theorem step_read (produced : call.output cwd = some output) :
    step options cwd records (.execute call) = Function.update records call.context.threadId
        (Function.update (records call.context.threadId) output.path <| some
          { absolutePath := output.path, relativePath := output.relativePath
            content := output.content, truncated := output.truncated
            turnId := call.context.turnId }) := by
  have whole := produced
  unfold HostCall.output at produced
  split at produced
  · rename_i named
    have passes : refused options cwd call records = none := by
      simp [refused, validateBeforeTool, isEditTool, named]
    have resolved : normalizePath cwd output.path call.context.workspace = output.path := by
      unfold readTool at produced
      dsimp only at produced
      split at produced
      · cases produced
      · obtain ⟨answer, -, rfl⟩ := Option.map_eq_some_iff.mp produced
        exact normalizePath_resolved
    simp [step, passes, whole, observeToolResult, enabled, named, resolved]
  · cases produced

omit enabled in
theorem step_other (produced : call.output cwd = none) :
    step options cwd records (.execute call) = records := by
  simp [step, produced, observeToolResult]

/-- A record comes of a read of its file, or it was there and its file is not read. -/
theorem step_find (found : step options cwd records taken threadId path = some record) :
    (∃ output, IsRead cwd threadId record.turnId output taken ∧ output.path = path ∧
      output.content = record.content) ∨
    records threadId path = some record ∧
      ∀ turnId output, IsRead cwd threadId turnId output taken → output.path ≠ path := by
  cases taken with
  | clearReadTracker cleared =>
    refine .inr ⟨?_, fun _ _ => False.elim⟩
    simp only [step, clear] at found
    split at found
    · cases found
    · exact found
  | execute call =>
    cases produced : call.output cwd with
    | none =>
      rw [step_other produced] at found
      exact .inr ⟨found, fun turnId output reads => by cases produced.symm.trans reads.2.2⟩
    | some output =>
      rw [step_read enabled produced] at found
      by_cases same : threadId = call.context.threadId ∧ path = output.path
      · obtain ⟨rfl, rfl⟩ := same
        rw [Function.update_self, Function.update_self] at found
        cases found
        exact .inl ⟨output, ⟨rfl, rfl, produced⟩, rfl, rfl⟩
      · refine .inr ⟨?_, fun turnId other reads at_ => same ⟨reads.1.symm, ?_⟩⟩
        · by_cases here : threadId = call.context.threadId
          · rwa [here, Function.update_self,
              Function.update_of_ne fun there => same ⟨here, there⟩, ← here] at found
          · rwa [Function.update_of_ne here] at found
        · cases produced.symm.trans reads.2.2
          exact at_.symm

theorem run_find (found : run options cwd steps threadId path = some record) :
    LatestRead cwd threadId record.turnId path record.content steps := by
  induction steps using List.reverseRecOn with
  | nil => cases found
  | append_singleton steps taken ih =>
    rw [run, List.foldl_append] at found
    rcases step_find enabled found with ⟨output, isRead, at_, content⟩ | ⟨held, apart⟩
    · exact ⟨steps, taken, [], output, rfl, isRead, at_, content, by simp⟩
    · obtain ⟨front, last, back, output, rfl, isRead, at_, content, latest⟩ := ih held
      refine ⟨front, last, back ++ [taken], output, by simp, isRead, at_, content, ?_⟩
      intro later among other reads
      rcases List.mem_append.mp among with earlier | final
      · exact latest later earlier other reads
      · cases List.mem_singleton.mp final
        exact apart _ other reads

theorem passed_record (passes : refused options cwd call records = none)
    (edits : call.edited cwd = some file) :
    isEditTool call.call = true ∧ file = (resolveWorkspacePath cwd (call.call.arguments.path.getD [])
        call.context.workspace).absolutePath ∧
      ∃ record, records call.context.threadId (normalizePath cwd
          (call.call.arguments.path.getD []) call.context.workspace) = some record ∧
        record.turnId = call.context.turnId ∧
        (options.requireOldTextInRead = true → ∀ fragment ∈ oldTextFragments call.call.arguments,
            isMissing record fragment = false) := by
  unfold HostCall.edited at edits
  split at edits
  · rename_i named
    unfold editTool at edits
    dsimp only at edits
    split at edits
    · cases edits
    · rename_i full
      cases edits
      have full : trimChars (call.call.arguments.path.getD []) ≠ [] := by
        intro blank
        simp [blank] at full
      have asked : isEditTool call.call = true := by simp [isEditTool, named]
      refine ⟨asked, rfl, ?_⟩
      simp only [refused, validateBeforeTool, enabled, asked, full] at passes
      cases found : records call.context.threadId (normalizePath cwd
          (call.call.arguments.path.getD []) call.context.workspace) with
      | none => simp [found] at passes
      | some record =>
        simp only [found] at passes
        by_cases turn : record.turnId = call.context.turnId
        · refine ⟨record, rfl, turn, fun required fragment among => ?_⟩
          simp [turn, required] at passes
          exact passes fragment among
        · simp [turn] at passes
  · cases edits

/-- In a run whose edit calls all denote the same file to the guard and to the tool, each of
them changes only what was read before it in its turn. -/
theorem edits_guarded (steps : List Step)
    (aligned : ∀ front call back, steps = front ++ .execute call :: back →
      Aligned options cwd front call) (front back : List Step) (call : HostCall)
    (split_ : steps = front ++ .execute call :: back) : Guarded options cwd front call := by
  intro passes file edits
  obtain ⟨asked, rfl, record, found, turn, texts⟩ := passed_record enabled passes edits
  refine ⟨record.content, ?_, fun required fragment among full => ?_⟩
  · rw [aligned front call back split_ asked record found turn, ← turn]
    exact run_find enabled found
  · have held := texts required fragment among
    cases content : record.content with
    | none => simp [isMissing, content, full] at held
    | some text =>
      simp [isMissing, content, full] at held
      exact ⟨text, rfl, held.2⟩
end

/-- A call of a tool in a workspace below `/tmp`. -/
def inTmp (toolName path : String) (oldText newText : Option String) : HostCall where
  context := { threadId := "thr_1", turnId := "turn_1", workspace := "/tmp/ws".toList }
  call := { toolName, arguments := { path := some path.toList, oldText := oldText.map String.toList
                                     newText := newText.map String.toList } }
  answer := some { content := some "one two".toList }

def readIn (path : String) : List Step := [.execute (inTmp "read" path none none)]

theorem edits_guarded_read : Guarded ⟨true, true⟩ ['/'] (readIn "a.txt")
      (inTmp "edit" "./sub/../a.txt" (some "two") (some "three")) := by
  refine edits_guarded rfl (readIn "a.txt" ++
    [.execute (inTmp "edit" "./sub/../a.txt" (some "two") (some "three"))]) ?_ _ [] _ rfl
  rintro (_ | ⟨first, _ | ⟨second, more⟩⟩) call back split_
  · intro _ record found
    cases found
  · cases split_
    intro _ record _ _
    decide
  · simp [readIn] at split_

/-- A file of a directory in the workspace was read; under its absolute path the tool edits
the file of this name at the root, which was not. -/
theorem unread_file_edited :
    refused ⟨true, true⟩ ['/'] (inTmp "edit" "/tmp/ws/sub/a.txt" (some "two") (some "three"))
        (run ⟨true, true⟩ ['/'] (readIn "sub/a.txt")) = none ∧
      (inTmp "edit" "/tmp/ws/sub/a.txt" (some "two") (some "three")).edited ['/'] =
        some "/tmp/ws/a.txt".toList ∧
      ¬ Guarded ⟨true, true⟩ ['/'] (readIn "sub/a.txt")
        (inTmp "edit" "/tmp/ws/sub/a.txt" (some "two") (some "three")) := by
  have passes : refused ⟨true, true⟩ ['/'] (inTmp "edit" "/tmp/ws/sub/a.txt" (some "two")
      (some "three")) (run ⟨true, true⟩ ['/'] (readIn "sub/a.txt")) = none := by decide
  have edits : (inTmp "edit" "/tmp/ws/sub/a.txt" (some "two") (some "three")).edited ['/'] =
      some "/tmp/ws/a.txt".toList := by decide
  refine ⟨passes, edits, fun guarded => ?_⟩
  obtain ⟨_, ⟨front, last, back, output, split_, reads, at_, -⟩, -⟩ := guarded passes _ edits
  cases front with
  | nil =>
    cases split_
    have path : ((inTmp "read" "sub/a.txt" none none).output ['/']).map ReadOutput.path =
        some "/tmp/ws/sub/a.txt".toList := by decide
    rw [reads.2.2, Option.map_some, at_] at path
    exact absurd path (by decide)
  | cons first more => simp [readIn] at split_

end QiongQi.ReadTrackers
