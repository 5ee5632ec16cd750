import Mathlib.Data.Rat.Cast.Defs
import QiongQi.RuntimeContracts
import QiongQi.TurnItems

/-! Threads and their turns, as `contracts/src/threads.ts` and `turns.ts` have them, and
the helpers of `domain/src/thread.ts`, `turn.ts` and `thread-title.ts`. -/
namespace QiongQi.ThreadRecords
open RuntimeContracts TurnItems

inductive TurnStatus where
  | queued | running | completed | failed | aborted
  deriving DecidableEq

/-- The statuses a turn is finished with. -/
inductive FinalStatus where
  | completed | failed | aborted
  deriving DecidableEq

def FinalStatus.turnStatus : FinalStatus → TurnStatus
  | .completed => .completed
  | .failed => .failed
  | .aborted => .aborted

def FinalStatus.itemStatus : FinalStatus → ItemStatus
  | .completed => .completed
  | .failed => .failed
  | .aborted => .aborted

inductive ThreadMode where
  | agent | plan
  deriving DecidableEq

inductive ReasoningEffort where
  | auto | off | low | medium | high | max
  deriving DecidableEq

inductive GuiPlanOperation where
  | draft | refine
  deriving DecidableEq

structure GuiPlanContext where
  operation : GuiPlanOperation
  workspaceRoot : String
  relativePath : String
  planId : String
  sourceRequest : Option String := none
  title : Option String := none
  deriving DecidableEq

structure Turn where
  id : String
  threadId : String
  status : TurnStatus
  prompt : String
  model : Option String := none
  reasoningEffort : Option ReasoningEffort := none
  steering : List String := []
  createdAt : String
  startedAt : Option String := none
  finishedAt : Option String := none
  items : List TurnItem := []
  attachmentIds : List String := []
  workModeId : Option String := none
  activeSkillIds : List String := []
  explicitSkillIds : List String := []
  injectedMemoryIds : List String := []
  skillInjectionBytes : Option Nat := none
  toolCatalogFingerprint : Option String := none
  toolCatalogToolCount : Option Nat := none
  toolCatalogDrift : Option Bool := none
  guiPlan : Option GuiPlanContext := none
  mode : Option ThreadMode := none
  error : Option String := none
  deriving DecidableEq

/-- A text that a spread keeps only when it is truthy. -/
def truthy (text : Option String) : Option String :=
  text.filter (· ≠ "")

structure TurnInput where
  id : String
  threadId : String
  prompt : String
  model : Option String := none
  reasoningEffort : Option ReasoningEffort := none
  attachmentIds : List String := []
  workModeId : Option String := none
  guiPlan : Option GuiPlanContext := none
  mode : Option ThreadMode := none

def createTurnRecord (input : TurnInput) (createdAt : String) : Turn :=
  { id := input.id
    threadId := input.threadId
    status := .queued
    prompt := input.prompt
    attachmentIds := input.attachmentIds
    workModeId := truthy input.workModeId
    model := truthy (input.model.map jsTrim)
    reasoningEffort := input.reasoningEffort.filter (· ≠ .auto)
    guiPlan := input.guiPlan
    mode := input.mode
    createdAt := createdAt }

def appendTurnItem (turn : Turn) (item : TurnItem) : Turn :=
  if turn.items.any (·.id = item.id) then
    { turn with items := turn.items.map fun existing => if existing.id = item.id then item else existing }
  else { turn with items := turn.items ++ [item] }

def startTurn (turn : Turn) (startedAt : String) : Turn :=
  { turn with status := .running, startedAt := some startedAt }

def finishTurn (turn : Turn) (status : FinalStatus) (finishedAt : String) : Turn :=
  { turn with status := status.turnStatus, finishedAt := some finishedAt, steering := [] }

def makeUserItem (id turnId text : String) (attachmentIds : List String) (createdAt : String) :
    TurnItem :=
  { id, turnId, status := .completed, createdAt, finishedAt := some createdAt
    body := .userMessage text (attachmentIds.filter fun id => jsTrim id ≠ "") }

def makeErrorItem (turnId message createdAt : String) : TurnItem :=
  { id := s!"item_{turnId}_error", turnId, status := .failed, createdAt
    finishedAt := some createdAt, body := .error message none }

inductive ThreadStatus where
  | idle | running | archived | deleted
  deriving DecidableEq

inductive ThreadRelation where
  | primary | fork | side
  deriving DecidableEq

inductive ApprovalPolicy where
  | onRequest | untrusted | never | auto | suggest
  deriving DecidableEq

inductive SandboxMode where
  | readOnly | workspaceWrite | dangerFullAccess | externalSandbox
  deriving DecidableEq

inductive ThreadGoalStatus where
  | active | paused | blocked | usageLimited | budgetLimited | complete
  deriving DecidableEq

structure ThreadGoal where
  threadId : String
  objective : String
  status : ThreadGoalStatus
  tokenBudget : Option Nat := none
  tokensUsed : Nat
  timeUsedSeconds : Nat
  createdAt : String
  updatedAt : String
  deriving DecidableEq

inductive ThreadTodoStatus where
  | pending | inProgress | completed
  deriving DecidableEq

/-- Where a todo comes from; the one kind of source is a plan. -/
structure ThreadTodoSource where
  planId : String
  relativePath : String
  ordinal : Nat
  contentHash : String
  deriving DecidableEq

structure ThreadTodoItem where
  id : String
  content : String
  status : ThreadTodoStatus
  source : Option ThreadTodoSource := none
  createdAt : String
  updatedAt : String
  deriving DecidableEq

structure ThreadTodoList where
  threadId : String
  items : List ThreadTodoItem
  updatedAt : String
  deriving DecidableEq

structure ThreadRecord where
  id : String
  ownerUserId : Option String := none
  title : String
  workspace : String
  model : String
  mode : ThreadMode := .agent
  workModeId : String := "office"
  workModeModuleId : Option String := none
  status : ThreadStatus := .idle
  approvalPolicy : ApprovalPolicy := .auto
  sandboxMode : SandboxMode := .dangerFullAccess
  costBudgetUsd : Option ℚ := none
  costBudgetWarningSent : Option Bool := none
  relation : ThreadRelation := .primary
  parentThreadId : Option String := none
  forkedFromThreadId : Option String := none
  forkedFromTitle : Option String := none
  forkedAt : Option String := none
  forkedFromMessageCount : Option Nat := none
  forkedFromTurnCount : Option Nat := none
  goal : Option ThreadGoal := none
  todos : Option ThreadTodoList := none
  createdAt : String
  updatedAt : String
  turns : List Turn := []
  deriving DecidableEq

def touchThread (thread : ThreadRecord) (updatedAt : String) : ThreadRecord :=
  { thread with updatedAt }

/-- The UTF-16 code units of a character. -/
def codeUnits (c : Char) : List Nat :=
  if c.toNat < 0x10000 then [c.toNat]
  else [0xd800 + (c.toNat - 0x10000) / 0x400, 0xdc00 + (c.toNat - 0x10000) % 0x400]

/-- `text.length`. -/
def jsLength (text : List Char) : Nat :=
  (text.map fun c => (codeUnits c).length).sum

/-- `text.slice(0, units)`, without the first half of a pair that it would cut. -/
def sliceUnits : Nat → List Char → List Char
  | _, [] => []
  | units, c :: rest =>
    if (codeUnits c).length ≤ units then c :: sliceUnits (units - (codeUnits c).length) rest else []

/-- `text.replace(/\s+/g, ' ')`. -/
def collapseSpaces : List Char → List Char
  | [] => []
  | c :: rest =>
    let others := collapseSpaces rest
    if isJsSpace c then
      match rest with
      | next :: _ => if isJsSpace next then others else ' ' :: others
      | [] => [' ']
    else c :: others

def trimEndChars (chars : List Char) : List Char :=
  (chars.reverse.dropWhile isJsSpace).reverse

def isTitleMark (c : Char) : Bool :=
  c = '#' || c = '>' || c = '*' || c = '-' || isJsSpace c

def deriveThreadTitle (prompt : String) : String :=
  let normalized := trimChars ((collapseSpaces prompt.toList).dropWhile isTitleMark)
  if normalized = [] then "New chat"
  else if 48 < jsLength normalized then
    String.ofList (trimEndChars (sliceUnits 48 normalized)) ++ "..."
  else String.ofList normalized

def isDefaultThreadTitle (toLowerCase : String → String) (title : String) : Bool :=
  let normalized := toLowerCase (jsTrim title)
  normalized = "" || normalized = "new chat" || normalized = "untitled" || normalized = "未命名"

def deriveFirstTurnTitlePatch (toLowerCase : String → String) (thread : ThreadRecord)
    (prompt : String) : Option String :=
  if !thread.turns.isEmpty || !isDefaultThreadTitle toLowerCase thread.title then none
  else if deriveThreadTitle prompt ≠ thread.title then some (deriveThreadTitle prompt) else none

end QiongQi.ThreadRecords
