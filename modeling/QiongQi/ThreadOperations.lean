import QiongQi.SharedRecords
import QiongQi.ThreadTodos

/-! The operations of `ThreadService` and `TurnService` on a thread record: what each of
them writes for the record it has read, which fields it sets, and which of those it sets
without a look at the record. -/
namespace QiongQi.ThreadOperations
open TurnItems ThreadRecords ThreadTodos SharedRecords

/-- The patch of `ThreadService.update`; `costBudgetUsd` is `some none` for `null`. -/
structure ThreadPatch where
  title : Option String := none
  workspace : Option String := none
  model : Option String := none
  mode : Option ThreadMode := none
  status : Option ThreadStatus := none
  approvalPolicy : Option ApprovalPolicy := none
  sandboxMode : Option SandboxMode := none
  costBudgetUsd : Option (Option ℚ) := none
  costBudgetWarningSent : Option Bool := none
  relation : Option ThreadRelation := none
  workModeId : Option String := none
  workModeModuleId : Option String := none
  deriving DecidableEq

/-- `tokenBudget` is `some none` for `null`. -/
structure SetThreadGoalRequest where
  objective : Option String := none
  status : Option ThreadGoalStatus := none
  tokenBudget : Option (Option Nat) := none
  deriving DecidableEq

structure GoalElapsedTimer where
  createdAt : String
  objective : String
  deriving DecidableEq

structure StartTurnRequest where
  turnId : String
  prompt : String
  model : Option String := none
  reasoningEffort : Option ReasoningEffort := none
  approvalPolicy : Option ApprovalPolicy := none
  sandboxMode : Option SandboxMode := none
  workModeId : Option String := none
  mode : Option ThreadMode := none
  attachmentIds : List String := []
  guiPlan : Option GuiPlanContext := none
  deriving DecidableEq

/-- A request with the times at which its call looks at the clock. -/
inductive ThreadRequest where
  | update (patch : ThreadPatch) (now : String)
  | setGoal (request : SetThreadGoalRequest) (now : String)
  | setTodos (todos : List RawTodo) (ids : List String) (now : String)
  | finishGoalElapsedTimer (timer : GoalElapsedTimer) (elapsedSeconds : Nat) (now : String)
  | startTurn (request : StartTurnRequest) (createdAt startedAt now : String)
  | finishTurn (turnId : String) (status : FinalStatus) (error : Option String)
      (finishedAt now : String)
  | interruptTurn (turnId : String) (discard : Bool) (finishedAt now : String)
  | projectItem (item : TurnItem) (now : String)
  deriving DecidableEq

/-- A call of `TurnService.upsertThread`. -/
def ThreadRequest.queued : ThreadRequest → Bool
  | .startTurn .. | .finishTurn .. | .interruptTurn .. | .projectItem .. => true
  | _ => false

def update (current : ThreadRecord) (patch : ThreadPatch) (now : String) : ThreadRecord :=
  let merged : ThreadRecord := { current with
    title := patch.title.getD current.title
    workspace := patch.workspace.getD current.workspace
    model := patch.model.getD current.model
    mode := patch.mode.getD current.mode
    status := patch.status.getD current.status
    approvalPolicy := patch.approvalPolicy.getD current.approvalPolicy
    sandboxMode := patch.sandboxMode.getD current.sandboxMode
    relation := patch.relation.getD current.relation
    workModeId := patch.workModeId.getD current.workModeId
    workModeModuleId := patch.workModeModuleId.or current.workModeModuleId }
  let budgeted : ThreadRecord :=
    match patch.costBudgetUsd, patch.costBudgetWarningSent with
    | some none, _ => { merged with costBudgetUsd := none, costBudgetWarningSent := none }
    | some (some budget), _ =>
      { merged with costBudgetUsd := some budget, costBudgetWarningSent := some false }
    | none, some sent => { merged with costBudgetWarningSent := some sent }
    | none, none => merged
  -- promoting a side thread clears its parent link
  let promoted : ThreadRecord :=
    if patch.relation.any (· ≠ .side) then { budgeted with parentThreadId := none } else budgeted
  touchThread promoted now

/-- The goal that `setGoal` stores, or why it refuses. -/
def setGoal (threadId : String) (existing : Option ThreadGoal) (request : SetThreadGoalRequest)
    (now : String) : Except String ThreadGoal :=
  if existing.isNone && (truthy request.objective).isNone then
    .error s!"cannot update goal for thread {threadId}: no goal exists"
  else
    let objective := request.objective.map RuntimeContracts.jsTrim
    .ok {
      threadId
      objective := (objective <|> existing.map (·.objective)).getD ""
      status := request.status.getD
        (if (truthy objective).isSome then .active else (existing.map (·.status)).getD .active)
      tokenBudget := request.tokenBudget.getD (existing.bind (·.tokenBudget))
      tokensUsed := (existing.map (·.tokensUsed)).getD 0
      timeUsedSeconds := (existing.map (·.timeUsedSeconds)).getD 0
      createdAt := (existing.map (·.createdAt)).getD now
      updatedAt := now }

/-- The goal with the time of a turn added, if it is still the goal the timer was started for. -/
def finishGoalElapsedTimer (goal : Option ThreadGoal) (timer : GoalElapsedTimer)
    (elapsedSeconds : Nat) (now : String) : Option ThreadGoal :=
  if elapsedSeconds = 0 then none
  else
    goal.bind fun goal =>
      if goal.createdAt ≠ timer.createdAt || goal.objective ≠ timer.objective then none
      else some { goal with
        timeUsedSeconds := goal.timeUsedSeconds + elapsedSeconds, updatedAt := now }

def finalizeOpenItem (status : FinalStatus) (finishedAt : String) (item : TurnItem) : TurnItem :=
  if !item.isOpen then item
  else
    match item.body with
    | .approval .. => { item with status := .expired, finishedAt := some finishedAt }
    | .userInput .. => { item with status := .cancelled, finishedAt := some finishedAt }
    | _ => { item with status := status.itemStatus, finishedAt := some finishedAt }

def finalizeOpenItems (turn : Turn) (status : FinalStatus) (finishedAt : String) : Turn :=
  { turn with items := turn.items.map (finalizeOpenItem status finishedAt) }

def TurnItem.isUserMessage (item : TurnItem) : Bool :=
  match item.body with
  | .userMessage .. => true
  | _ => false

def keepUserItems (items : List TurnItem) : List TurnItem :=
  items.filter TurnItem.isUserMessage

def onTurn (turnId : String) (change : Turn → Turn) (turns : List Turn) : List Turn :=
  turns.map fun turn => if turn.id = turnId then change turn else turn

def finishedTurn (status : FinalStatus) (error : Option String) (finishedAt : String) (turn : Turn) : Turn :=
  let finished := finalizeOpenItems (ThreadRecords.finishTurn turn status finishedAt) status finishedAt
  match truthy error with
  | some error => { finished with error := some error }
  | none => finished

def interruptedTurn (discard : Bool) (finishedAt : String) (turn : Turn) : Turn :=
  let kept := if discard then { turn with items := keepUserItems turn.items } else turn
  finalizeOpenItems (ThreadRecords.finishTurn kept .aborted finishedAt) .aborted finishedAt

def projectedTurns (item : TurnItem) (turns : List Turn) : List Turn :=
  match turns.find? (·.id = item.turnId) with
  | none => turns
  | some turn => onTurn item.turnId (fun _ => appendTurnItem turn item) turns

/-- The turn that `startTurn` makes before it enters the queue, from the work mode of the
thread as it was then. -/
def preparedTurn (threadId workModeId : String) (request : StartTurnRequest) (createdAt : String) : Turn :=
  createTurnRecord
    { id := request.turnId
      threadId
      prompt := request.prompt
      model := request.model
      reasoningEffort := request.reasoningEffort
      attachmentIds := request.attachmentIds
      workModeId := some workModeId
      guiPlan := request.guiPlan
      mode := request.mode } createdAt

def userItem (request : StartTurnRequest) (createdAt : String) : TurnItem :=
  makeUserItem s!"item_{request.turnId}_user" request.turnId request.prompt
    request.attachmentIds createdAt

/-- A request and, for `startTurn`, the work mode it found when it opened. -/
inductive ThreadOperation where
  | plain (request : ThreadRequest)
  | startTurn (request : StartTurnRequest) (workModeId createdAt startedAt now : String)
  deriving DecidableEq

def settle : ThreadRequest → ThreadRecord → ThreadOperation
  | .startTurn request createdAt startedAt now, thread =>
    .startTurn request (request.workModeId.getD thread.workModeId) createdAt startedAt now
  | request, _ => .plain request

def startedThread (toLowerCase : String → String) (current : ThreadRecord)
    (request : StartTurnRequest) (workModeId createdAt startedAt now : String) : ThreadRecord :=
  let turn := preparedTurn current.id workModeId request createdAt
  { touchThread current now with
    title := (deriveFirstTurnTitlePatch toLowerCase current request.prompt).getD current.title
    approvalPolicy := request.approvalPolicy.getD current.approvalPolicy
    sandboxMode := request.sandboxMode.getD current.sandboxMode
    status := .running
    turns := current.turns ++
      [ThreadRecords.startTurn (appendTurnItem turn (userItem request createdAt)) startedAt] }

def hasTurn (thread : ThreadRecord) (turnId : String) : Bool :=
  thread.turns.any (·.id = turnId)

def interruptedThread (current : ThreadRecord) (turnId : String) (discard : Bool)
    (finishedAt now : String) : ThreadRecord :=
  if hasTurn current turnId then
    { touchThread current now with
      turns := onTurn turnId (interruptedTurn discard finishedAt) current.turns
      status := .idle }
  else touchThread current now

/-- What an operation writes for the record it has read: none if it throws or has nothing
to write. -/
def apply (toLowerCase : String → String) (operation : ThreadOperation) (current : ThreadRecord) :
    Option ThreadRecord :=
  match operation with
  | .startTurn request workModeId createdAt startedAt now =>
    some (startedThread toLowerCase current request workModeId createdAt startedAt now)
  | .plain (.update patch now) => some (update current patch now)
  | .plain (.setGoal request now) =>
    (setGoal current.id current.goal request now).toOption.map fun goal =>
      touchThread { current with goal := some goal } now
  | .plain (.setTodos todos ids now) =>
    let existing := (current.todos.map (·.items)).getD []
    (normalizeTodoItems toLowerCase todos existing now ids).toOption.map fun items =>
      touchThread { current with todos := some ⟨current.id, items, now⟩ } now
  | .plain (.finishGoalElapsedTimer timer elapsedSeconds now) =>
    (ThreadOperations.finishGoalElapsedTimer current.goal timer elapsedSeconds now).map fun goal =>
      touchThread { current with goal := some goal } now
  | .plain (.finishTurn turnId status error finishedAt now) =>
    some { touchThread current now with
      turns := onTurn turnId (finishedTurn status error finishedAt) current.turns
      status := .idle }
  | .plain (.interruptTurn turnId discard finishedAt now) =>
    some (interruptedThread current turnId discard finishedAt now)
  | .plain (.projectItem item now) =>
    some { touchThread current now with turns := projectedTurns item current.turns }
  | .plain (.startTurn _ _ _ _) => none

def threadProtocol (toLowerCase : String → String) :
    Protocol ThreadRequest ThreadOperation ThreadRecord :=
  { settle, apply := apply toLowerCase, queued := ThreadRequest.queued }

inductive ThreadField where
  | id | ownerUserId | title | workspace | model | mode | workModeId | workModeModuleId
  | status | approvalPolicy | sandboxMode | costBudgetUsd | costBudgetWarningSent
  | relation | parentThreadId | forkedFromThreadId | forkedFromTitle | forkedAt
  | forkedFromMessageCount | forkedFromTurnCount | goal | todos | createdAt | updatedAt
  | turns
  deriving DecidableEq

def ThreadField.all : List ThreadField :=
  [.id, .ownerUserId, .title, .workspace, .model, .mode, .workModeId, .workModeModuleId,
   .status, .approvalPolicy, .sandboxMode, .costBudgetUsd, .costBudgetWarningSent, .relation,
   .parentThreadId, .forkedFromThreadId, .forkedFromTitle, .forkedAt, .forkedFromMessageCount,
   .forkedFromTurnCount, .goal, .todos, .createdAt, .updatedAt, .turns]

def SameField (left right : ThreadRecord) : ThreadField → Prop
  | .id => left.id = right.id
  | .ownerUserId => left.ownerUserId = right.ownerUserId
  | .title => left.title = right.title
  | .workspace => left.workspace = right.workspace
  | .model => left.model = right.model
  | .mode => left.mode = right.mode
  | .workModeId => left.workModeId = right.workModeId
  | .workModeModuleId => left.workModeModuleId = right.workModeModuleId
  | .status => left.status = right.status
  | .approvalPolicy => left.approvalPolicy = right.approvalPolicy
  | .sandboxMode => left.sandboxMode = right.sandboxMode
  | .costBudgetUsd => left.costBudgetUsd = right.costBudgetUsd
  | .costBudgetWarningSent => left.costBudgetWarningSent = right.costBudgetWarningSent
  | .relation => left.relation = right.relation
  | .parentThreadId => left.parentThreadId = right.parentThreadId
  | .forkedFromThreadId => left.forkedFromThreadId = right.forkedFromThreadId
  | .forkedFromTitle => left.forkedFromTitle = right.forkedFromTitle
  | .forkedAt => left.forkedAt = right.forkedAt
  | .forkedFromMessageCount => left.forkedFromMessageCount = right.forkedFromMessageCount
  | .forkedFromTurnCount => left.forkedFromTurnCount = right.forkedFromTurnCount
  | .goal => left.goal = right.goal
  | .todos => left.todos = right.todos
  | .createdAt => left.createdAt = right.createdAt
  | .updatedAt => left.updatedAt = right.updatedAt
  | .turns => left.turns = right.turns

instance (left right : ThreadRecord) (field : ThreadField) :
    Decidable (SameField left right field) := by
  cases field <;> exact inferInstanceAs (Decidable (_ = _))

instance {p : ThreadField → Prop} [DecidablePred p] : Decidable (∀ field, p field) :=
  decidable_of_iff (∀ field ∈ ThreadField.all, p field)
    ⟨fun holds field => holds field (by cases field <;> decide), fun holds field _ => holds field⟩

theorem same_of_fields (same : ∀ field, SameField left right field) : left = right := by
  cases left
  cases right
  simp only [ThreadRecord.mk.injEq]
  exact ⟨same .id, same .ownerUserId, same .title, same .workspace, same .model, same .mode, same .workModeId, same .workModeModuleId, same .status, same .approvalPolicy, same .sandboxMode, same .costBudgetUsd, same .costBudgetWarningSent, same .relation, same .parentThreadId, same .forkedFromThreadId, same .forkedFromTitle, same .forkedAt, same .forkedFromMessageCount, same .forkedFromTurnCount, same .goal, same .todos, same .createdAt, same .updatedAt, same .turns⟩

/-- The operation gives the field a value that does not depend on the field. -/
def overwrites (operation : ThreadOperation) (current : ThreadRecord) (field : ThreadField) : Bool :=
  field = .updatedAt ||
  match operation, field with
  | .startTurn _ _ _ _ _, .status => true
  | .startTurn request _ _ _ _, .approvalPolicy => request.approvalPolicy.isSome
  | .startTurn request _ _ _ _, .sandboxMode => request.sandboxMode.isSome
  | .plain (.update patch _), .title => patch.title.isSome
  | .plain (.update patch _), .workspace => patch.workspace.isSome
  | .plain (.update patch _), .model => patch.model.isSome
  | .plain (.update patch _), .mode => patch.mode.isSome
  | .plain (.update patch _), .status => patch.status.isSome
  | .plain (.update patch _), .approvalPolicy => patch.approvalPolicy.isSome
  | .plain (.update patch _), .sandboxMode => patch.sandboxMode.isSome
  | .plain (.update patch _), .costBudgetUsd => patch.costBudgetUsd.isSome
  | .plain (.update patch _), .costBudgetWarningSent =>
    patch.costBudgetUsd.isSome || patch.costBudgetWarningSent.isSome
  | .plain (.update patch _), .relation => patch.relation.isSome
  | .plain (.update patch _), .parentThreadId => patch.relation.any (· ≠ .side)
  | .plain (.update patch _), .workModeId => patch.workModeId.isSome
  | .plain (.update patch _), .workModeModuleId => patch.workModeModuleId.isSome
  | .plain (.finishTurn ..), .status => true
  | .plain (.interruptTurn turnId _ _ _), .status => hasTurn current turnId
  | _, _ => false

/-- The operation gives the field a value that it works out from the record. -/
def derives (toLowerCase : String → String) (operation : ThreadOperation)
    (current : ThreadRecord) (field : ThreadField) : Bool :=
  match operation, field with
  | .startTurn .., .turns => true
  | .startTurn request _ _ _ _, .title =>
    (deriveFirstTurnTitlePatch toLowerCase current request.prompt).isSome
  | .plain (.setGoal ..), .goal => true
  | .plain (.setTodos ..), .todos => true
  | .plain (.finishGoalElapsedTimer ..), .goal => true
  | .plain (.finishTurn ..), .turns => true
  | .plain (.interruptTurn turnId _ _ _), .turns => hasTurn current turnId
  | .plain (.projectItem ..), .turns => true
  | _, _ => false

/-- The operation sets the field. -/
def sets (toLowerCase : String → String) (operation : ThreadOperation) (current : ThreadRecord)
    (field : ThreadField) : Bool :=
  overwrites operation current field || derives toLowerCase operation current field

/-- The two records are the same in every field that the operation does not overwrite. -/
def Agrees (operation : ThreadOperation) (snapshot stored : ThreadRecord) : Prop :=
  ∀ field, overwrites operation snapshot field = false → SameField snapshot stored field

instance (operation : ThreadOperation) (snapshot stored : ThreadRecord) :
    Decidable (Agrees operation snapshot stored) :=
  inferInstanceAs (Decidable (∀ _, _ → _))

end QiongQi.ThreadOperations
