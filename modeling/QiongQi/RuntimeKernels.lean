import Mathlib.Data.List.Dedup
import Mathlib.Data.List.Sort
import QiongQi.Programs
import QiongQi.MiddlewareCommands
import QiongQi.ExecutionGraphs

/-! `runtime-kernel.ts`: the durable loop that walks an execution graph. The
kernel is written as a program over its stores, its lease, its middleware and
whatever its node handlers call; the functions that compute the next state are
ordinary functions. -/
namespace QiongQi.RuntimeKernels
open JsonValues Programs RuntimeContracts MiddlewareCommands ExecutionGraphs

inductive RuntimeHook where
  | beforeRun | beforeNode | afterNode | afterRun | onError
  deriving DecidableEq

inductive RuntimeKernelCrashPoint where
  | afterNodeCompleted | afterNodeMiddleware | afterNodeAfterMiddlewareEvent

/-- What code outside the kernel throws: an `Error`, or any other value with
its text. -/
inductive ForeignError where
  | error (message : String)
  | thrown (text : String)

/-- What passes through the kernel's `catch`: the two private classes are its own. -/
inductive RuntimeError where
  | foreign (error : ForeignError)
  | kernelCrash (original : ForeignError)
  | leaseLost (terminalOutcome : Option RunOutcome)

/-- `new Error(message)`. -/
def RuntimeError.error (message : String) : RuntimeError := .foreign (.error message)

structure LeaseFence where
  holderId : String
  epoch : Nat
  token : String

structure LeaseGrant where
  acquired : Bool
  fence : Option LeaseFence := none

/-- Facts are canonical JSON by the time middleware sees them. -/
structure MiddlewareContext where
  state : RunStateV3
  hook : RuntimeHook
  node : Option RuntimeNode := none
  facts : Option Fields := none
  error : Option RuntimeError := none

/-- The kernel reads nothing but `commands` from a middleware result. -/
structure MiddlewareResult where
  commands : Option JsValue := none

structure RuntimeNodeContext where
  state : RunStateV3
  node : RuntimeNode
  leaseFence : Option LeaseFence

/-- A handler's result. `value` is present exactly when the property is, and
may still be `undefined`. -/
structure RuntimeNodeResult where
  condition : Option String := none
  outcome : Option RunOutcome := none
  commands : Option (List JsValue) := none
  facts : Option (List (String × JsValue)) := none
  value : Option JsValue := none

/-- The awaited operations of a kernel run. `enter` and `leave` mark the call of
a node handler and its result, and `external` is what a handler itself awaits. -/
inductive RuntimeOp (Ext : Type) where
  | acquire
  | renew (fence : Option LeaseFence)
  | isLost
  | release (fence : Option LeaseFence)
  | load
  | save (state : RunStateV3) (fence : Option LeaseFence)
  | listAfter (seq : Nat)
  | append (event : RunEventEnvelope) (fence : Option LeaseFence)
  | middleware (context : MiddlewareContext)
  | crashPoint (point : RuntimeKernelCrashPoint)
  | nowIso
  | enter (nodeId : String)
  | leave (nodeId : String) (result : Option RuntimeNodeResult)
  | external (call : Ext)

variable {Ext : Type} {ExtAnswer : Ext → Type}

@[reducible] def RuntimeAnswer (ExtAnswer : Ext → Type) : RuntimeOp Ext → Type
  | .acquire => LeaseGrant
  | .renew _ => Bool
  | .isLost => Bool
  | .release _ => Unit
  | .load => Option RunStateV3
  | .save _ _ => Unit
  | .listAfter _ => List RunEventEnvelope
  | .append _ _ => RunEventEnvelope
  | .middleware _ => Option MiddlewareResult
  | .crashPoint _ => Unit
  | .nowIso => NonEmptyString
  | .enter _ => Unit
  | .leave _ _ => Unit
  | .external call => ExtAnswer call

abbrev KernelProgram (ExtAnswer : Ext → Type) (α : Type) : Type :=
  Program (RuntimeOp Ext) (RuntimeAnswer ExtAnswer) RuntimeError α

/-- A handler awaits only its own calls: the kernel's stores are not in its hands. -/
abbrev RuntimeNodeHandler (ExtAnswer : Ext → Type) : Type :=
  RuntimeNodeContext → Program Ext ExtAnswer ForeignError (Option RuntimeNodeResult)

/-- The kernel's options; its constructor refuses a graph that does not validate.
The two schema fields stand for
`ModelProposalSchema.safeParse` (with the number of tool intents) and
`TaskStateV1Schema.safeParse`, which only the graph migration asks. -/
structure RuntimeKernel (ExtAnswer : Ext → Type) where
  graph : ExecutionGraph
  accepted : validateExecutionGraph graph = .ok graph
  nodes : String → Option (RuntimeNodeHandler ExtAnswer)
  proposalIntents : JsValue → Option Nat
  isTaskState : JsValue → Bool

structure CompletedNodePayload where
  nodeId : String
  stepIndex : Nat
  condition : String
  commands : List MiddlewareCommand
  facts : Option Fields := none
  value : Option JsValue := none
  outcome : Option RunOutcome := none

structure AfterMiddlewarePayload where
  nodeId : String
  stepIndex : Nat
  commands : List MiddlewareCommand
  outcome : Option RunOutcome := none

structure PendingAfterMiddleware where
  node : RuntimeNode
  completed : CompletedNodePayload

/-- The outcome object as a payload carries it. -/
def outcomeToJs (outcome : RunOutcome) : JsValue :=
  .object <| [("status", (namedJson outcomeStatuses outcome.status).toJs),
      ("reason", (namedJson outcomeReasons outcome.reason).toJs)] ++
    (match outcome.userVisibleItemId with
      | none => []
      | some itemId => [("userVisibleItemId", .string itemId)]) ++
    [("retryable", .bool outcome.retryable)] ++
    (match outcome.details with
      | none => []
      | some details => [("details", .object details)])

def outcomeFromJs : JsValue → Option RunOutcome
  | .object fields => do
    let status ← parseEnum outcomeStatuses ((fields.lookup "status").bind JsValue.serialize)
    let reason ← parseEnum outcomeReasons ((fields.lookup "reason").bind JsValue.serialize)
    let retryable ← match fields.lookup "retryable" with
      | some (.bool retryable) => some retryable
      | _ => none
    some { status, reason, retryable
           userVisibleItemId := match fields.lookup "userVisibleItemId" with
             | some (.string itemId) => some itemId
             | _ => none
           details := match fields.lookup "details" with
             | some (.object details) => some details
             | _ => none }
  | _ => none

/-- A property that is there only when it has a value. -/
def presentField (key : String) (toJs : α → JsValue) : Option α → List (String × JsValue)
  | none => []
  | some value => [(key, toJs value)]

def CompletedNodePayload.fields (payload : CompletedNodePayload) : List (String × JsValue) :=
  [("nodeId", .string payload.nodeId), ("stepIndex", .number (.finite payload.stepIndex)),
    ("condition", .string payload.condition),
    ("commands", (commandsJson payload.commands).toJs)] ++
    presentField "facts" (fun facts => (Json.object facts).toJs) payload.facts ++
    presentField "value" id payload.value ++
    presentField "outcome" outcomeToJs payload.outcome

/-- The payload object of a `node.completed` event. -/
def CompletedNodePayload.toJs (payload : CompletedNodePayload) : JsValue :=
  .object payload.fields

def AfterMiddlewarePayload.fields (payload : AfterMiddlewarePayload) : List (String × JsValue) :=
  [("nodeId", .string payload.nodeId), ("stepIndex", .number (.finite payload.stepIndex)),
    ("commands", (commandsJson payload.commands).toJs)] ++
    presentField "outcome" outcomeToJs payload.outcome

/-- The payload object of a `node.after_middleware` event. -/
def AfterMiddlewarePayload.toJs (payload : AfterMiddlewarePayload) : JsValue :=
  .object payload.fields

def requireName (fields : List (String × JsValue)) (key message : String) : Except String String :=
  match fields.lookup key with
  | some (.string name) => if name = "" then .error message else .ok name
  | _ => .error message

def requireStepIndex (fields : List (String × JsValue)) (message : String) : Except String Nat :=
  match fields.lookup "stepIndex" with
  | some (.number (.finite number)) =>
    if number.den = 1 ∧ 0 ≤ number.num then .ok number.num.toNat else .error message
  | some (.number .negativeZero) => .ok 0
  | _ => .error message

def requireCommands (fields : List (String × JsValue)) (message : String) :
    Except String (List JsValue) :=
  match fields.lookup "commands" with
  | some (.array commands) => .ok commands
  | _ => .error message

/-- `record.facts`: absent, `undefined`, or an object. -/
def optionalFacts (fields : List (String × JsValue)) : Except String (Option Fields) :=
  match fields.lookup "facts" with
  | none | some .undefined => .ok none
  | some (.object facts) => .ok (some (serializeFields facts))
  | _ => .error "invalid node.completed facts"

def parseCompletedNodePayload : JsValue → Except String CompletedNodePayload
  | .object fields => do
    let nodeId ← requireName fields "nodeId" "invalid node.completed nodeId"
    let stepIndex ← requireStepIndex fields "invalid node.completed stepIndex"
    let condition ← requireName fields "condition" "invalid node.completed condition"
    let rawCommands ← requireCommands fields "invalid node.completed commands"
    let facts ← optionalFacts fields
    let commands ← canonicalizeMiddlewareCommands (.array rawCommands)
    return { nodeId, stepIndex, condition, commands, facts
             value := fields.lookup "value"
             outcome := (fields.lookup "outcome").bind outcomeFromJs }
  | .array _ => .error "invalid node.completed nodeId"
  | _ => .error "invalid node.completed payload"

def parseAfterMiddlewarePayload : JsValue → Except String AfterMiddlewarePayload
  | .object fields => do
    let nodeId ← requireName fields "nodeId" "invalid node.after_middleware nodeId"
    let stepIndex ← requireStepIndex fields "invalid node.after_middleware stepIndex"
    let rawCommands ← requireCommands fields "invalid node.after_middleware commands"
    let commands ← canonicalizeMiddlewareCommands (.array rawCommands)
    return { nodeId, stepIndex, commands
             outcome := (fields.lookup "outcome").bind outcomeFromJs }
  | .array _ => .error "invalid node.after_middleware nodeId"
  | _ => .error "invalid node.after_middleware payload"

def assertAfterMiddlewareMatches (completed : CompletedNodePayload)
    (after : AfterMiddlewarePayload) : Except String Unit :=
  if after.nodeId ≠ completed.nodeId ∨ after.stepIndex ≠ completed.stepIndex then
    .error "node.after_middleware does not match node.completed"
  else .ok ()

def isTerminal (state : RunStateV3) : Bool :=
  state.status = .completed || state.status = .degraded || state.status = .failed ||
    state.status = .aborted || state.status = .suspended

def terminalStatus : RunStatus → OutcomeStatus
  | .completed => .completed
  | .degraded => .degraded
  | .aborted => .aborted
  | .suspended => .suspended
  | .failed | .created | .running => .failed

/-- Only asked of terminal states, whose status is an outcome's. -/
def outcomeFromTerminalState (state : RunStateV3) : RunOutcome :=
  state.outcome.getD
    { status := terminalStatus state.status, reason := .runtimeError, retryable := false }

def codeDetails (code : String) : List (String × JsValue) := [("code", .string code)]

def leaseUnavailableOutcome : RunOutcome :=
  { status := .failed, reason := .runtimeError, retryable := true
    details := some (codeDetails "lease_unavailable") }

def checkpointsBefore (node : RuntimeNode) : Bool :=
  node.checkpoint = .before || node.checkpoint = .both

def checkpointsAfter (node : RuntimeNode) : Bool :=
  node.checkpoint = .after || node.checkpoint = .both

def withOutcome (state : RunStateV3) (outcome : RunOutcome) (now : NonEmptyString) : RunStateV3 :=
  if isTerminal state then state
  else { state with status := outcome.status.toRunStatus, outcome := some outcome, updatedAt := now }

def nodeFor (graph : ExecutionGraph) (nodeId : String) : Except String RuntimeNode :=
  match graph.nodes.find? fun candidate => candidate.id = nodeId with
  | some node => .ok node
  | none => .error s!"unknown graph node: {nodeId}"

/-- The outcome of the first `terminate` or `suspend`. -/
def commandOutcome : List MiddlewareCommand → Option RunOutcome
  | [] => none
  | .terminate outcome _ :: _ => some outcome.outcome
  | .suspend outcome _ :: _ => some outcome.outcome
  | _ :: rest => commandOutcome rest

/-- The last `jump` of a command list. -/
def lastJump (commands : List MiddlewareCommand) : Option (String × String) :=
  commands.reverse.findSome? fun
    | .jump nodeId _ reason => some (nodeId.text, reason.text)
    | _ => none

def lastRetry (commands : List MiddlewareCommand) : Option String :=
  commands.reverse.findSome? fun
    | .retry reason => some reason.text
    | _ => none

def BudgetState.get (budgets : BudgetState) : BudgetKey → ℚ
  | .stepsUsed => budgets.stepsUsed
  | .toolCallsUsed => budgets.toolCallsUsed
  | .inputTokens => budgets.inputTokens
  | .outputTokens => budgets.outputTokens
  | .costUsd => budgets.costUsd

def BudgetState.set (budgets : BudgetState) (key : BudgetKey) (value : ℚ) : BudgetState :=
  match key with
  | .stepsUsed => { budgets with stepsUsed := value }
  | .toolCallsUsed => { budgets with toolCallsUsed := value }
  | .inputTokens => { budgets with inputTokens := value }
  | .outputTokens => { budgets with outputTokens := value }
  | .costUsd => { budgets with costUsd := value }

def deltaFor (delta : List BudgetEntry) (key : BudgetKey) : ℚ :=
  ((delta.find? fun entry => entry.key = key).map BudgetEntry.value).getD 0

/-- `Number.isFinite` of a sum: what exceeds `Number.MAX_VALUE` is `Infinity`. -/
def isFiniteCost (value : ℚ) : Bool :=
  value < 2 ^ 1024

def addBudgetKey (delta : List BudgetEntry) (budgets : BudgetState) (key : BudgetKey) :
    Except String BudgetState :=
  let total := BudgetState.get budgets key + deltaFor delta key
  if key = .costUsd then
    if isFiniteCost total then .ok (BudgetState.set budgets key total)
    else .error s!"budget overflow: {key.name}"
  else if isSafeInteger total then .ok (BudgetState.set budgets key total)
  else .error s!"unsafe budget total: {key.name}"

def budgetAccounting (ids : List String) : MiddlewareState :=
  { version := ⟨1, Nat.one_pos, one_safe⟩
    data := .object [("processedUsageIds", .array ((ids.insertionSort (· ≤ ·)).map Json.string))] }

def usageIdsOf : Json → Option (List String)
  | .object fields =>
    match fields.lookup "processedUsageIds" with
    | some (.array ids) => ids.mapM fun
      | .string id => if id = "" then none else some id
      | _ => none
    | _ => none
  | _ => none

def hasUsageIdArray : Json → Bool
  | .object fields =>
    match fields.lookup "processedUsageIds" with
    | some (.array _) => true
    | _ => false
  | _ => false

def budgetUsageIdSet (state : RunStateV3) : Except String (List String) :=
  match state.middleware.lookup "budget-accounting" with
  | none => .ok []
  | some accounting =>
    if accounting.version.value ≠ 1 then
      .error s!"unsupported budget-accounting middleware version: {accounting.version.value}"
    else if hasUsageIdArray accounting.data then
      match usageIdsOf accounting.data with
      | some ids => .ok ids.dedup
      | none => .error "invalid budget-accounting usage ids"
    else .error "invalid budget-accounting middleware state"

/-- `addBudget`, with the set of usage ids it extends. -/
def addBudget (state : RunStateV3) (delta : List BudgetEntry) (usageId : Option NonBlankString)
    (processed : List String) : Except String (RunStateV3 × List String) :=
  match usageId with
  | none => do
    let budgets ← budgetKeys.foldlM (addBudgetKey delta) state.budgets
    return ({ state with budgets }, processed)
  | some usageId =>
    if processed.contains usageId.text then .ok (state, processed)
    else do
      let budgets ← budgetKeys.foldlM (addBudgetKey delta) state.budgets
      let extended := processed ++ [usageId.text]
      return ({ state with
        budgets
        middleware := assign state.middleware "budget-accounting" (budgetAccounting extended) },
        extended)

/-- `processedUsageIds ??= budgetUsageIdSet(next)`. -/
def processedUsageIds (state : RunStateV3) : Option (List String) → Except String (List String)
  | some ids => .ok ids
  | none => budgetUsageIdSet state

/-- One command; `processed` caches the usage ids between `add-budget` commands. -/
def applyCommand (state : RunStateV3) (processed : Option (List String)) :
    MiddlewareCommand → Except String (RunStateV3 × Option (List String))
  | .setMiddlewareState id middlewareState =>
    .ok ({ state with middleware := assign state.middleware id.text middlewareState },
      if id.text = "budget-accounting" then none else processed)
  | .setBudget entry =>
    .ok ({ state with budgets := BudgetState.set state.budgets entry.key entry.value }, processed)
  | .addBudget delta usageId => do
    let ids ← processedUsageIds state processed
    let (next, extended) ← addBudget state delta usageId ids
    return (next, some extended)
  | .setNodeData nodeId value =>
    .ok ({ state with nodeData := assign state.nodeData nodeId.text value.toJs }, processed)
  | .setTaskRevision revision =>
    if revision.value < state.taskRevision.value then
      .error (s!"task revision cannot move backwards: {state.taskRevision.value} -> " ++ s!"{revision.value}")
    else .ok ({ state with taskRevision := revision }, processed)
  | .setRecovery recovery => .ok ({ state with recovery }, processed)
  | .setEffects pendingEffects committedEffects =>
    .ok ({ state with pendingEffects, committedEffects }, processed)
  | .jump _ _ _ | .terminate _ _ | .suspend _ _ | .retry _ | .repairHistory _
  | .recordWarning _ _ => .ok (state, processed)

def applyCommandList (state : RunStateV3) (processed : Option (List String)) :
    List MiddlewareCommand → Except String RunStateV3
  | [] => .ok state
  | command :: rest => do
    let (next, processed) ← applyCommand state processed command
    applyCommandList next processed rest

/-- `applyCommands` validates its commands once more before it applies them. -/
def applyCommands (state : RunStateV3) (commands : List MiddlewareCommand) :
    Except String RunStateV3 := do
  let accepted ← (canonicalizeMiddlewareCommands (commandsJson commands).toJs)
  applyCommandList state none accepted

variable (kernel : RuntimeKernel ExtAnswer)

/-- The node after a completed one, and whether its edge is a loop edge. -/
def nextNode (nodeId : String) (payload : CompletedNodePayload) : Except String (String × Bool) :=
  match lastJump payload.commands with
  | some (target, _) => .ok (target, false)
  | none =>
    match outgoingEdges kernel.graph nodeId payload.condition with
    | edge :: _ => .ok (edge.to_, edge.loop)
    | [] => .error s!"no graph edge for {nodeId} condition {payload.condition}"

/-- `'value' in payload`: the value is the node's data from now on. -/
def withNodeValue (state : RunStateV3) (nodeId : String) : Option JsValue → RunStateV3
  | none => state
  | some value => { state with nodeData := assign state.nodeData nodeId value }

/-- A completion with an outcome ends the run where it is. -/
def endAt (state : RunStateV3) (outcome : RunOutcome) (checkpointSeq : Nat)
    (now : NonEmptyString) : RunStateV3 :=
  { withOutcome state outcome now with
    cursor := { state.cursor with
      checkpointSeq := max state.cursor.checkpointSeq checkpointSeq }
    updatedAt := now }

/-- A completion without one moves on, and sets the status whatever it was. -/
def advanceTo (state : RunStateV3) (target : String) (loop : Bool) (checkpointSeq : Nat)
    (now : NonEmptyString) : RunStateV3 :=
  { state with
    status := .running
    cursor := { stepIndex := state.cursor.stepIndex + 1
                nodeId := target
                attempt := if loop then state.cursor.attempt + 1 else 0
                checkpointSeq := max state.cursor.checkpointSeq checkpointSeq }
    updatedAt := now }

def reduceCompletedNode (state : RunStateV3) (node : RuntimeNode) (payload : CompletedNodePayload)
    (checkpointSeq : Nat) (now : NonEmptyString) : Except String RunStateV3 := do
  let applied ← applyCommands state payload.commands
  let next := withNodeValue applied node.id payload.value
  match payload.outcome with
  | some outcome => return endAt next outcome checkpointSeq now
  | none => do
    let target ← nextNode kernel node.id payload
    let _ ← nodeFor kernel.graph target.1
    return advanceTo next target.1 target.2 checkpointSeq now

/-- Where a jump or a retry of an `afterNode` command list leads. -/
def middlewareControlTarget (commands : List MiddlewareCommand) (defaultNodeId : String) :
    Option String :=
  match lastJump commands with
  | some (nodeId, _) => some nodeId
  | none =>
    match lastRetry commands with
    | none => none
    | some _ =>
      some (((kernel.graph.nodes.find? fun node => node.id = "build-context").map
        RuntimeNode.id).getD defaultNodeId)

def applyControl (state : RunStateV3) (commands : List MiddlewareCommand) :
    Except String RunStateV3 :=
  match middlewareControlTarget kernel commands state.cursor.nodeId with
  | none => .ok state
  | some nodeId => do
    let _ ← nodeFor kernel.graph nodeId
    return { state with
      cursor := { state.cursor with nodeId, attempt := state.cursor.attempt + 1 } }

/-- The state after the commands of `afterNode`, unless it was terminal already. -/
def afterMiddlewareState (state : RunStateV3) (payload : AfterMiddlewarePayload)
    (now : NonEmptyString) : Except String RunStateV3 :=
  if isTerminal state then .ok state
  else do
    let applied ← applyCommands state payload.commands
    return match payload.outcome <|> commandOutcome payload.commands with
      | some outcome => withOutcome applied outcome now
      | none => applied

/-- Where the cursor goes after `afterNode`, unless the run has ended. -/
def afterMiddlewareCursor (state : RunStateV3) (commands : List MiddlewareCommand) :
    Except String RunStateV3 :=
  if isTerminal state then .ok state else applyControl kernel state commands

def reduceAfterMiddleware (state : RunStateV3) (payload : AfterMiddlewarePayload)
    (checkpointSeq : Nat) (now : NonEmptyString) : Except String RunStateV3 := do
  let outcomed ← afterMiddlewareState state payload now
  let next ← afterMiddlewareCursor kernel outcomed payload.commands
  return { next with
    cursor := { next.cursor with checkpointSeq := max next.cursor.checkpointSeq checkpointSeq }
    updatedAt := now }

def initialState (identity : RunIdentity) (now : NonEmptyString) : RunStateV3 where
  graphVersion := kernel.graph.version
  identity := identity
  status := .created
  cursor := { stepIndex := 0, nodeId := kernel.graph.startNodeId, attempt := 0, checkpointSeq := 0 }
  budgets := {}
  recovery := { attempts := ⟨0, Nat.zero_le maxSafeInteger⟩, maxAttempts := ⟨1, one_safe⟩ }
  middleware := []
  nodeData := []
  taskRevision := ⟨0, Nat.zero_le maxSafeInteger⟩
  pendingEffects := []
  committedEffects := []
  createdAt := now
  updatedAt := now

def productionV1 : String := "kernel-v3-production-v1"
def productionV2 : String := "kernel-v3-production-v2"
def productionV3 : String := "kernel-v3-production-v3"

/-- The version pairs that a stored run may be carried over. -/
def upgradable (stored target : String) : Bool :=
  (stored = productionV1 && target = productionV2) ||
    (target = productionV3 && (stored = productionV1 || stored = productionV2))

def graphCompatibility (state : RunStateV3) : Option RunOutcome :=
  if state.graphVersion = kernel.graph.version then none
  else if upgradable state.graphVersion kernel.graph.version then none
  else some {
    status := .failed
    reason := .runtimeError
    retryable := false
    details := some [("code", .string "unsupported_graph_version"),
      ("storedGraphVersion", .string state.graphVersion),
      ("runtimeGraphVersion", .string kernel.graph.version)] }

def proposalNeedsAccounting (nodeId : String) : Bool :=
  ["evaluate", "commit-assistant", "materialize-proposal", "prepare-tools", "commit-tools",
    "recover-context", "wait-user", "fail"].contains nodeId

def nodeDataAt (state : RunStateV3) (nodeId : String) : JsValue :=
  (state.nodeData.lookup nodeId).getD .undefined

def requireMigratableProposal (state : RunStateV3) (source : String) : Except String Unit :=
  if (kernel.proposalIntents (nodeDataAt state "normalize-proposal")).isNone ||
      !kernel.isTaskState (nodeDataAt state "restore-task") then
    .error s!"{source} snapshot is missing a normalized proposal or task state"
  else .ok ()

def preparedCallId : JsValue → Option String
  | .object call =>
    match call.lookup "callId" with
    | some (.string callId) => if callId = "" then none else some callId
    | _ => none
  | _ => none

/-- The call ids of a `{ calls: [...] }` value. -/
def preparedCallIds : JsValue → List String
  | .object fields =>
    match fields.lookup "calls" with
    | some (.array calls) => calls.filterMap preparedCallId
    | _ => []
  | _ => []

def atNode (state : RunStateV3) (version nodeId : String) : RunStateV3 :=
  { state with graphVersion := version, cursor := { state.cursor with nodeId } }

/-- The accounting detour: the run re-enters at `account-model` and remembers
where to resume. -/
def accountingDetour (state : RunStateV3) (version marker resumeNodeId : String) : RunStateV3 :=
  let moved := atNode state version "account-model"
  if state.cursor.nodeId = "evaluate" then moved
  else { moved with
    nodeData := assign state.nodeData marker (.object [("resumeNodeId", .string resumeNodeId),
      ("consumed", .bool false)]) }

def missingToolProposal : String :=
  "production graph v1 tool snapshot is missing a normalized tool proposal or task state"

/-- The calls that a `commit-tools` snapshot has prepared. -/
def preparedBefore (state : RunStateV3) : List String :=
  if state.cursor.nodeId = "commit-tools" then preparedCallIds (nodeDataAt state "prepare-tools")
  else []

/-- The proposal is evaluated again; prepared calls are left to be reconciled. -/
def revalidateProposal (state : RunStateV3) (version : String) (prepared : List String)
    (now : NonEmptyString) : RunStateV3 :=
  let moved := atNode state version (if version = productionV3 then "account-model" else "evaluate")
  if prepared.isEmpty then moved
  else { moved with
    nodeData := assign state.nodeData "v1-proposal-migration" (.object [
      ("sourceNodeId", .string state.cursor.nodeId),
      ("preparedCallIds", .array (prepared.map JsValue.string)),
      ("reconciled", .bool false),
      ("abortFinishedAt", .string now.text)]) }

def migrateV1Proposal (state : RunStateV3) (now : NonEmptyString) : Except String RunStateV3 :=
  let requiresToolProposal := state.cursor.nodeId ≠ "commit-assistant"
  match kernel.proposalIntents (nodeDataAt state "normalize-proposal") with
  | none => .error missingToolProposal
  | some intents =>
    if !kernel.isTaskState (nodeDataAt state "restore-task") ||
        (requiresToolProposal && intents = 0) then
      .error missingToolProposal
    else if state.cursor.nodeId = "commit-tools" && (preparedBefore state).isEmpty then
      .error "production graph v1 commit-tools snapshot is missing prepared calls"
    else .ok (revalidateProposal state kernel.graph.version (preparedBefore state) now)

def migrateGraphState (state : RunStateV3) (now : NonEmptyString) : Except String RunStateV3 :=
  let version := kernel.graph.version
  if state.graphVersion = version then .ok state
  else if state.graphVersion = productionV2 && version = productionV3 then
    if !proposalNeedsAccounting state.cursor.nodeId then
      .ok { state with graphVersion := version }
    else do
      requireMigratableProposal kernel state "production graph v2"
      return accountingDetour state version "v2-accounting-migration"
        (if state.cursor.nodeId = "commit-tools" then "prepare-tools" else state.cursor.nodeId)
  else if state.graphVersion ≠ productionV1 ||
      (version ≠ productionV2 && version ≠ productionV3) then .ok state
  else if state.cursor.nodeId = "prepare-tools" || state.cursor.nodeId = "commit-tools" ||
      state.cursor.nodeId = "commit-assistant" then
    migrateV1Proposal kernel state now
  else if version = productionV3 && proposalNeedsAccounting state.cursor.nodeId then do
    requireMigratableProposal kernel state "production graph v1"
    return accountingDetour state version "v1-accounting-migration" state.cursor.nodeId
  else .ok { state with graphVersion := version }

def migrateTerminalGraphMetadata (state : RunStateV3) : RunStateV3 :=
  if upgradable state.graphVersion kernel.graph.version then
    { state with graphVersion := kernel.graph.version }
  else state

end QiongQi.RuntimeKernels
