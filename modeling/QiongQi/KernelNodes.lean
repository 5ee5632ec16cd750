import QiongQi.KernelGraphs
import QiongQi.KeyedMaps
import QiongQi.KernelRuns
import QiongQi.ModelProposals

/-! `kernel-v3-node-handlers.ts`: the handlers of production turns, each a program
over what it awaits from the stores, the prompt builder, the model and the tools.
Node data are read back from the run state as JavaScript values. -/
namespace QiongQi.KernelNodes
open JsonValues JsonSchemas Programs RuntimeContracts MiddlewareCommands RuntimeKernels TaskStates
  ModelProposals KeyedMaps

structure TaskTodoProjection where
  id : String
  content : String
  status : ActionStatus

/-- What the handlers read of a thread and of a turn. -/
structure ThreadView where
  ownerUserId : Option String := none
  workspace : String
  todos : Option (List TaskTodoProjection) := none

structure TurnView where
  threadId : String
  status : String

inductive LegacyMigrationResult where
  | created (task : TaskStateV1)
  | existing (task : TaskStateV1)
  | insufficientTrustedSource (reason : String)
  | scopeViolation (reason : String)

structure ToolEffectPolicy where
  effect : EffectClass
  replay : ReplayPolicy
  concurrencyKey : Option NonEmptyString := none

/-- The request a built prompt comes with, its abort signal left out. -/
structure PromptRequest where
  contextInstructions : Option (List String) := none
  fields : List (String × Json)

structure BuiltContext where
  request : PromptRequest
  toolPolicies : List (String × Option ToolEffectPolicy)
  runtimeContext : Json
  compactionGovernorState : Option Json := none

inductive PromptBuild where
  | aborted
  | stopped
  | built (context : BuiltContext)

/-- The item of a tool host's result; `output` is its output where it is a tool
result. -/
structure ResultItem where
  isToolResult : Bool
  isError : Bool
  output : JsValue
  body : JsValue

/-- `ToolRuntimeV3Result`, with the two effect lists of its state. -/
structure ToolExecution where
  pendingEffects : List EffectIntent
  committedEffects : List CommittedEffectRef
  result : Option ResultItem := none
  observation : Option ToolObservation := none
  outcome : Option RunOutcome := none

structure RuntimeProgress where
  phase : String
  summary : String
  modelSteps : ℚ
  toolCalls : ℚ
  evidenceCount : Nat := 0
  artifactCount : Nat := 0
  reason : Option String := none

/-- The items that handlers hand to the turn service. -/
inductive NodeItem where
  | assistantReasoning (id text : String)
  | assistantText (id text : String)
  | toolCall (id : String) (call : ModelToolIntent)
  | toolResult (result : ResultItem)
  | runtimeProgress (id : String) (progress : RuntimeProgress)

/-- The fields of an item that handlers update. -/
inductive ItemUpdate where
  | status (status : String) (finishedAt : JsValue)
  | progress (progress : RuntimeProgress)

inductive KernelCall where
  | getThread
  | getTurn
  | abortSignal
  | loadItems
  | loadTask
  | migrateLegacyTask
  | prepareTask (task : TaskStateV1) (expectedRevision : Nat)
  | commitTask (task : TaskStateV1)
  | abortTask (task : TaskStateV1)
  | buildPrompt (stepIndex : Nat) (compactionGovernorState : Option Json) (forceCompaction : Bool)
  | runProposal (request : JsValue)
  | applyItemOnce (item : NodeItem)
  | applyItem (item : NodeItem)
  | updateItemOnce (itemId : String) (update : ItemUpdate)
  | updateItem (itemId : String) (update : ItemUpdate)
  | createToolContext
  | executeTool (call : ModelToolIntent) (policy : ToolEffectPolicy)
      (pendingEffects : List EffectIntent) (committedEffects : List CommittedEffectRef)
  | nowIso

/-- An abort signal is `none` where the turn has no controller. -/
@[reducible] def KernelAnswer : KernelCall → Type
  | .getThread => Option ThreadView
  | .getTurn => Option TurnView
  | .abortSignal => Option Bool
  | .loadTask => Option TaskStateV1
  | .migrateLegacyTask => LegacyMigrationResult
  | .buildPrompt _ _ _ => PromptBuild
  | .runProposal _ => ModelProposal
  | .executeTool _ _ _ _ => ToolExecution
  | .nowIso => NonEmptyString
  | _ => Unit

abbrev NodeProgram (α : Type) : Type := Program KernelCall KernelAnswer ForeignError α

structure TaskProgressProjection where
  state : TaskStateV1
  level : String
  value : String

/-- The pure functions that handlers are given: SHA-256 of a canonical text, the
projection of a task's progress, the observation of a refused call. -/
structure KernelV3NodeDependencies where
  tests : TextTests
  digestValue : JsValue → NonEmptyString
  projectTaskState : TaskStateV1 → Option (List TaskTodoProjection) → List ToolObservation →
    NonEmptyString → Except ForeignError TaskProgressProjection
  observeTool : ModelToolIntent → ResultItem → ToolEffectPolicy → Except ForeignError ToolObservation
  emitRuntimeProgress : Bool := false

def await (call : KernelCall) : NodeProgram (KernelAnswer call) := Program.await call

def raise (message : String) : NodeProgram α := Program.throw (.error message)

/-- `try { ... } catch (error) { ... }` around one program. -/
def attempt (program : NodeProgram α) : NodeProgram (Except ForeignError α) :=
  (program.bind fun value => .pure (.ok value)).catching fun error => .pure (.error error)

def ForeignError.message : ForeignError → String
  | .error message => message
  | .thrown text => text

def nodeValue (state : RunStateV3) (nodeId : String) : Option JsValue :=
  match nodeDataAt state nodeId with
  | .undefined => none
  | value => some value

def requireNodeValue (state : RunStateV3) (nodeId : String) : NodeProgram JsValue :=
  match nodeValue state nodeId with
  | some value => pure value
  | none => raise s!"kernel node data missing: {nodeId}"

/-- `ModelProposalSchema.parse(requireNodeValue(state, nodeId))`. -/
def requireProposal (state : RunStateV3) (nodeId : String) : NodeProgram ModelProposal := do
  let value ← requireNodeValue state nodeId
  match modelProposal.safeParse value with
  | some proposal => pure proposal
  | none => raise "invalid model proposal"

/-- `requireNodeValue<TaskStateV1>(state, 'restore-task')`: the cast trusts the
data, which is always a task that some node wrote. -/
def requireTask (state : RunStateV3) : NodeProgram TaskStateV1 := do
  let value ← requireNodeValue state "restore-task"
  match taskStateV1.safeParse value with
  | some task => pure task
  | none => raise "restored task is not a task state"

/-- `value?.key` of a node value. -/
def property (value : JsValue) (key : String) : JsValue :=
  match value with
  | .object fields => (fields.lookup key).getD .undefined
  | _ => .undefined

def failedOutcome (message : String) : RunOutcome where
  status := .failed
  reason := .runtimeError
  retryable := true
  details := some [("message", .string message)]

def userAborted : RunOutcome where
  status := .aborted
  reason := .userAborted
  retryable := false

/-- A handler's result that ends the run. -/
def ended (outcome : RunOutcome) : Option RuntimeNodeResult := some { outcome := some outcome }

def count (value : Nat) : JsValue := .number (.finite value)

def addBudgetCommand (usageId : String) (delta : List (String × ℚ)) : JsValue :=
  .object [("type", .string "add-budget"), ("usageId", .string usageId),
    ("delta", .object (delta.map fun entry => (entry.1, .number (.finite entry.2))))]

def setRecoveryCommand (recovery : RecoveryUpdate) : JsValue :=
  .object [("type", .string "set-recovery"), ("recovery", .object [("attempts", count recovery.attempts),
      ("maxAttempts", count recovery.maxAttempts),
      ("lastReason", (recovery.lastReason.map JsValue.string).getD .undefined)])]

def setNodeDataCommand (nodeId : String) (value : JsValue) : JsValue :=
  .object [("type", .string "set-node-data"), ("nodeId", .string nodeId), ("value", value)]

def setTaskRevisionCommand (revision : Nat) : JsValue :=
  .object [("type", .string "set-task-revision"), ("revision", count revision)]

def setMiddlewareStateCommand (id : String) (data : Json) : JsValue :=
  .object [("type", .string "set-middleware-state"), ("id", .string id),
    ("state", .object [("version", count 1), ("data", data.toJs)])]

def setEffectsCommand (pendingEffects : List EffectIntent)
    (committedEffects : List CommittedEffectRef) : JsValue :=
  .object [("type", .string "set-effects"),
    ("pendingEffects", .array (pendingEffects.map fun intent => (intentJson intent).toJs)),
    ("committedEffects", .array (committedEffects.map fun ref => (committedJson ref).toJs))]

def jumpCommand (nodeId condition reason : JsValue) : JsValue :=
  .object [("type", .string "jump"), ("nodeId", nodeId), ("condition", condition), ("reason", reason)]

variable (deps : KernelV3NodeDependencies)

/-- `emitProgress`: one item per run, written once and then updated. -/
def emitProgress (identity : RunIdentity) (progress : RuntimeProgress) : NodeProgram Unit :=
  if deps.emitRuntimeProgress then do
    let id := s!"item_kernel_progress_{identity.runId.text}"
    let _ ← await .nowIso
    await (.applyItemOnce (.runtimeProgress id progress))
    await (.updateItemOnce id (.progress progress))
  else pure ()

def materializeProposal (proposal : ModelProposal) : NodeProgram Unit := do
  let content := materializableProposalContent proposal
  match content.reasoning with
  | some reasoning => await (.applyItemOnce (.assistantReasoning
      s!"item_kernel_reasoning_{proposal.proposalId.text}" reasoning))
  | none => pure ()
  match content.text with
  | some text => await (.applyItemOnce (.assistantText
      s!"item_kernel_text_{proposal.proposalId.text}" text))
  | none => pure ()

def outOfScope (identity : RunIdentity) (owner : String) (thread : ThreadView) (turn : TurnView) :
    Bool :=
  owner ≠ identity.ownerUserId.text || thread.workspace ≠ identity.workspaceKey.text ||
    turn.threadId ≠ identity.threadId.text

def prepareTurn (context : RuntimeNodeContext) : NodeProgram (Option RuntimeNodeResult) := do
  let identity := context.state.identity
  let thread ← await .getThread
  let turn ← await .getTurn
  match thread, turn with
  | some thread, some turn => do
    emitProgress deps identity {
      phase := "preparing", summary := "Preparing the task state and execution context."
      modelSteps := 0, toolCalls := 0 }
    let owner := thread.ownerUserId.getD "local-default-owner"
    if outOfScope identity owner thread turn then pure (ended (failedOutcome "turn scope mismatch"))
    else do
      let signal ← await .abortSignal
      if signal = some true then pure (ended userAborted)
      else
        pure (some {
          condition := some "next"
          value := some (.object [("ownerUserId", .string owner),
            ("workspace", .string thread.workspace), ("turnStatus", .string turn.status)]) })
  | _, _ => pure (ended (failedOutcome "turn or thread not found"))

def missingTask (code reason : String) : RunOutcome where
  status := .failed
  reason := .requiredActionMissing
  retryable := false
  details := some [("code", .string code), ("reason", .string reason)]

def restored (task : TaskStateV1) : Option RuntimeNodeResult :=
  some {
    condition := some "next"
    value := some (taskStateV1.write task).toJs
    commands := some [setTaskRevisionCommand task.revision.value] }

def restoreTask (_ : RuntimeNodeContext) : NodeProgram (Option RuntimeNodeResult) := do
  let stored ← await .loadTask
  match stored with
  | some task => pure (restored task)
  | none => do
    let thread ← await .getThread
    await .loadItems
    match thread with
    | none => pure (ended (failedOutcome "thread not found during task restore"))
    | some _ => do
      let migrated ← await .migrateLegacyTask
      match migrated with
      | .created task | .existing task => pure (restored task)
      | .insufficientTrustedSource reason =>
        pure (ended (missingTask "insufficient_trusted_source" reason))
      | .scopeViolation reason => pure (ended (missingTask "scope_violation" reason))

def forcesCompaction (state : RunStateV3) : Bool :=
  match nodeValue state "force-context-compaction" with
  | some (.bool forced) => forced
  | _ => false

/-- `recovery?.entry`, unless it is empty. -/
def recoveryEntry (state : RunStateV3) : Option String :=
  match property (nodeDataAt state "recover-context") "entry" with
  | .string entry => if entry = "" then none else some entry
  | _ => none

def PromptRequest.toJson (request : PromptRequest) : Json :=
  .object (request.fields ++ (request.contextInstructions.map fun instructions =>
    ("contextInstructions", Json.array (instructions.map Json.string))).toList)

/-- The request that the model will be given, with the recovery entry behind its
instructions. -/
def storedRequest (request : PromptRequest) : Option String → PromptRequest
  | none => request
  | some entry =>
    { request with contextInstructions := some (request.contextInstructions.getD [] ++ [entry]) }

def policyJs : Option ToolEffectPolicy → JsValue
  | none => .undefined
  | some policy => .object <| [("effect", .string (EffectClass.name policy.effect)),
      ("replay", (namedJson replayPolicies policy.replay).toJs)] ++
    (policy.concurrencyKey.map fun key => ("concurrencyKey", JsValue.string key.text)).toList

def buildContext (context : RuntimeNodeContext) : NodeProgram (Option RuntimeNodeResult) := do
  let state := context.state
  let signal ← await .abortSignal
  if signal ≠ some false then pure (ended userAborted)
  else do
    let built ← await (.buildPrompt state.cursor.stepIndex
      ((state.middleware.lookup "compaction-governor").map MiddlewareState.data)
      (forcesCompaction state))
    match built with
    | .aborted => pure (ended userAborted)
    | .stopped => pure (ended (failedOutcome "prompt build stopped"))
    | .built context =>
      pure (some {
        condition := some "next"
        value := some (.object [
          ("request", (storedRequest context.request (recoveryEntry state)).toJson.toJs),
          ("toolPolicies", .object
            (context.toolPolicies.map fun policy => (policy.1, policyJs policy.2))),
          ("runtimeContext", context.runtimeContext.toJs)])
        commands := some ((context.compactionGovernorState.map
              (setMiddlewareStateCommand "compaction-governor")).toList ++
            if forcesCompaction state then
              [setNodeDataCommand "force-context-compaction" (.bool false)]
            else []) })

/-- The result that tries again over the recovery edge. -/
def recovering (recovery : RecoveryState) (reason : String) (value : Option JsValue)
    (commands : List JsValue) : Option RuntimeNodeResult :=
  some {
    condition := some "recover"
    value := value
    commands := some (setRecoveryCommand
      { attempts := recovery.attempts.value + 1
        maxAttempts := recovery.maxAttempts.value
        lastReason := some reason } :: commands) }

def canRecover (recovery : RecoveryState) : Bool :=
  recovery.attempts.value < recovery.maxAttempts.value

def invokeModel (context : RuntimeNodeContext) : NodeProgram (Option RuntimeNodeResult) := do
  let state := context.state
  let built ← requireNodeValue state "build-context"
  let signal ← await .abortSignal
  if signal ≠ some false then pure (ended userAborted)
  else do
    let proposed ← attempt (await (.runProposal (property built "request")))
    match proposed with
    | .error error => do
      let signal ← await .abortSignal
      if signal = some true then pure (ended userAborted)
      else if canRecover state.recovery then
        pure (recovering state.recovery "model_stream_error" none [])
      else pure (ended (failedOutcome s!"model invocation failed: {ForeignError.message error}"))
    | .ok proposal =>
      let value := (modelProposal.write proposal).toJs
      if isContextCapacityProposal deps.tests proposal then
        if canRecover state.recovery then
          pure (recovering state.recovery "context_capacity_exceeded" (some value)
            [setNodeDataCommand "force-context-compaction" (.bool true)])
        else do
          emitProgress deps state.identity {
            phase := "terminated"
            summary := "The model context capacity was reached; the run stopped after preserving " ++
              "the current task state."
            modelSteps := state.budgets.stepsUsed
            toolCalls := state.budgets.toolCallsUsed
            reason := some "context_capacity_exceeded" }
          pure (ended {
            status := .degraded
            reason := .contextCapacityExceeded
            retryable := true
            details := some [("providerReason",
              (proposal.providerReason.map JsValue.string).getD .undefined)] })
      else pure (some { condition := some "next", value := some value })

def normalizeProposal (context : RuntimeNodeContext) : NodeProgram (Option RuntimeNodeResult) := do
  let proposal ← requireProposal context.state "invoke-model"
  pure (some { condition := some "next", value := some (modelProposal.write proposal).toJs })

/-- A migration marker that is there and not `consumed` (or not `reconciled`). -/
def openMarker (state : RunStateV3) (nodeId flag : String) : Option JsValue :=
  match nodeValue state nodeId with
  | none => none
  | some marker =>
    match property marker flag with
    | .bool true => none
    | _ => some marker

/-- `{ ...marker, [flag]: true }`. -/
def withFlag (marker : JsValue) (flag : String) : JsValue :=
  match marker with
  | .object fields => .object (assign fields flag (.bool true))
  | value => value

/-- The accounting detour of an older graph resumes where it left off. -/
def migrationCommands (state : RunStateV3) : List JsValue :=
  let consumed (nodeId : String) : Option (List JsValue) :=
    (openMarker state nodeId "consumed").map fun marker =>
      [setNodeDataCommand nodeId (withFlag marker "consumed"),
        jumpCommand (property marker "resumeNodeId") (.string "next")
          (.string "resume migrated production graph after model accounting")]
  ((consumed "v2-accounting-migration").orElse fun _ =>
    consumed "v1-accounting-migration").getD []

def accountModel (context : RuntimeNodeContext) : NodeProgram (Option RuntimeNodeResult) := do
  let state := context.state
  let task ← requireTask state
  let proposal ← requireProposal state "normalize-proposal"
  let proposalClass := classifyProposal deps.tests proposal task
  let inputTokens : ℚ := ((proposal.usage.map fun usage => usage.promptTokens.value).getD 0 : Nat)
  let outputTokens : ℚ := ((proposal.usage.map fun usage => usage.completionTokens.value).getD 0 : Nat)
  let costUsd : ℚ := ((proposal.usage.bind UsageSnapshot.costUsd).map NonNegative.value).getD 0
  pure (some {
    condition := some "next"
    commands := some (addBudgetCommand s!"model:{proposal.proposalId.text}"
        [("stepsUsed", 1), ("inputTokens", inputTokens), ("outputTokens", outputTokens),
          ("costUsd", costUsd)] :: migrationCommands state)
    facts := some <| [("proposalClass", .string (ProposalClass.name proposalClass)),
        ("stopClass", .string (ModelStopClass.name proposal.stopClass))] ++
      (match proposal.providerReason with
        | some reason => if reason = "" then [] else [("providerReason", .string reason)]
        | none => []) ++
      [("inputTokens", .number (.finite inputTokens)),
        ("outputTokens", .number (.finite outputTokens)), ("costUsd", .number (.finite costUsd)),
        ("proposalHasText", .bool (jsTrim proposal.text ≠ "")),
        ("hadToolResult", .bool (!task.toolLedger.isEmpty))] })

/-- The calls prepared before the proposal was evaluated again are aborted. -/
def abortPrepared (state : RunStateV3) (finishedAt : JsValue) : List JsValue → NodeProgram Unit
  | [] => pure ()
  | .string callId :: rest => do
    await (.updateItemOnce s!"item_tool_{state.identity.turnId.text}_{callId}"
      (.status "aborted" finishedAt))
    abortPrepared state finishedAt rest
  | _ :: rest => abortPrepared state finishedAt rest

def itemsOf : JsValue → List JsValue
  | .array items => items
  | _ => []

def evaluated (condition : String) (proposalClass : ProposalClass) (action : String)
    (commands : List JsValue) : Option RuntimeNodeResult :=
  some {
    condition := some condition
    value := some (.object [("proposalClass", .string (ProposalClass.name proposalClass)),
      ("action", .string action)])
    commands := some commands }

def evaluate (context : RuntimeNodeContext) : NodeProgram (Option RuntimeNodeResult) := do
  let state := context.state
  let task ← requireTask state
  let proposal ← requireProposal state "normalize-proposal"
  let proposalClass := classifyProposal deps.tests proposal task
  let migration := openMarker state "v1-proposal-migration" "reconciled"
  let commands := (migration.map fun marker =>
    setNodeDataCommand "v1-proposal-migration" (withFlag marker "reconciled")).toList
  match migration with
  | some marker =>
    if proposalClass ≠ .toolIntents then
      abortPrepared state (property marker "abortFinishedAt")
        (itemsOf (property marker "preparedCallIds"))
    else pure ()
  | none => pure ()
  if proposalClass = .toolIntents then pure (evaluated "tools" proposalClass "tools" commands)
  else if isRecoverableProposalClass proposalClass then
    let transition := transitionContextRecovery task state.recovery proposalClass
    let commands := commands ++ [setRecoveryCommand transition.recovery]
    if transition.action = .degrade then
      pure (some {
        outcome := transition.outcome
        value := some (.object [("proposalClass", .string (ProposalClass.name proposalClass)),
          ("action", .string "degrade")])
        commands := some commands })
    else pure (evaluated "recover" proposalClass "recover" commands)
  else if proposalClass = .safetyOrRefusal then
    pure (evaluated "fatal" proposalClass "fatal" commands)
  else pure (evaluated "final" proposalClass "final" commands)

def proposalIdValue (proposal : ModelProposal) : JsValue :=
  .object [("proposalId", .string proposal.proposalId.text)]

def commitAssistant (context : RuntimeNodeContext) : NodeProgram (Option RuntimeNodeResult) := do
  let state := context.state
  let proposal ← requireProposal state "normalize-proposal"
  materializeProposal proposal
  emitProgress deps state.identity {
    phase := "terminated", summary := "Task response completed."
    modelSteps := state.budgets.stepsUsed, toolCalls := state.budgets.toolCallsUsed
    reason := some "normal_stop" }
  pure (some {
    value := some (proposalIdValue proposal)
    outcome := some { status := .completed, reason := .normalStop, retryable := false } })

def materializeProposalNode (context : RuntimeNodeContext) :
    NodeProgram (Option RuntimeNodeResult) := do
  let proposal ← requireProposal context.state "normalize-proposal"
  materializeProposal proposal
  pure (some { condition := some "next", value := some (proposalIdValue proposal) })

def toolItemId (state : RunStateV3) (callId : String) : String :=
  s!"item_tool_{state.identity.turnId.text}_{callId}"

def applyCalls (state : RunStateV3) : List ModelToolIntent → NodeProgram Unit
  | [] => pure ()
  | call :: rest => do
    await (.applyItemOnce (.toolCall (toolItemId state call.callId.text) call))
    applyCalls state rest

/-- The calls of a proposal that the task's ledger does not have. -/
def unledgeredCallIds (proposal : ModelProposal) (task : TaskStateV1) : List NonEmptyString :=
  (proposal.toolIntents.filter fun intent =>
    !(task.toolLedger.map TaskToolLedgerEntry.callId).contains intent.callId).map
    ModelToolIntent.callId

/-- The value `{ calls }` of `prepare-tools`. -/
def preparedCalls : Schema (List ModelToolIntent) :=
  (Shape.required "calls" modelToolIntent.array .done).object.imap Prod.fst (fun calls => (calls, ()))
    fun _ => rfl

def toolUsageId (proposal : ModelProposal) (callIds : List NonEmptyString) : String :=
  "tools:" ++ (deps.digestValue (.object [("proposalId", .string proposal.proposalId.text),
    ("callIds", .array (callIds.map fun callId => .string callId.text))])).text

def prepareTools (context : RuntimeNodeContext) : NodeProgram (Option RuntimeNodeResult) := do
  let state := context.state
  let proposal ← requireProposal state "normalize-proposal"
  let task ← requireTask state
  applyCalls state proposal.toolIntents
  let callIds := unledgeredCallIds proposal task
  pure (some {
    condition := some "next"
    value := some (preparedCalls.write proposal.toolIntents).toJs
    commands := some (if callIds.length > 0 then
        [addBudgetCommand (toolUsageId deps proposal callIds) [("toolCallsUsed", callIds.length)]]
      else []) })

def startsWith (text start : String) : Bool := start.toList.isPrefixOf text.toList

def includes (text part : String) : Bool :=
  text.toList.tails.any fun rest => part.toList.isPrefixOf rest

/-- `isRecoverableToolDispatchError`. -/
def isRecoverableToolDispatchError (error : ForeignError) : Bool :=
  let message := ForeignError.message error
  startsWith message "unknown tool:" || includes message " is not provided by " ||
    includes message " is not advertised" || includes message " is disabled by policy"

/-- The policy of a call without a tool kind, as `prepare-tools` makes them. -/
def defaultEffectPolicy : ToolEffectPolicy where
  effect := .read
  replay := .safe

def policyOf : JsValue → Option ToolEffectPolicy
  | .object fields => do
    let effect ← parseEnum effectClasses ((fields.lookup "effect").bind JsValue.serialize)
    let replay ← parseEnum replayPolicies ((fields.lookup "replay").bind JsValue.serialize)
    some { effect, replay
           concurrencyKey := match fields.lookup "concurrencyKey" with
             | some (.string key) => NonEmptyString.parse key
             | _ => none }
  | _ => none

/-- `built.toolPolicies?.[call.toolName] ?? defaultEffectPolicy(call)`. -/
def callPolicy (built : JsValue) (call : ModelToolIntent) : ToolEffectPolicy :=
  (policyOf (property (property built "toolPolicies") call.toolName.text)).getD defaultEffectPolicy

structure CommitProgress where
  pendingEffects : List EffectIntent
  committedEffects : List CommittedEffectRef
  ledger : List TaskToolLedgerEntry := []
  observations : List ToolObservation := []

def resultDigest (item : ResultItem) : NonEmptyString :=
  deps.digestValue (if item.isToolResult then item.output else item.body)

/-- The item of a call whose tool the runtime refused to dispatch. -/
def rejectedItem (state : RunStateV3) (call : ModelToolIntent) (message : String)
    (finishedAt : NonEmptyString) : ResultItem :=
  let output : JsValue := .object [("code", .string "tool_dispatch_rejected"), ("error", .string message),
    ("guidance", .string "Use only tools advertised in the current turn context.")]
  { isToolResult := true
    isError := true
    output
    body := .object [("id", .string s!"item_{call.callId.text}"),
      ("turnId", .string state.identity.turnId.text),
      ("threadId", .string state.identity.threadId.text), ("callId", .string call.callId.text),
      ("toolName", .string call.toolName.text), ("output", output), ("isError", .bool true),
      ("status", .string "failed"), ("finishedAt", .string finishedAt.text)] }

/-- A refused call is answered with the refusal. -/
def commitRejected (state : RunStateV3) (call : ModelToolIntent) (policy : ToolEffectPolicy)
    (error : ForeignError) (progress : CommitProgress) : NodeProgram CommitProgress := do
  let now ← await .nowIso
  let item := rejectedItem state call (ForeignError.message error) now
  let finishedAt ← await .nowIso
  await (.updateItem (toolItemId state call.callId.text) (.status "failed" (.string finishedAt.text)))
  await (.applyItem (.toolResult item))
  let observation ← Program.lift (deps.observeTool call item policy)
  pure { progress with
    ledger := progress.ledger ++ [{
      callId := call.callId, toolName := call.toolName, status := .failed
      resultDigest := some (resultDigest deps item) }]
    observations := progress.observations ++ [observation] }

def commitExecuted (state : RunStateV3) (call : ModelToolIntent) (execution : ToolExecution)
    (item : ResultItem) (progress : CommitProgress) : NodeProgram CommitProgress := do
  let failed := item.isToolResult && item.isError
  let finishedAt ← await .nowIso
  await (.updateItem (toolItemId state call.callId.text)
    (.status (if failed then "failed" else "completed") (.string finishedAt.text)))
  await (.applyItem (.toolResult item))
  pure {
    pendingEffects := execution.pendingEffects
    committedEffects := execution.committedEffects
    ledger := progress.ledger ++ [{
      callId := call.callId, toolName := call.toolName
      status := if failed then .failed else .committed
      resultDigest := some (resultDigest deps item) }]
    observations := progress.observations ++ execution.observation.toList }

/-- The loop over the prepared calls; an outcome ends it early. -/
def commitCalls (state : RunStateV3) (built : JsValue) :
    List ModelToolIntent → CommitProgress → NodeProgram (Except RunOutcome CommitProgress)
  | [], progress => pure (.ok progress)
  | call :: rest, progress => do
    let policy := callPolicy built call
    let executed ← attempt
      (await (.executeTool call policy progress.pendingEffects progress.committedEffects))
    match executed with
    | .error error =>
      if isRecoverableToolDispatchError error then do
        let progress ← commitRejected deps state call policy error progress
        commitCalls state built rest progress
      else Program.throw error
    | .ok execution =>
      match execution.outcome, execution.result with
      | some outcome, _ => pure (.error outcome)
      | none, none => pure (.error (failedOutcome s!"tool result missing: {call.callId.text}"))
      | none, some item => do
        let progress ← commitExecuted deps state call execution item progress
        commitCalls state built rest progress

/-- The ledger with the entries of a commit, one for each call. -/
def ledgerWith (ledger entries : List TaskToolLedgerEntry) : List TaskToolLedgerEntry :=
  entries.foldl (fun ledger entry => setEntry TaskToolLedgerEntry.callId entry ledger) ledger

theorem ledgerWith_distinct (distinct : (ledger.map TaskToolLedgerEntry.callId).Nodup) :
    ((ledgerWith ledger entries).map TaskToolLedgerEntry.callId).Nodup := by
  induction entries generalizing ledger with
  | nil => exact distinct
  | cons entry rest ih => exact ih (nodup_setEntry distinct)

/-- `updateTaskLedger`; `none` where the next revision is no safe integer, which
the task store refuses. -/
def updateTaskLedger (current : TaskStateV1) (entries : List TaskToolLedgerEntry)
    (updatedAt : NonEmptyString) : Option TaskStateV1 :=
  if safe : current.revision.value + 1 ≤ maxSafeInteger then some { current with
    revision := ⟨current.revision.value + 1, Nat.succ_pos _, safe⟩
    toolLedger := ledgerWith current.toolLedger entries
    ledgerDistinct := ledgerWith_distinct current.ledgerDistinct
    updatedAt }
  else none

/-- The value `{ callIds, taskRevision, observations }` of `commit-tools`. -/
def committedValue (progress : CommitProgress) (task : TaskStateV1) : JsValue :=
  .object [ ("callIds", .array (progress.ledger.map fun entry => .string entry.callId.text)),
    ("taskRevision", count task.revision.value),
    ("observations", (toolObservation.array.write progress.observations).toJs)]

def commitTools (context : RuntimeNodeContext) : NodeProgram (Option RuntimeNodeResult) := do
  let state := context.state
  let prepared ← requireNodeValue state "prepare-tools"
  let built ← requireNodeValue state "build-context"
  await .createToolContext
  match preparedCalls.safeParse prepared with
  | none => raise "prepared.calls is not iterable"
  | some calls => do
    let committed ← commitCalls deps state built calls
      { pendingEffects := state.pendingEffects, committedEffects := state.committedEffects }
    match committed with
    | .error outcome => pure (ended outcome)
    | .ok progress => do
      let current ← await .loadTask
      match current with
      | none => pure (ended (failedOutcome "task state missing after tools"))
      | some current => do
        let now ← await .nowIso
        match updateTaskLedger current progress.ledger now with
        | none => raise "invalid task state"
        | some nextTask => do
          await (.prepareTask nextTask current.revision.value)
          await (.commitTask nextTask)
          pure (some {
            condition := some "tools_committed"
            value := some (committedValue progress nextTask)
            commands := some [setTaskRevisionCommand nextTask.revision.value,
              setNodeDataCommand "restore-task" (taskStateV1.write nextTask).toJs,
              setEffectsCommand progress.pendingEffects progress.committedEffects] })

/-- `commit.observations ?? []`. -/
def committedObservations (commit : JsValue) : List ToolObservation :=
  (toolObservation.array.safeParse (property commit "observations")).getD []

def evidenceCount (task : TaskStateV1) : Nat :=
  (task.progress.map fun progress => progress.evidenceCount.value).getD 0

/-- Progress is stored before the node completes; a failed commit is taken back. -/
def storeProgress (task : TaskStateV1) (projection : TaskProgressProjection) : NodeProgram Unit := do
  await (.prepareTask projection.state task.revision.value)
  let committed ← attempt (await (.commitTask projection.state))
  match committed with
  | .ok () => pure ()
  | .error error => do
    let _ ← attempt (await (.abortTask projection.state))
    Program.throw error

def projectProgress (context : RuntimeNodeContext) : NodeProgram (Option RuntimeNodeResult) := do
  let state := context.state
  let task ← requireTask state
  let commit ← requireNodeValue state "commit-tools"
  let thread ← await .getThread
  let observations := committedObservations commit
  let now ← await .nowIso
  let projection ← Program.lift
    (deps.projectTaskState task (thread.bind ThreadView.todos) observations now)
  emitProgress deps state.identity {
    phase := "executing"
    summary := if projection.level = "none" then "Executing the next task action."
      else "New evidence or task progress recorded."
    modelSteps := state.budgets.stepsUsed
    toolCalls := state.budgets.toolCallsUsed
    evidenceCount := evidenceCount projection.state
    artifactCount := projection.state.artifacts.length }
  if projection.level ≠ "none" then storeProgress task projection else pure ()
  let written := (taskStateV1.write projection.state).toJs
  pure (some {
    condition := some "next"
    value := some written
    facts := some [("observations", (toolObservation.array.write observations).toJs),
      ("progressLevel", .string projection.level), ("progressDigest", .string projection.value),
      ("evidenceCount", count (evidenceCount projection.state)),
      ("artifactCount", count projection.state.artifacts.length)]
    commands := some (if projection.level = "none" then []
      else [setTaskRevisionCommand projection.state.revision.value,
        setNodeDataCommand "restore-task" written]) })

def governProgress (_ : RuntimeNodeContext) : NodeProgram (Option RuntimeNodeResult) :=
  pure (some {
    condition := some "progress_checked"
    value := some (.object [("checked", .bool true)]) })

def progressCheckpoint (context : RuntimeNodeContext) : NodeProgram (Option RuntimeNodeResult) := do
  let state := context.state
  emitProgress deps state.identity {
    phase := "checkpoint"
    summary := "A progress checkpoint was reached; the next model step must summarize existing " ++
      "evidence or finish."
    modelSteps := state.budgets.stepsUsed
    toolCalls := state.budgets.toolCallsUsed
    reason := some "no_progress_window" }
  let task ← requireTask state
  pure (some {
    condition := some "checkpointed"
    value := some (.object [("taskRevision", count task.revision.value),
      ("message", .string ("Checkpointed after a no-progress window; summarize existing evidence " ++
        "before taking another action."))])
    facts := some [("checkpointCompleted", .bool true)] })

def recoverContext (context : RuntimeNodeContext) : NodeProgram (Option RuntimeNodeResult) := do
  let task ← requireTask context.state
  pure (some {
    condition := some "recovered"
    value := some (.object [("entry", .string (renderRecoveryContinuationEntry task))]) })

def waitUser (_ : RuntimeNodeContext) : NodeProgram (Option RuntimeNodeResult) :=
  pure (ended { status := .suspended, reason := .awaitingUserInput, retryable := true })

def isSafetyOrRefusal (state : RunStateV3) : Bool :=
  match property (nodeDataAt state "evaluate") "proposalClass" with
  | .string proposalClass => proposalClass = "safety_or_refusal"
  | _ => false

def fail (context : RuntimeNodeContext) : NodeProgram (Option RuntimeNodeResult) :=
  let safety := isSafetyOrRefusal context.state
  pure (ended {
    status := .failed
    reason := if safety then .providerSafetyStop else .providerProtocolError
    retryable := !safety })

def createKernelV3NodeHandlers : String → Option (RuntimeNodeHandler KernelAnswer)
  | "prepare-turn" => some (prepareTurn deps)
  | "restore-task" => some restoreTask
  | "build-context" => some buildContext
  | "invoke-model" => some (invokeModel deps)
  | "normalize-proposal" => some normalizeProposal
  | "account-model" => some (accountModel deps)
  | "evaluate" => some (evaluate deps)
  | "commit-assistant" => some (commitAssistant deps)
  | "materialize-proposal" => some materializeProposalNode
  | "prepare-tools" => some (prepareTools deps)
  | "commit-tools" => some (commitTools deps)
  | "project-progress" => some (projectProgress deps)
  | "govern-progress" => some governProgress
  | "progress-checkpoint" => some (progressCheckpoint deps)
  | "recover-context" => some recoverContext
  | "wait-user" => some waitUser
  | "fail" => some fail
  | _ => none

/-- The kernel of production turns. -/
def productionKernel : RuntimeKernel KernelAnswer where
  graph := KernelGraphs.productionKernelV3Graph
  accepted := KernelGraphs.production_accepted
  nodes := createKernelV3NodeHandlers deps
  proposalIntents value := (modelProposal.safeParse value).map fun proposal =>
    proposal.toolIntents.length
  isTaskState value := (taskStateV1.safeParse value).isSome

end QiongQi.KernelNodes
