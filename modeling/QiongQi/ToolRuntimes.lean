import QiongQi.KernelNodes

/-! `tool-runtime-v3.ts` and `effect-commit.ts`: a tool call is an effect that is prepared,
executed and committed under its idempotency key. A call whose effect is committed is answered
from the result store.

Calls that are under way at the same time share one execution by their keys; a run awaits
each of its calls before the next, so there is one at a time here. -/
namespace QiongQi.ToolRuntimes
open JsonValues Programs RuntimeContracts MiddlewareCommands RuntimeKernels KernelRuns TaskStates
  ModelProposals KernelNodes

/-- The call as it is to be executed, or its result where it is not to be. -/
structure ToolHostPreparation where
  call : ModelToolIntent
  result : Option ResultItem := none

/-- A result as the store has it: on its own, as earlier versions wrote it, or with what was
observed of it, or such that it cannot be read. -/
inductive StoredToolResult where
  | result (item : ResultItem)
  | observed (item : ResultItem) (observation : Option ToolObservation)
  | invalid (error : ForeignError)

inductive ToolStep where
  | prepare (call : ModelToolIntent)
  | execute (call : ModelToolIntent)
  | append (eventType : EffectEventType) (idempotencyKey : NonEmptyString) (payload : Json)
  | loadResult (idempotencyKey : NonEmptyString)
  | saveResult (idempotencyKey resultDigest : NonEmptyString) (stored : StoredToolResult)
  | nowIso

/-- A tool host without `prepare` answers the call itself. -/
@[reducible] def ToolAnswer : ToolStep → Type
  | .prepare _ => ToolHostPreparation
  | .execute _ => ResultItem
  | .loadResult _ => Option StoredToolResult
  | .nowIso => NonEmptyString
  | _ => Unit

abbrev ToolProgram (α : Type) : Type := Program ToolStep ToolAnswer ForeignError α

def awaitStep (step : ToolStep) : ToolProgram (ToolAnswer step) := Program.await step

def idempotencyKey (identity : RunIdentity) (callId : NonEmptyString) : NonEmptyString :=
  identity.ownerUserId.join
    (":" ++ identity.workspaceKey.text ++ ":" ++ identity.runId.text ++ ":") callId

theorem idempotencyKey_injective
    (same : idempotencyKey identity left = idempotencyKey identity right) :
    left.text = right.text :=
  String.append_right_inj _ |>.mp (congrArg NonEmptyString.text same)

def hasPending (pendingEffects : List EffectIntent) (key : NonEmptyString) : Bool :=
  pendingEffects.any fun candidate => candidate.idempotencyKey = key

def hasCommitted (committedEffects : List CommittedEffectRef) (key : NonEmptyString) : Bool :=
  committedEffects.any fun candidate => candidate.idempotencyKey = key

variable (deps : KernelV3NodeDependencies)

def effectIntent (key : NonEmptyString) (call : ModelToolIntent) (policy : ToolEffectPolicy)
    (now : NonEmptyString) : EffectIntent where
  idempotencyKey := key
  kind := .tool
  effect := policy.effect
  replay := policy.replay
  target := call.toolName
  payloadDigest := deps.digestValue (Json.object call.arguments).toJs
  preparedAt := now

/-- `EffectCommitCoordinator.prepare`. -/
def prepareEffect (pendingEffects : List EffectIntent) (intent : EffectIntent) :
    List EffectIntent :=
  if hasPending pendingEffects intent.idempotencyKey then pendingEffects
  else pendingEffects ++ [intent]

/-- The value that is stored of a result. -/
def storedJs (item : ResultItem) (observation : Option ToolObservation) : JsValue :=
  .object <| [("kind", .string "tool_runtime_v3_result"), ("version", count 2),
      ("result", .object [("item", item.body)])] ++
    (observation.map fun seen => ("observation", (toolObservation.write seen).toJs)).toList

/-- `EffectCommitCoordinator.commit`: the effect lists once the effect is committed. -/
def commitEffect (pendingEffects : List EffectIntent) (committedEffects : List CommittedEffectRef)
    (key : NonEmptyString) (item : ResultItem) (observation : Option ToolObservation) :
    ToolProgram (List EffectIntent × List CommittedEffectRef) := do
  match committedEffects.find? fun candidate => candidate.idempotencyKey = key with
  | some existing => do
    awaitStep (.append .committed key (committedJson existing))
    pure (pendingEffects, committedEffects)
  | none => do
    let now ← awaitStep .nowIso
    let digest := deps.digestValue (storedJs item observation)
    let committed : CommittedEffectRef :=
      { idempotencyKey := key, resultDigest := digest, status := .committed, committedAt := now }
    awaitStep (.saveResult key digest (.observed item observation))
    awaitStep (.append .committed key (committedJson committed))
    pure (pendingEffects.filter fun candidate => candidate.idempotencyKey ≠ key,
      committedEffects ++ [committed])

/-- The call is not executed until someone has checked what became of its effect. -/
def requiresVerification (pendingEffects : List EffectIntent)
    (committedEffects : List CommittedEffectRef) (key : NonEmptyString) : ToolExecution where
  pendingEffects := pendingEffects
  committedEffects := committedEffects
  outcome := some {
    status := .suspended
    reason := .requiredActionMissing
    retryable := true
    details := some [("code", .string "effect_requires_verification"), ("idempotencyKey", .string key.text)] }

/-- What the store has is the answer. -/
def replayStored (pendingEffects : List EffectIntent) (committedEffects : List CommittedEffectRef) :
    StoredToolResult → ToolProgram ToolExecution
  | .result item => pure { pendingEffects, committedEffects, result := some item }
  | .observed item observation => pure {
      pendingEffects, committedEffects, result := some item
      observation := observation.map fun seen => { seen with replayed := true } }
  | .invalid error => Program.throw error

/-- The result is observed and committed. -/
def commitResult (key : NonEmptyString) (call : ModelToolIntent) (policy : ToolEffectPolicy)
    (pendingEffects : List EffectIntent) (committedEffects : List CommittedEffectRef)
    (item : ResultItem) : ToolProgram ToolExecution := do
  let observation ←
    if item.isToolResult then Program.lift ((deps.observeTool call item policy).map some)
    else pure none
  let effects ← commitEffect deps pendingEffects committedEffects key item observation
  pure {
    pendingEffects := effects.1, committedEffects := effects.2
    result := some item, observation }

def preparedResult (preparation : ToolHostPreparation) : ToolProgram ResultItem :=
  match preparation.result with
  | some item => pure item
  | none => awaitStep (.execute preparation.call)

/-- A call that the tool host lets through is executed; what it answers is committed. -/
def executePrepared (identity : RunIdentity) (call : ModelToolIntent) (policy : ToolEffectPolicy)
    (pendingEffects : List EffectIntent) (committedEffects : List CommittedEffectRef) :
    ToolProgram ToolExecution := do
  let key := idempotencyKey identity call.callId
  let preparation ← awaitStep (.prepare call)
  if preparation.call.callId ≠ call.callId then
    Program.throw (.error "tool host preparation changed callId")
  else do
    let now ← awaitStep .nowIso
    let intent := effectIntent deps key preparation.call policy now
    awaitStep (.append .prepared key (intentJson intent))
    let item ← preparedResult preparation
    commitResult deps key preparation.call policy (prepareEffect pendingEffects intent)
      committedEffects item

def executeUncommitted (identity : RunIdentity) (call : ModelToolIntent)
    (policy : ToolEffectPolicy) (pendingEffects : List EffectIntent)
    (committedEffects : List CommittedEffectRef) : ToolProgram ToolExecution :=
  let key := idempotencyKey identity call.callId
  if hasPending pendingEffects key && policy.replay ≠ .safe then
    pure (requiresVerification pendingEffects committedEffects key)
  else executePrepared deps identity call policy pendingEffects committedEffects

/-- `ToolRuntimeV3.executeSingle`. -/
def executeSingle (identity : RunIdentity) (call : ModelToolIntent) (policy : ToolEffectPolicy)
    (pendingEffects : List EffectIntent) (committedEffects : List CommittedEffectRef) :
    ToolProgram ToolExecution :=
  let key := idempotencyKey identity call.callId
  if hasCommitted committedEffects key then do
    let stored ← awaitStep (.loadResult key)
    match stored with
    | some stored => replayStored pendingEffects committedEffects stored
    | none =>
      if policy.replay ≠ .safe then
        pure (requiresVerification pendingEffects committedEffects key)
      else executeUncommitted deps identity call policy pendingEffects committedEffects
  else executeUncommitted deps identity call policy pendingEffects committedEffects

end QiongQi.ToolRuntimes
