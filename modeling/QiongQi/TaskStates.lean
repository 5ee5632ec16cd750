import QiongQi.JsonSchemas
import QiongQi.RuntimeContracts

/-! The records of `contracts/src/task-state.ts`. A value of `TaskStateV1` is one
that `TaskStateV1Schema` accepts; the two checks of its `superRefine` are fields. -/
namespace QiongQi.TaskStates
open JsonValues JsonSchemas RuntimeContracts

def nonEmptyString : Schema NonEmptyString :=
  Schema.text.refine NonEmptyString.parse NonEmptyString.text NonEmptyString.parse_text

/-- `z.number().int().nonnegative()`. -/
def safeNat : Schema SafeNat :=
  Schema.number.refine SafeNat.parse (fun value => value.value) SafeNat.parse_value

/-- `z.number().int().positive()`. -/
def positiveSafeInteger : Schema PositiveSafeInteger :=
  Schema.number.refine PositiveSafeInteger.parse (fun value => value.value)
    PositiveSafeInteger.parse_value

/-- `z.literal(value)`. -/
def literal (value : String) : Schema Unit :=
  Schema.text.refine (fun text => if text = value then some () else none) (fun _ => value)
    fun _ => if_pos rfl

/-- `z.literal(1)`. -/
def versionOne : Schema Unit :=
  Schema.number.refine (fun number => if number = 1 then some () else none) (fun _ => 1)
    fun _ => if_pos rfl

def runIdentity : Schema RunIdentity :=
  (Shape.required "ownerUserId" nonEmptyString <| .required "threadId" nonEmptyString <|
    .required "turnId" nonEmptyString <| .required "runId" nonEmptyString <|
    .required "workspaceKey" nonEmptyString .done).strict.imap
  (fun (ownerUserId, threadId, turnId, runId, workspaceKey, _) =>
    { ownerUserId, threadId, turnId, runId, workspaceKey })
  (fun identity => (identity.ownerUserId, identity.threadId, identity.turnId, identity.runId,
    identity.workspaceKey, ()))
  fun _ => rfl

/-- A list that is not empty: `.min(1)`. -/
structure NonEmptyList (α : Type) where
  items : List α
  nonempty : items ≠ []

def nonEmptyList (schema : Schema α) : Schema (NonEmptyList α) :=
  schema.array.refine (fun items => if nonempty : items ≠ [] then some ⟨items, nonempty⟩ else none)
    NonEmptyList.items fun value => dif_pos value.nonempty

inductive ActionStatus where
  | pending | inProgress | completed | failed | blocked
  deriving DecidableEq

def ActionStatus.name : ActionStatus → String
  | .pending => "pending"
  | .inProgress => "in_progress"
  | .completed => "completed"
  | .failed => "failed"
  | .blocked => "blocked"

def actionStatus : Schema ActionStatus :=
  .enum ActionStatus.name [.pending, .inProgress, .completed, .failed, .blocked]
    fun status => by cases status <;> rfl

structure TaskAction where
  id : NonEmptyString
  text : NonEmptyString
  status : ActionStatus
  evidenceItemIds : List NonEmptyString := []

def taskAction : Schema TaskAction :=
  (Shape.required "id" nonEmptyString <| .required "text" nonEmptyString <|
    .required "status" actionStatus <|
    .defaulted "evidenceItemIds" nonEmptyString.array [] .done).strict.imap
  (fun (id, text, status, evidenceItemIds, _) => { id, text, status, evidenceItemIds })
  (fun action => (action.id, action.text, action.status, action.evidenceItemIds, ()))
  fun _ => rfl

inductive ArtifactKind where
  | file | artifact | report | dashboard

def ArtifactKind.name : ArtifactKind → String
  | .file => "file"
  | .artifact => "artifact"
  | .report => "report"
  | .dashboard => "dashboard"

structure TaskArtifactRef where
  path : NonEmptyString
  kind : ArtifactKind
  producedByCallId : Option NonEmptyString := none

def taskArtifactRef : Schema TaskArtifactRef :=
  (Shape.required "path" nonEmptyString <|
    .required "kind" (.enum ArtifactKind.name [.file, .artifact, .report, .dashboard]
      fun kind => by cases kind <;> rfl) <|
    .optional "producedByCallId" nonEmptyString .done).strict.imap
  (fun (path, kind, producedByCallId, _) => { path, kind, producedByCallId })
  (fun artifact => (artifact.path, artifact.kind, artifact.producedByCallId, ()))
  fun _ => rfl

def EffectClass.name : EffectClass → String
  | .read => "read"
  | .idempotentWrite => "idempotent-write"
  | .nonIdempotentWrite => "non-idempotent-write"

structure ToolObservation where
  callId : NonEmptyString
  toolName : NonEmptyString
  effect : EffectClass
  capabilityClass : NonEmptyString
  resourceKeys : List NonEmptyString
  canonicalArgumentsDigest : NonEmptyString
  resultDigest : NonEmptyString
  resultItemId : NonEmptyString
  artifactRefs : List TaskArtifactRef
  failed : Bool
  replayed : Bool

def toolObservation : Schema ToolObservation :=
  (Shape.required "callId" nonEmptyString <| .required "toolName" nonEmptyString <|
    .required "effect" (.enum EffectClass.name [.read, .idempotentWrite, .nonIdempotentWrite]
      fun effect => by cases effect <;> rfl) <|
    .required "capabilityClass" nonEmptyString <|
    .required "resourceKeys" nonEmptyString.array <|
    .required "canonicalArgumentsDigest" nonEmptyString <|
    .required "resultDigest" nonEmptyString <| .required "resultItemId" nonEmptyString <|
    .required "artifactRefs" taskArtifactRef.array <| .required "failed" .flag <|
    .required "replayed" .flag .done).strict.imap
  (fun (callId, toolName, effect, capabilityClass, resourceKeys, canonicalArgumentsDigest,
      resultDigest, resultItemId, artifactRefs, failed, replayed, _) =>
    { callId, toolName, effect, capabilityClass, resourceKeys, canonicalArgumentsDigest,
      resultDigest, resultItemId, artifactRefs, failed, replayed })
  (fun seen => (seen.callId, seen.toolName, seen.effect, seen.capabilityClass, seen.resourceKeys,
    seen.canonicalArgumentsDigest, seen.resultDigest, seen.resultItemId, seen.artifactRefs,
    seen.failed, seen.replayed, ()))
  fun _ => rfl

inductive LedgerStatus where
  | prepared | committed | failed | suspended

def LedgerStatus.name : LedgerStatus → String
  | .prepared => "prepared"
  | .committed => "committed"
  | .failed => "failed"
  | .suspended => "suspended"

structure TaskToolLedgerEntry where
  callId : NonEmptyString
  toolName : NonEmptyString
  status : LedgerStatus
  resultDigest : Option NonEmptyString := none

def taskToolLedgerEntry : Schema TaskToolLedgerEntry :=
  (Shape.required "callId" nonEmptyString <| .required "toolName" nonEmptyString <|
    .required "status" (.enum LedgerStatus.name [.prepared, .committed, .failed, .suspended]
      fun status => by cases status <;> rfl) <|
    .optional "resultDigest" nonEmptyString .done).strict.imap
  (fun (callId, toolName, status, resultDigest, _) => { callId, toolName, status, resultDigest })
  (fun entry => (entry.callId, entry.toolName, entry.status, entry.resultDigest, ()))
  fun _ => rfl

structure TaskSource where
  objectiveItemId : NonEmptyString
  sourceItemIds : NonEmptyList NonEmptyString
  sourceDigest : NonEmptyString

def taskSource : Schema TaskSource :=
  (Shape.required "objectiveItemId" nonEmptyString <|
    .required "sourceItemIds" (nonEmptyList nonEmptyString) <|
    .required "sourceDigest" nonEmptyString .done).strict.imap
  (fun (objectiveItemId, sourceItemIds, sourceDigest, _) =>
    { objectiveItemId, sourceItemIds, sourceDigest })
  (fun source => (source.objectiveItemId, source.sourceItemIds, source.sourceDigest, ()))
  fun _ => rfl

structure ActivePlan where
  planId : NonEmptyString
  relativePath : Option NonEmptyString := none

def activePlan : Schema ActivePlan :=
  (Shape.required "planId" nonEmptyString <|
    .optional "relativePath" nonEmptyString .done).strict.imap
  (fun (planId, relativePath, _) => { planId, relativePath })
  (fun plan => (plan.planId, plan.relativePath, ())) fun _ => rfl

structure TaskProgress where
  strongDigest : Option NonEmptyString := none
  weakDigest : Option NonEmptyString := none
  evidenceCount : SafeNat
  artifactCount : SafeNat
  lastObservationDigests : List NonEmptyString
  bounded : lastObservationDigests.length ≤ 64

def taskProgress : Schema TaskProgress :=
  (Shape.optional "strongDigest" nonEmptyString <| .optional "weakDigest" nonEmptyString <|
    .required "evidenceCount" safeNat <| .required "artifactCount" safeNat <|
    .required "lastObservationDigests" nonEmptyString.array .done).strict.refine
  (fun (strongDigest, weakDigest, evidenceCount, artifactCount, lastObservationDigests, _) =>
    if bounded : lastObservationDigests.length ≤ 64 then
      some { strongDigest, weakDigest, evidenceCount, artifactCount, lastObservationDigests, bounded }
    else none)
  (fun progress => (progress.strongDigest, progress.weakDigest, progress.evidenceCount,
    progress.artifactCount, progress.lastObservationDigests, ()))
  fun progress => dif_pos progress.bounded

structure TaskCompaction where
  itemId : NonEmptyString
  taskRevision : PositiveSafeInteger
  sourceDigest : NonEmptyString
  sourceItemIds : NonEmptyList NonEmptyString
  replacedTokens : PositiveSafeInteger

def taskCompaction : Schema TaskCompaction :=
  (Shape.required "itemId" nonEmptyString <| .required "taskRevision" positiveSafeInteger <|
    .required "sourceDigest" nonEmptyString <|
    .required "sourceItemIds" (nonEmptyList nonEmptyString) <|
    .required "replacedTokens" positiveSafeInteger .done).strict.imap
  (fun (itemId, taskRevision, sourceDigest, sourceItemIds, replacedTokens, _) =>
    { itemId, taskRevision, sourceDigest, sourceItemIds, replacedTokens })
  (fun compaction => (compaction.itemId, compaction.taskRevision, compaction.sourceDigest,
    compaction.sourceItemIds, compaction.replacedTokens, ()))
  fun _ => rfl

inductive WaitingKind where
  | approval | userInput | effectVerification

def WaitingKind.name : WaitingKind → String
  | .approval => "approval"
  | .userInput => "user_input"
  | .effectVerification => "effect_verification"

structure WaitingFor where
  kind : WaitingKind
  id : NonEmptyString

def waitingFor : Schema WaitingFor :=
  (Shape.required "kind" (.enum WaitingKind.name [.approval, .userInput, .effectVerification]
      fun kind => by cases kind <;> rfl) <|
    .required "id" nonEmptyString .done).strict.imap
  (fun (kind, id, _) => { kind, id }) (fun waiting => (waiting.kind, waiting.id, ())) fun _ => rfl

inductive Confidence where
  | high | medium

def Confidence.name : Confidence → String
  | .high => "high"
  | .medium => "medium"

structure TaskMigration where
  sourceDigest : NonEmptyString
  confidence : Confidence

def taskMigration : Schema TaskMigration :=
  (Shape.required "source" (literal "legacy_thread") <| .required "sourceDigest" nonEmptyString <|
    .required "confidence" (.enum Confidence.name [.high, .medium]
      fun confidence => by cases confidence <;> rfl) .done).strict.imap
  (fun (_, sourceDigest, confidence, _) => { sourceDigest, confidence })
  (fun migration => ((), migration.sourceDigest, migration.confidence, ())) fun _ => rfl

structure TaskStateV1 where
  identity : RunIdentity
  revision : PositiveSafeInteger
  source : TaskSource
  objective : NonEmptyString
  constraints : List NonEmptyString
  completedActions : List TaskAction
  pendingActions : List TaskAction
  activePlan : Option ActivePlan := none
  activeSkillIds : List NonEmptyString
  artifacts : List TaskArtifactRef
  toolLedger : List TaskToolLedgerEntry
  progress : Option TaskProgress := none
  compaction : Option TaskCompaction := none
  waitingFor : Option WaitingFor := none
  migration : Option TaskMigration := none
  createdAt : NonEmptyString
  updatedAt : NonEmptyString
  actionsDistinct : ((completedActions ++ pendingActions).map TaskAction.id).Nodup
  ledgerDistinct : (toolLedger.map TaskToolLedgerEntry.callId).Nodup

def taskStateV1 : Schema TaskStateV1 :=
  (Shape.required "version" versionOne <| .required "identity" runIdentity <|
    .required "revision" positiveSafeInteger <| .required "source" taskSource <|
    .required "objective" nonEmptyString <| .required "constraints" nonEmptyString.array <|
    .required "completedActions" taskAction.array <| .required "pendingActions" taskAction.array <|
    .optional "activePlan" activePlan <| .required "activeSkillIds" nonEmptyString.array <|
    .required "artifacts" taskArtifactRef.array <|
    .required "toolLedger" taskToolLedgerEntry.array <| .optional "progress" taskProgress <|
    .optional "compaction" taskCompaction <| .optional "waitingFor" waitingFor <|
    .optional "migration" taskMigration <| .required "createdAt" nonEmptyString <|
    .required "updatedAt" nonEmptyString .done).strict.refine
  (fun (_, identity, revision, source, objective, constraints, completedActions, pendingActions,
      activePlan, activeSkillIds, artifacts, toolLedger, progress, compaction, waitingFor, migration,
      createdAt, updatedAt, _) =>
    if distinct : ((completedActions ++ pendingActions).map TaskAction.id).Nodup ∧
        (toolLedger.map TaskToolLedgerEntry.callId).Nodup then
      some { identity, revision, source, objective, constraints, completedActions, pendingActions,
             activePlan, activeSkillIds, artifacts, toolLedger, progress, compaction, waitingFor,
             migration, createdAt, updatedAt
             actionsDistinct := distinct.1, ledgerDistinct := distinct.2 }
    else none)
  (fun task => ((), task.identity, task.revision, task.source, task.objective, task.constraints,
    task.completedActions, task.pendingActions, task.activePlan, task.activeSkillIds,
    task.artifacts, task.toolLedger, task.progress, task.compaction, task.waitingFor,
    task.migration, task.createdAt, task.updatedAt, ()))
  fun task => dif_pos ⟨task.actionsDistinct, task.ledgerDistinct⟩

end QiongQi.TaskStates
