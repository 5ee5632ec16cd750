import QiongQi.KeyedMaps
import QiongQi.IntentResults

/-! The effect records of a run: the effects that are pending and those that are committed, as
the tool runtime changes them call by call, and as `tool-call-coordinator.ts` merges them. -/
namespace QiongQi.EffectRecords
open JsonValues Programs RuntimeContracts MiddlewareCommands RuntimeKernels TaskStates ModelProposals KernelNodes
  ToolRuntimes Machines KeyedMaps IntentResults

/-- The effect lists of a `RunStateV3`. -/
structure Effects where
  pendingEffects : List EffectIntent := []
  committedEffects : List CommittedEffectRef := []

def Effects.pendingKeys (effects : Effects) : List NonEmptyString :=
  effects.pendingEffects.map EffectIntent.idempotencyKey

def Effects.committedKeys (effects : Effects) : List NonEmptyString :=
  effects.committedEffects.map CommittedEffectRef.idempotencyKey

/-- No key is both pending and committed, and none occurs twice in a list. -/
structure Consistent (effects : Effects) : Prop where
  apart : ∀ key ∈ effects.pendingKeys, key ∉ effects.committedKeys
  pending : effects.pendingKeys.Nodup
  committed : effects.committedKeys.Nodup

/-- A call that the runtime is given. Each step it awaits is answered by its number; the
process may end before any of them. -/
structure RuntimeCall where
  identity : RunIdentity
  call : ModelToolIntent
  policy : ToolEffectPolicy
  crashAfterExecute : Bool := false
  alive : Nat → Bool := fun _ => true
  answers : Nat → (step : ToolStep) → Except ForeignError (ToolAnswer step)

def RuntimeCall.key (call : RuntimeCall) : NonEmptyString :=
  idempotencyKey call.identity call.call.callId

def RuntimeCall.host (call : RuntimeCall) : Host ToolStep ToolAnswer ForeignError Nat where
  alive := call.alive
  perform number step := (call.answers number step, number + 1)

variable (deps : KernelV3NodeDependencies)

/-- `crash_between_execute_and_commit`. -/
def crashedOutcome (key : NonEmptyString) : RunOutcome where
  status := .suspended
  reason := .runtimeError
  retryable := true
  details := some [("code", .string "crash_between_execute_and_commit"), ("idempotencyKey", .string key.text)]

/-- With `crashAfterExecute` the runtime stops once the tool has answered. -/
def executeCrashed (identity : RunIdentity) (call : ModelToolIntent) (policy : ToolEffectPolicy)
    (effects : Effects) : ToolProgram ToolExecution := do
  let key := idempotencyKey identity call.callId
  let preparation ← awaitStep (.prepare call)
  if preparation.call.callId ≠ call.callId then
    Program.throw (.error "tool host preparation changed callId")
  else do
    let now ← awaitStep .nowIso
    let intent := effectIntent deps key preparation.call policy now
    awaitStep (.append .prepared key (intentJson intent))
    let _ ← preparedResult preparation
    pure {
      pendingEffects := prepareEffect effects.pendingEffects intent
      committedEffects := effects.committedEffects
      outcome := some (crashedOutcome key) }

/-- What `executeSingle` does before it comes to the tool host. -/
def beforeHost (key : NonEmptyString) (policy : ToolEffectPolicy) (effects : Effects)
    (go : ToolProgram ToolExecution) : ToolProgram ToolExecution :=
  let uncommitted :=
    if hasPending effects.pendingEffects key && policy.replay ≠ .safe then
      pure (requiresVerification effects.pendingEffects effects.committedEffects key)
    else go
  if hasCommitted effects.committedEffects key then do
    let stored ← awaitStep (.loadResult key)
    match stored with
    | some stored => replayStored effects.pendingEffects effects.committedEffects stored
    | none =>
      if policy.replay ≠ .safe then
        pure (requiresVerification effects.pendingEffects effects.committedEffects key)
      else uncommitted
  else uncommitted

/-- `ToolRuntimeV3.executeSingle`. -/
def RuntimeCall.program (call : RuntimeCall) (effects : Effects) : ToolProgram ToolExecution :=
  beforeHost call.key call.policy effects <| if call.crashAfterExecute then
      executeCrashed deps call.identity call.call call.policy effects
    else executePrepared deps call.identity call.call call.policy effects.pendingEffects
      effects.committedEffects

/-- `mergeEffectsByKey`. -/
def mergeEffectsByKey {β : Type} (key : β → NonEmptyString) (current next : List β) : List β :=
  (current ++ next).foldl (fun merged effect => setEntry key effect merged) []

/-- `mergeRuntimeEffectState`. -/
def mergeRuntimeEffectState (current next : Effects) : Effects :=
  let committedEffects := mergeEffectsByKey CommittedEffectRef.idempotencyKey
    current.committedEffects next.committedEffects
  let committedKeys := committedEffects.map CommittedEffectRef.idempotencyKey
  { committedEffects
    pendingEffects := (mergeEffectsByKey EffectIntent.idempotencyKey current.pendingEffects
      next.pendingEffects).filter fun effect => effect.idempotencyKey ∉ committedKeys }

/-- The records, and the keys of the calls that the runtime has answered with a result. -/
structure Records where
  effects : Effects := {}
  answered : List NonEmptyString := []

/-- The runtime is given a call, or the coordinator merges the records that another call has
come back with. -/
inductive RecordAction where
  | call (call : RuntimeCall)
  | merge (next : Effects)

def Records.after (records : Records) (key : NonEmptyString) (execution : ToolExecution) :
    Records where
  effects := ⟨execution.pendingEffects, execution.committedEffects⟩
  answered := if execution.result.isSome then key :: records.answered else records.answered

/-- A call that throws, or does not come back, leaves its caller with the records it had. -/
def step (records : Records) : RecordAction → Option Records
  | .call call =>
    match (execute call.host (call.program deps records.effects) 0).1 with
    | .returned execution => some (records.after call.key execution)
    | _ => some records
  | .merge next => some { records with effects := mergeRuntimeEffectState records.effects next }

/-- A call whose effect is committed finds its result in the store, or may not be replayed. -/
def Recorded (records : Records) : RecordAction → Prop
  | .call call => call.key ∈ records.effects.committedKeys → call.policy.replay = .safe →
      call.answers 0 (.loadResult call.key) ≠ .ok none
  | .merge _ => True

variable {deps} {identity : RunIdentity} {call : ModelToolIntent} {policy : ToolEffectPolicy}
variable {effects : Effects} {key : NonEmptyString} {execution : ToolExecution}

theorem hasCommitted_iff : hasCommitted effects.committedEffects key = true ↔
    key ∈ effects.committedKeys := by
  simp [hasCommitted, Effects.committedKeys]

theorem hasPending_iff : hasPending effects.pendingEffects key = true ↔ key ∈ effects.pendingKeys := by
  simp [hasPending, Effects.pendingKeys]

/-- The records after a call of a key: they are as they were, or the key is pending, or it is
committed. -/
inductive Leaves (effects : Effects) (key : NonEmptyString) (execution : ToolExecution) : Prop
  | same (pending : execution.pendingEffects = effects.pendingEffects)
      (committed : execution.committedEffects = effects.committedEffects)
      (answered : execution.result.isSome → key ∈ effects.committedKeys)
  | prepared (intent : EffectIntent) (own : intent.idempotencyKey = key)
      (fresh : key ∉ effects.committedKeys)
      (pending : execution.pendingEffects = prepareEffect effects.pendingEffects intent)
      (committed : execution.committedEffects = effects.committedEffects)
      (answered : execution.result = none)
  | committed (ref : CommittedEffectRef) (own : ref.idempotencyKey = key)
      (fresh : key ∉ effects.committedKeys)
      (pending : execution.pendingEffects =
        effects.pendingEffects.filter fun effect => effect.idempotencyKey ≠ key)
      (committed : execution.committedEffects = effects.committedEffects ++ [ref])

variable {records : Records}

private theorem filter_prepareEffect (own : intent.idempotencyKey = key) :
    (prepareEffect pendingEffects intent).filter (fun effect => effect.idempotencyKey ≠ key) =
      pendingEffects.filter fun effect => effect.idempotencyKey ≠ key := by
  subst own
  unfold prepareEffect
  split
  · rfl
  · simp [List.filter_append]

theorem commitEffect_returns (fresh : key ∉ effects.committedKeys) :
    Returns (fun committed => ∃ ref : CommittedEffectRef, ref.idempotencyKey = key ∧
        committed.1 = pendingEffects.filter (fun effect => effect.idempotencyKey ≠ key) ∧
        committed.2 = effects.committedEffects ++ [ref])
      (commitEffect deps pendingEffects effects.committedEffects key item observation) := by
  have none : effects.committedEffects.find? (fun effect => effect.idempotencyKey = key) = none := by
    simpa [Effects.committedKeys] using fresh
  unfold commitEffect
  rw [none]
  refine returns_seq fun now => returns_seq fun _ => returns_seq fun _ => ?_
  exact ⟨_, rfl, rfl, rfl⟩

theorem commitResult_returns (fresh : key ∉ effects.committedKeys)
    (holds : ∀ ref : CommittedEffectRef, ∀ execution : ToolExecution, ref.idempotencyKey = key →
      execution.pendingEffects = pendingEffects.filter (fun effect => effect.idempotencyKey ≠ key) →
      execution.committedEffects = effects.committedEffects ++ [ref] → good execution) :
    Returns good (commitResult deps key call policy pendingEffects effects.committedEffects item) := by
  have committed : ∀ observation, Returns good
      (commitEffect deps pendingEffects effects.committedEffects key item observation >>=
        fun lists => pure { pendingEffects := lists.1, committedEffects := lists.2
                            result := some item, observation }) := by
    intro observation
    refine returns_bind (commitEffect_returns fresh) ?_
    rintro lists ⟨ref, own, pending, refs⟩
    exact holds ref _ own pending refs
  unfold commitResult
  split
  all_goals exact returns_seq committed

theorem executePrepared_returns
    (fresh : idempotencyKey identity call.callId ∉ effects.committedKeys) :
    Returns (Leaves effects (idempotencyKey identity call.callId))
      (executePrepared deps identity call policy effects.pendingEffects
        effects.committedEffects) := by
  refine returns_seq fun preparation => ?_
  split
  · exact trivial
  · refine returns_seq fun now => returns_seq fun _ => returns_seq fun item => ?_
    refine commitResult_returns fresh fun ref => ?_
    intro execution own pending refs
    refine .committed ref own fresh ?_ refs
    exact pending.trans (filter_prepareEffect rfl)

theorem executeCrashed_returns
    (fresh : idempotencyKey identity call.callId ∉ effects.committedKeys) :
    Returns (Leaves effects (idempotencyKey identity call.callId))
      (executeCrashed deps identity call policy effects) := by
  refine returns_seq fun preparation => ?_
  split
  · exact trivial
  · refine returns_seq fun now => returns_seq fun _ => returns_seq fun _ => ?_
    exact .prepared _ rfl fresh rfl rfl rfl

theorem replayStored_returns (held : key ∈ effects.committedKeys) : Returns (Leaves effects key)
      (replayStored effects.pendingEffects effects.committedEffects stored) := by
  cases stored with
  | result item | observed item observation => exact .same rfl rfl fun _ => held
  | invalid error => exact trivial

theorem requiresVerification_leaves : Leaves effects key
    (requiresVerification effects.pendingEffects effects.committedEffects key) :=
  .same rfl rfl nofun

theorem beforeHost_fresh (fresh : key ∉ effects.committedKeys) (goes : Returns (Leaves effects key) go) :
    Returns (Leaves effects key) (beforeHost key policy effects go) := by
  unfold beforeHost
  rw [if_neg (fun held => fresh (hasCommitted_iff.mp held))]
  split
  · exact requiresVerification_leaves
  · exact goes

/-- One whose effect is committed is answered from the store, where its result is there or it
may not be replayed. -/
theorem beforeHost_held (held : key ∈ effects.committedKeys)
    (kept : policy.replay = .safe → answer ≠ .ok none) :
    ∃ next : Except ForeignError (Option StoredToolResult) → ToolProgram ToolExecution,
      beforeHost key policy effects go = .call (.loadResult key) next ∧
        Returns (Leaves effects key) (next answer) := by
  unfold beforeHost
  rw [if_pos (hasCommitted_iff.mpr held)]
  refine ⟨_, rfl, ?_⟩
  cases answer with
  | error error => exact trivial
  | ok stored =>
    cases stored with
    | some stored => exact replayStored_returns held
    | none =>
      have unsafe_ : policy.replay ≠ .safe := fun safe => kept safe rfl
      show Returns _ (if policy.replay ≠ .safe then _ else _)
      rw [if_pos unsafe_]
      exact requiresVerification_leaves

theorem program_leaves {call : RuntimeCall} (recorded : Recorded records (.call call))
    (ran : (execute call.host (call.program deps records.effects) 0).1 = .returned execution) :
    Leaves records.effects call.key execution := by
  have goes : call.key ∉ records.effects.committedKeys → Returns (Leaves records.effects call.key)
      (if call.crashAfterExecute then
        executeCrashed deps call.identity call.call call.policy records.effects
      else executePrepared deps call.identity call.call call.policy records.effects.pendingEffects
        records.effects.committedEffects) := by
    intro fresh
    split
    · exact executeCrashed_returns fresh
    · exact executePrepared_returns fresh
  by_cases held : call.key ∈ records.effects.committedKeys
  · obtain ⟨next, unfolded, returns⟩ := beforeHost_held held (recorded held)
    unfold RuntimeCall.program at ran
    rw [unfolded] at ran
    unfold execute at ran
    split at ran
    · exact execute_returned returns (Prod.ext ran rfl)
    · cases ran
  · exact execute_returned (beforeHost_fresh held (goes held)) (Prod.ext ran rfl)

/-- What the calls and merges of a run keep: the records are consistent, and a call that has
been answered is committed. -/
structure Kept (records : Records) : Prop where
  consistent : Consistent records.effects
  answered : ∀ key ∈ records.answered, key ∈ records.effects.committedKeys

theorem prepared_keys : (prepareEffect pendingEffects intent).map EffectIntent.idempotencyKey =
      if intent.idempotencyKey ∈ pendingEffects.map EffectIntent.idempotencyKey then
        pendingEffects.map EffectIntent.idempotencyKey
      else pendingEffects.map EffectIntent.idempotencyKey ++ [intent.idempotencyKey] := by
  have held : hasPending pendingEffects intent.idempotencyKey = true ↔
      intent.idempotencyKey ∈ pendingEffects.map EffectIntent.idempotencyKey :=
    @hasPending_iff ⟨pendingEffects, []⟩ intent.idempotencyKey
  unfold prepareEffect
  by_cases pending : hasPending pendingEffects intent.idempotencyKey = true
  · rw [if_pos pending, if_pos (held.mp pending)]
  · rw [if_neg pending, if_neg fun inside => pending (held.mpr inside), List.map_append]
    rfl

theorem Leaves.consistent (leaves : Leaves effects key execution) (before : Consistent effects) :
    Consistent ⟨execution.pendingEffects, execution.committedEffects⟩ := by
  cases leaves with
  | same pending committed answered =>
    rw [pending, committed]
    exact before
  | prepared intent own fresh pending committed answered =>
    subst own
    rw [pending, committed]
    refine ⟨?_, ?_, before.committed⟩
    · simp only [Effects.pendingKeys, prepared_keys]
      split
      · exact before.apart
      · intro key found
        rcases List.mem_append.mp found with found | found
        · exact before.apart key found
        · rw [List.mem_singleton.mp found]
          exact fresh
    · simp only [Effects.pendingKeys, prepared_keys]
      split
      · exact before.pending
      · rename_i absent
        refine List.nodup_append.mpr ⟨before.pending, List.nodup_singleton _, ?_⟩
        rintro left found right last rfl
        exact absent (List.mem_singleton.mp last ▸ found)
  | committed ref own fresh pending refs =>
    subst own
    rw [pending, refs]
    have fewer : ((effects.pendingEffects.filter fun effect =>
        effect.idempotencyKey ≠ ref.idempotencyKey).map EffectIntent.idempotencyKey).Sublist
          effects.pendingKeys := List.filter_sublist.map _
    refine ⟨fun key found => ?_, before.pending.sublist fewer, ?_⟩
    · obtain ⟨effect, kept, rfl⟩ := List.mem_map.mp found
      have other : effect.idempotencyKey ≠ ref.idempotencyKey := by
        simpa using (List.mem_filter.mp kept).2
      simp only [Effects.committedKeys, List.map_append, List.map_singleton, List.mem_append,
        List.mem_singleton, not_or]
      exact ⟨before.apart _ (fewer.subset found), other⟩
    · simp only [Effects.committedKeys, List.map_append, List.map_singleton]
      refine List.nodup_append.mpr ⟨before.committed, List.nodup_singleton _, ?_⟩
      rintro left found right last rfl
      exact fresh (List.mem_singleton.mp last ▸ found)

theorem Leaves.committedKeys (leaves : Leaves effects key execution) :
    (∀ other ∈ effects.committedKeys,
      other ∈ execution.committedEffects.map CommittedEffectRef.idempotencyKey) ∧
    (execution.result.isSome → key ∈ execution.committedEffects.map CommittedEffectRef.idempotencyKey) := by
  cases leaves with
  | same pending committed answered =>
    rw [committed]
    exact ⟨fun _ => id, answered⟩
  | prepared intent own fresh pending committed answered =>
    rw [committed, answered]
    exact ⟨fun _ => id, nofun⟩
  | committed ref own fresh pending refs =>
    rw [refs, List.map_append]
    exact ⟨fun _ found => List.mem_append_left _ found, fun _ =>
      List.mem_append_right _ (List.mem_singleton.mpr own.symm)⟩

theorem kept_call {call : RuntimeCall} (kept : Kept records)
    (leaves : Leaves records.effects call.key execution) :
    Kept (records.after call.key execution) where
  consistent := leaves.consistent kept.consistent
  answered := by
    intro key found
    unfold Records.after at found
    split at found
    · rename_i some
      rcases List.mem_cons.mp found with rfl | found
      · exact leaves.committedKeys.2 some
      · exact leaves.committedKeys.1 key (kept.answered key found)
    · exact leaves.committedKeys.1 key (kept.answered key found)

theorem nodup_merged : ((mergeEffectsByKey keyOf current next).map keyOf).Nodup :=
  (foldl_setEntry keyOf (current ++ next) [] List.nodup_nil).1

theorem mem_merged (found : key ∈ current.map keyOf) :
    key ∈ (mergeEffectsByKey keyOf current next).map keyOf := by
  refine ((foldl_setEntry keyOf (current ++ next) [] List.nodup_nil).2 key).mpr (.inr ?_)
  rw [List.map_append]
  exact List.mem_append_left _ found

theorem merge_consistent : Consistent (mergeRuntimeEffectState current next) where
  apart := by
    intro key found
    obtain ⟨effect, kept, rfl⟩ := List.mem_map.mp found
    exact of_decide_eq_true (List.mem_filter.mp kept).2
  pending := nodup_merged.sublist (List.filter_sublist.map _)
  committed := nodup_merged

theorem kept_step {next : Records} (kept : Kept records) (recorded : Recorded records action)
    (stepped : step deps records action = some next) : Kept next := by
  cases action with
  | call call =>
    simp only [step] at stepped
    split at stepped
    · rename_i execution ran
      cases stepped
      exact kept_call kept (program_leaves recorded ran)
    · cases stepped
      exact kept
  | merge merged =>
    cases stepped
    exact ⟨merge_consistent, fun key found => mem_merged (kept.answered key found)⟩

variable (deps) in
/-- Where the result of each committed effect is still in the store, or its call may not be
replayed, the records of a run stay consistent, and a call that has been answered is
committed and no longer pending. -/
theorem records_consistent (actions : List RecordAction) (records final : Records)
    (kept : Kept records) (recorded : Along (step deps) Recorded records actions)
    (ran : runActions (step deps) records actions = some final) :
    Consistent final.effects ∧ ∀ key ∈ final.answered,
      key ∈ final.effects.committedKeys ∧ key ∉ final.effects.pendingKeys := by
  have last := invariant_run (fun _ _ _ => kept_step) actions kept recorded ran
  refine ⟨last.consistent, fun key found => ⟨last.answered key found, fun pending => ?_⟩⟩
  exact last.consistent.apart key pending (last.answered key found)

section Example

private def replies (stored : Option StoredToolResult) (_ : Nat) :
    (step : ToolStep) → Except ForeignError (ToolAnswer step)
  | .prepare call => .ok { call }
  | .execute call => .ok (replyItem KernelRuns.sampleIdentity call (.result .undefined false))
  | .append _ _ _ => .ok ()
  | .loadResult _ => .ok stored
  | .saveResult _ _ _ => .ok ()
  | .nowIso => .ok (named "now")

private def read (callId : String) (stored : Option StoredToolResult) : RuntimeCall where
  identity := KernelRuns.sampleIdentity
  call := { callId := named callId, toolName := named "read", arguments := [] }
  policy := { effect := .read, replay := .safe }
  answers := replies stored

private def readItem : ResultItem :=
  replyItem KernelRuns.sampleIdentity (read "call_1" none).call (.result .undefined false)

private theorem nothing_kept : Kept {} where
  consistent := ⟨by decide, by decide, by decide⟩
  answered := by decide

/-- A call is executed, is answered from the store when it comes back, and another one stops
before its commit. -/
private def readAgain : List RecordAction :=
  [.call (read "call_1" none), .call (read "call_1" (some (.result readItem))),
    .call { read "call_2" none with crashAfterExecute := true }]

theorem read_again_consistent : ∃ final, runActions (step plainDeps) {} readAgain = some final ∧
    final.answered.length = 2 ∧ final.effects.pendingKeys.length = 1 ∧
    Consistent final.effects ∧ ∀ key ∈ final.answered,
      key ∈ final.effects.committedKeys ∧ key ∉ final.effects.pendingKeys :=
  ⟨_, rfl, rfl, rfl, records_consistent plainDeps readAgain {} _ nothing_kept
    ⟨fun held => (by cases held), fun _ _ => nofun, fun held => absurd held (by decide), trivial⟩ rfl⟩

/-- The result of a committed read is missing in the store: the read is prepared again, and its
commit leaves it pending. -/
theorem committed_read_pending : ∃ final,
    runActions (step plainDeps) {} [.call (read "call_1" none), .call (read "call_1" none)] = some final ∧
    (read "call_1" none).key ∈ final.answered ∧
    (read "call_1" none).key ∈ final.effects.committedKeys ∧
    (read "call_1" none).key ∈ final.effects.pendingKeys ∧ ¬ Consistent final.effects := by
  refine ⟨_, rfl, by decide, by decide, by decide, fun consistent => ?_⟩
  exact consistent.apart (read "call_1" none).key (by decide) (by decide)

end Example

end QiongQi.EffectRecords
