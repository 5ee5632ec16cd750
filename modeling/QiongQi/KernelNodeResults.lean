import QiongQi.KernelNodes
import QiongQi.RuntimeMiddlewares

/-! What each handler of a production turn can return in a state, whatever the
stores, the prompt builder, the model and the tools answer it; and that each
asks the model at most once. -/
namespace QiongQi.KernelNodeResults
open JsonValues JsonSchemas Programs RuntimeContracts MiddlewareCommands RuntimeKernels TaskStates List
  ModelProposals KernelNodes

/-- The calls the budget middleware counts are the ones the node adds. -/
def toolUsageCommands (state : RunStateV3) (usageId : String) : List JsValue :=
  let unledgered := RuntimeMiddlewares.unledgeredToolCallCount state
  if unledgered > 0 then [addBudgetCommand usageId [("toolCallsUsed", unledgered)]] else []

/-- The command that marks an older proposal as evaluated again. -/
def reconciledCommands (state : RunStateV3) : List JsValue :=
  ((openMarker state "v1-proposal-migration" "reconciled").map fun marker =>
    setNodeDataCommand "v1-proposal-migration" (withFlag marker "reconciled")).toList

/-- A result that goes on under a condition. -/
def going (condition : String) (value : Option JsValue) (commands : List JsValue) :
    RuntimeNodeResult where
  condition := some condition
  value := value
  commands := some commands

def builtCommands (state : RunStateV3) (governor : Option Json) : List JsValue :=
  (governor.map (setMiddlewareStateCommand "compaction-governor")).toList ++
    if forcesCompaction state then [setNodeDataCommand "force-context-compaction" (.bool false)]
    else []

def storedTaskCommands (task : TaskStateV1) : List JsValue :=
  [setTaskRevisionCommand task.revision.value,
    setNodeDataCommand "restore-task" (taskStateV1.write task).toJs]

/-- What the handler of a node may return. -/
inductive NodeResult (state : RunStateV3) : String → Option RuntimeNodeResult → Prop where
  | ended (nodeId : String) (outcome : RunOutcome) : NodeResult state nodeId (ended outcome)
  | passed {nodeId condition : String} (value : JsValue)
      (edge : (nodeId, condition) ∈ [("prepare-turn", "next"), ("materialize-proposal", "next"),
        ("govern-progress", "progress_checked"), ("recover-context", "recovered")]) :
      NodeResult state nodeId (some { condition := some condition, value := some value })
  | restored (task : TaskStateV1) : NodeResult state "restore-task" (restored task)
  | built (value : JsValue) (governor : Option Json) :
      NodeResult state "build-context"
        (some (going "next" (some value) (builtCommands state governor)))
  | invocationFailed (left : canRecover state.recovery = true) :
      NodeResult state "invoke-model" (recovering state.recovery "model_stream_error" none [])
  | overCapacity (left : canRecover state.recovery = true) (proposal : ModelProposal) :
      NodeResult state "invoke-model" (recovering state.recovery "context_capacity_exceeded"
        (some (modelProposal.write proposal).toJs)
        [setNodeDataCommand "force-context-compaction" (.bool true)])
  | proposed (proposal : ModelProposal) :
      NodeResult state "invoke-model" (some {
        condition := some "next", value := some (modelProposal.write proposal).toJs })
  | normalized (proposal : ModelProposal)
      (read : modelProposal.safeParse (nodeDataAt state "invoke-model") = some proposal) :
      NodeResult state "normalize-proposal" (some {
        condition := some "next", value := some (modelProposal.write proposal).toJs })
  | accounted (proposal : ModelProposal)
      (read : modelProposal.safeParse (nodeDataAt state "normalize-proposal") = some proposal)
      (inputTokens outputTokens costUsd : ℚ) (facts : List (String × JsValue))
      (silent : "proposalText" ∉ facts.map Prod.fst) :
      NodeResult state "account-model" (some {
        condition := some "next"
        commands := some (addBudgetCommand s!"model:{proposal.proposalId.text}"
          [("stepsUsed", 1), ("inputTokens", inputTokens), ("outputTokens", outputTokens),
            ("costUsd", costUsd)] :: migrationCommands state)
        facts := some facts })
  | classified {condition : String} (value : JsValue)
      (edge : condition ∈ ["tools", "fatal", "final"]) :
      NodeResult state "evaluate" (some (going condition (some value) (reconciledCommands state)))
  | recoverable (value : JsValue) (left : canRecover state.recovery = true)
      (lastReason : Option String) :
      NodeResult state "evaluate" (some (going "recover" (some value)
        (reconciledCommands state ++ [setRecoveryCommand {
          attempts := state.recovery.attempts.value + 1
          maxAttempts := state.recovery.maxAttempts.value
          lastReason }])))
  | degraded (outcome : RunOutcome) (value : JsValue) (recovery : RecoveryUpdate) :
      NodeResult state "evaluate" (some {
        outcome := some outcome
        value := some value
        commands := some (reconciledCommands state ++ [setRecoveryCommand recovery]) })
  | committed (outcome : RunOutcome) (value : JsValue) :
      NodeResult state "commit-assistant" (some { value := some value, outcome := some outcome })
  | toolsPrepared (usageId : String) (value : JsValue) :
      NodeResult state "prepare-tools"
        (some (going "next" (some value) (toolUsageCommands state usageId)))
  | toolsCommitted (task : TaskStateV1) (value : JsValue) (pendingEffects : List EffectIntent)
      (committedEffects : List CommittedEffectRef) :
      NodeResult state "commit-tools" (some (going "tools_committed" (some value)
        (storedTaskCommands task ++ [setEffectsCommand pendingEffects committedEffects])))
  | projected (value : JsValue) (commands : List JsValue)
      (stored : commands = [] ∨ ∃ task, commands = storedTaskCommands task)
      (facts : List (String × JsValue)) (silent : "proposalText" ∉ facts.map Prod.fst) :
      NodeResult state "project-progress" (some {
        condition := some "next", value := some value, facts := some facts
        commands := some commands })
  | checkpointed (value : JsValue) (facts : List (String × JsValue))
      (silent : "proposalText" ∉ facts.map Prod.fst) :
      NodeResult state "progress-checkpoint" (some {
        condition := some "checkpointed", value := some value, facts := some facts })

/-- What a call of a handler costs: an invocation of the model. -/
def invocations : KernelCall → Nat
  | .runProposal _ => 1
  | _ => 0

section

private theorem settles_attempt {program : NodeProgram α}
    (settles : Settles invocations (fun _ => True) limit program) :
    Settles invocations (fun _ => True) limit (attempt program) := by
  have body : Settles invocations (fun _ => True) (limit + 0)
      (program.bind fun value => (.pure (.ok value) : NodeProgram (Except ForeignError α))) :=
    settles_bind settles fun _ _ => settles_pure trivial
  have handled : Settles invocations (fun _ => True) (limit + 0 + 0) (attempt program) :=
    settles_catching body fun _ => settles_pure trivial
  exact handled

private theorem settles_emitProgress :
    Settles invocations (fun _ => True) 0 (emitProgress deps identity progress) := by
  unfold emitProgress
  split
  · refine settles_free rfl fun _ => ?_
    refine settles_free rfl fun _ => ?_
    exact settles_await (Nat.le_refl 0) fun _ => trivial
  · exact settles_pure trivial

private theorem nodeDataAt_value (found : nodeValue state nodeId = some value) :
    nodeDataAt state nodeId = value := by
  unfold nodeValue at found
  split at found
  · cases found
  · exact Option.some.inj found

private theorem settles_requireNodeValue :
    Settles invocations (fun value => nodeDataAt state nodeId = value) 0
      (requireNodeValue state nodeId) := by
  unfold requireNodeValue
  split
  next value found => exact settles_pure (nodeDataAt_value found)
  · exact settles_throw

private theorem settles_requireProposal : Settles invocations
      (fun proposal => modelProposal.safeParse (nodeDataAt state nodeId) = some proposal) 0
      (requireProposal state nodeId) := by
  refine settles_seq settles_requireNodeValue fun value held => ?_
  split
  next proposal parsed => exact settles_pure (held ▸ parsed)
  · exact settles_throw

private theorem settles_requireTask : Settles invocations
      (fun task => taskStateV1.safeParse (nodeDataAt state "restore-task") = some task) 0
      (requireTask state) := by
  refine settles_seq settles_requireNodeValue fun value held => ?_
  split
  next task parsed => exact settles_pure (held ▸ parsed)
  · exact settles_throw

private theorem settles_materializeProposal :
    Settles invocations (fun _ => True) 0 (materializeProposal proposal) := by
  unfold materializeProposal
  dsimp only
  split
  · refine settles_free rfl fun _ => ?_
    split
    · exact settles_await (Nat.le_refl 0) fun _ => trivial
    · exact settles_pure trivial
  · split
    · exact settles_await (Nat.le_refl 0) fun _ => trivial
    · exact settles_pure trivial

private theorem settles_abortPrepared :
    Settles invocations (fun _ => True) 0 (abortPrepared state finishedAt calls) := by
  induction calls with
  | nil => exact settles_pure trivial
  | cons call rest ih =>
    cases call with
    | string callId => exact settles_free rfl fun _ => ih
    | _ => exact ih

private theorem settles_applyCalls :
    Settles invocations (fun _ => True) 0 (applyCalls state calls) := by
  induction calls with
  | nil => exact settles_pure trivial
  | cons call rest ih => exact settles_free rfl fun _ => ih

private theorem settles_commitRejected : Settles invocations (fun _ => True) 0
      (commitRejected deps state call policy error progress) := by
  refine settles_free rfl fun _ => ?_
  refine settles_free rfl fun _ => ?_
  refine settles_free rfl fun _ => ?_
  refine settles_free rfl fun _ => ?_
  exact settles_seq (settles_lift fun _ _ => trivial) fun _ (_ : True) => settles_pure trivial

private theorem settles_commitExecuted : Settles invocations (fun _ => True) 0
      (commitExecuted deps state call execution item progress) := by
  refine settles_free rfl fun _ => ?_
  refine settles_free rfl fun _ => ?_
  exact settles_free rfl fun _ => settles_pure trivial

private theorem settles_commitCalls : ∀ progress : CommitProgress,
      Settles invocations (fun _ => True) 0 (commitCalls deps state built calls progress) := by
  induction calls with
  | nil => exact fun _ => settles_pure trivial
  | cons call rest ih =>
    intro progress
    refine settles_seq (settles_attempt (settles_await (Nat.le_refl 0) fun _ => trivial))
      fun executed _ => ?_
    cases executed with
    | error error =>
      dsimp only
      split
      · exact settles_seq settles_commitRejected fun _ _ => ih _
      · exact settles_throw
    | ok execution =>
      dsimp only
      split
      · exact settles_pure trivial
      · exact settles_pure trivial
      · exact settles_seq settles_commitExecuted fun _ _ => ih _

private theorem settles_storeProgress :
    Settles invocations (fun _ => True) 0 (storeProgress task projection) := by
  refine settles_free rfl fun _ => ?_
  refine settles_seq (settles_attempt (settles_await (Nat.le_refl 0) fun _ => trivial))
    fun stored _ => ?_
  cases stored with
  | ok answer => exact settles_pure trivial
  | error error =>
    refine settles_seq (settles_attempt (settles_await (Nat.le_refl 0) fun _ => trivial))
      fun _ _ => ?_
    exact settles_throw

variable {context : RuntimeNodeContext}

/-- The program's results are those of the node, and it asks the model no more
often than the limit allows. -/
abbrev NodeSettles (context : RuntimeNodeContext) (nodeId : String) (limit : Nat)
    (program : NodeProgram (Option RuntimeNodeResult)) : Prop :=
  Settles invocations (NodeResult context.state nodeId) limit program

private theorem settles_ended : NodeSettles context nodeId limit (pure (ended outcome)) :=
  settles_pure (.ended nodeId outcome)

private theorem settles_prepareTurn :
    NodeSettles context "prepare-turn" 0 (prepareTurn deps context) := by
  refine settles_free rfl fun thread => ?_
  refine settles_free rfl fun turn => ?_
  split
  next thread turn =>
    refine settles_seq settles_emitProgress fun _ _ => ?_
    dsimp only
    split
    · exact settles_ended
    refine settles_free rfl fun signal => ?_
    split
    · exact settles_ended
    · exact settles_pure (.passed _ (by decide))
  · exact settles_ended

private theorem settles_restoreTask :
    NodeSettles context "restore-task" 0 (restoreTask context) := by
  refine settles_free rfl fun stored => ?_
  cases stored with
  | some task => exact settles_pure (.restored task)
  | none =>
    refine settles_free rfl fun thread => ?_
    refine settles_free rfl fun _ => ?_
    cases thread with
    | none => exact settles_ended
    | some thread =>
      refine settles_free rfl fun migrated => ?_
      cases migrated with
      | created task | existing task => exact settles_pure (.restored task)
      | insufficientTrustedSource reason | scopeViolation reason => exact settles_ended

private theorem settles_buildContext :
    NodeSettles context "build-context" 0 (buildContext context) := by
  refine settles_free rfl fun signal => ?_
  split
  · exact settles_ended
  refine settles_free rfl fun built => ?_
  cases built with
  | aborted | stopped => exact settles_ended
  | built found => exact settles_pure (.built _ found.compactionGovernorState)

private theorem settles_invokeModel :
    NodeSettles context "invoke-model" 1 (invokeModel deps context) := by
  refine settles_seq settles_requireNodeValue fun built _ => ?_
  refine settles_free rfl fun signal => ?_
  split
  · exact settles_ended
  show NodeSettles context "invoke-model" (1 + 0) _
  refine settles_bind (settles_attempt (settles_await (Nat.le_refl 1) fun _ => trivial))
    fun proposed _ => ?_
  cases proposed with
  | error error =>
    refine settles_free rfl fun signal => ?_
    split
    · exact settles_ended
    split
    next left => exact settles_pure (.invocationFailed left)
    · exact settles_ended
  | ok proposal =>
    dsimp only
    split
    · split
      next left => exact settles_pure (.overCapacity left proposal)
      · exact settles_seq settles_emitProgress fun _ _ => settles_ended
    · exact settles_pure (.proposed proposal)

private theorem settles_normalizeProposal :
    NodeSettles context "normalize-proposal" 0 (normalizeProposal context) :=
  settles_seq settles_requireProposal fun proposal read =>
    settles_pure (.normalized proposal read)

private theorem settles_accountModel :
    NodeSettles context "account-model" 0 (accountModel deps context) := by
  refine settles_seq settles_requireTask fun task _ => ?_
  refine settles_seq settles_requireProposal fun proposal read => ?_
  refine settles_pure (.accounted proposal read _ _ _ _ ?_)
  cases proposal.providerReason with
  | none => simp
  | some reason =>
    split <;> simp

private theorem settles_evaluate : NodeSettles context "evaluate" 0 (evaluate deps context) := by
  refine settles_seq settles_requireTask fun task _ => ?_
  refine settles_seq settles_requireProposal fun proposal _ => ?_
  have classified : NodeSettles context "evaluate" 0
      (if classifyProposal deps.tests proposal task = .toolIntents then
        pure (evaluated "tools" (classifyProposal deps.tests proposal task) "tools"
          (reconciledCommands context.state))
      else if isRecoverableProposalClass (classifyProposal deps.tests proposal task) then
        let transition := transitionContextRecovery task context.state.recovery
          (classifyProposal deps.tests proposal task)
        let commands := reconciledCommands context.state ++ [setRecoveryCommand transition.recovery]
        if transition.action = .degrade then
          pure (some {
            outcome := transition.outcome
            value := some (.object [("proposalClass", .string (ProposalClass.name
              (classifyProposal deps.tests proposal task))), ("action", .string "degrade")])
            commands := some commands })
        else pure (evaluated "recover" (classifyProposal deps.tests proposal task) "recover"
          commands)
      else if classifyProposal deps.tests proposal task = .safetyOrRefusal then
        pure (evaluated "fatal" (classifyProposal deps.tests proposal task) "fatal"
          (reconciledCommands context.state))
      else pure (evaluated "final" (classifyProposal deps.tests proposal task) "final"
        (reconciledCommands context.state))) := by
    split
    · exact settles_pure (.classified _ (by decide))
    split
    next recoverable =>
      by_cases left : canRecover context.state.recovery = true
      · have room : context.state.recovery.attempts.value <
            context.state.recovery.maxAttempts.value := by simpa [canRecover] using left
        simp only [transitionContextRecovery, recoverable, Bool.not_true, Bool.false_eq_true,
          if_false, if_pos room]
        exact settles_pure (.recoverable _ left _)
      · have room : ¬ context.state.recovery.attempts.value <
            context.state.recovery.maxAttempts.value := by simpa [canRecover] using left
        simp only [transitionContextRecovery, recoverable, Bool.not_true, Bool.false_eq_true,
          if_false, if_neg room]
        exact settles_pure (.degraded _ _ _)
    split
    all_goals exact settles_pure (.classified _ (by decide))
  dsimp only
  split
  · split
    next other =>
      rw [if_neg other] at classified
      exact settles_seq settles_abortPrepared fun _ _ => classified
    · exact classified
  · exact classified

private theorem settles_commitAssistant :
    NodeSettles context "commit-assistant" 0 (commitAssistant deps context) := by
  refine settles_seq settles_requireProposal fun proposal _ => ?_
  refine settles_seq settles_materializeProposal fun _ _ => ?_
  refine settles_seq settles_emitProgress fun _ _ => ?_
  exact settles_pure (.committed _ _)

private theorem settles_materializeNode :
    NodeSettles context "materialize-proposal" 0 (materializeProposalNode context) := by
  refine settles_seq settles_requireProposal fun proposal _ => ?_
  refine settles_seq settles_materializeProposal fun _ _ => ?_
  exact settles_pure (.passed _ (by decide))

private theorem settles_prepareTools :
    NodeSettles context "prepare-tools" 0 (prepareTools deps context) := by
  refine settles_seq settles_requireProposal fun proposal read => ?_
  refine settles_seq settles_requireTask fun task restored => ?_
  refine settles_seq settles_applyCalls fun _ _ => ?_
  have counted : (unledgeredCallIds proposal task).length =
      RuntimeMiddlewares.unledgeredToolCallCount context.state := by
    simp only [RuntimeMiddlewares.unledgeredToolCallCount, read, restored, unledgeredCallIds, length_map]
  have prepared : NodeResult context.state "prepare-tools" _ := .toolsPrepared
    (toolUsageId deps proposal (unledgeredCallIds proposal task))
    (preparedCalls.write proposal.toolIntents).toJs
  unfold toolUsageCommands at prepared
  rw [← counted] at prepared
  exact settles_pure prepared

private theorem settles_commitTools :
    NodeSettles context "commit-tools" 0 (commitTools deps context) := by
  refine settles_seq settles_requireNodeValue fun prepared _ => ?_
  refine settles_seq settles_requireNodeValue fun built _ => ?_
  refine settles_free rfl fun _ => ?_
  split
  · exact settles_throw
  refine settles_seq (settles_commitCalls _) fun committed _ => ?_
  cases committed with
  | error outcome => exact settles_ended
  | ok progress =>
    refine settles_free rfl fun current => ?_
    cases current with
    | none => exact settles_ended
    | some current =>
      refine settles_free rfl fun now => ?_
      split
      · exact settles_throw
      refine settles_free rfl fun _ => ?_
      refine settles_free rfl fun _ => ?_
      exact settles_pure (.toolsCommitted _ _ _ _)

private theorem settles_projectProgress :
    NodeSettles context "project-progress" 0 (projectProgress deps context) := by
  refine settles_seq settles_requireTask fun task _ => ?_
  refine settles_seq settles_requireNodeValue fun commit _ => ?_
  refine settles_free rfl fun thread => ?_
  refine settles_free rfl fun now => ?_
  refine settles_seq (settles_lift fun _ _ => trivial) fun projection (_ : True) => ?_
  refine settles_seq settles_emitProgress fun _ _ => ?_
  dsimp only
  split
  · refine settles_seq settles_storeProgress fun _ _ => ?_
    refine settles_pure (.projected _ _ (.inr ⟨projection.state, rfl⟩) _ ?_)
    simp only [map_cons, map_nil, mem_cons, not_mem_nil, or_false]
    decide
  next unmoved =>
    rw [if_pos (not_not.mp unmoved)]
    refine settles_pure (.projected _ _ (.inl rfl) _ ?_)
    simp only [map_cons, map_nil, mem_cons, not_mem_nil, or_false]
    decide

private theorem settles_progressCheckpoint :
    NodeSettles context "progress-checkpoint" 0 (progressCheckpoint deps context) := by
  refine settles_seq settles_emitProgress fun _ _ => ?_
  refine settles_seq settles_requireTask fun task _ => ?_
  exact settles_pure (.checkpointed _ _ (by simp))

private theorem settles_recoverContext :
    NodeSettles context "recover-context" 0 (recoverContext context) :=
  settles_seq settles_requireTask fun _ _ => settles_pure (.passed _ (by decide))

/-- How often a node invokes the model. -/
def invocationLimit (nodeId : String) : Nat := if nodeId = "invoke-model" then 1 else 0

/-- Every handler returns one of its node's results. -/
theorem handlers_settle (found : createKernelV3NodeHandlers deps nodeId = some handler) :
    NodeSettles context nodeId (invocationLimit nodeId) (handler context) := by
  unfold createKernelV3NodeHandlers at found
  split at found <;> cases found
  · exact settles_prepareTurn
  · exact settles_restoreTask
  · exact settles_buildContext
  · exact settles_invokeModel
  · exact settles_normalizeProposal
  · exact settles_accountModel
  · exact settles_evaluate
  · exact settles_commitAssistant
  · exact settles_materializeNode
  · exact settles_prepareTools
  · exact settles_commitTools
  · exact settles_projectProgress
  · exact settles_pure (.passed _ (by decide))
  · exact settles_progressCheckpoint
  · exact settles_recoverContext
  all_goals exact settles_ended

end

end QiongQi.KernelNodeResults
