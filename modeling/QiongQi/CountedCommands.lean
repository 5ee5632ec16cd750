import Mathlib.Data.Nat.Cast.Order.Ring
import QiongQi.BudgetAccounts

/-! What the log of a production turn counts, and what its handlers and its
middleware can add to it. -/
namespace QiongQi.CountedCommands
open JsonValues Programs RuntimeContracts MiddlewareCommands ExecutionGraphs RuntimeKernels List
  KernelRuns KernelReducers KernelDurability KernelReplay KernelSteps KernelLive KernelInvariants
  KernelNodes KernelNodeResults AcceptedCommands RuntimeMiddlewares TaskStates UsageLedgers
  BudgetAccounts

/-- What a `node.completed` event counts. -/
def eventUsage (event : RunEventEnvelope) : List (String × ℚ) :=
  if event.eventType = "node.completed" then
    match parseCompletedNodePayload event.payload with
    | .ok payload => usageEntries payload.commands
    | .error _ => []
  else []

def recordedUsage (events : List RunEventEnvelope) : List (String × ℚ) := events.flatMap eventUsage

theorem recordedUsage_append :
    recordedUsage (left ++ right) = recordedUsage left ++ recordedUsage right :=
  flatMap_append

theorem eventUsage_nonneg (event : RunEventEnvelope) : ∀ entry ∈ eventUsage event, 0 ≤ entry.2 := by
  unfold eventUsage
  split
  · split
    · exact usageEntries_nonneg
    · exact fun _ found => by cases found
  · exact fun _ found => by cases found

theorem recordedUsage_nonneg (events : List RunEventEnvelope) :
    ∀ entry ∈ recordedUsage events, 0 ≤ entry.2 := by
  intro entry found
  obtain ⟨event, _, counted⟩ := mem_flatMap.mp found
  exact eventUsage_nonneg event entry counted

theorem eventUsage_silent (other : event.eventType ≠ "node.completed") : eventUsage event = [] :=
  if_neg other

/-- Replaying the event keeps the accounts in order. -/
structure OrderlyEvent (event : RunEventEnvelope) : Prop where
  completed : event.eventType = "node.completed" → ∀ payload,
    parseCompletedNodePayload event.payload = .ok payload → OrderlyCompletion payload
  afterMiddleware : event.eventType = "node.after_middleware" → ∀ payload,
    parseAfterMiddlewarePayload event.payload = .ok payload → ∀ command ∈ payload.commands, Plain command

theorem orderly_other (notCompleted : event.eventType ≠ "node.completed")
    (notAfter : event.eventType ≠ "node.after_middleware") : OrderlyEvent event :=
  ⟨fun completed => absurd completed notCompleted, fun after => absurd after notAfter⟩

/-- In a log in order, the events up to a number come first. -/
theorem recordedUsage_split (ascending : events.Pairwise fun left right => left.seq < right.seq) (seq : Nat) :
    recordedUsage events = recordedUsage (events.filter fun event => event.seq ≤ seq) ++
        recordedUsage (events.filter fun event => seq < event.seq) := by
  induction events with
  | nil => rfl
  | cons event rest ih =>
    obtain ⟨apart, ascending⟩ := pairwise_cons.mp ascending
    by_cases early : event.seq ≤ seq
    · rw [filter_cons_of_pos (by simpa using early), filter_cons_of_neg (by simpa using early)]
      have others := ih ascending
      simp only [recordedUsage, flatMap_cons, append_assoc] at others ⊢
      rw [others]
    · have late : ∀ later ∈ rest, ¬ later.seq ≤ seq := by
        intro later found
        have := apart later found
        omega
      have none : rest.filter (fun event => event.seq ≤ seq) = [] := by
        rw [filter_eq_nil_iff]
        exact fun later found => by simpa using late later found
      have all : rest.filter (fun event => seq < event.seq) = rest := by
        rw [filter_eq_self]
        exact fun later found => by simpa using late later found
      rw [filter_cons_of_neg (by simpa using early), filter_cons_of_pos (by simpa using early), none, all]
      rfl

/-- Events that count nothing may be left out. -/
theorem recordedUsage_filter
    (silent : ∀ event ∈ events, keep event = false → eventUsage event = []) :
    recordedUsage (events.filter keep) = recordedUsage events := by
  induction events with
  | nil => rfl
  | cons event rest ih =>
    have others := ih fun found member => silent found (mem_cons_of_mem _ member)
    cases kept : keep event with
    | true =>
      rw [filter_cons_of_pos kept]
      exact congrArg (eventUsage event ++ ·) others
    | false =>
      rw [filter_cons_of_neg (by simp [kept]), others]
      show _ = eventUsage event ++ recordedUsage rest
      rw [silent event mem_cons_self kept]
      rfl

variable {options : BudgetMiddlewareOptions}
variable {command : MiddlewareCommand}

private theorem plain_of_type (typed : MiddlewareCommand.typeName command = name)
    (safe : name ∉ ["set-middleware-state", "set-budget", "add-budget", "set-node-data"]) :
    Plain command := by
  subst typed
  cases command with
  | setMiddlewareState id state | setBudget entry | addBudget delta usageId
  | setNodeData nodeId value => simp [MiddlewareCommand.typeName] at safe
  | _ => exact ⟨trivial, rfl⟩

private theorem plain_setNodeData (accepted : Accepted (setNodeDataCommand nodeId value) command)
    (restored : nodeId = "restore-task" → IsTask value) : Plain command := by
  obtain ⟨id, data, rfl, same, written⟩ := accepted_setNodeData accepted
  refine ⟨fun named => ?_, rfl⟩
  obtain ⟨task, rfl⟩ := restored (same.symm.trans named)
  rw [serialize_toJs] at written
  cases written
  exact ⟨task, rfl⟩

private theorem plain_setMiddlewareState {id : String}
    (accepted : Accepted (.object [("type", .string "set-middleware-state"), ("id", .string id),
      ("state", .object fields)]) command) (other : id ≠ "budget-accounting") : Plain command := by
  obtain ⟨id', state, rfl, same⟩ := accepted_setMiddlewareState accepted
  exact ⟨fun named => other (same.symm.trans named), rfl⟩

private theorem accepted_mem (accepted : List.Forall₂ Accepted raws commands)
    (found : command ∈ commands) : ∃ raw ∈ raws, Accepted raw command := by
  induction accepted with
  | nil => cases found
  | cons first _ ih =>
    rcases mem_cons.mp found with rfl | found
    · exact ⟨_, mem_cons_self, first⟩
    · obtain ⟨raw, member, held⟩ := ih found
      exact ⟨raw, mem_cons_of_mem _ member, held⟩

/-- The value makes plain commands only. -/
def PlainRaw (raw : JsValue) : Prop := ∀ command, Accepted raw command → Plain command

private theorem plainRaw_named
    (safe : name ∉ ["set-middleware-state", "set-budget", "add-budget", "set-node-data"]) :
    PlainRaw (.object (("type", .string name) :: fields)) :=
  fun _ accepted => plain_of_type (accepted_type accepted) safe

private theorem plainRaw_nodeData (other : nodeId ≠ "restore-task") :
    PlainRaw (setNodeDataCommand nodeId value) :=
  fun _ accepted => plain_setNodeData accepted fun same => absurd same other

private theorem plainRaw_storedTask : ∀ raw ∈ storedTaskCommands task, PlainRaw raw := by
  intro raw found
  simp only [storedTaskCommands, mem_cons, not_mem_nil, or_false] at found
  rcases found with rfl | rfl
  · exact plainRaw_named (by decide)
  · exact fun _ accepted => plain_setNodeData accepted fun _ => ⟨task, rfl⟩

private theorem plainRaw_reconciled : ∀ raw ∈ reconciledCommands state, PlainRaw raw := by
  intro raw found
  simp only [reconciledCommands, Option.mem_toList, Option.map_eq_some_iff] at found
  obtain ⟨marker, _, rfl⟩ := found
  exact plainRaw_nodeData (by decide)

private theorem plainRaw_migration : ∀ raw ∈ migrationCommands state, PlainRaw raw := by
  have consumed : ∀ nodeId, nodeId ≠ "restore-task" → ∀ commands,
      (openMarker state nodeId "consumed").map (fun marker =>
        [setNodeDataCommand nodeId (withFlag marker "consumed"),
          jumpCommand (property marker "resumeNodeId") (.string "next")
            (.string "resume migrated production graph after model accounting")]) = some commands →
      ∀ raw ∈ commands, PlainRaw raw := by
    intro nodeId other commands made raw found
    obtain ⟨marker, _, rfl⟩ := Option.map_eq_some_iff.mp made
    simp only [mem_cons, not_mem_nil, or_false] at found
    rcases found with rfl | rfl
    · exact plainRaw_nodeData other
    · exact plainRaw_named (by decide)
  intro raw found
  unfold migrationCommands at found
  dsimp only at found
  cases second : (openMarker state "v2-accounting-migration" "consumed").map (fun marker =>
      [setNodeDataCommand "v2-accounting-migration" (withFlag marker "consumed"),
        jumpCommand (property marker "resumeNodeId") (.string "next")
          (.string "resume migrated production graph after model accounting")]) with
  | some commands =>
    rw [second] at found
    exact consumed _ (by decide) commands second raw found
  | none =>
    rw [second] at found
    cases first : (openMarker state "v1-accounting-migration" "consumed").map (fun marker =>
        [setNodeDataCommand "v1-accounting-migration" (withFlag marker "consumed"),
          jumpCommand (property marker "resumeNodeId") (.string "next")
            (.string "resume migrated production graph after model accounting")]) with
    | some commands =>
      rw [Option.orElse_none, first] at found
      exact consumed _ (by decide) commands first raw found
    | none =>
      rw [Option.orElse_none, first] at found
      cases found

section
variable (returned : NodeResult state nodeId result)
include returned

private theorem result_raws :
    (∀ raw ∈ (result.bind RuntimeNodeResult.commands).getD [], PlainRaw raw) ∨
      ∃ usageId delta rest, (result.bind RuntimeNodeResult.commands).getD [] =
          addBudgetCommand usageId delta :: rest ∧ (∀ raw ∈ rest, PlainRaw raw) ∧
        givenAmount delta .toolCallsUsed =
          if nodeId = "prepare-tools" then unledgeredToolCallCount state else 0 := by
  have none : ∀ raw ∈ ([] : List JsValue), PlainRaw raw := fun _ found => by cases found
  cases returned with
  | ended outcome => exact .inl none
  | passed value edge => exact .inl none
  | restored task =>
    refine .inl fun raw found => ?_
    rw [mem_singleton.mp found]
    exact plainRaw_named (by decide)
  | built value governor =>
    refine .inl fun raw found => ?_
    rcases mem_append.mp found with found | found
    · simp only [Option.mem_toList, Option.map_eq_some_iff] at found
      obtain ⟨data, _, rfl⟩ := found
      exact fun _ accepted => plain_setMiddlewareState accepted (by decide)
    · split at found
      · rw [mem_singleton.mp found]
        exact plainRaw_nodeData (by decide)
      · cases found
  | invocationFailed left =>
    refine .inl fun raw found => ?_
    rw [mem_singleton.mp found]
    exact plainRaw_named (by decide)
  | overCapacity left proposal =>
    refine .inl fun raw found => ?_
    rcases mem_cons.mp found with rfl | found
    · exact plainRaw_named (by decide)
    · rw [mem_singleton.mp found]
      exact plainRaw_nodeData (by decide)
  | proposed proposal => exact .inl none
  | normalized proposal read => exact .inl none
  | accounted proposal read inputTokens outputTokens costUsd facts silent =>
    exact .inr ⟨_, _, _, rfl, plainRaw_migration, rfl⟩
  | classified value edge => exact .inl plainRaw_reconciled
  | recoverable value left lastReason | degraded outcome value recovery =>
    refine .inl fun raw found => ?_
    rcases mem_append.mp found with found | found
    · exact plainRaw_reconciled raw found
    · rw [mem_singleton.mp found]
      exact plainRaw_named (by decide)
  | committed outcome value => exact .inl none
  | toolsPrepared usageId value =>
    by_cases unledgered : unledgeredToolCallCount state > 0
    · refine .inr ⟨usageId, [("toolCallsUsed", unledgeredToolCallCount state)], [], ?_, none, rfl⟩
      simp only [going, toolUsageCommands, if_pos unledgered, Option.bind_some, Option.getD_some]
    · refine .inl fun raw found => ?_
      simp only [going, toolUsageCommands, if_neg unledgered, Option.bind_some, Option.getD_some] at found
      cases found
  | toolsCommitted task value pendingEffects committedEffects =>
    refine .inl fun raw found => ?_
    rcases mem_append.mp found with found | found
    · exact plainRaw_storedTask raw found
    · rw [mem_singleton.mp found]
      exact plainRaw_named (by decide)
  | projected value commands stored facts silent =>
    refine .inl fun raw found => ?_
    rcases stored with rfl | ⟨task, rfl⟩
    · cases found
    · exact plainRaw_storedTask raw found
  | checkpointed value facts silent => exact .inl none

/-- So the completion of a node is orderly, and adds no more calls than were pending. -/
theorem result_orderly
    (accepted : List.Forall₂ Accepted ((result.bind RuntimeNodeResult.commands).getD []) commands) :
    (∀ command ∈ commands, Orderly command) ∧ ((usageEntries commands).map Prod.snd).sum ≤
        if nodeId = "prepare-tools" then unledgeredToolCallCount state else 0 := by
  have room : (0 : ℚ) ≤ if nodeId = "prepare-tools" then unledgeredToolCallCount state else 0 := by
    split
    · exact Nat.cast_nonneg _
    · exact le_refl _
  have plainly : ∀ {raws : List JsValue} {commands : List MiddlewareCommand},
      List.Forall₂ Accepted raws commands → (∀ raw ∈ raws, PlainRaw raw) →
        ∀ command ∈ commands, Plain command := by
    intro raws commands accepted plain command found
    obtain ⟨raw, member, held⟩ := accepted_mem accepted found
    exact plain raw member command held
  rcases result_raws returned with plain | ⟨usageId, delta, rest, raws, plain, amount⟩
  · have plain := plainly accepted plain
    rw [usageEntries_plain plain]
    exact ⟨fun command found => (plain command found).1, room⟩
  · rw [raws] at accepted
    cases accepted with
    | cons first others =>
      obtain ⟨entries, id, rfl, -, counted⟩ := accepted_addBudget first
      have plain := plainly others plain
      refine ⟨fun command found => ?_, ?_⟩
      · rcases mem_cons.mp found with rfl | found
        · exact rfl
        · exact (plain command found).1
      · have silent := usageEntries_plain plain
        simp only [usageEntries] at silent
        simp only [usageEntries, filterMap_cons, silent, map_cons, map_nil, sum_singleton, counted, amount]
        exact le_refl _

theorem result_task (named : nodeId = "restore-task")
    (found : result.bind RuntimeNodeResult.value = some value) : IsTask value := by
  cases returned with
  | ended outcome => cases found
  | passed value edge =>
    subst named
    simp at edge
  | restored task =>
    cases found
    exact ⟨task, rfl⟩
  | _ => simp at named

end

/-- The number is within the limit, if one is configured; a negative limit lets
nothing beyond the zero that every run starts with. -/
def Within (options : BudgetMiddlewareOptions) (used : ℚ) : Prop :=
  ∀ limit, options.maxToolCalls = some limit → used ≤ max limit 0

/-- Where the budget lets a node through, its pending calls are within the limit. -/
theorem within_pending (silent : budgetOutcome options (some node) live = none) :
    Within options (live.budgets.toolCallsUsed +
      if node.id = "prepare-tools" then unledgeredToolCallCount live else 0) := by
  intro limit configured
  unfold budgetOutcome at silent
  dsimp only at silent
  split at silent
  · cases silent
  split at silent
  · cases silent
  next open_ =>
    simp only [exceeded, configured, pendingToolCalls, Option.map_some, Option.some.injEq,
      decide_eq_true_eq, not_lt] at open_
    refine le_max_of_le_left ?_
    split at open_
    · simp [*]
    · simpa [*] using open_

/-- Commands accepted from the chain before a node: none, or the budget's end. -/
theorem before_commands (hook : context.hook = .beforeNode)
    (accepted : acceptedCommands (some (runChain (kernelV3Middleware tests options) context)) =
      .ok commands) : (∀ command ∈ commands, Plain command) ∧ (commandOutcome commands = none →
      commands = [] ∧ budgetOutcome options context.node context.state = none) := by
  rw [runChain_beforeNode hook] at accepted
  cases budget : budgetOutcome options context.node context.state with
  | none =>
    rw [budget] at accepted
    have silent := acceptedCommands_silent accepted
    subst silent
    exact ⟨fun _ found => (by cases found), fun _ => ⟨rfl, rfl⟩⟩
  | some outcome =>
    rw [budget] at accepted
    cases acceptedCommands_accepted accepted with
    | cons first others =>
      cases others
      have typed := accepted_type first
      refine ⟨fun command found => ?_, fun goesOn => ?_⟩
      · rw [mem_singleton.mp found]
        exact plain_of_type typed (by decide)
      · rename_i command
        cases command with
        | terminate outcome final => cases goesOn
        | _ => simp [MiddlewareCommand.typeName] at typed

theorem around_commands (before : context.hook ≠ .beforeNode) (after : context.hook ≠ .afterNode)
    (accepted : acceptedCommands (some (runChain (kernelV3Middleware tests options) context)) =
      .ok commands) : commands = [] := by
  rw [runChain_around before after] at accepted
  exact acceptedCommands_silent accepted

/-- After a node the chain counts nothing. -/
theorem after_commands (hook : context.hook = .afterNode)
    (accepted : acceptedCommands (some (runChain (kernelV3Middleware tests options) context)) =
      .ok commands) : ∀ command ∈ commands, Plain command := by
  have plainly : ∀ raws : List JsValue, (∀ raw ∈ raws, PlainRaw raw) →
      acceptedCommands (some (commanded raws)) = .ok commands → ∀ command ∈ commands, Plain command := by
    intro raws plain accepted command found
    obtain ⟨raw, member, held⟩ := accepted_mem (acceptedCommands_accepted accepted) found
    exact plain raw member command held
  have governor : ∀ data : Json,
      PlainRaw (RuntimeMiddlewares.setMiddlewareStateCommand "loop-governor" data) :=
    fun data command held => plain_setMiddlewareState held (by decide)
  have chained : AfterCommands context (runChain (kernelV3Middleware tests options) context) :=
    runChain_afterNode hook
  generalize runChain (kernelV3Middleware tests options) context = result at accepted chained
  revert accepted
  cases chained with
  | nothing =>
    intro accepted
    rw [acceptedCommands_silent accepted]
    exact fun _ found => by cases found
  | retried asked reason | ended outcome =>
    refine plainly _ fun raw found => ?_
    rw [mem_singleton.mp found]
    exact plainRaw_named (by decide)
  | completed data =>
    refine plainly _ fun raw found => ?_
    rw [mem_singleton.mp found]
    exact governor data
  | governed node decision =>
    refine plainly _ fun raw found => ?_
    rcases mem_cons.mp found with rfl | found
    · exact governor _
    · split at found
      · rw [mem_singleton.mp found]
        exact plainRaw_named (by decide)
      · rw [mem_singleton.mp found]
        exact plainRaw_named (by decide)
      · cases found

end QiongQi.CountedCommands
