import QiongQi.MultiAgentInterleavings

/-! The agent that a run is at: on top of the stack, with a run of its own that is still
to be worked on. A walk through the graph sees to both; a handoff counts an agent run
that is long completed as one. -/
namespace QiongQi.ActiveAgents
open AgentGraphs Mailboxes MultiAgentRuns MultiAgentStores MultiAgentInterleavings Machines List
open RuntimeContracts

/-- The run has an end. -/
def IsTerminal (run : MultiAgentRun) : Prop :=
  run.status = .completed ∨ run.status = .failed ∨ run.status = .aborted

/-- Where the active node belongs to an agent, this agent is at work. -/
def ActiveAgent (graph : AgentGraph) (run : MultiAgentRun) : Prop :=
  ¬ IsTerminal run → ∀ node agentId, requireGraphNode graph run.activeNodeId = .ok node →
    node.kind = .agent agentId → run.activeAgentStack.getLast? = some agentId ∧
        ∃ agentRun ∈ run.agentRuns, agentRun.agentId = agentId ∧ agentRun.nodeId = node.id ∧
          (agentRun.status = .queued ∨ agentRun.status = .running)

variable {platform : Platform} {graph : AgentGraph}

instance (run : MultiAgentRun) : Decidable (IsTerminal run) :=
  inferInstanceAs (Decidable (_ ∨ _ ∨ _))

/-- `ActiveAgent` as a check of a run that has no end yet. -/
def agentAtWork (graph : AgentGraph) (run : MultiAgentRun) : Bool :=
  match requireGraphNode graph run.activeNodeId with
  | .error _ => true
  | .ok node =>
    match node.kind with
    | .agent agentId => run.activeAgentStack.getLast? = some agentId &&
        run.agentRuns.any fun agentRun => agentRun.isOf agentId node.id && agentRun.isActive
    | _ => true

theorem isActive_of {agentRun : AgentRun}
    (active : (agentRun.isOf agentId nodeId && agentRun.isActive) = true) :
    agentRun.agentId = agentId ∧ agentRun.nodeId = nodeId ∧
      (agentRun.status = .queued ∨ agentRun.status = .running) := by
  simpa [AgentRun.isOf, AgentRun.isActive, and_assoc] using active

variable {run next : MultiAgentRun} {node : AgentGraphNode}

/-- At an agent node, the top of the stack and an agent run to be worked on are enough. -/
theorem active_at {agentId : NonEmptyString}
    (found : requireGraphNode graph run.activeNodeId = .ok node) (kind : node.kind = .agent agentId)
    (top : run.activeAgentStack.getLast? = some agentId) (working : ∃ agentRun ∈ run.agentRuns,
      (agentRun.isOf agentId run.activeNodeId && agentRun.isActive) = true) :
    ActiveAgent graph run := by
  intro _ other otherAgent looked named
  rw [found] at looked
  cases looked
  rw [kind] at named
  cases named
  obtain ⟨agentRun, held, active⟩ := working
  obtain ⟨agent, place, status⟩ := isActive_of active
  rw [← (requireGraphNode_ok found).2] at place
  exact ⟨top, agentRun, held, agent, place, status⟩

theorem agentAtWork_of_active (going : ¬ IsTerminal run) (active : ActiveAgent graph run) :
    agentAtWork graph run = true := by
  unfold agentAtWork
  split
  · rfl
  · rename_i node found
    split
    · rename_i agentId kind
      obtain ⟨top, agentRun, held, agent, place, status⟩ := active going node agentId found kind
      simp only [top, decide_true, Bool.true_and, any_eq_true]
      exact ⟨agentRun, held, by simp [AgentRun.isOf, AgentRun.isActive, agent, place, status]⟩
    · rfl

theorem active_elsewhere (found : requireGraphNode graph run.activeNodeId = .ok node)
    (other : ∀ agentId, node.kind ≠ .agent agentId) : ActiveAgent graph run := by
  intro _ named agentId looked kind
  rw [found] at looked
  cases looked
  exact absurd kind (other agentId)

theorem lands_active (lands : Lands graph run next) : ActiveAgent graph next := by
  cases lands with
  | terminate carries found kind => exact active_elsewhere found (by simp [kind])
  | @agent passed node agentId carries found kind =>
    apply active_at found kind
    · simp [enterAgent]
    · unfold enterAgent
      by_cases working : passed.agentRuns.any fun agentRun =>
          agentRun.isOf agentId node.id && agentRun.isActive
      · rw [if_pos working]
        exact any_eq_true.mp working
      · rw [if_neg working]
        exact ⟨_, mem_append_right _ (mem_singleton_self _), by
          simp [AgentRun.isOf, AgentRun.isActive]⟩
  | suspend carries found other => exact active_elsewhere found other

theorem start_active (started : start graph runId = .ok run) : ActiveAgent graph run := by
  obtain ⟨node, required, built⟩ := bind_ok started
  have found : requireGraphNode graph node.id = .ok node := by
    rw [(requireGraphNode_ok required).2, required]
  split at built
  · rename_i agentId kind
    cases built
    apply active_at found kind
    · rfl
    · exact ⟨_, mem_singleton_self _, by simp [AgentRun.isOf, AgentRun.isActive]⟩
  · cases built

theorem active_outbox (active : ActiveAgent graph run) :
    ActiveAgent graph { run with outbox } := active

theorem moveToTarget_active (routed : handoffRoute graph run node input = .ok route)
    (working : run.agentRuns.any (AgentRun.isOf route.targetAgentId route.targetNodeId) = true →
      ∃ agentRun ∈ run.agentRuns,
        (agentRun.isOf route.targetAgentId route.targetNodeId && agentRun.isActive) = true) :
    ActiveAgent graph (moveToTarget run route envelopeId) := by
  obtain ⟨-, target, found, kind⟩ := handoffRoute_ok routed
  apply active_at found kind
  · simp [moveToTarget]
  · unfold moveToTarget
    by_cases known : run.agentRuns.any (AgentRun.isOf route.targetAgentId route.targetNodeId) = true
    · rw [if_pos known]
      exact working known
    · rw [if_neg known]
      exact ⟨_, mem_append_right _ (mem_singleton_self _), by
        simp [AgentRun.isOf, AgentRun.isActive]⟩

/-- The agent runs of the route's target, if there are any, have one among them that is
still to be worked on. -/
def targetAtWork (run : MultiAgentRun) (route : HandoffRoute) : Bool :=
  !run.agentRuns.any (AgentRun.isOf route.targetAgentId route.targetNodeId) ||
    run.agentRuns.any fun agentRun =>
      agentRun.isOf route.targetAgentId route.targetNodeId && agentRun.isActive

/-- A handoff that is not a repetition of the last one finds its target at work, or new. -/
def handsToWorkingAgent (platform : Platform) (graph : AgentGraph) (run : MultiAgentRun)
    (input : HandoffInput) : Bool :=
  match requireGraphNode graph run.activeNodeId with
  | .error _ => true
  | .ok node =>
    if alreadyDelivered run node input.targetAgentId (handoffEnvelopeId platform run input) then true
    else
      match handoffRoute graph run node input with
      | .error _ => true
      | .ok route => targetAtWork run route

def HandsOver (platform : Platform) (graph : AgentGraph) (world : World) : Action → Prop
  | .handoff input _ =>
    (world.load input.runId).all (fun stored => handsToWorkingAgent platform graph stored.run input) = true
  | _ => True

instance (world : World) (action : Action) : Decidable (HandsOver platform graph world action) :=
  match action with
  | .handoff _ _ => inferInstanceAs (Decidable (_ = true))
  | .start _ | .completeTask _ | .completeExternal _ | .deliver _ _ | .mark _ _ | .claimNext _ _ _ _ =>
    .isTrue trivial

theorem handoff_active (applied : applyHandoff platform graph current input now = .ok next)
    (working : handsToWorkingAgent platform graph current input = true)
    (active : ActiveAgent graph current) : ActiveAgent graph next := by
  obtain ⟨node, moved, found, ensured, way⟩ := applyHandoff_ok applied
  have arrived : ActiveAgent graph moved := by
    rcases way with ⟨-, rfl⟩ | ⟨moves, route, routed, rfl⟩
    · exact active
    · have atWork : targetAtWork current route = true := by
        simpa [handsToWorkingAgent, found, moves, routed] using working
      apply moveToTarget_active routed
      intro known
      unfold targetAtWork at atWork
      rw [known] at atWork
      exact any_eq_true.mp (by simpa using atWork)
  rcases ensureHandoffOutboxIntent_ok ensured with ⟨-, rfl⟩ | ⟨-, message, -, rfl⟩
  · exact arrived
  · exact active_outbox arrived

theorem mutates_active (mutates : Mutates platform graph action runId current next)
    (working : ∀ input now, action = .handoff input now → runId = input.runId →
      handsToWorkingAgent platform graph current input = true)
    (active : ActiveAgent graph current) : ActiveAgent graph next := by
  cases mutates with
  | handoff applied => exact handoff_active applied (working _ _ rfl rfl) active
  | completeTask completed =>
    obtain ⟨recorded, advanced, -, -, lands, ends⟩ := completeTask_ok completed
    have arrived : ActiveAgent graph advanced := lands_active lands
    rcases ends with rfl | ⟨completion, -, ensured⟩
    · exact arrived
    · rcases ensureMailboxCompleteOutboxIntent_ok ensured with rfl | ⟨outboxId, messageId, rfl⟩
      · exact arrived
      · exact active_outbox arrived
  | completeExternal completed =>
    obtain ⟨recorded, -, -, lands⟩ := completeExternal_ok completed
    exact lands_active lands
  | mark => exact active_outbox active

theorem step_active {world next : World} (active : ∀ stored ∈ world.runs, ActiveAgent graph stored.run)
    (fair : HandsOver platform graph world action)
    (taken : step platform graph world action = some next) :
    ∀ stored ∈ next.runs, ActiveAgent graph stored.run := by
  intro stored held
  cases stepped_of_step taken with
  | start fresh started =>
    rcases mem_put.mp held with rfl | ⟨held, -⟩
    · exact start_active started
    · exact active stored held
  | @mutate _ runId current made loaded mutates same =>
    rcases mem_put.mp held with rfl | ⟨held, -⟩
    · apply mutates_active mutates _ (active current (load_mem loaded).1)
      rintro input now rfl rfl
      have handsOver : (world.load input.runId).all _ = true := fair
      rw [loaded] at handsOver
      exact handsOver
    · exact active stored held
  | deliver | claim => exact active stored held

/-- In every run whose handoffs find their target at work, or new, the active node's agent is
on top of the stack and has an agent run that is queued or running. -/
theorem active_agent_at_work (platform : Platform) (graph : ValidGraph) (actions : List Action)
    (world : World) (ran : runActions (step platform graph.graph) {} actions = some world)
    (fair : Along (step platform graph.graph) (HandsOver platform graph.graph) {} actions) :
    ∀ stored ∈ world.runs, ActiveAgent graph.graph stored.run :=
  invariant_run (fun _ _ _ active fair taken => step_active active fair taken) actions (by simp)
    fair ran

/-- A manager hands over to a researcher, whose work comes back to the manager. -/
def researchLoop : ValidGraph where
  graph :=
    { graphId := named "research_loop"
      startNodeId := named "manager"
      nodes := [
        { id := named "manager"
          kind := .agent (named "manager") },
        { id := named "handoff_researcher"
          kind := .handoff (named "researcher") },
        { id := named "researcher"
          kind := .agent (named "researcher") }]
      edges := [
        { source := named "manager"
          target := named "handoff_researcher"
          condition := named "handoff" },
        { source := named "handoff_researcher"
          target := named "researcher"
          condition := named "accepted" },
        { source := named "researcher"
          target := named "manager"
          condition := named "completed" }] }
  accepted := by decide

/-- A platform whose digest is the text itself, the prompt in front. -/
def plainPlatform : Platform where
  sha256Hex := fun parts => String.intercalate "|" parts.reverse
  localeCompare := compare
  stackDepth := 1000

def handsOver (prompt : String) : HandoffInput where
  runId := "mar_1"
  sourceAgentId := "manager"
  targetAgentId := "researcher"
  prompt

theorem active_agent_at_work_first_handoff :
    ∃ world, runActions (step plainPlatform researchLoop.graph) {}
        [.start (named "mar_1"), .handoff (handsOver "draft") "t1"] = some world ∧
      ∀ stored ∈ world.runs, ActiveAgent researchLoop.graph stored.run := by
  obtain ⟨world, ran⟩ := Option.isSome_iff_exists.mp
    (show (runActions (step plainPlatform researchLoop.graph) {}
      [.start (named "mar_1"), .handoff (handsOver "draft") "t1"]).isSome by
        decide)
  exact ⟨world, ran, active_agent_at_work plainPlatform researchLoop _ world ran (by decide)⟩

/-- The researcher has completed its first task and is handed a second one. -/
def handedOverAgain : List Action := [ .start (named "mar_1"), .handoff (handsOver "draft") "t1",
  .completeTask { runId := "mar_1", agentId := "researcher" },
  .handoff (handsOver "revise") "t2"]

theorem second_handoff_without_agent_run :
    ∃ world, runActions (step plainPlatform researchLoop.graph) {} handedOverAgain = some world ∧
      ¬ ∀ stored ∈ world.runs, ActiveAgent researchLoop.graph stored.run := by
  have reached : (runActions (step plainPlatform researchLoop.graph) {} handedOverAgain).any
      (fun world => world.runs.any fun stored => !decide (IsTerminal stored.run) &&
        !agentAtWork researchLoop.graph stored.run) = true := by
    decide
  obtain ⟨world, ran, idle⟩ := (Option.any_eq_true _ _).mp reached
  obtain ⟨stored, held, alone⟩ := any_eq_true.mp idle
  refine ⟨world, ran, fun active => ?_⟩
  simp only [Bool.and_eq_true, Bool.not_eq_true', decide_eq_false_iff_not] at alone
  rw [agentAtWork_of_active alone.1 (active stored held)] at alone
  exact absurd alone.2 (by simp)

end QiongQi.ActiveAgents
