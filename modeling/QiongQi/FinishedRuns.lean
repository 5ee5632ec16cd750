import QiongQi.ActiveAgents

/-! What may still become of a multi-agent run: its log of events only grows, and a run that is
completed keeps everything but its outbox. -/
namespace QiongQi.FinishedRuns
open AgentGraphs MultiAgentRuns MultiAgentStores MultiAgentInterleavings ActiveAgents Machines
open RuntimeContracts List

variable {platform : Platform} {graph : AgentGraph} {world next : World}
variable {run current made : MultiAgentRun}

/-- A completed run stands at a node that ends it. -/
def Closed (graph : AgentGraph) (run : MultiAgentRun) : Prop :=
  run.status = .completed → ∃ node, requireGraphNode graph run.activeNodeId = .ok node ∧
    node.kind = .terminate

structure Continues (before after : MultiAgentRun) : Prop where
  log : before.events <+: after.events
  final : before.status = .completed → after = { before with outbox := after.outbox }

theorem Continues.refl (run : MultiAgentRun) : Continues run run := ⟨prefix_refl _, fun _ => rfl⟩

theorem Continues.trans (left : Continues first second) (right : Continues second third) :
    Continues first third := by
  refine ⟨left.log.trans right.log, fun completed => ?_⟩
  have same := left.final completed
  have kept := right.final (by rw [same]; exact completed)
  rw [same] at kept
  exact kept

theorem lands_closed (lands : Lands graph run made) : Closed graph made := by
  cases lands with
  | terminate carries found kind => exact fun _ => ⟨_, found, kind⟩
  | agent carries found kind => exact fun completed => by cases completed
  | suspend carries found other => exact fun completed => by cases completed

theorem enterGraphNode_log : ∀ {run : MultiAgentRun} {nodeId : NonEmptyString},
    enterGraphNode graph depth run nodeId = .ok made → run.events <+: made.events := by
  induction depth with
  | zero =>
    intro run nodeId entered
    cases entered
  | succ depth ih =>
    intro run nodeId entered
    obtain ⟨node, -, landed⟩ := bind_ok entered
    split at landed
    · cases landed
      unfold enterTerminate
      split
      · exact prefix_refl _
      · exact prefix_append ..
    · cases landed
      exact prefix_refl _
    · split at landed
      · exact (prefix_append ..).trans (ih landed)
      · cases landed
        exact prefix_append ..
    · split at landed
      · exact (prefix_append ..).trans (ih landed)
      · cases landed
        exact prefix_append ..
    all_goals
      cases landed
      exact prefix_append ..

/-- At a node of another kind than the one that ends it, a run is not completed. -/
theorem Closed.going (closed : Closed graph run) (found : requireGraphNode graph run.activeNodeId = .ok node)
    (other : node.kind ≠ .terminate) : run.status ≠ .completed := by
  intro completed
  obtain ⟨last, looked, kind⟩ := closed completed
  rw [found] at looked
  cases looked
  exact other kind

theorem handoff_continues (closed : Closed graph current)
    (applied : applyHandoff platform graph current input now = .ok made) :
    Closed graph made ∧ Continues current made := by
  obtain ⟨node, moved, found, ensured, way⟩ := applyHandoff_ok applied
  have going : current.status ≠ .completed := by
    refine closed.going found fun kind => ?_
    rcases way with ⟨delivered, -⟩ | ⟨-, route, routed, -⟩
    · simp [alreadyDelivered, kind] at delivered
    · simp [handoffRoute, kind] at routed
  have arrived : moved.status = current.status ∧ current.events <+: moved.events := by
    rcases way with ⟨-, rfl⟩ | ⟨-, route, -, rfl⟩
    · exact ⟨rfl, prefix_refl _⟩
    · exact ⟨rfl, (prefix_append ..).trans (prefix_append ..)⟩
  have kept : made.status = current.status ∧ current.events <+: made.events := by
    rcases ensureHandoffOutboxIntent_ok ensured with ⟨-, rfl⟩ | ⟨-, message, -, rfl⟩ <;> exact arrived
  exact ⟨fun completed => absurd (kept.1.symm.trans completed) going, kept.2,
    fun completed => absurd completed going⟩

theorem completeTask_continues {input : AgentTaskCompletion} (closed : Closed graph current)
    (completed : completeTask platform graph current input = .ok made) :
    Closed graph made ∧ Continues current made := by
  obtain ⟨node, found, checked⟩ := bind_ok completed
  split at checked
  · rename_i agentId kind
    have going := closed.going found (by simp [kind])
    by_cases own : agentId.text = input.agentId
    · rw [if_neg (not_not.mpr own)] at checked
      split at checked
      · cases checked
      obtain ⟨index, -, recorded⟩ := bind_ok checked
      obtain ⟨advanced, entered, ensured⟩ := bind_ok recorded
      have walked : Closed graph advanced ∧ Continues current advanced :=
        ⟨lands_closed (enterGraphNode_lands entered), (prefix_append ..).trans (enterGraphNode_log entered),
          fun ended => absurd ended going⟩
      split at ensured
      · cases ensured
        exact walked
      · rcases ensureMailboxCompleteOutboxIntent_ok ensured with rfl | ⟨_, _, rfl⟩
        · exact walked
        · exact ⟨walked.1, walked.2.log, fun ended => absurd ended going⟩
    · rw [if_pos own] at checked
      cases checked
  · cases checked

theorem completeExternal_continues {input : ExternalCompletion} (closed : Closed graph current)
    (completed : completeExternal platform graph current input = .ok made) :
    Closed graph made ∧ Continues current made := by
  obtain ⟨node, found, checked⟩ := bind_ok completed
  by_cases own : node.id.text = input.nodeId
  · rw [if_neg (not_not.mpr own)] at checked
    split at checked
    case h_4 => cases checked
    all_goals
      rename_i kind
      have going := closed.going found (by simp [kind])
      split at checked
      · cases checked
      · exact ⟨lands_closed (enterGraphNode_lands checked),
          (prefix_append ..).trans (enterGraphNode_log checked), fun ended => absurd ended going⟩
  · rw [if_pos own] at checked
    cases checked

theorem mutates_continues (closed : Closed graph current)
    (mutates : Mutates platform graph action runId current made) :
    Closed graph made ∧ Continues current made := by
  cases mutates with
  | handoff applied => exact handoff_continues closed applied
  | completeTask completed => exact completeTask_continues closed completed
  | completeExternal completed => exact completeExternal_continues closed completed
  | mark => exact ⟨closed, prefix_refl _, fun _ => rfl⟩

/-- Every run of `before` is still there, and goes on from where it was. -/
structure Follows (graph : AgentGraph) (before after : World) : Prop where
  closed : ∀ stored ∈ after.runs, Closed graph stored.run
  later : ∀ runId stored, before.load runId = some stored → ∃ later, after.load runId = some later ∧
    stored.version ≤ later.version ∧ Continues stored.run later.run

theorem Follows.save {before : World} {stored : StoredRun} (follows : Follows graph before world)
    (shut : Closed graph stored.run)
    (goesOn : ∀ known, world.load stored.run.runId.text = some known →
      known.version ≤ stored.version ∧ Continues known.run stored.run) :
    Follows graph before (world.save stored) := by
  constructor
  · intro other held
    rcases mem_put.mp held with rfl | ⟨held, -⟩
    · exact shut
    · exact follows.closed other held
  · intro runId first loaded
    obtain ⟨known, found, version, continues⟩ := follows.later runId first loaded
    by_cases own : stored.run.runId.text = runId
    · subst own
      obtain ⟨forward, further⟩ := goesOn known found
      exact ⟨stored, load_save_self, version.trans forward, continues.trans further⟩
    · have elsewhere : (world.save stored).load runId = world.load runId := find_put_other own
      exact ⟨known, elsewhere.trans found, version, continues⟩

theorem follows_step {before : World} (follows : Follows graph before world)
    (taken : step platform graph world action = some next) : Follows graph before next := by
  cases stepped_of_step taken with
  | @start runId run fresh started =>
    obtain ⟨node, -, built⟩ := bind_ok started
    split at built
    · cases built
      exact follows.save (fun completed => by cases completed)
        fun known found => by cases fresh.symm.trans found
    · cases built
  | @mutate _ runId current made loaded mutates same =>
    obtain ⟨shut, continues⟩ := mutates_continues (follows.closed current (load_mem loaded).1) mutates
    refine follows.save shut fun known found => ?_
    rw [same, loaded] at found
    cases found
    exact ⟨Nat.le_succ _, continues⟩
  | deliver | claim => exact ⟨follows.closed, follows.later⟩

/-- In every state that is reached a stored run keeps its events and its place, and a completed
one everything but its outbox, whatever happens later. -/
theorem completed_run_final (platform : Platform) (graph : AgentGraph) (actions more : List Action)
    (world final : World) (runId : String) (stored : StoredRun)
    (ran : runActions (step platform graph) {} actions = some world)
    (ranOn : runActions (step platform graph) world more = some final)
    (loaded : world.load runId = some stored) :
    ∃ later, final.load runId = some later ∧ stored.version ≤ later.version ∧
      stored.run.events <+: later.run.events ∧
      (stored.run.status = .completed → later.run = { stored.run with outbox := later.run.outbox }) := by
  have begun : Follows graph {} world :=
    invariant_always (fun _ _ _ => follows_step) actions ⟨by simp, fun _ _ found => by cases found⟩ ran
  have followed : Follows graph world final :=
    invariant_always (fun _ _ _ => follows_step) more
      ⟨begun.closed, fun _ known found => ⟨known, found, le_refl _, .refl _⟩⟩ ranOn
  obtain ⟨later, found, version, continues⟩ := followed.later runId stored loaded
  exact ⟨later, found, version, continues.log, continues.final⟩

/-- An editor whose work is the end of the run. -/
def editing : AgentGraph where
  graphId := named "editing"
  startNodeId := named "editor"
  nodes := [
    { id := named "editor"
      kind := .agent (named "editor") },
    { id := named "end"
      kind := .terminate }]
  edges := [
    { source := named "editor"
      target := named "end"
      condition := named "completed" }]

def edited : List Action := [.start (named "mar_1"), .completeTask { runId := "mar_1", agentId := "editor" }]

theorem completed_run_final_edited : ∃ world stored,
    runActions (step plainPlatform editing) {} edited = some world ∧
      world.load "mar_1" = some stored ∧ stored.run.status = .completed ∧
        ∀ final more, runActions (step plainPlatform editing) world more = some final →
          ∃ later, final.load "mar_1" = some later ∧ stored.run.events <+: later.run.events := by
  refine ⟨_, _, rfl, rfl, rfl, fun final more ranOn => ?_⟩
  obtain ⟨later, found, -, log, -⟩ := completed_run_final plainPlatform editing edited more _ final "mar_1" _
    rfl ranOn rfl
  exact ⟨later, found, log⟩

end QiongQi.FinishedRuns
