import QiongQi.KernelLive

/-! The agreement of memory and log through a whole run: from the stored state
through replay into the main loop, whatever handlers, middleware and stores do. -/
namespace QiongQi.KernelLiveRuns
open JsonValues Programs RuntimeContracts MiddlewareCommands ExecutionGraphs RuntimeKernels
  KernelRuns KernelReducers KernelDurability KernelReplay KernelSteps KernelLive

variable {Ext : Type} {ExtAnswer : Ext → Type}
variable {kernel : RuntimeKernel ExtAnswer} {identity : RunIdentity} {start : Nat}
variable {around : Surroundings ExtAnswer}
variable {live : RunStateV3}

/-- The program runs on the host of this run, and may be cut short wherever the
run is `Idle`. -/
abbrev LiveRuns (kernel : RuntimeKernel ExtAnswer) (identity : RunIdentity) (start : Nat)
    (around : Surroundings ExtAnswer) (pre : RunWorld Ext → Prop)
    (program : KernelProgram ExtAnswer α) (post : α → RunWorld Ext → Prop) : Prop :=
  Runs around identity (Idle kernel identity start) pre program post

private theorem stops (world : RunWorld Ext)
    (held : Replaying kernel identity start live pending rest world) :
    Idle kernel identity start world :=
  held.idle

/-- The run holds `live` in memory and is past its start. -/
def Going (kernel : RuntimeKernel ExtAnswer) (identity : RunIdentity) (start : Nat)
    (live : RunStateV3) (world : RunWorld Ext) : Prop :=
  Live kernel identity start live none world ∧ live.status ≠ .created

theorem respects_going : Respects (@Going Ext ExtAnswer kernel identity start live) :=
  fun _ _ snapshot events trace going =>
    ⟨respects_replaying.keep going.1 snapshot events trace, going.2⟩

theorem going_stops (world : RunWorld Ext) (going : Going kernel identity start live world) :
    Idle kernel identity start world :=
  going.1.idle

theorem runs_commit (graph : DurableGraph kernel.graph) (pending : PendingAfterMiddleware)
    (rest : List RunEventEnvelope) (saved : List RunStateV3) :
    LiveRuns kernel identity start around
      (fun world => Replaying kernel identity start live (some pending) rest world ∧
        savedSince start world.trace = saved)
      (commitAfterMiddleware kernel identity fence live pending)
      fun next world => (Replaying kernel identity start next none rest world ∧
        savedSince start world.trace = saved) ∧
        live.cursor.checkpointSeq ≤ next.cursor.checkpointSeq ∧
        (live.status ≠ .created → next.status ≠ .created) := by
  have respects : ∀ (next : RunStateV3) (pending : Option PendingAfterMiddleware),
      Respects fun world : RunWorld Ext => Replaying kernel identity start next pending rest world ∧
        savedSince start world.trace = saved :=
    fun _ _ _ _ snapshot events trace holds =>
      ⟨respects_replaying.keep holds.1 snapshot events trace, trace ▸ holds.2⟩
  refine runs_commitAfterMiddleware (respects live (some pending)) ?_
    (fun _ holds => holds.1.idle) (fun _ _ holds => holds.1.1.idle) ?_ ?_ respects_idle
  · exact fun next before after snapshot events trace holds =>
      ⟨(respects next none).keep holds.1 snapshot events trace, holds.2⟩
  · intro world context _ state holds
    refine ⟨replaying_hooked state holds.1, ?_⟩
    simp only [RunWorld.observe, savedSince_append holds.1.idle.journal.started, holds.2]
    exact List.append_nil saved
  · intro world event result commands _ _ holds seq kind carried own
    obtain ⟨idle, committed⟩ := replaying_afterMiddleware graph holds.1 seq kind carried own
    refine ⟨idle, fun accepted now next reduced => ?_⟩
    refine ⟨⟨committed accepted now next reduced, ?_⟩, ?_, fun begun => ?_⟩
    · show savedSince start (world.trace ++ [.appended event.readBack]) = saved
      rw [savedSince_append holds.1.idle.journal.started, holds.2]
      exact List.append_nil saved
    · rw [reduceAfterMiddleware_checkpoint reduced]
      exact le_max_left _ _
    · exact reduceAfterMiddleware_begun begun reduced

private theorem runs_commit_going (graph : DurableGraph kernel.graph) (begun : live.status ≠ .created) :
    LiveRuns kernel identity start around (Live kernel identity start live (some pending))
      (commitAfterMiddleware kernel identity fence live pending)
      fun next => Going kernel identity start next := by
  intro world held
  refine triple_consequence (runs_commit graph pending [] (savedSince start world.trace))
    (fun _ => id) (fun next _ committed => ?_) (fun _ _ => id) (fun _ => id) world ⟨held, rfl⟩
  exact ⟨committed.1.1, committed.2.2 begun⟩

theorem runs_saveIf_going (condition : Bool) :
    LiveRuns kernel identity start around (Going kernel identity start live)
      (saveIf fence condition live) fun _ => Going kernel identity start live := by
  unfold saveIf
  split
  · refine runs_save respects_going respects_going going_stops fun _ _ going persisted => ?_
    exact ⟨live_saved going.2 ⟨.inl rfl, live.status, live.updatedAt, rfl⟩ persisted going.1, going.2⟩
  · exact runs_pure fun _ => id

theorem runs_afterRunIf_live (condition : Bool) :
    LiveRuns kernel identity start around (Live kernel identity start live none)
      (afterRunIf condition live) fun _ => Live kernel identity start live none := by
  unfold afterRunIf
  split
  · exact triple_bind (runs_hook respects_replaying stops stops fun world held =>
      replaying_hooked rfl held) fun _ => runs_pure fun _ => id
  · exact runs_pure fun _ => id

private theorem runs_afterRunIf_going :
    LiveRuns kernel identity start around (Going kernel identity start live)
      (afterRunIf condition live) fun _ => Going kernel identity start live := by
  refine triple_of_fact fun begun => ?_
  exact runs_weaken (runs_afterRunIf_live condition) (fun _ => id) fun _ _ held => ⟨held, begun⟩

private theorem runs_started (node : RuntimeNode) :
    LiveRuns kernel identity start around (Going kernel identity start live)
      (recordEvent identity live node.id "node.started" (.object [("nodeId", .string node.id),
          ("stepIndex", .number (.finite live.cursor.stepIndex))]) fence)
      fun event world => ∀ now, Going kernel identity start (startedState live event.seq now) world := by
  refine runs_recordEvent respects_going ?_ going_stops ?_
  · exact fun event before after snapshot events trace going now =>
      respects_going.keep (going now) snapshot events trace
  · exact fun world event going seq kind _ own now =>
      ⟨live_started going.1 seq kind own now, going.2⟩

private theorem runs_startNode :
    LiveRuns kernel identity start around (Going kernel identity start live)
      (startNode identity fence live node) fun next world =>
        Going kernel identity start next world ∧ next.cursor.nodeId = live.cursor.nodeId := by
  have recorded : LiveRuns kernel identity start around (Going kernel identity start live) (do
        let started ← recordEvent identity live node.id "node.started"
          (.object [("nodeId", .string node.id),
            ("stepIndex", .number (.finite live.cursor.stepIndex))]) fence
        let now ← await .nowIso
        pure (startedState live started.seq now)) fun next world =>
        Going kernel identity start next world ∧ next.cursor.nodeId = live.cursor.nodeId := by
    refine triple_bind (runs_started node) fun event => ?_
    refine triple_bind (runs_still trivial ?_ fun world going =>
      going_stops world (going live.updatedAt)) fun now => runs_pure fun world going =>
        ⟨going now, rfl⟩
    exact fun before after snapshot events trace going now =>
      respects_going.keep (going now) snapshot events trace
  refine triple_bind (runs_leaseHealthy respects_going going_stops) fun _ => ?_
  exact triple_bind (runs_saveIf_going _) fun _ => recorded

variable {node : RuntimeNode} {result : Option RuntimeNodeResult}

private theorem completedOutcome_stable (lasting : ∀ found, result = some found → Lasting found)
    (ended : completedOutcome node result commands = some outcome) :
    RunOutcome.persist outcome = some outcome := by
  unfold completedOutcome at ended
  cases reported : result.bind RuntimeNodeResult.outcome with
  | some handled =>
    obtain ⟨found, present, same⟩ := Option.bind_eq_some_iff.mp reported
    rw [reported] at ended
    cases ended
    exact (lasting found present).outcome _ same
  | none =>
    cases commanded : commandOutcome commands with
    | some stored =>
      rw [reported, commanded] at ended
      cases ended
      exact commandOutcome_stable commanded
    | none =>
      rw [reported, commanded] at ended
      by_cases terminal : node.terminal = true
      · simp only [terminal, if_true] at ended
        cases ended
        rfl
      · simp only [terminal] at ended
        cases ended

theorem completedPayload_lasting (lasting : ∀ found, result = some found → Lasting found) :
    LastingPayload (completedPayload state node result commands) where
  value value reported := by
    obtain ⟨found, present, same⟩ := Option.bind_eq_some_iff.mp reported
    exact (lasting found present).value value same
  outcome _ ended := completedOutcome_stable lasting ended

/-- The run holds `live`, and its trace has the result of its current node. -/
def Handled (kernel : RuntimeKernel ExtAnswer) (identity : RunIdentity) (start : Nat)
    (live : RunStateV3) (nodeId : String) (result : Option RuntimeNodeResult)
    (world : RunWorld Ext) : Prop :=
  Live kernel identity start live none world ∧ .left nodeId result ∈ world.trace

private theorem respects_handled :
    Respects (@Handled Ext ExtAnswer kernel identity start live nodeId result) := by
  rintro before after snapshot events trace ⟨held, left⟩
  exact ⟨respects_replaying.keep held snapshot events trace, trace ▸ left⟩

private theorem handled_stops (world : RunWorld Ext)
    (handled : Handled kernel identity start live nodeId result world) :
    Idle kernel identity start world :=
  handled.1.idle

/-- What a pass of the main loop leaves: the next state in memory, or nothing. -/
def afterPass (kernel : RuntimeKernel ExtAnswer) (identity : RunIdentity) (start : Nat) :
    Pass → RunWorld Ext → Prop
  | .goOn next => Going kernel identity start next
  | .done _ => Idle kernel identity start

/-- What a recorded completion leaves: any way it is reduced is the state in memory. -/
def Completed (kernel : RuntimeKernel ExtAnswer) (identity : RunIdentity) (start : Nat)
    (live : RunStateV3) (node : RuntimeNode) (event : RunEventEnvelope) (world : RunWorld Ext) :
    Prop :=
  Idle kernel identity start world ∧ ∀ committed now next,
    parseCompletedNodePayload event.payload = .ok committed →
    reduceCompletedNode kernel live node committed event.seq now = .ok next →
    Live kernel identity start next (some { node, completed := committed }) world

private theorem respects_completed :
    Respects (@Completed Ext ExtAnswer kernel identity start live node event) := by
  intro before after snapshot events trace holds
  exact ⟨respects_idle.keep holds.1 snapshot events trace, fun committed now next parsed reduced =>
      respects_replaying.keep (holds.2 committed now next parsed reduced) snapshot events trace⟩

theorem runs_completeNode (graph : DurableGraph kernel.graph)
    (known : nodeFor kernel.graph live.cursor.nodeId = .ok node) :
    LiveRuns kernel identity start around (Live kernel identity start live none)
      (completeNode kernel identity fence live node beforeCommands handler)
      (afterPass kernel identity start) := by
  refine triple_bind (runs_enter respects_replaying stops fun world held =>
    replaying_observe trivial held) fun _ => ?_
  refine triple_bind (runs_issue _ respects_replaying stops fun world call now effects held =>
    live_called call now effects held) fun result => ?_
  refine triple_bind (runs_leave respects_handled stops fun world held =>
    ⟨replaying_observe trivial held, List.mem_append_right _ List.mem_cons_self⟩) fun _ => ?_
  refine triple_bind (runs_leaseHealthy respects_handled handled_stops) fun _ => ?_
  refine runs_lift handled_stops fun commands _ => ?_
  refine runs_lift handled_stops fun _ _ => ?_
  have recorded : LiveRuns kernel identity start around
      (Handled kernel identity start live node.id result)
      (recordEvent identity live node.id "node.completed"
        (completedPayload live node result commands).toJs fence)
      (Completed kernel identity start live node) := by
    refine runs_recordEvent respects_handled (fun _ => respects_completed) handled_stops ?_
    intro world event handled seq kind carried own
    refine live_completed graph handled.1 seq kind carried own known rfl fun clean => ?_
    exact completedPayload_lasting fun found present =>
      clean node.id found (present ▸ handled.2)
  refine triple_bind recorded fun event => ?_
  refine triple_bind (runs_crashPoint _ respects_completed fun world holds => holds.1) fun _ => ?_
  refine runs_lift (fun world holds => holds.1) fun committed parsed => ?_
  refine triple_bind (runs_still trivial respects_completed fun world holds => holds.1)
    fun now => ?_
  refine runs_lift (fun world holds => holds.1) fun reduced reduces => ?_
  refine runs_weaken (?_ : LiveRuns kernel identity start around
    (Live kernel identity start reduced (some { node, completed := committed })) _
    (afterPass kernel identity start))
    (fun world holds => holds.2 committed now reduced parsed reduces) fun _ _ => id
  refine triple_bind (runs_commit_going graph (reduceCompletedNode_begun reduces)) fun next => ?_
  refine triple_bind (runs_saveIf_going _) fun _ => ?_
  refine triple_bind runs_afterRunIf_going fun _ => runs_pure fun world going => ?_
  split
  · exact going.1.idle
  · exact going

theorem runs_endRun (commands : List MiddlewareCommand) (outcome : RunOutcome) :
    LiveRuns kernel identity start around (Live kernel identity start live none)
      (endRun fence live commands outcome) fun _ => Idle kernel identity start := by
  refine runs_lift stops fun applied commanded => ?_
  refine triple_bind (runs_still trivial respects_replaying stops) fun now => ?_
  refine triple_bind (runs_save respects_replaying respects_idle stops
    fun world stored held persisted => ?_) fun _ => runs_pure fun _ => id
  refine idle_saved held.idle persisted fun clean => ?_
  rw [withOutcome_cursor, (applyCommands_header commanded).cursor]
  exact (held.sync clean).reached

private theorem runs_runNode (graph : DurableGraph kernel.graph) :
    LiveRuns kernel identity start around (Going kernel identity start live)
      (runNode kernel identity fence live) (afterPass kernel identity start) := by
  refine runs_lift going_stops fun node known => ?_
  refine triple_bind runs_startNode fun next => triple_of_fact fun position => ?_
  refine triple_bind (runs_hook respects_going going_stops going_stops fun world going =>
    ⟨replaying_hooked rfl going.1, going.2⟩) fun before => ?_
  refine triple_bind (runs_leaseHealthy respects_going going_stops) fun _ => ?_
  refine runs_lift going_stops fun beforeCommands _ => ?_
  cases commandOutcome beforeCommands with
  | some outcome =>
    refine triple_bind ?_ fun _ => runs_pure fun _ => id
    exact runs_weaken (runs_endRun beforeCommands outcome) (fun _ going => going.1) fun _ _ => id
  | none =>
    cases kernel.nodes node.id with
    | none => exact runs_throw going_stops
    | some handler =>
      refine runs_weaken (runs_completeNode graph ?_) (fun _ going => going.1) fun _ _ => id
      rw [position]
      exact known

theorem runs_runNodes (graph : DurableGraph kernel.graph) (passes : Nat) :
    ∀ live : RunStateV3, LiveRuns kernel identity start around
      (Going kernel identity start live) (runNodes kernel identity fence passes live)
      fun _ => Idle kernel identity start := by
  induction passes with
  | zero => exact fun live => triple_stop going_stops
  | succ passes ih =>
    refine fun live => triple_bind (runs_runNode graph) fun pass => ?_
    cases pass with
    | done outcome => exact runs_pure fun _ => id
    | goOn next => exact ih next

end QiongQi.KernelLiveRuns
