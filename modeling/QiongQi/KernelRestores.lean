import QiongQi.KernelLiveRuns

/-! From the stored snapshot into the main loop and out again: what a run replays,
commits, saves and reports keeps memory and log together, and so does any sequence
of runs. -/
namespace QiongQi.KernelRestores
open JsonValues Programs RuntimeContracts MiddlewareCommands ExecutionGraphs RuntimeKernels
  KernelRuns KernelReducers KernelDurability KernelReplay KernelSteps KernelLive KernelLiveRuns

variable {Ext : Type} {ExtAnswer : Ext → Type}
variable {kernel : RuntimeKernel ExtAnswer} {identity : RunIdentity} {start : Nat}
variable {live next : RunStateV3} {pending after : Option PendingAfterMiddleware}
variable {rest : List RunEventEnvelope}

variable {world : RunWorld Ext} {state : RunStateV3}

theorem replayEvent_durable (graph : DurableGraph kernel.graph) (lasting : LastingEvent event)
    (replayed : replayEvent kernel live pending event now = .ok (next, after))
    (durable : Durable live) : Durable next := by
  rcases replayEvent_cases replayed with ⟨_, rfl, -⟩ |
    ⟨kind, completed, node, parsed, -, -, reduces, -⟩ |
    ⟨kind, waiting, payload, -, parsed, -, reduces, -⟩ | ⟨_, rfl, -⟩
  · exact ⟨durable.graphVersion, durable.nodeId, durable.nodeData, durable.outcome⟩
  · obtain ⟨value, outcome⟩ := lasting.completed kind completed parsed
    exact reduceCompletedNode_durable graph value outcome reduces durable
  · exact reduceAfterMiddleware_durable graph (lasting.afterMiddleware kind payload parsed) reduces
      durable
  · exact durable

private theorem replayEvent_waiting (completed : event.eventType = "node.completed")
    (replayed : replayEvent kernel live pending event now = .ok (next, after)) :
    after.isSome = true := by
  rcases replayEvent_cases replayed with ⟨kind, -⟩ | ⟨-, _, _, -, -, -, -, rfl⟩ | ⟨kind, -⟩ |
    ⟨unseen, -⟩
  · rw [completed] at kind
    exact absurd kind (by decide)
  · rfl
  · rw [completed] at kind
    exact absurd kind (by decide)
  · simp [isNodeEvent, completed] at unseen

private theorem same_event {events : List RunEventEnvelope}
    (ascending : events.Pairwise fun left right => left.seq < right.seq)
    (foundLeft : left ∈ events) (foundRight : right ∈ events) (seq : left.seq = right.seq) :
    left = right := by
  have distinct : (events.map RunEventEnvelope.seq).Nodup :=
    (List.pairwise_map.mpr ascending).imp Nat.ne_of_lt
  exact List.inj_on_of_nodup_map distinct foundLeft foundRight seq

/-- The run has saved nothing yet, and has `rest` of the log to replay. -/
structure Restoring (kernel : RuntimeKernel ExtAnswer) (identity : RunIdentity) (start : Nat)
    (live : RunStateV3) (pending : Option PendingAfterMiddleware) (rest : List RunEventEnvelope)
    (world : RunWorld Ext) : Prop where
  held : Replaying kernel identity start live pending rest world
  unsaved : savedSince start world.trace = []

private theorem respects_restoring :
    Respects (@Restoring Ext ExtAnswer kernel identity start live pending rest) :=
  fun _ _ snapshot events trace restoring =>
    ⟨respects_replaying.keep restoring.held snapshot events trace, trace ▸ restoring.unsaved⟩

private theorem restoring_stops (world : RunWorld Ext)
    (restoring : Restoring kernel identity start live pending rest world) :
    Idle kernel identity start world :=
  restoring.held.idle

private theorem Restoring.goesOn
    (restoring : Restoring kernel identity start live pending rest world)
    (remaining : ∀ event ∈ left, event ∈ rest) (durable : Clean world.trace → Durable next)
    (reached : Clean world.trace → next.cursor.checkpointSeq < nextSeq world.events)
    (behind : Clean world.trace → ∀ event ∈ world.events, isNodeEvent event = true →
      event.seq ≤ next.cursor.checkpointSeq ∨ event ∈ left)
    (closed : Clean world.trace → ∀ event ∈ world.events, event.eventType = "node.completed" →
      event.seq = next.cursor.checkpointSeq →
      event ∈ left ∨ after.isSome = true ∧ ∀ later ∈ left, event.seq < later.seq) :
    Restoring kernel identity start next after left world := by
  refine ⟨⟨restoring.held.idle, ?_, fun clean => ?_⟩, restoring.unsaved⟩
  · exact fun event found => restoring.held.remaining event (remaining event found)
  refine ⟨durable clean, behind clean, reached clean, ?_, closed clean, ?_⟩
  · exact fun saved => absurd restoring.unsaved saved
  · rw [restoring.unsaved]
    exact fun _ found => by cases found

private theorem restoring_skip (apart : ∀ later ∈ rest, event.seq < later.seq)
    (covered : event.seq ≤ live.cursor.checkpointSeq)
    (waits : event.eventType = "node.completed" → event.seq = live.cursor.checkpointSeq →
      after.isSome = true) (kept : pending.isSome = true → after.isSome = true)
    (restoring : Restoring kernel identity start live pending (event :: rest) world) :
    Restoring kernel identity start live after rest world := by
  have sync := restoring.held.sync
  refine restoring.goesOn (fun _ found => List.mem_cons_of_mem _ found)
    (fun clean => (sync clean).durable) (fun clean => (sync clean).reached) ?_ ?_
  · intro clean stored found node
    rcases (sync clean).behind stored found node with before | left
    · exact .inl before
    · rcases List.mem_cons.mp left with rfl | left
      · exact .inl covered
      · exact .inr left
  · intro clean stored found completed position
    rcases (sync clean).closed stored found completed position with left | ⟨waiting, before⟩
    · rcases List.mem_cons.mp left with rfl | left
      · exact .inr ⟨waits completed position, apart⟩
      · exact .inl left
    · exact .inr ⟨kept waiting, fun later found => before later (List.mem_cons_of_mem _ found)⟩

section
variable (graph : DurableGraph kernel.graph)
include graph

private theorem restoring_replay
    (apart : ∀ later ∈ rest, event.seq < later.seq)
    (ready : pending = none ∨ event.eventType = "node.after_middleware")
    (replayed : replayEvent kernel live pending event now = .ok (next, after))
    (restoring : Restoring kernel identity start live pending (event :: rest) world) :
    Restoring kernel identity start next after rest world := by
  have journal := restoring.held.idle.journal
  have sync := restoring.held.sync
  have present : event ∈ world.events := restoring.held.remaining event List.mem_cons_self
  have below := seq_lt_nextSeq present
  have moved := replayEvent_checkpoint replayed
  refine restoring.goesOn (fun _ found => List.mem_cons_of_mem _ found) ?_ ?_ ?_ ?_
  · intro clean
    exact replayEvent_durable graph (journal.lasting clean event present) replayed
      (sync clean).durable
  · intro clean
    have reached := (sync clean).reached
    rw [moved]
    split <;> omega
  · intro clean stored found node
    have forward : live.cursor.checkpointSeq ≤ next.cursor.checkpointSeq := by
      rw [moved]
      split <;> omega
    rcases (sync clean).behind stored found node with before | left
    · exact .inl (le_trans before forward)
    · rcases List.mem_cons.mp left with rfl | left
      · rw [moved, if_pos node]
        exact .inl (le_max_right _ _)
      · exact .inr left
  · intro clean stored found completed position
    have elsewhere : stored.seq = live.cursor.checkpointSeq → stored ≠ event →
        (isNodeEvent event = true → event.seq < live.cursor.checkpointSeq) → stored ∈ rest := by
      intro earlier different seen
      rcases (sync clean).closed stored found completed earlier with left | ⟨waiting, before⟩
      · rcases List.mem_cons.mp left with same | left
        · exact absurd same different
        · exact left
      · have overtaken := before event List.mem_cons_self
        rcases ready with rfl | afterMiddleware
        · cases waiting
        · have := seen (by simp [isNodeEvent, afterMiddleware])
          omega
    by_cases node : isNodeEvent event = true
    · rw [moved, if_pos node] at position
      by_cases ahead : live.cursor.checkpointSeq ≤ event.seq
      · have same : stored = event := by
          apply same_event journal.ascending found present
          omega
        rw [same] at completed ⊢
        exact .inr ⟨replayEvent_waiting completed replayed, apart⟩
      · have different : stored ≠ event := by
          intro same
          rw [same] at position
          omega
        exact .inl (elsewhere (by omega) different fun _ => by omega)
    · rw [moved, if_neg node] at position
      have different : stored ≠ event := by
        rintro rfl
        simp [isNodeEvent, completed] at node
      exact .inl (elsewhere position different fun seen => absurd seen node)

private theorem runs_commitPending
    (covered : checkpoint ≤ live.cursor.checkpointSeq) :
    LiveRuns kernel identity start around (Restoring kernel identity start live pending rest)
      (commitPending kernel identity fence live pending)
      fun next world => Restoring kernel identity start next none rest world ∧
        checkpoint ≤ next.cursor.checkpointSeq := by
  cases pending with
  | none => exact runs_pure fun world restoring => ⟨restoring, covered⟩
  | some waiting =>
    refine runs_weaken (runs_commit graph waiting rest [])
      (fun world restoring => ⟨restoring.held, restoring.unsaved⟩) ?_
    rintro next world ⟨⟨held, unsaved⟩, forward, -⟩
    exact ⟨⟨held, unsaved⟩, le_trans covered forward⟩

private theorem runs_replayLoop :
    ∀ (live : RunStateV3) (pending : Option PendingAfterMiddleware),
      rest.Pairwise (fun left right => left.seq < right.seq) →
      checkpoint ≤ live.cursor.checkpointSeq →
      LiveRuns kernel identity start around
        (Restoring kernel identity start live pending rest)
        (replayLoop kernel identity fence checkpoint live pending rest)
        fun replayed => Restoring kernel identity start replayed.1 replayed.2 [] := by
  induction rest with
  | nil => exact fun live pending _ _ => runs_pure fun _ => id
  | cons event rest ih =>
    intro live pending ascending covered
    obtain ⟨apart, ascending⟩ := List.pairwise_cons.mp ascending
    refine runs_lift restoring_stops fun _ _ => ?_
    by_cases before : event.seq < checkpoint
    · rw [if_pos before]
      refine runs_weaken (ih live pending ascending covered) (fun world => ?_) fun _ _ => id
      exact restoring_skip apart (by omega) (fun _ _ => by omega) id
    rw [if_neg before]
    by_cases current : event.seq = checkpoint
    · rw [if_pos current]
      by_cases completed : event.eventType = "node.completed"
      · rw [if_pos completed]
        refine runs_lift restoring_stops fun waiting _ => ?_
        refine runs_weaken (ih live (some waiting) ascending covered) (fun world => ?_) fun _ _ => id
        exact restoring_skip apart (by omega) (fun _ _ => rfl) fun _ => rfl
      · rw [if_neg completed]
        refine runs_weaken (ih live pending ascending covered) (fun world => ?_) fun _ _ => id
        exact restoring_skip apart (by omega) (fun found => absurd found completed) id
    rw [if_neg current]
    have replays : ∀ (state : RunStateV3) (waiting : Option PendingAfterMiddleware),
        waiting = none ∨ event.eventType = "node.after_middleware" →
        checkpoint ≤ state.cursor.checkpointSeq →
        LiveRuns kernel identity start around
          (Restoring kernel identity start state waiting (event :: rest))
          (do
            let now ← await .nowIso
            let stepped ← lift (replayEvent kernel state waiting event now)
            replayLoop kernel identity fence checkpoint stepped.1 stepped.2 rest)
          fun replayed => Restoring kernel identity start replayed.1 replayed.2 [] := by
      intro state waiting ready covered
      refine triple_bind (runs_still trivial respects_restoring restoring_stops) fun now => ?_
      refine runs_lift restoring_stops fun stepped replayed => ?_
      have forward : checkpoint ≤ stepped.1.cursor.checkpointSeq := by
        rw [replayEvent_checkpoint replayed]
        split <;> omega
      refine runs_weaken (ih stepped.1 stepped.2 ascending forward) (fun world => ?_) fun _ _ => id
      exact restoring_replay graph apart ready replayed
    by_cases afterMiddleware : event.eventType = "node.after_middleware"
    · simp only [afterMiddleware, if_true]
      exact replays live pending (.inr afterMiddleware) covered
    · simp only [if_neg afterMiddleware]
      refine triple_bind (runs_commitPending graph covered)
        fun state => triple_of_fact fun covered => ?_
      exact replays state none (.inl rfl) covered

end

/-- The run has saved nothing and shown nothing yet, and holds a loaded state. -/
structure Ready (kernel : RuntimeKernel ExtAnswer) (identity : RunIdentity) (start : Nat)
    (state : RunStateV3) (world : RunWorld Ext) : Prop where
  idle : Idle kernel identity start world
  unsaved : savedSince start world.trace = []
  durable : Durable state
  reached : Clean world.trace → state.cursor.checkpointSeq < nextSeq world.events

private theorem respects_ready : Respects (@Ready Ext ExtAnswer kernel identity start live) := by
  rintro before after snapshot events trace ⟨idle, unsaved, durable, reached⟩
  refine ⟨respects_idle.keep idle snapshot events trace, trace ▸ unsaved, durable, ?_⟩
  rw [events, trace]
  exact reached

private theorem ready_stops (world : RunWorld Ext) (ready : Ready kernel identity start live world) :
    Idle kernel identity start world :=
  ready.idle

private theorem ready_restoring (ready : Ready kernel identity start live world) :
    Restoring kernel identity start live none
      (world.events.filter fun event => live.cursor.checkpointSeq - 1 < event.seq) world := by
  obtain ⟨idle, unsaved, durable, reached⟩ := ready
  refine ⟨⟨idle, ?_, fun clean => ?_⟩, unsaved⟩
  · exact fun event found => (List.mem_filter.mp found).1
  refine ⟨durable, ?_, reached clean, ?_, ?_, ?_⟩
  · intro event found _
    by_cases before : event.seq ≤ live.cursor.checkpointSeq
    · exact .inl before
    · refine .inr (List.mem_filter.mpr ⟨found, ?_⟩)
      simp only [decide_eq_true_eq]
      omega
  · exact fun saved => absurd unsaved saved
  · intro event found _ position
    have positive := idle.journal.positive event found
    refine .inl (List.mem_filter.mpr ⟨found, ?_⟩)
    simp only [decide_eq_true_eq]
    omega
  · rw [unsaved]
    exact fun _ found => by cases found

private theorem runs_replayAfterCheckpoint (graph : DurableGraph kernel.graph) :
    LiveRuns kernel identity start around (Ready kernel identity start live)
      (replayAfterCheckpoint kernel identity fence live)
      fun next => Restoring kernel identity start next none [] := by
  have replayed : LiveRuns kernel identity start around (Ready kernel identity start live)
      (replayEvents kernel identity fence live)
      fun replayed => Restoring kernel identity start replayed.1 replayed.2 [] := by
    refine triple_bind (runs_listAfter _ respects_ready ready_stops) fun events => ?_
    rintro world ⟨ready, rfl⟩
    have ascending := ready.idle.journal.ascending.filter
      fun event => live.cursor.checkpointSeq - 1 < event.seq
    have sorted : sortEvents (world.events.filter fun event =>
        live.cursor.checkpointSeq - 1 < event.seq) =
        world.events.filter fun event => live.cursor.checkpointSeq - 1 < event.seq :=
      List.Pairwise.insertionSort_eq (ascending.imp fun apart => Nat.le_of_lt apart)
    rw [sorted]
    exact runs_replayLoop graph live none ascending (le_refl _) world (ready_restoring ready)
  refine triple_bind replayed fun result => ?_
  exact runs_weaken (runs_commitPending graph (Nat.zero_le _)) (fun _ => id)
    fun _ _ committed => committed.1

private theorem migrateTerminal_cursor :
    (migrateTerminalGraphMetadata kernel state).cursor = state.cursor := by
  unfold migrateTerminalGraphMetadata
  split <;> rfl

private theorem runs_save_last (cursor : state.cursor = live.cursor) :
    LiveRuns kernel identity start around (Live kernel identity start live none)
      (await (.save state fence)) fun _ => Idle kernel identity start := by
  refine runs_save respects_replaying respects_idle (fun _ held => held.idle) ?_
  intro world stored held persisted
  refine idle_saved held.idle persisted fun clean => ?_
  rw [cursor]
  exact (held.sync clean).reached

private theorem runs_saveIf_last (cursor : state.cursor = live.cursor) :
    LiveRuns kernel identity start around (Live kernel identity start live none)
      (saveIf fence condition state) fun _ => Idle kernel identity start := by
  unfold saveIf
  split
  · exact runs_save_last cursor
  · exact runs_pure fun _ held => held.idle

private theorem runs_rerunTerminal (graph : DurableGraph kernel.graph) :
    LiveRuns kernel identity start around (Ready kernel identity start live)
      (rerunTerminal kernel identity fence live) fun _ => Idle kernel identity start := by
  refine triple_bind (runs_replayAfterCheckpoint graph) fun replayed => ?_
  refine runs_weaken (?_ : LiveRuns kernel identity start around
    (Live kernel identity start replayed none) _ fun _ => Idle kernel identity start)
    (fun _ restoring => restoring.held) fun _ _ => id
  refine triple_bind (runs_afterRunIf_live _) fun _ => ?_
  refine triple_bind (runs_saveIf_last migrateTerminal_cursor) fun _ => ?_
  exact runs_pure fun _ => id

private theorem runs_settleReplayed :
    LiveRuns kernel identity start around (Live kernel identity start live none)
      (settleReplayed kernel fence checkpoint live) fun _ => Idle kernel identity start := by
  refine triple_bind (runs_afterRunIf_live _) fun _ => ?_
  refine triple_bind (runs_save_last migrateTerminal_cursor) fun _ => ?_
  exact runs_pure fun _ => id

private theorem going_same (same : SameRun next live)
    (going : Going kernel identity start live world) : Going kernel identity start next world := by
  obtain ⟨⟨idle, remaining, sync⟩, begun⟩ := going
  have status : next.status = live.status := same.1
  have begun : next.status ≠ .created := status ▸ begun
  refine ⟨⟨idle, remaining, fun clean => ?_⟩, begun⟩
  obtain ⟨durable, behind, reached, -, closed, snapshots⟩ := sync clean
  have back : SameRun live next := same.symm
  have cursor : next.cursor = live.cursor := by
    obtain ⟨_, _, _, rfl⟩ := same
    rfl
  refine ⟨?_, cursor ▸ behind, cursor ▸ reached, fun _ => begun, cursor ▸ closed, ?_⟩
  · obtain ⟨_, _, _, rfl⟩ := same
    exact ⟨durable.graphVersion, durable.nodeId, durable.nodeData, durable.outcome⟩
  · intro snapshot found
    obtain ⟨earlier, apart, state, rebuilt, alike⟩ := snapshots snapshot found
    exact ⟨cursor ▸ earlier, apart, state, rebuilt, alike.trans_same back⟩

private theorem restoring_migrated (graph : DurableGraph kernel.graph)
    (moved : migrateGraphState kernel live now = .ok migrated)
    (restoring : Restoring kernel identity start live none [] world) :
    Going kernel identity start (mark .running later migrated) world := by
  have checkpoint : (mark .running later migrated).cursor.checkpointSeq =
      live.cursor.checkpointSeq := (migrateGraphState_header moved).2
  have sync := restoring.held.sync
  have going : Restoring kernel identity start (mark .running later migrated) none [] world := by
    refine restoring.goesOn (fun _ => id) (fun clean => ?_) (fun clean => ?_) (fun clean => ?_)
      fun clean => ?_
    · have durable := migrateGraphState_durable graph moved (sync clean).durable
      exact ⟨durable.graphVersion, durable.nodeId, durable.nodeData, durable.outcome⟩
    · rw [checkpoint]
      exact (sync clean).reached
    · rw [checkpoint]
      exact (sync clean).behind
    · rw [checkpoint]
      exact (sync clean).closed
  exact ⟨going.held, fun created => by cases created⟩

private theorem sameStart_running (open_ : isTerminal state = false) :
    SameStart state.status .running := by
  cases found : state.status with
  | created => exact .inr ⟨.inl rfl, .inr rfl⟩
  | running => exact .inl rfl
  | _ => simp [isTerminal, found] at open_

private theorem runs_startRun (graph : DurableGraph kernel.graph) (open_ : isTerminal live = false) :
    LiveRuns kernel identity start around (Restoring kernel identity start live none [])
      (startRun kernel identity fence passes live) fun _ => Idle kernel identity start := by
  refine triple_bind (runs_still trivial respects_restoring restoring_stops) fun now => ?_
  refine runs_lift restoring_stops fun migrated moved => ?_
  refine runs_weaken (?_ : LiveRuns kernel identity start around
    (Going kernel identity start (mark .running migrated.updatedAt migrated)) _
    fun _ => Idle kernel identity start) (fun _ => restoring_migrated graph moved) fun _ _ => id
  have status : SameStart migrated.status .running := by
    have unchanged := (migrateGraphState_header moved).1
    exact unchanged ▸ sameStart_running open_
  have saved : LiveRuns kernel identity start around
      (Going kernel identity start (mark .running migrated.updatedAt migrated))
      (await (.save migrated fence))
      fun _ => Going kernel identity start (mark .running migrated.updatedAt migrated) := by
    refine runs_save respects_going respects_going going_stops fun _ _ going persisted => ?_
    have alike : Alike SameStart migrated (mark .running migrated.updatedAt migrated) :=
      ⟨status, migrated.status, migrated.updatedAt, rfl⟩
    exact ⟨live_saved going.2 alike persisted going.1, going.2⟩
  refine triple_bind saved fun _ => ?_
  refine triple_bind (runs_still trivial respects_going going_stops) fun now => ?_
  have same : SameRun (mark .running now migrated) (mark .running migrated.updatedAt migrated) :=
    ⟨rfl, .running, now, rfl⟩
  refine runs_weaken (?_ : LiveRuns kernel identity start around
    (Going kernel identity start (mark .running now migrated)) _
    fun _ => Idle kernel identity start) (fun _ => going_same same) fun _ _ => id
  refine triple_bind (runs_saveIf_going true) fun _ => ?_
  refine triple_bind (runs_hook respects_going going_stops going_stops fun world going =>
    ⟨replaying_hooked rfl going.1, going.2⟩) fun before => ?_
  refine triple_bind (runs_leaseHealthy respects_going going_stops) fun _ => ?_
  refine runs_lift going_stops fun commands _ => ?_
  cases commandOutcome commands with
  | some outcome =>
    exact runs_weaken (runs_endRun commands outcome) (fun _ going => going.1) fun _ _ => id
  | none => exact runs_runNodes graph passes _

private theorem runs_resumeRun (graph : DurableGraph kernel.graph) :
    LiveRuns kernel identity start around (Ready kernel identity start live)
      (resumeRun kernel identity fence passes live) fun _ => Idle kernel identity start := by
  unfold resumeRun
  cases graphCompatibility kernel live with
  | some outcome => exact runs_pure ready_stops
  | none =>
    refine triple_bind (runs_replayAfterCheckpoint graph) fun replayed => ?_
    by_cases ended : isTerminal replayed = true
    · rw [if_pos ended]
      exact runs_weaken runs_settleReplayed (fun _ restoring => restoring.held) fun _ _ => id
    · rw [if_neg ended]
      exact runs_startRun graph (by simpa using ended)

/-- Nothing saved yet. -/
def Fresh (kernel : RuntimeKernel ExtAnswer) (identity : RunIdentity) (start : Nat)
    (world : RunWorld Ext) : Prop :=
  Idle kernel identity start world ∧ savedSince start world.trace = []

private theorem respects_fresh : Respects (@Fresh Ext ExtAnswer kernel identity start) :=
  fun _ _ snapshot events trace fresh =>
    ⟨respects_idle.keep fresh.1 snapshot events trace, trace ▸ fresh.2⟩

private theorem runs_loadState (graph : DurableGraph kernel.graph) :
    LiveRuns kernel identity start around (Fresh kernel identity start)
      (loadState kernel identity) (Ready kernel identity start) := by
  refine triple_bind (runs_load respects_fresh fun _ fresh => fresh.1) fun stored => ?_
  cases stored with
  | some state =>
    refine runs_pure fun world loaded => ?_
    have journal := loaded.1.1.journal
    exact ⟨loaded.1.1, loaded.1.2, journal.stored state loaded.2,
      fun clean => journal.reached clean state loaded.2⟩
  | none =>
    refine runs_weaken (?_ : LiveRuns kernel identity start around
      (Fresh kernel identity start) _ _) (fun _ loaded => loaded.1) fun _ _ => id
    refine triple_bind (runs_still trivial respects_fresh fun _ fresh => fresh.1) fun now => ?_
    refine runs_pure fun world fresh => ?_
    exact ⟨fresh.1, fresh.2, initialState_durable graph, fun _ => Nat.succ_pos _⟩

private theorem runs_runHeld (graph : DurableGraph kernel.graph) :
    LiveRuns kernel identity start around (Fresh kernel identity start)
      (runHeld kernel identity fence passes) fun _ => Idle kernel identity start := by
  refine triple_bind (runs_loadState graph) fun state => ?_
  refine runs_lift ready_stops fun _ _ => ?_
  refine triple_bind (runs_leaseHealthy respects_ready ready_stops) fun _ => ?_
  split
  · exact runs_rerunTerminal graph
  · exact runs_resumeRun graph

private theorem runs_reportStored :
    LiveRuns kernel identity start around (Idle kernel identity start)
      reportStored fun _ => Idle kernel identity start := by
  refine triple_bind (runs_load respects_idle fun _ => id) fun stored => ?_
  cases stored with
  | none => exact runs_pure fun _ loaded => loaded.1
  | some state =>
    by_cases ended : isTerminal state = true
    · simp only [ended, if_true]
      exact runs_pure fun _ loaded => loaded.1
    · simp only [ended]
      exact runs_pure fun _ loaded => loaded.1

/-- The failed run's snapshot is not ahead of the log. -/
private def Failing (kernel : RuntimeKernel ExtAnswer) (identity : RunIdentity) (start : Nat)
    (state : RunStateV3) (world : RunWorld Ext) : Prop :=
  Idle kernel identity start world ∧ (Clean world.trace → state.cursor.checkpointSeq < nextSeq world.events)

private theorem respects_failing : Respects (@Failing Ext ExtAnswer kernel identity start live) := by
  rintro before after snapshot events trace ⟨idle, reached⟩
  refine ⟨respects_idle.keep idle snapshot events trace, ?_⟩
  rw [events, trace]
  exact reached

private theorem runs_reportFailure :
    LiveRuns kernel identity start around (Idle kernel identity start)
      (reportFailure fence error) fun _ => Idle kernel identity start := by
  refine triple_bind (runs_load respects_idle fun _ => id) fun stored => ?_
  cases stored with
  | none => exact runs_pure fun _ loaded => loaded.1
  | some state =>
    refine runs_weaken (?_ : LiveRuns kernel identity start around
      (Failing kernel identity start state) _ fun _ => Idle kernel identity start) ?_ fun _ _ => id
    · have stops : ∀ world : RunWorld Ext, Failing kernel identity start state world →
          Idle kernel identity start world := fun _ failing => failing.1
      refine triple_bind (runs_hook respects_failing stops stops ?_) fun _ => ?_
      · intro world failing
        refine ⟨idle_observe failing.1 fun context same => ?_, fun clean => failing.2 clean.before⟩
        cases same
        rfl
      by_cases ended : isTerminal state = true
      · simp only [ended, if_true]
        exact runs_pure stops
      simp only [ended]
      refine triple_bind (runs_still trivial respects_failing stops) fun now => ?_
      have saved : LiveRuns kernel identity start around (Failing kernel identity start state)
          (await (.save (withOutcome state (failedOutcome error) now) fence))
          fun _ => Idle kernel identity start := by
        refine runs_save respects_failing respects_idle stops fun world stored failing persisted => ?_
        refine idle_saved failing.1 persisted fun clean => ?_
        rw [withOutcome_cursor]
        exact failing.2 clean
      refine triple_bind (triple_catching saved fun _ => triple_pure fun _ => id) fun _ => ?_
      exact runs_pure fun _ => id
    · exact fun world loaded => ⟨loaded.1, fun clean => loaded.1.journal.reached clean state loaded.2⟩

private theorem runs_recover (error : RuntimeError) :
    LiveRuns kernel identity start around (Idle kernel identity start)
      (recover fence error) fun _ => Idle kernel identity start := by
  cases error with
  | kernelCrash original => exact runs_throw fun _ => id
  | leaseLost outcome =>
    cases outcome with
    | some outcome => exact runs_pure fun _ => id
    | none => exact runs_reportStored
  | foreign error =>
    refine triple_bind (runs_still trivial respects_idle fun _ => id) fun lost => ?_
    split
    · exact runs_reportStored
    · exact runs_reportFailure

private theorem runs_release (respects : Respects post)
    (stops : ∀ world, post world → Idle kernel identity start world) :
    Triple (runHost around identity) post (release fence) (fun _ => post) (fun _ _ => False)
      (Idle kernel identity start) := by
  refine triple_catching (?_ : Triple _ _ _ _ (fun _ => post) _) fun _ => triple_pure fun _ => id
  refine triple_await (fun world holds _ => stops world holds) ?_ ?_
  · intro world holds _ answer after performed
    cases performed
    exact respects.keep holds rfl rfl rfl
  · intro world holds _ error after performed
    cases performed

theorem runs_run (graph : DurableGraph kernel.graph) (passes : Nat) :
    LiveRuns kernel identity start around (Fresh kernel identity start)
      (run kernel identity passes) fun _ => Idle kernel identity start := by
  refine triple_bind (runs_still trivial respects_fresh fun _ fresh => fresh.1) fun lease => ?_
  split
  · refine triple_finallyDo ?_ (fun _ => ?_) fun _ => ?_
    · exact triple_catching (runs_runHeld graph) runs_recover
    all_goals exact runs_release respects_idle fun _ => id
  · exact runs_pure fun _ fresh => fresh.1

private theorem fresh_start (journal : Journal identity 0 world) :
    Fresh kernel identity world.trace.length { world with clock := 0 } := by
  obtain ⟨ascending, positive, own, -, lasting, stored, reached⟩ := journal
  have unsaved : savedSince world.trace.length world.trace = [] := by
    simp only [savedSince, List.drop_length]
    rfl
  refine ⟨⟨⟨ascending, positive, own, le_refl _, lasting, stored, reached⟩, ?_⟩, unsaved⟩
  intro _ _ _ _ _ snapshot found
  rw [show savedSince _ _ = [] from unsaved] at found
  cases found

theorem attemptRun_idle (graph : DurableGraph kernel.graph) (attempt : RunAttempt ExtAnswer)
    (journal : Journal identity 0 world) :
    Idle kernel identity world.trace.length (attemptRun kernel identity world attempt) := by
  have started : Fresh kernel identity world.trace.length { world with clock := 0 } :=
    fresh_start journal
  have runs : LiveRuns kernel identity world.trace.length attempt.surroundings _ _ _ :=
    runs_run graph attempt.passes
  have ran := runs _ started
  unfold attemptRun
  rcases finished : execute (runHost attempt.surroundings identity)
    (run kernel identity attempt.passes) { world with clock := 0 } with ⟨ending, after⟩
  rw [finished] at ran
  cases ending with
  | returned outcome => exact idle_observe ran fun context absurdity => by cases absurdity
  | threw error => exact ran
  | stopped => exact ran

private theorem journal_weaken (journal : Journal identity start world) :
    Journal identity 0 world :=
  ⟨journal.ascending, journal.positive, journal.own, Nat.zero_le _, journal.lasting,
    journal.stored, journal.reached⟩

theorem attemptRuns_journal (graph : DurableGraph kernel.graph) (attempts : List (RunAttempt ExtAnswer)) :
    Journal identity 0 (attemptRuns kernel identity {} attempts) := by
  suffices kept : ∀ world : RunWorld Ext, Journal identity 0 world →
      Journal identity 0 (attemptRuns kernel identity world attempts) by
    apply kept
    refine ⟨List.Pairwise.nil, ?_, ?_, Nat.zero_le _, ?_, ?_, ?_⟩
    · exact fun _ found => by cases found
    · exact fun _ found => by cases found
    · exact fun _ _ found => by cases found
    · exact fun _ found => by cases found
    · exact fun _ _ found => by cases found
  induction attempts with
  | nil => exact fun _ journal => journal
  | cons attempt rest ih =>
    intro world journal
    exact ih _ (journal_weaken (attemptRun_idle graph attempt journal).journal)

end QiongQi.KernelRestores
