import QiongQi.KernelInvariants
import QiongQi.KernelTerminal

/-! The event log of a run identity over all of its runs: nothing in it is ever rewritten or
dropped, its events are numbered from 1 on without a gap, and checkpoints only move forward in it. -/
namespace QiongQi.KernelLogs
open Programs RuntimeContracts RuntimeKernels KernelRuns KernelReducers KernelReplay KernelSteps
  KernelLive KernelInvariants KernelTerminal

variable {Ext : Type} {ExtAnswer : Ext → Type}
variable {kernel : RuntimeKernel ExtAnswer} {identity : RunIdentity}
variable {around : Surroundings ExtAnswer} {start events : List RunEventEnvelope} {floor : Nat}

/-- The log begins with `start`, and its events have the numbers of their places. -/
structure Numbered (start events : List RunEventEnvelope) : Prop where
  earlier : start <+: events
  numbers : events.map (·.seq) = List.range' 1 events.length
  next : nextSeq events = events.length + 1

/-- An event takes the number that follows the last one. -/
theorem Numbered.record (numbered : Numbered start events) (event : RunEventEnvelope)
    (seq : event.seq = nextSeq events) : Numbered start (events ++ [event]) := by
  obtain ⟨earlier, numbers, next⟩ := numbered
  have place : event.seq = 1 + 1 * events.length := by omega
  refine ⟨earlier.trans (List.prefix_append ..), ?_, ?_⟩
  · rw [List.map_append, numbers, List.length_append, List.length_singleton, List.range'_concat, ← place]
    rfl
  · rw [nextSeq_append, next, List.length_append, List.length_singleton]
    omega

/-- The number after the state's checkpoint lies between `floor` and the next one of the log. -/
def Within (floor : Nat) (events : List RunEventEnvelope) (state : RunStateV3) : Prop :=
  floor ≤ state.cursor.checkpointSeq + 1 ∧ state.cursor.checkpointSeq < nextSeq events

theorem Within.grown (within : Within floor events state) (event : RunEventEnvelope) :
    Within floor (events ++ [event]) state := by
  have grown := nextSeq_append events event
  obtain ⟨low, high⟩ := within
  exact ⟨low, by omega⟩

/-- The state reaches an event of the log, or stays where it is. -/
theorem Within.reach {live next : RunStateV3} (within : Within floor events live)
    (cursor : next.cursor.checkpointSeq = max live.cursor.checkpointSeq seq) (known : seq < nextSeq events) :
    Within floor events next := by
  obtain ⟨low, high⟩ := within
  exact ⟨by omega, by omega⟩

theorem Within.stay {live next : RunStateV3} (within : Within floor events live)
    (cursor : next.cursor.checkpointSeq = live.cursor.checkpointSeq) : Within floor events next := by
  rw [Within, cursor]
  exact within

/-- The store holds such a state, or nothing as long as `floor` asks for none. -/
structure Checkpointed (start : List RunEventEnvelope) (floor : Nat) (snapshot : Option RunStateV3)
    (events : List RunEventEnvelope) : Prop where
  numbered : Numbered start events
  unset : snapshot = none → floor = 0
  stored : ∀ state, snapshot = some state → Within floor events state

/-- And so is the state in memory, with the events that are still to be replayed. -/
structure Checkpointing (start : List RunEventEnvelope) (floor : Nat) (live : RunStateV3)
    (rest : List RunEventEnvelope) (snapshot : Option RunStateV3) (events : List RunEventEnvelope) :
    Prop where
  idle : Checkpointed start floor snapshot events
  live : Within floor events live
  rest : ∀ event ∈ rest, event.seq < nextSeq events

theorem Checkpointed.record (idle : Checkpointed start floor snapshot events) (event : RunEventEnvelope)
    (seq : event.seq = nextSeq events) : Checkpointed start floor snapshot (events ++ [event]) :=
  ⟨idle.numbered.record event seq, idle.unset, fun state found => (idle.stored state found).grown event⟩

theorem Checkpointed.save (idle : Checkpointed start floor snapshot events)
    (within : Within floor events state) (persisted : RunStateV3.persist state = some written) :
    Checkpointed start floor (some written) events := by
  refine ⟨idle.numbered, by rintro ⟨⟩, ?_⟩
  rintro _ ⟨⟩
  exact within.stay (persisted_durable persisted).2

theorem Checkpointing.record (held : Checkpointing start floor state waiting snapshot events)
    (event : RunEventEnvelope) (seq : event.seq = nextSeq events) :
    Checkpointing start floor state waiting snapshot (events ++ [event]) := by
  have grown := nextSeq_append events event
  exact ⟨held.idle.record event seq, held.live.grown event, fun other found => by
    have := held.rest other found
    omega⟩

theorem Checkpointing.move (held : Checkpointing start floor state waiting snapshot events)
    (within : Within floor events next) : Checkpointing start floor next waiting snapshot events :=
  ⟨held.idle, within, held.rest⟩

/-- The state moves on to the event that has just been recorded. -/
theorem Checkpointing.take (held : Checkpointing start floor state waiting snapshot events)
    (event : RunEventEnvelope) (seq : event.seq = nextSeq events)
    (cursor : next.cursor.checkpointSeq = max state.cursor.checkpointSeq event.seq) :
    Checkpointing start floor next waiting snapshot (events ++ [event]) := by
  have grown := nextSeq_append events event
  exact (held.record event seq).move ((held.live.grown event).reach cursor (by omega))

theorem keeps_checkpointed : Keeps kernel identity around (fun _ _ _ => True)
    (fun world => Checkpointed start floor world.snapshot world.events)
    fun live rest world => Checkpointing start floor live rest world.snapshot world.events where
  idle_respects := by
    rintro before after snapshot events - held
    rw [snapshot, events]
    exact held
  held_respects := by
    rintro live rest before after snapshot events - held
    rw [snapshot, events]
    exact held
  cut held := held.idle
  ascending := by
    intro world held
    have increasing : (world.events.map (·.seq)).Pairwise (· < ·) := by
      rw [held.numbered.numbers]
      exact List.pairwise_lt_range'
    exact List.pairwise_map.mp increasing
  returns _ _ := returns_anything _
  silent _ held := held
  effect held := held.record _ rfl
  hooked _ held := held
  failing held _ _ _ := held
  failed idle found persisted := by
    refine idle.save ((idle.stored _ found).stay ?_) persisted
    rw [withOutcome_cursor]
  finished held := held
  loaded idle found := ⟨idle, idle.stored _ found, fun _ later => seq_lt_nextSeq (List.mem_filter.mp later).1⟩
  fresh _ idle unset := by
    refine ⟨idle, ⟨(idle.unset unset).le.trans (Nat.zero_le _), ?_⟩, fun _ later => seq_lt_nextSeq (List.mem_filter.mp later).1⟩
    exact Nat.succ_pos _
  replayed held replayed := by
    refine ⟨held.idle, ?_, fun event found => held.rest event (List.mem_cons_of_mem _ found)⟩
    have checkpoint := replayEvent_checkpoint replayed
    split at checkpoint
    · exact held.live.reach checkpoint (held.rest _ List.mem_cons_self)
    · exact held.live.stay checkpoint
  started now held seq _ := by
    have high := held.live.2
    refine held.take _ seq (max_eq_right (Nat.le_of_lt ?_)).symm
    show _ < RunEventEnvelope.seq _
    rw [seq]
    exact high
  completed held _ seq _ _ := ⟨held.idle.record _ seq, fun _ _ _ reduced =>
    held.take _ seq (reduceCompletedNode_checkpoint reduced)⟩
  committed held _ _ seq _ _ := ⟨held.idle.record _ seq, fun _ _ _ reduced =>
    held.take _ seq (reduceAfterMiddleware_checkpoint reduced)⟩
  saved held persisted := ⟨held.idle.save held.live persisted, held.live, held.rest⟩
  ended held _ applied := by
    refine held.move (held.live.stay ?_)
    rw [withOutcome_cursor, (applyCommands_header applied).cursor]
  migrated held moved := held.move (held.live.stay (migrateGraphState_header moved).2)
  relabelled held := by
    refine held.move (held.live.stay ?_)
    unfold migrateTerminalGraphMetadata
    split <;> rfl
  marked _ _ held := held.move (held.live.stay rfl)

theorem checkpointed_runs (attempts : List (RunAttempt ExtAnswer)) {world : RunWorld Ext}
    (idle : Checkpointed start floor world.snapshot world.events) :
    Checkpointed start floor (attemptRuns kernel identity world attempts).snapshot
      (attemptRuns kernel identity world attempts).events :=
  attemptRuns_keep (fun _ _ => ⟨_, keeps_checkpointed⟩) idle

theorem checkpointed_empty : Checkpointed [] 0 none [] :=
  ⟨⟨List.prefix_refl _, rfl, rfl⟩, fun _ => rfl, by rintro _ ⟨⟩⟩

theorem attemptRuns_append (first later : List (RunAttempt ExtAnswer)) (world : RunWorld Ext) :
    attemptRuns kernel identity world (first ++ later) =
      attemptRuns kernel identity (attemptRuns kernel identity world first) later :=
  List.foldl_append ..

/-- Whatever the runs of an identity meet with and wherever they are cut off, each of them only
adds to its log, and the log has the numbers from 1 to its length. -/
theorem log_grows (kernel : RuntimeKernel ExtAnswer) (identity : RunIdentity)
    (first later : List (RunAttempt ExtAnswer)) :
    let log := (attemptRuns kernel identity {} (first ++ later)).events
    (attemptRuns kernel identity {} first).events <+: log ∧ log.map (·.seq) = List.range' 1 log.length := by
  have begun := @checkpointed_runs _ _ kernel identity _ _ first {} checkpointed_empty
  have grown := @checkpointed_runs _ _ kernel identity _ 0 later _
    ⟨⟨List.prefix_refl _, begun.numbered.numbers, begun.numbered.next⟩, fun _ => rfl, begun.stored⟩
  rw [attemptRuns_append]
  exact ⟨grown.numbered.earlier, grown.numbered.numbers⟩

/-- A stored state is never lost to later runs; its checkpoint only moves forward, up to the end of
the log. -/
theorem checkpoint_advances (kernel : RuntimeKernel ExtAnswer) (identity : RunIdentity)
    (first later : List (RunAttempt ExtAnswer)) (earlier : RunStateV3)
    (stored : (attemptRuns kernel identity {} first).snapshot = some earlier) :
    ∃ state, (attemptRuns kernel identity {} (first ++ later)).snapshot = some state ∧
      earlier.cursor.checkpointSeq ≤ state.cursor.checkpointSeq ∧
      state.cursor.checkpointSeq ≤ (attemptRuns kernel identity {} (first ++ later)).events.length := by
  have begun := @checkpointed_runs _ _ kernel identity _ _ first {} checkpointed_empty
  have passed : Checkpointed [] (earlier.cursor.checkpointSeq + 1)
      (attemptRuns kernel identity {} first).snapshot (attemptRuns kernel identity {} first).events := by
    rw [stored]
    refine ⟨begun.numbered, by rintro ⟨⟩, ?_⟩
    rintro _ ⟨⟩
    exact ⟨le_refl _, (begun.stored _ stored).2⟩
  have grown := @checkpointed_runs _ _ kernel identity _ _ later _ passed
  rw [← attemptRuns_append] at grown
  cases held : (attemptRuns kernel identity {} (first ++ later)).snapshot with
  | none => cases grown.unset held
  | some state =>
    obtain ⟨forward, known⟩ := grown.stored state held
    have last := grown.numbered.next
    exact ⟨state, rfl, by omega, by omega⟩

theorem checkpoint_advances_again : ∃ earlier state,
    (attemptRuns (twoNodeKernel (.ok ())) sampleIdentity {} [calmRun]).snapshot = some earlier ∧
      (attemptRuns (twoNodeKernel (.ok ())) sampleIdentity {} ([calmRun] ++ [calmRun])).snapshot = some state ∧
        6 ≤ state.cursor.checkpointSeq := by
  have checkpoint : ((attemptRuns (twoNodeKernel (.ok ())) sampleIdentity {} [calmRun]).snapshot.map
      fun state => state.cursor.checkpointSeq) = some 6 := by decide +kernel
  obtain ⟨earlier, stored, six⟩ := Option.map_eq_some_iff.mp checkpoint
  obtain ⟨state, held, forward, -⟩ := checkpoint_advances _ _ [calmRun] [calmRun] earlier stored
  exact ⟨earlier, state, stored, held, six ▸ forward⟩

end QiongQi.KernelLogs
