import QiongQi.KernelReplay
import QiongQi.KernelSteps

/-! A live run against its own log. At every middleware call, each snapshot the
run has saved and the events stored after it stand for the state in memory, as
long as the handlers' values and outcomes survive storage. -/
namespace QiongQi.KernelLive
open JsonValues Programs RuntimeContracts MiddlewareCommands ExecutionGraphs RuntimeKernels
  KernelRuns KernelReducers KernelDurability KernelReplay KernelSteps

variable {Ext : Type} {ExtAnswer : Ext → Type}

/-- The handlers' results in a trace all survive storage. -/
def Clean (trace : List (Observation Ext)) : Prop :=
  ∀ nodeId result, .left nodeId (some result) ∈ trace → Lasting result

variable {world : RunWorld Ext} {event : RunEventEnvelope}
variable {next state stored : RunStateV3} {after : Option PendingAfterMiddleware}

theorem Clean.before (clean : Clean (trace ++ [observation])) : Clean trace :=
  fun nodeId result found => clean nodeId result (List.mem_append_left _ found)

/-- An event whose replay keeps a durable state durable. -/
structure LastingEvent (event : RunEventEnvelope) : Prop where
  completed : event.eventType = "node.completed" → ∀ payload,
    parseCompletedNodePayload event.payload = .ok payload →
    (∀ value, payload.value = some value → value.Survives) ∧
      ∀ outcome, payload.outcome = some outcome → RunOutcome.persist outcome = some outcome
  afterMiddleware : event.eventType = "node.after_middleware" → ∀ payload,
    parseAfterMiddlewarePayload event.payload = .ok payload →
    ∀ outcome, payload.outcome = some outcome → RunOutcome.persist outcome = some outcome

def savedIn (trace : List (Observation Ext)) : List RunStateV3 :=
  trace.filterMap fun
    | .saved stored => some stored
    | _ => none

/-- The snapshots saved since the trace had length `start`. -/
def savedSince (start : Nat) (trace : List (Observation Ext)) : List RunStateV3 :=
  savedIn (trace.drop start)

/-- The log is in order and the run's own, and no stored snapshot is ahead of it. -/
structure Journal (identity : RunIdentity) (start : Nat) (world : RunWorld Ext) : Prop where
  ascending : world.events.Pairwise fun left right => left.seq < right.seq
  positive : ∀ event ∈ world.events, 0 < event.seq
  own : ∀ event ∈ world.events, event.identity = identity
  started : start ≤ world.trace.length
  lasting : Clean world.trace → ∀ event ∈ world.events, LastingEvent event
  stored : ∀ snapshot, world.snapshot = some snapshot → Durable snapshot
  reached : Clean world.trace → ∀ snapshot, world.snapshot = some snapshot →
    snapshot.cursor.checkpointSeq < nextSeq world.events

/-- A run's first snapshot is `created`, the state in memory `running`: nothing
but the first completion tells them apart. -/
def SameStart (left right : RunStatus) : Prop :=
  left = right ∨ (left = .created ∨ left = .running) ∧ (right = .created ∨ right = .running)

theorem indistinct_start : Indistinct SameStart where
  refl _ := .inl rfl
  terminal left right same := by
    rcases same with equal | ⟨early, late⟩
    · exact isTerminal_congr equal
    · simp only [isTerminal]
      rcases early with left | left <;> rcases late with right | right <;> rw [left, right] <;> rfl

/-- The snapshot and the events after it stand for a state. -/
structure Rebuilds (kernel : RuntimeKernel ExtAnswer) (identity : RunIdentity)
    (events : List RunEventEnvelope) (live : RunStateV3) (pending : Option PendingAfterMiddleware)
    (snapshot : RunStateV3) : Prop where
  earlier : snapshot.cursor.checkpointSeq ≤ live.cursor.checkpointSeq
  closed : ∀ event ∈ events, event.seq = snapshot.cursor.checkpointSeq → event.eventType ≠ "node.completed"
  rebuilt : ∃ state, rebuild kernel identity snapshot events = .ok (state, pending) ∧
    Alike SameStart state live

/-- The state in memory agrees with every snapshot of the run and with the log up
to the events that are still to be replayed. -/
structure InSync (kernel : RuntimeKernel ExtAnswer) (identity : RunIdentity) (start : Nat)
    (live : RunStateV3) (pending : Option PendingAfterMiddleware) (rest : List RunEventEnvelope)
    (world : RunWorld Ext) : Prop where
  durable : Durable live
  behind : ∀ event ∈ world.events, isNodeEvent event = true →
    event.seq ≤ live.cursor.checkpointSeq ∨ event ∈ rest
  reached : live.cursor.checkpointSeq < nextSeq world.events
  begun : savedSince start world.trace ≠ [] → live.status ≠ .created
  closed : ∀ event ∈ world.events, event.eventType = "node.completed" →
    event.seq = live.cursor.checkpointSeq →
    event ∈ rest ∨ pending.isSome = true ∧ ∀ later ∈ rest, event.seq < later.seq
  snapshots : ∀ snapshot ∈ savedSince start world.trace,
    Rebuilds kernel identity world.events live pending snapshot

/-- Where the trace ends in a middleware call, the state it was given is what
every snapshot of the run stands for. -/
def Shown (kernel : RuntimeKernel ExtAnswer) (identity : RunIdentity) (start : Nat)
    (world : RunWorld Ext) : Prop :=
  Clean world.trace → ∀ earlier context, world.trace = earlier ++ [.hooked context] →
    context.hook ≠ .onError → ∀ snapshot ∈ savedSince start world.trace, context.state.status ≠ .created ∧
        ∃ pending, Rebuilds kernel identity world.events context.state pending snapshot

/-- What holds at any point of a run. -/
structure Idle (kernel : RuntimeKernel ExtAnswer) (identity : RunIdentity) (start : Nat)
    (world : RunWorld Ext) : Prop where
  journal : Journal identity start world
  shown : Shown kernel identity start world

/-- The run holds `live` in memory, and has `rest` of the log to replay. -/
structure Replaying (kernel : RuntimeKernel ExtAnswer) (identity : RunIdentity) (start : Nat)
    (live : RunStateV3) (pending : Option PendingAfterMiddleware) (rest : List RunEventEnvelope)
    (world : RunWorld Ext) : Prop where
  idle : Idle kernel identity start world
  remaining : ∀ event ∈ rest, event ∈ world.events
  sync : Clean world.trace → InSync kernel identity start live pending rest world

/-- The run holds `live` in memory. -/
abbrev Live (kernel : RuntimeKernel ExtAnswer) (identity : RunIdentity) (start : Nat)
    (live : RunStateV3) (pending : Option PendingAfterMiddleware) : RunWorld Ext → Prop :=
  Replaying kernel identity start live pending []

variable {live : RunStateV3}

theorem respects_idle : Respects (@Idle Ext ExtAnswer kernel identity start) := by
  rintro before after snapshot events trace
    ⟨⟨ascending, positive, own, started, lasting, stored, reached⟩, shown⟩
  refine ⟨⟨events ▸ ascending, events ▸ positive, events ▸ own, trace ▸ started, ?_, ?_, ?_⟩, ?_⟩
  · rw [events, trace]
    exact lasting
  · rw [snapshot]
    exact stored
  · rw [snapshot, events, trace]
    exact reached
  · unfold Shown at shown ⊢
    rw [events, trace]
    exact shown

theorem respects_replaying :
    Respects (@Replaying Ext ExtAnswer kernel identity start live pending rest) := by
  rintro before after snapshot events trace ⟨idle, remaining, sync⟩
  refine ⟨respects_idle.keep idle snapshot events trace, events ▸ remaining, ?_⟩
  intro clean
  rw [trace] at clean
  obtain ⟨durable, behind, reached, begun, closed, snapshots⟩ := sync clean
  refine ⟨durable, ?_, ?_, ?_, ?_, ?_⟩
  · rw [events]
    exact behind
  · rw [events]
    exact reached
  · rw [trace]
    exact begun
  · rw [events]
    exact closed
  · rw [events, trace]
    exact snapshots

theorem savedSince_append (started : start ≤ trace.length) :
    savedSince start (trace ++ [observation]) = savedSince start trace ++ savedIn [observation] := by
  simp only [savedSince, savedIn, List.drop_append_of_le_length started, List.filterMap_append]

theorem idle_observe (idle : Idle kernel identity start world)
    (unseen : ∀ context, observation = .hooked context → context.hook = .onError) :
    Idle kernel identity start (world.observe observation) := by
  obtain ⟨⟨ascending, positive, own, started, lasting, stored, reached⟩, -⟩ := idle
  refine ⟨⟨ascending, positive, own, ?_, fun clean => lasting clean.before, stored,
    fun clean => reached clean.before⟩, ?_⟩
  · simp only [RunWorld.observe, List.length_append]
    omega
  · intro _ earlier context ended visible
    have last : observation = .hooked context := by
      simpa using (List.append_inj_right' ended rfl)
    exact absurd (unseen context last) visible

/-- Observations that neither show nor save a state. -/
def Silent : Observation Ext → Prop
  | .saved _ => False
  | .hooked _ => False
  | _ => True

theorem replaying_observe (silent : Silent observation)
    (held : Replaying kernel identity start live pending rest world) :
    Replaying kernel identity start live pending rest (world.observe observation) := by
  have unseen : ∀ context, observation = .hooked context → context.hook = .onError := by
    rintro context rfl
    exact absurd silent id
  have unsaved : savedIn [observation] = [] := by
    cases observation with
    | saved snapshot => exact absurd silent id
    | _ => rfl
  have same : savedSince start (world.trace ++ [observation]) = savedSince start world.trace := by
    rw [savedSince_append held.idle.journal.started, unsaved, List.append_nil]
  refine ⟨idle_observe held.idle unseen, held.remaining, fun clean => ?_⟩
  obtain ⟨durable, behind, reached, begun, closed, snapshots⟩ := held.sync clean.before
  refine ⟨durable, behind, reached, ?_, closed, ?_⟩
  · simp only [RunWorld.observe, same]
    exact begun
  · simp only [RunWorld.observe, same]
    exact snapshots

theorem replaying_hooked (state : context.state = live)
    (held : Replaying kernel identity start live pending rest world) :
    Replaying kernel identity start live pending rest (world.observe (.hooked context)) := by
  obtain ⟨⟨⟨ascending, positive, own, started, lasting, stored, ahead⟩, -⟩, remaining, sync⟩ := held
  have same : savedSince start (world.trace ++ [.hooked context]) = savedSince start world.trace := by
    rw [savedSince_append started]
    exact List.append_nil _
  refine ⟨⟨⟨ascending, positive, own, ?_, fun clean => lasting clean.before, stored,
    fun clean => ahead clean.before⟩, ?_⟩, remaining, fun clean => ?_⟩
  · simp only [RunWorld.observe, List.length_append]
    omega
  · intro clean earlier shown ended _ snapshot found
    have last : context = shown := by
      simpa using (List.append_inj_right' ended rfl)
    subst last
    rw [state]
    have found : snapshot ∈ savedSince start (world.trace ++ [.hooked context]) := found
    rw [same] at found
    exact ⟨(sync clean.before).begun (List.ne_nil_of_mem found), pending,
      (sync clean.before).snapshots snapshot found⟩
  · obtain ⟨durable, behind, reached, begun, closed, snapshots⟩ := sync clean.before
    refine ⟨durable, behind, reached, ?_, closed, ?_⟩
    · simp only [RunWorld.observe, same]
      exact begun
    · simp only [RunWorld.observe, same]
      exact snapshots

theorem idle_record (idle : Idle kernel identity start world)
    (seq : event.seq = nextSeq world.events) (own : event.identity = identity)
    (lasting : Clean world.trace → LastingEvent event.readBack) :
    Idle kernel identity start (recordedWorld world event) := by
  obtain ⟨⟨ascending, positive, owned, started, lastingBefore, stored, reached⟩, -⟩ := idle
  refine ⟨⟨?_, ?_, ?_, ?_, ?_, stored, ?_⟩, ?_⟩
  · refine List.pairwise_append.mpr ⟨ascending, List.pairwise_singleton _ _, ?_⟩
    intro left found right last
    rw [List.mem_singleton.mp last]
    have := seq_lt_nextSeq found
    show left.seq < event.seq
    omega
  · intro stored found
    rcases List.mem_append.mp found with found | found
    · exact positive stored found
    · rw [List.mem_singleton.mp found]
      show 0 < event.seq
      rw [seq]
      exact Nat.succ_pos _
  · intro stored found
    rcases List.mem_append.mp found with found | found
    · exact owned stored found
    · rw [List.mem_singleton.mp found]
      exact own
  · simp only [recordedWorld, RunWorld.observe, List.length_append]
    omega
  · intro clean stored found
    rcases List.mem_append.mp found with found | found
    · exact lastingBefore clean.before stored found
    · rw [List.mem_singleton.mp found]
      exact lasting clean.before
  · intro clean snapshot found
    have before := reached clean.before snapshot found
    have grown : nextSeq (recordedWorld world event).events =
        max (nextSeq world.events) (event.seq + 1) := nextSeq_append world.events event.readBack
    omega
  · intro _ earlier context ended
    have last := List.append_inj_right' ended rfl
    cases last

private theorem rebuildStep_ok (own : event.identity = identity)
    (ready : pending = none ∨ event.eventType = "node.after_middleware")
    (replayed : replayEvent kernel left pending event event.timestamp = .ok (next, after)) :
    rebuildStep kernel identity (left, pending) event = .ok (next, after) := by
  simp only [rebuildStep, assertEventIdentity_own own, bind, Except.bind]
  rcases ready with rfl | afterMiddleware
  · exact replayed
  · rw [if_neg (by simp [afterMiddleware])]
    exact replayed

/-- A snapshot that stands for the state before an event and is followed by it
stands for the state after it. -/
theorem Rebuilds.append (rebuilds : Rebuilds kernel identity events live pending snapshot)
    (seq : event.seq = nextSeq events) (reached : live.cursor.checkpointSeq < nextSeq events)
    (own : event.identity = identity)
    (ready : pending = none ∨ event.eventType = "node.after_middleware")
    (replayed : replayEvent kernel live pending event now = .ok (again, after))
    (same : SameRun again next) (forward : live.cursor.checkpointSeq ≤ next.cursor.checkpointSeq) :
    Rebuilds kernel identity (events ++ [event]) next after snapshot := by
  obtain ⟨earlier, closed, state, rebuilt, sameLive⟩ := rebuilds
  refine ⟨le_trans earlier forward, ?_, ?_⟩
  · intro stored found
    rcases List.mem_append.mp found with found | found
    · exact closed stored found
    · rw [List.mem_singleton.mp found]
      omega
  · obtain ⟨rebuiltNext, repeated, sameNext⟩ :=
      replayEvent_alike indistinct_start event.timestamp sameLive replayed
    refine ⟨rebuiltNext, ?_, sameNext.trans_same same⟩
    rw [rebuild_append (by omega), rebuilt]
    exact rebuildStep_ok own ready repeated

theorem Replaying.append (held : Replaying kernel identity start live pending rest world)
    (seq : event.seq = nextSeq world.events) (own : event.identity = identity)
    (ready : pending = none ∨ event.eventType = "node.after_middleware")
    (replayed : Clean world.trace → replayEvent kernel live pending event.readBack now = .ok (again, after))
    (same : Clean world.trace → SameRun again next) (durable : Clean world.trace → Durable next)
    (lasting : Clean world.trace → LastingEvent event.readBack)
    (moved : Clean world.trace → next.cursor.checkpointSeq =
      if isNodeEvent event then event.seq else live.cursor.checkpointSeq)
    (begun : live.status ≠ .created → next.status ≠ .created)
    (closed : event.eventType = "node.completed" → after.isSome = true ∧ rest = []) :
    Replaying kernel identity start next after rest (recordedWorld world event) := by
  refine ⟨idle_record held.idle seq own lasting, ?_, fun clean => ?_⟩
  · exact fun event found => List.mem_append_left _ (held.remaining event found)
  have sync := held.sync clean.before
  have moved := moved clean.before
  have reached := sync.reached
  have forward : live.cursor.checkpointSeq ≤ next.cursor.checkpointSeq := by
    rw [moved]
    split <;> omega
  have saved : savedSince start (recordedWorld world event).trace = savedSince start world.trace := by
    show savedSince start (world.trace ++ [.appended event.readBack]) = _
    rw [savedSince_append held.idle.journal.started]
    exact List.append_nil _
  refine ⟨durable clean.before, ?_, ?_, ?_, ?_, ?_⟩
  · intro stored found node
    rcases List.mem_append.mp found with found | found
    · exact (sync.behind stored found node).imp_left fun before => le_trans before forward
    · rw [List.mem_singleton.mp found] at node ⊢
      have node : isNodeEvent event = true := node
      rw [moved, if_pos node]
      exact .inl (le_refl event.seq)
  · have above : nextSeq (recordedWorld world event).events =
        max (nextSeq world.events) (event.seq + 1) := nextSeq_append world.events event.readBack
    rw [above, moved]
    split <;> omega
  · rw [saved]
    exact fun some => begun (sync.begun some)
  · intro stored found completed position
    rcases List.mem_append.mp found with found | found
    · have below := seq_lt_nextSeq found
      rw [moved] at position
      split at position
      · omega
      · rename_i inert
        rcases ready with rfl | afterMiddleware
        · rcases sync.closed stored found completed position with left | ⟨absurdity, _⟩
          · exact .inl left
          · cases absurdity
        · simp [isNodeEvent, afterMiddleware] at inert
    · rw [List.mem_singleton.mp found] at completed
      obtain ⟨present, rfl⟩ := closed completed
      exact .inr ⟨present, fun _ absurdity => by cases absurdity⟩
  · rw [saved]
    intro snapshot found
    exact (sync.snapshots snapshot found).append seq reached own ready (replayed clean.before)
      (same clean.before) forward

private theorem lasting_other (notCompleted : event.eventType ≠ "node.completed")
    (notAfter : event.eventType ≠ "node.after_middleware") : LastingEvent event :=
  ⟨fun completed => absurd completed notCompleted, fun after => absurd after notAfter⟩

/-- The state after a recorded `node.started`. -/
def startedState (live : RunStateV3) (seq : Nat) (now : NonEmptyString) : RunStateV3 :=
  { live with cursor := { live.cursor with checkpointSeq := seq }, updatedAt := now }

theorem live_started (held : Live kernel identity start live none world)
    (seq : event.seq = nextSeq world.events) (kind : event.eventType = "node.started")
    (own : event.identity = identity) (now : NonEmptyString) :
    Live kernel identity start (startedState live event.seq now) none
      (recordedWorld world event) := by
  have lasting : LastingEvent event.readBack :=
    lasting_other (show event.eventType ≠ _ by rw [kind]; decide)
      (show event.eventType ≠ _ by rw [kind]; decide)
  have replayed : replayEvent kernel live none event.readBack now =
      .ok (replayStarted live event.readBack, none) := replayEvent_started kind
  refine held.append seq own (.inl rfl) (fun _ => replayed) (fun clean => ?_) (fun clean => ?_)
    (fun _ => lasting) (fun _ => ?_) id fun completed => ?_
  · have reached := (held.sync clean).reached
    have forward : max live.cursor.checkpointSeq event.seq = event.seq := by omega
    refine ⟨rfl, live.status, event.timestamp, ?_⟩
    simp only [replayStarted, startedState, mark, RunEventEnvelope.readBack, forward]
  · have durable := (held.sync clean).durable
    exact ⟨durable.graphVersion, durable.nodeId, durable.nodeData, durable.outcome⟩
  · simp only [isNodeEvent, kind, decide_true, Bool.true_or, if_true]
    rfl
  · rw [kind] at completed
    exact absurd completed (by decide)

private theorem effect_unseen {kind : EffectEventType} (effect : event.eventType = kind.name) :
    isNodeEvent event = false := by
  cases kind <;> simp [isNodeEvent, effect, EffectEventType.name]

private theorem lasting_unseen (unseen : isNodeEvent event = false) : LastingEvent event := by
  simp only [isNodeEvent, Bool.or_eq_false_iff, decide_eq_false_iff_not] at unseen
  exact lasting_other unseen.1.2 unseen.2

theorem live_effect (held : Live kernel identity start live none world) :
    Live kernel identity start live none (recordEffect identity now world effect) := by
  let event : RunEventEnvelope :=
    { seq := nextSeq world.events, identity, eventType := effect.1.name
      payload := effect.2, timestamp := now }
  show Live kernel identity start live none (recordedWorld world event)
  have unseen : isNodeEvent event = false := @effect_unseen event effect.1 rfl
  have lasting : LastingEvent event.readBack := lasting_unseen unseen
  have replayed : replayEvent kernel live none event.readBack now = .ok (live, none) :=
    replayEvent_other unseen
  refine held.append rfl rfl (.inl rfl) (fun _ => replayed) (fun _ => SameRun.refl live)
    (fun clean => (held.sync clean).durable) (fun _ => lasting) (fun _ => ?_) id
    fun completed => ?_
  · simp only [unseen]
    rfl
  · simp [isNodeEvent, completed] at unseen

theorem live_called (call : Ext) (now : NonEmptyString) (effects : List (EffectEventType × JsValue))
    (held : Live kernel identity start live none world) :
    Live kernel identity start live none (calledWorld identity world call now effects) := by
  suffices recorded : ∀ world : RunWorld Ext, Live kernel identity start live none world →
      Live kernel identity start live none (effects.foldl (recordEffect identity now) world) from
    recorded _ (replaying_observe trivial held)
  induction effects with
  | nil => exact fun _ => id
  | cons effect rest ih => exact fun world held => ih _ (live_effect held)

theorem persisted_durable (persisted : RunStateV3.persist state = some stored) :
    Durable stored ∧ stored.cursor.checkpointSeq = state.cursor.checkpointSeq := by
  refine ⟨durable_iff.mpr (RunStateV3.persist_idem persisted), ?_⟩
  obtain ⟨_, _, _, _, _, _, rfl⟩ := RunStateV3.persist_some_iff.mp persisted
  rfl

theorem idle_saved (idle : Idle kernel identity start world)
    (persisted : RunStateV3.persist state = some stored)
    (reached : Clean world.trace → state.cursor.checkpointSeq < nextSeq world.events) :
    Idle kernel identity start (savedWorld world stored) := by
  obtain ⟨durable, checkpoint⟩ := persisted_durable persisted
  obtain ⟨⟨ascending, positive, own, started, lasting, -, -⟩, shown⟩ := idle
  refine ⟨⟨ascending, positive, own, ?_, fun clean => lasting clean.before, ?_, ?_⟩, ?_⟩
  · simp only [savedWorld, RunWorld.observe, List.length_append]
    omega
  · rintro snapshot ⟨⟩
    exact durable
  · rintro clean snapshot ⟨⟩
    rw [checkpoint]
    exact reached clean.before
  · intro _ earlier context ended
    have last := List.append_inj_right' ended rfl
    cases last

private theorem durable_alike (alike : Alike same state live) (durable : Durable live) :
    Durable state := by
  obtain ⟨_, _, _, rfl⟩ := alike
  exact ⟨durable.graphVersion, durable.nodeId, durable.nodeData, durable.outcome⟩

theorem live_saved (begun : live.status ≠ .created) (alike : Alike SameStart state live)
    (persisted : RunStateV3.persist state = some stored)
    (held : Live kernel identity start live none world) :
    Live kernel identity start live none (savedWorld world stored) := by
  have checkpoint : state.cursor.checkpointSeq = live.cursor.checkpointSeq := by
    obtain ⟨_, _, _, rfl⟩ := alike
    rfl
  refine ⟨idle_saved held.idle persisted fun clean => ?_, held.remaining, fun clean => ?_⟩
  · rw [checkpoint]
    exact (held.sync clean).reached
  have sync := held.sync clean.before
  have same : stored = state := by
    rw [durable_iff.mp (durable_alike alike sync.durable)] at persisted
    exact (Option.some.inj persisted).symm
  subst same
  refine ⟨sync.durable, sync.behind, sync.reached, fun _ => begun, sync.closed, ?_⟩
  intro snapshot found
  have found : snapshot ∈ savedSince start (world.trace ++ [.saved stored]) := found
  rw [savedSince_append held.idle.journal.started] at found
  rcases List.mem_append.mp found with found | found
  · exact sync.snapshots snapshot found
  · rw [List.mem_singleton.mp found]
    refine ⟨le_of_eq checkpoint, ?_, stored, ?_, alike⟩
    · intro event found position completed
      rcases sync.closed event found completed (position.trans checkpoint) with absurdity | absurdity
      · cases absurdity
      · cases absurdity.1
    · refine rebuild_inert held.idle.journal.own fun event found later => ?_
      by_contra node
      rcases sync.behind event found (by simpa using node) with before | absurdity
      · omega
      · cases absurdity

/-- What makes a completion read back as it was written. -/
structure LastingPayload (payload : CompletedNodePayload) : Prop where
  value : ∀ value, payload.value = some value → value.Survives
  outcome : ∀ outcome, payload.outcome = some outcome → RunOutcome.persist outcome = some outcome

/-- The run records a completion of its current node: reduced, it is the state in
memory. -/
theorem live_completed (graph : DurableGraph kernel.graph)
    (held : Live kernel identity start live none world) (seq : event.seq = nextSeq world.events)
    (kind : event.eventType = "node.completed") (carried : event.payload = payload.toJs)
    (own : event.identity = identity) (known : nodeFor kernel.graph live.cursor.nodeId = .ok node)
    (named : payload.nodeId = node.id) (lasting : Clean world.trace → LastingPayload payload) :
    Idle kernel identity start (recordedWorld world event) ∧
      ∀ committed now next, parseCompletedNodePayload event.payload = .ok committed →
        reduceCompletedNode kernel live node committed event.seq now = .ok next →
        Live kernel identity start next (some { node, completed := committed })
          (recordedWorld world event) := by
  have position : node.id = live.cursor.nodeId := (nodeFor_mem known).2
  have kept : Clean world.trace → event.readBack = event := fun clean =>
    readBack_survives (carried ▸ completedPayload_survives (lasting clean).value
      (lasting clean).outcome)
  have lastingEvent : Clean world.trace → LastingEvent event.readBack := by
    intro clean
    rw [kept clean]
    refine ⟨fun _ parsed found => ?_, fun after => ?_⟩
    · rw [carried] at found
      rw [parseCompletedNodePayload_toJs found]
      exact ⟨(lasting clean).value, (lasting clean).outcome⟩
    · rw [kind] at after
      exact absurd after (by decide)
  refine ⟨idle_record held.idle seq own lastingEvent, fun committed now next parsed reduced => ?_⟩
  have same : committed = payload := parseCompletedNodePayload_toJs (carried ▸ parsed)
  subst same
  have replayed : Clean world.trace → replayEvent kernel live none event.readBack now =
      .ok (next, some { node, completed := committed }) := by
    intro clean
    rw [kept clean]
    exact replayEvent_completed kind parsed (named.trans position)
      (by rw [named, position]; exact known) reduced
  refine held.append seq own (.inl rfl) replayed (fun _ => SameRun.refl next) (fun clean => ?_)
    lastingEvent (fun clean => ?_) (fun _ => reduceCompletedNode_begun reduced)
    fun _ => ⟨rfl, rfl⟩
  · exact reduceCompletedNode_durable graph (lasting clean).value (lasting clean).outcome reduced
      (held.sync clean).durable
  · have forward := reduceCompletedNode_checkpoint reduced
    have reached := (held.sync clean).reached
    simp only [isNodeEvent, kind, decide_true, Bool.or_true, Bool.true_or, if_true]
    omega

/-- The run records what its middleware said after the completion. -/
theorem replaying_afterMiddleware {pending : PendingAfterMiddleware} (graph : DurableGraph kernel.graph)
    (held : Replaying kernel identity start live (some pending) rest world)
    (seq : event.seq = nextSeq world.events) (kind : event.eventType = "node.after_middleware")
    (carried : event.payload = (afterPayload pending commands).toJs)
    (own : event.identity = identity) : Idle kernel identity start (recordedWorld world event) ∧
      (AfterAccepted pending commands → ∀ now next,
        reduceAfterMiddleware kernel live (afterPayload pending commands) event.seq now = .ok next →
        Replaying kernel identity start next none rest (recordedWorld world event)) := by
  have kept : event.readBack = event :=
    readBack_survives (carried ▸ afterPayload_survives pending commands)
  have lasting : LastingEvent event.readBack := by
    rw [kept]
    refine ⟨fun completed => ?_, fun _ parsed found => ?_⟩
    · rw [kind] at completed
      exact absurd completed (by decide)
    · rw [carried] at found
      rw [parseAfterMiddlewarePayload_toJs found]
      exact fun _ outcome => commandOutcome_stable outcome
  refine ⟨idle_record held.idle seq own fun _ => lasting, fun accepted now next reduced => ?_⟩
  have replayed : replayEvent kernel live (some pending) event.readBack now = .ok (next, none) := by
    rw [kept]
    exact replayEvent_afterMiddleware kind (carried ▸ accepted.1) accepted.2 reduced
  refine held.append seq own (.inr kind) (fun _ => replayed) (fun _ => SameRun.refl next)
    (fun clean => ?_) (fun _ => lasting) (fun clean => ?_)
    (fun begun => reduceAfterMiddleware_begun begun reduced) fun completed => ?_
  · exact reduceAfterMiddleware_durable graph (fun _ outcome => commandOutcome_stable outcome)
      reduced (held.sync clean).durable
  · have forward := reduceAfterMiddleware_checkpoint reduced
    have reached := (held.sync clean).reached
    simp only [isNodeEvent, kind, decide_true, Bool.or_true, if_true]
    omega
  · rw [kind] at completed
    exact absurd completed (by decide)

end QiongQi.KernelLive
