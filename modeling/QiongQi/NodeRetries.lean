import QiongQi.KernelInvariants
import QiongQi.KernelTerminal

/-! A retry that middleware answers to a completed node. The completion has moved the cursor
along the node's edge by then, and the retry leaves it there: the handler that runs next is
the node's own only where the edge leads back. -/
namespace QiongQi.NodeRetries
open JsonValues Programs RuntimeContracts MiddlewareCommands ExecutionGraphs RuntimeKernels
  KernelRuns KernelReducers KernelDurability KernelReplay KernelSteps KernelLive KernelInvariants
open List hiding after

variable {Ext : Type} {ExtAnswer : Ext → Type}

/-- The node at the cursor after a completion: its own if it has an outcome, else the target
of its last jump or of its first edge. -/
def continuation (graph : ExecutionGraph) (payload : CompletedNodePayload) : Option String :=
  if payload.outcome.isSome then some payload.nodeId
  else (lastJump payload.commands).map Prod.fst <|>
    (outgoingEdges graph payload.nodeId payload.condition).head?.map RuntimeEdge.to_

/-- An event that leaves the cursor where a completion has put it. -/
def Quiet (event : RunEventEnvelope) : Prop :=
  event.eventType ≠ "node.completed" ∧ (event.eventType = "node.after_middleware" →
    ∀ payload, parseAfterMiddlewarePayload event.payload = .ok payload → lastJump payload.commands = none)

/-- The node is the one at which the log's last completion has put the cursor, if no jump
came after it. -/
def Placed (graph : ExecutionGraph) (log : List RunEventEnvelope) (nodeId : String) : Prop :=
  ∀ front completion back payload, log = front ++ completion :: back →
    completion.eventType = "node.completed" →
    parseCompletedNodePayload completion.payload = .ok payload → (∀ event ∈ back, Quiet event) →
      continuation graph payload = some nodeId

section
variable {graph : ExecutionGraph} {log extra : List RunEventEnvelope} {event : RunEventEnvelope}
variable {nodeId next : String}

theorem placed_nil : Placed graph [] nodeId := by
  intro front completion back payload split
  simp at split

theorem Placed.insert (placed : Placed graph (log ++ extra) nodeId)
    (others : ∀ later ∈ extra, later.eventType ≠ "node.completed")
    (kept : Quiet event → next = nodeId)
    (moved : event.eventType = "node.completed" → ∀ payload,
      parseCompletedNodePayload event.payload = .ok payload → continuation graph payload = some next) :
    Placed graph (log ++ event :: extra) next := by
  intro front completion back payload split kind parsed quiet
  rcases append_eq_append_iff.mp split with ⟨more, whole, rest⟩ | ⟨more, whole, rest⟩
  · cases more with
    | nil =>
      obtain ⟨rfl, rfl⟩ := cons_eq_cons.mp rest
      exact moved kind payload parsed
    | cons first others_ =>
      have found : completion ∈ extra := by
        rw [(cons_eq_cons.mp rest).2]
        simp
      exact absurd kind (others completion found)
  · cases more with
    | nil =>
      obtain ⟨rfl, rfl⟩ := cons_eq_cons.mp rest
      exact moved kind payload parsed
    | cons first between =>
      obtain ⟨rfl, rfl⟩ := cons_eq_cons.mp rest
      have same := kept (quiet event (by simp))
      refine (placed front completion (between ++ extra) payload ?_ kind parsed ?_).trans
        (congrArg some same.symm)
      · rw [whole]
        simp
      · intro other found
        refine quiet other ?_
        rcases mem_append.mp found with found | found
        · exact mem_append_left _ found
        · exact mem_append_right _ (mem_cons_of_mem _ found)

theorem Placed.append (placed : Placed graph log nodeId) (kept : Quiet event → next = nodeId)
    (moved : event.eventType = "node.completed" → ∀ payload,
      parseCompletedNodePayload event.payload = .ok payload → continuation graph payload = some next) :
    Placed graph (log ++ [event]) next := by
  rw [← append_nil log] at placed
  exact placed.insert (fun _ found => absurd found not_mem_nil) kept moved

theorem Placed.front (placed : Placed graph (log ++ extra) nodeId)
    (quiet : ∀ event ∈ extra, Quiet event) : Placed graph log nodeId := by
  intro front completion back payload split kind parsed later
  refine placed front completion (back ++ extra) payload ?_ kind parsed fun event found => ?_
  · rw [split]
    simp
  · exact (mem_append.mp found).elim (later event) (quiet event)

end

section
variable {kernel : RuntimeKernel ExtAnswer} {state next : RunStateV3} {seq : Nat}
variable {now : NonEmptyString}

/-- Of the graph's version and of the cursor a completion changes the cursor alone. -/
theorem reduceCompletedNode_moves (own : payload.nodeId = node.id) (at_ : state.cursor.nodeId = node.id)
    (reduced : reduceCompletedNode kernel state node payload seq now = .ok next) :
    next.graphVersion = state.graphVersion ∧ continuation kernel.graph payload = some next.cursor.nodeId ∧
      (next.cursor.nodeId = state.cursor.nodeId ∨
        ∃ node ∈ kernel.graph.nodes, node.id = next.cursor.nodeId) := by
  obtain ⟨applied, commands, rest⟩ := except_bind reduced
  have header := (applyCommands_header commands).trans
    (withNodeValue_header applied node.id payload.value)
  unfold continuation
  cases outcome : payload.outcome with
  | some ended =>
    rw [outcome] at rest
    cases rest
    have stays : (withNodeValue applied node.id payload.value).cursor.nodeId =
        state.cursor.nodeId := congrArg RunCursor.nodeId header.cursor
    refine ⟨?_, congrArg some (own.trans (at_.symm.trans stays.symm)), .inl stays⟩
    unfold endAt withOutcome
    split <;> exact header.graphVersion
  | none =>
    rw [outcome] at rest
    obtain ⟨target, found, rest⟩ := except_bind rest
    obtain ⟨known, placed, final⟩ := except_bind rest
    cases final
    refine ⟨header.graphVersion, ?_, .inr ?_⟩
    · unfold nextNode at found
      rw [own]
      split at found
      · rename_i jumped
        cases found
        rw [jumped]
        rfl
      · rename_i none_
        rw [none_]
        split at found
        · rename_i edges
          cases found
          rw [edges]
          rfl
        · cases found
    · obtain ⟨member, same⟩ := nodeFor_mem placed
      exact ⟨known, member, same⟩

theorem applyControl_moves (noPrompt : ∀ node ∈ kernel.graph.nodes, node.id ≠ "build-context")
    (controlled : applyControl kernel state commands = .ok next) :
    next.graphVersion = state.graphVersion ∧
      (lastJump commands = none → next.cursor.nodeId = state.cursor.nodeId) ∧
      (next.cursor.nodeId = state.cursor.nodeId ∨
        ∃ node ∈ kernel.graph.nodes, node.id = next.cursor.nodeId) := by
  have stays : lastJump commands = none →
      ∀ target, middlewareControlTarget kernel commands state.cursor.nodeId = some target →
        target = state.cursor.nodeId := by
    intro none_ target aimed
    have absent : (kernel.graph.nodes.find? fun node => node.id = "build-context") = none :=
      find?_eq_none.mpr fun node found => by simpa using noPrompt node found
    rw [middlewareControlTarget, none_] at aimed
    dsimp only at aimed
    split at aimed
    · cases aimed
    · rw [absent] at aimed
      exact (Option.some.inj aimed).symm
  unfold applyControl at controlled
  split at controlled
  · cases controlled
    exact ⟨rfl, fun _ => rfl, .inl rfl⟩
  · rename_i target aimed
    obtain ⟨node, found, final⟩ := except_bind controlled
    cases final
    obtain ⟨member, same⟩ := nodeFor_mem found
    exact ⟨rfl, fun none_ => stays none_ target aimed, .inr ⟨node, member, same⟩⟩

theorem reduceAfterMiddleware_moves
    (noPrompt : ∀ node ∈ kernel.graph.nodes, node.id ≠ "build-context")
    (reduced : reduceAfterMiddleware kernel state payload seq now = .ok next) :
    next.graphVersion = state.graphVersion ∧
      (lastJump payload.commands = none → next.cursor.nodeId = state.cursor.nodeId) ∧
      (next.cursor.nodeId = state.cursor.nodeId ∨
        ∃ node ∈ kernel.graph.nodes, node.id = next.cursor.nodeId) := by
  obtain ⟨outcomed, first, rest⟩ := except_bind reduced
  obtain ⟨moved, second, final⟩ := except_bind rest
  cases final
  have same : outcomed.graphVersion = state.graphVersion ∧ outcomed.cursor = state.cursor := by
    unfold afterMiddlewareState at first
    split at first
    · cases first
      exact ⟨rfl, rfl⟩
    · obtain ⟨applied, commands, final⟩ := except_bind first
      cases final
      have header := applyCommands_header commands
      split
      · refine ⟨?_, (withOutcome_cursor _ _ now).trans header.cursor⟩
        unfold withOutcome
        split <;> exact header.graphVersion
      · exact ⟨header.graphVersion, header.cursor⟩
  unfold afterMiddlewareCursor at second
  split at second
  · cases second
    rw [← same.1, ← same.2]
    exact ⟨rfl, fun _ => rfl, .inl rfl⟩
  · obtain ⟨version, stays, named⟩ := applyControl_moves noPrompt second
    rw [same.2] at stays named
    exact ⟨version.trans same.1, stays, named⟩

end

def recordedIn (trace : List (Observation Ext)) : List RunEventEnvelope :=
  trace.filterMap fun
    | .appended event => some event
    | _ => none

theorem recordedIn_append : recordedIn (left ++ right) = recordedIn left ++ recordedIn right :=
  filterMap_append

/-- Every entered node is where the events recorded before have put the cursor. -/
def EntersPlaced (graph : ExecutionGraph) (trace : List (Observation Ext)) : Prop :=
  ∀ front nodeId back, trace = front ++ .entered nodeId :: back → Placed graph (recordedIn front) nodeId

theorem EntersPlaced.observe {observation : Observation Ext} (enters : EntersPlaced graph trace)
    (placed : ∀ nodeId, observation = .entered nodeId → Placed graph (recordedIn trace) nodeId) :
    EntersPlaced graph (trace ++ [observation]) := by
  intro front nodeId back split
  rcases append_eq_append_iff.mp split with ⟨more, whole, rest⟩ | ⟨more, whole, rest⟩
  · cases more with
    | nil =>
      obtain ⟨same, -⟩ := cons_eq_cons.mp rest
      rw [whole, append_nil]
      exact placed nodeId same
    | cons first others =>
      obtain ⟨-, none_⟩ := cons_eq_cons.mp rest
      simp at none_
  · cases more with
    | nil =>
      obtain ⟨same, -⟩ := cons_eq_cons.mp rest
      rw [append_nil] at whole
      rw [← whole]
      exact placed nodeId same.symm
    | cons first others =>
      obtain ⟨rfl, -⟩ := cons_eq_cons.mp rest
      exact enters front nodeId others whole

/-- A snapshot, or a state in memory, of this graph at one of its nodes. -/
structure Named (graph : ExecutionGraph) (state : RunStateV3) : Prop where
  version : state.graphVersion = graph.version
  nodeId : Trimmed state.cursor.nodeId

/-- The snapshot stands where the events up to its checkpoint have put it. -/
structure StoredAt (graph : ExecutionGraph) (events : List RunEventEnvelope)
    (snapshot : RunStateV3) : Prop where
  named : Named graph snapshot
  reached : snapshot.cursor.checkpointSeq < nextSeq events
  placed : Placed graph (events.filter fun event => event.seq ≤ snapshot.cursor.checkpointSeq)
    snapshot.cursor.nodeId

structure Idle (graph : ExecutionGraph) (world : RunWorld Ext) : Prop where
  ascending : world.events.Pairwise fun left right => left.seq < right.seq
  positive : ∀ event ∈ world.events, 0 < event.seq
  recorded : recordedIn world.trace = world.events
  enters : EntersPlaced graph world.trace
  stored : ∀ snapshot, world.snapshot = some snapshot → StoredAt graph world.events snapshot

/-- The state in memory stands where the events replayed so far and those recorded
meanwhile have put it. -/
structure Held (graph : ExecutionGraph) (live : RunStateV3) (rest : List RunEventEnvelope)
    (world : RunWorld Ext) : Prop where
  idle : Idle graph world
  named : Named graph live
  reached : live.cursor.checkpointSeq < nextSeq world.events
  placed : ∃ log extra, world.events = log ++ rest ++ extra ∧
    (∀ event ∈ extra, event.eventType ≠ "node.completed") ∧
    Placed graph (log ++ extra) live.cursor.nodeId ∧
    ∀ event ∈ log ++ extra, isNodeEvent event = true → event.seq ≤ live.cursor.checkpointSeq

section
variable {graph : ExecutionGraph} {world : RunWorld Ext} {live next : RunStateV3}
variable {rest : List RunEventEnvelope} {event : RunEventEnvelope}

theorem respects_idle : Respects (@Idle Ext graph) := by
  rintro before after snapshot events trace ⟨ascending, positive, recorded, enters, stored⟩
  refine ⟨events ▸ ascending, events ▸ positive, ?_, trace ▸ enters, ?_⟩
  · rw [trace, events, recorded]
  · rw [snapshot, events]
    exact stored

theorem respects_held : Respects (@Held Ext graph live rest) := by
  rintro before after snapshot events trace ⟨idle, named, reached, placed⟩
  exact ⟨respects_idle.keep idle snapshot events trace, named, events ▸ reached, events ▸ placed⟩

theorem Idle.observe {observation : Observation Ext} (idle : Idle graph world)
    (unrecorded : recordedIn [observation] = [])
    (placed : ∀ nodeId, observation = .entered nodeId → Placed graph world.events nodeId) :
    Idle graph (world.observe observation) := by
  refine ⟨idle.ascending, idle.positive, ?_, ?_, idle.stored⟩
  · rw [RunWorld.observe, recordedIn_append, unrecorded, append_nil]
    exact idle.recorded
  · refine idle.enters.observe fun nodeId entered => ?_
    rw [idle.recorded]
    exact placed nodeId entered

theorem Held.observe (held : Held graph live rest world) (unrecorded : recordedIn [observation] = [])
    (placed : ∀ nodeId, observation = .entered nodeId → Placed graph world.events nodeId) :
    Held graph live rest (world.observe observation) :=
  ⟨held.idle.observe unrecorded placed, held.named, held.reached, held.placed⟩

theorem Held.all (held : Held graph live [] world) : Placed graph world.events live.cursor.nodeId ∧
      ∀ event ∈ world.events, isNodeEvent event = true → event.seq ≤ live.cursor.checkpointSeq := by
  obtain ⟨log, extra, split, -, placed, behind⟩ := held.placed
  rw [append_nil] at split
  rw [split]
  exact ⟨placed, behind⟩

theorem held_of_all (idle : Idle graph world) (named : Named graph live)
    (reached : live.cursor.checkpointSeq < nextSeq world.events)
    (placed : Placed graph world.events live.cursor.nodeId)
    (behind : ∀ event ∈ world.events, isNodeEvent event = true →
      event.seq ≤ live.cursor.checkpointSeq) : Held graph live [] world :=
  ⟨idle, named, reached, world.events, [], by simp, fun _ found => absurd found not_mem_nil,
    by rwa [append_nil], by rwa [append_nil]⟩

theorem Idle.record (idle : Idle graph world) (seq : event.seq = nextSeq world.events) :
    Idle graph (recordedWorld world event) := by
  refine ⟨?_, ?_, ?_, ?_, fun snapshot found => ?_⟩
  · refine pairwise_append.mpr ⟨idle.ascending, pairwise_singleton _ _, ?_⟩
    intro left found right last
    rw [mem_singleton.mp last]
    have before := seq_lt_nextSeq found
    show left.seq < event.seq
    omega
  · intro other found
    rcases mem_append.mp found with found | found
    · exact idle.positive other found
    · rw [mem_singleton.mp found]
      show 0 < event.seq
      rw [seq]
      exact Nat.succ_pos _
  · rw [recordedWorld, RunWorld.observe, recordedIn_append, idle.recorded]
    rfl
  · exact idle.enters.observe fun nodeId entered => by cases entered
  · obtain ⟨named, reached, placed⟩ := idle.stored snapshot found
    have later : nextSeq (world.events ++ [event.readBack]) = event.seq + 1 := by
      rw [nextSeq_append]
      show max _ (event.seq + 1) = _
      omega
    refine ⟨named, ?_, ?_⟩
    · show _ < nextSeq (world.events ++ [event.readBack])
      omega
    · show Placed graph ((world.events ++ [event.readBack]).filter _) _
      rw [filter_append, filter_cons_of_neg, filter_nil, append_nil]
      · exact placed
      · show ¬ decide (event.seq ≤ _) = true
        rw [decide_eq_true_eq]
        omega

theorem nextSeq_recorded (seq : event.seq = nextSeq world.events) :
    nextSeq (recordedWorld world event).events = event.seq + 1 := by
  show nextSeq (world.events ++ [event.readBack]) = _
  rw [nextSeq_append]
  show max _ (event.seq + 1) = _
  omega

theorem Held.record (held : Held graph live [] world) (seq : event.seq = nextSeq world.events)
    (named : Named graph next)
    (reached : next.cursor.checkpointSeq ≤ event.seq)
    (behind : isNodeEvent event = true → next.cursor.checkpointSeq = event.seq)
    (stays : live.cursor.checkpointSeq ≤ next.cursor.checkpointSeq)
    (kept : Quiet event.readBack → next.cursor.nodeId = live.cursor.nodeId)
    (moved : event.eventType = "node.completed" → ∀ payload,
      parseCompletedNodePayload event.readBack.payload = .ok payload →
        continuation graph payload = some next.cursor.nodeId) :
    Held graph next [] (recordedWorld world event) := by
  obtain ⟨placed, before⟩ := held.all
  refine held_of_all (held.idle.record seq) named ?_ (placed.append kept moved) ?_
  · rw [nextSeq_recorded seq]
    omega
  · intro other found counts
    rcases mem_append.mp found with found | found
    · exact (before other found counts).trans stays
    · rw [mem_singleton.mp found] at counts ⊢
      exact (behind counts).ge

theorem Named.moves (named : Named graph live) (durable : DurableGraph graph)
    (version : next.graphVersion = live.graphVersion)
    (nodeId : next.cursor.nodeId = live.cursor.nodeId ∨
      ∃ node ∈ graph.nodes, node.id = next.cursor.nodeId) : Named graph next := by
  refine ⟨version.trans named.version, ?_⟩
  rcases nodeId with same | ⟨node, member, same⟩
  · rw [same]
    exact named.nodeId
  · rw [← same]
    exact durable.nodes node member

theorem Held.effect {identity : RunIdentity} {now : NonEmptyString}
    (held : Held graph live [] world) (effect : EffectEventType × JsValue) :
    Held graph live [] (recordEffect identity now world effect) := by
  let event : RunEventEnvelope :=
    { seq := nextSeq world.events, identity, eventType := effect.1.name
      payload := effect.2, timestamp := now }
  have recorded : Held graph live [] (recordedWorld world event) := by
    refine held.record rfl held.named held.reached.le (fun counts => ?_) le_rfl (fun _ => rfl)
      fun kind => ?_
    · cases found : effect.1 <;> simp [event, isNodeEvent, found, EffectEventType.name] at counts
    · cases found : effect.1 <;> simp [event, found, EffectEventType.name] at kind
  exact recorded

theorem Held.started (held : Held graph live [] world) (now : NonEmptyString)
    (seq : event.seq = nextSeq world.events) (kind : event.eventType = "node.started") :
    Held graph (startedState live event.seq now) [] (recordedWorld world event) := by
  have reached := held.reached
  refine held.record seq ⟨held.named.version, held.named.nodeId⟩ le_rfl (fun _ => rfl) ?_
    (fun _ => rfl) fun completed => ?_
  · show live.cursor.checkpointSeq ≤ event.seq
    omega
  · rw [kind] at completed
    simp at completed

theorem continuation_stored (carried : event.payload = payload.toJs)
    (parsed : parseCompletedNodePayload event.readBack.payload = .ok again) :
    continuation graph again = continuation graph payload := by
  have line : event.readBack.payload = .object (fieldsToJs (serializeFields payload.fields)) := by
    rw [RunEventEnvelope.readBack, carried]
    rfl
  rw [line] at parsed
  obtain ⟨nodeId, commands, -⟩ := parseCompletedNodePayload_stored parsed
  obtain ⟨condition, outcome⟩ := parseCompletedNodePayload_continues parsed
  rw [continuation, continuation, nodeId, commands, condition, outcome]

end

section
variable {kernel : RuntimeKernel ExtAnswer} {world : RunWorld Ext} {live next : RunStateV3}
variable {rest : List RunEventEnvelope} {event : RunEventEnvelope} {now : NonEmptyString}

theorem Held.complete (held : Held kernel.graph live [] world) (durable : DurableGraph kernel.graph)
    (known : nodeFor kernel.graph live.cursor.nodeId = .ok node) (own : payload.nodeId = node.id)
    (seq : event.seq = nextSeq world.events) (kind : event.eventType = "node.completed")
    (carried : event.payload = payload.toJs)
    (reduced : reduceCompletedNode kernel live node payload event.seq now = .ok next) :
    Held kernel.graph next [] (recordedWorld world event) := by
  have reached := held.reached
  obtain ⟨version, leads, named⟩ := reduceCompletedNode_moves own (nodeFor_mem known).2.symm reduced
  have checkpoint := reduceCompletedNode_checkpoint reduced
  refine held.record seq (held.named.moves durable version named) ?_ (fun _ => ?_) ?_
    (fun quiet => absurd kind quiet.1) fun _ again parsed => ?_
  · omega
  · omega
  · omega
  · rw [continuation_stored carried parsed, leads]

theorem Held.commit (held : Held kernel.graph live rest world) (durable : DurableGraph kernel.graph)
    (noPrompt : ∀ node ∈ kernel.graph.nodes, node.id ≠ "build-context")
    (seq : event.seq = nextSeq world.events) (kind : event.eventType = "node.after_middleware")
    (same : event.readBack = event)
    (parsed : parseAfterMiddlewarePayload event.payload = .ok payload)
    (reduced : reduceAfterMiddleware kernel live payload event.seq now = .ok next) :
    Held kernel.graph next rest (recordedWorld world event) := by
  have reached := held.reached
  obtain ⟨version, stays, named⟩ := reduceAfterMiddleware_moves noPrompt reduced
  have checkpoint := reduceAfterMiddleware_checkpoint reduced
  have other : event.eventType ≠ "node.completed" := by
    rw [kind]
    decide
  obtain ⟨log, extra, split, others, placed, behind⟩ := held.placed
  refine ⟨held.idle.record seq, held.named.moves durable version named, ?_, log,
    extra ++ [event], ?_, ?_, ?_, ?_⟩
  · rw [nextSeq_recorded seq]
    omega
  · show world.events ++ [event.readBack] = _
    rw [split, same]
    simp
  · intro found among
    rcases mem_append.mp among with among | among
    · exact others found among
    · rw [mem_singleton.mp among]
      exact other
  · rw [← append_assoc]
    exact placed.append (fun quiet => stays (quiet.2 kind payload parsed)) fun completed =>
      absurd completed other
  · intro found among counts
    rw [← append_assoc] at among
    rcases mem_append.mp among with among | among
    · have before := behind found among counts
      omega
    · rw [mem_singleton.mp among]
      omega

theorem Held.replay (held : Held kernel.graph live (event :: rest) world)
    (durable : DurableGraph kernel.graph)
    (noPrompt : ∀ node ∈ kernel.graph.nodes, node.id ≠ "build-context")
    (replayed : replayEvent kernel live pending event now = .ok (next, after)) :
    Held kernel.graph next rest world := by
  obtain ⟨idle, named, reached, log, extra, split, others, placed, behind⟩ := held
  have found : event ∈ world.events := by
    rw [split]
    simp
  have below := seq_lt_nextSeq found
  have whole : world.events = (log ++ [event]) ++ rest ++ extra := by
    rw [split]
    simp
  have step : ∀ {state : RunStateV3}, Named kernel.graph state →
      (live.cursor.checkpointSeq ≤ state.cursor.checkpointSeq) →
      (isNodeEvent event = true → event.seq ≤ state.cursor.checkpointSeq) →
      state.cursor.checkpointSeq < nextSeq world.events →
      (Quiet event → state.cursor.nodeId = live.cursor.nodeId) →
      (event.eventType = "node.completed" → ∀ payload, parseCompletedNodePayload event.payload = .ok payload →
          continuation kernel.graph payload = some state.cursor.nodeId) →
      Held kernel.graph state rest world := by
    intro state named later counted above kept moved
    have inserted := placed.insert others kept moved
    refine ⟨idle, named, above, log ++ [event], extra, whole, others, ?_, ?_⟩
    · simpa using inserted
    · intro other among counts
      simp only [append_assoc, singleton_append, mem_append, mem_cons] at among
      rcases among with among | rfl | among
      · exact (behind other (mem_append_left _ among) counts).trans later
      · exact counted counts
      · exact (behind other (mem_append_right _ among) counts).trans later
  rcases replayEvent_cases replayed with ⟨kind, rfl, -⟩ |
    ⟨kind, completed, node, parsed, position, known, reduced, -⟩ |
    ⟨kind, waiting, payload, -, parsed, -, reduced, -⟩ | ⟨other, rfl, -⟩
  · refine step ⟨named.version, named.nodeId⟩ (le_max_left _ _) (fun _ => le_max_right _ _)
      (max_lt reached below) (fun _ => rfl) fun completed => ?_
    rw [kind] at completed
    simp at completed
  · obtain ⟨version, leads, moves⟩ := reduceCompletedNode_moves (nodeFor_mem known).2.symm
      (position.symm.trans (nodeFor_mem known).2.symm) reduced
    have checkpoint := reduceCompletedNode_checkpoint reduced
    refine step (named.moves durable version moves) (by omega) (fun _ => by omega) (by omega)
      (fun quiet => absurd kind quiet.1) fun _ again same => ?_
    rw [parsed] at same
    cases same
    exact leads
  · obtain ⟨version, stays, moves⟩ := reduceAfterMiddleware_moves noPrompt reduced
    have checkpoint := reduceAfterMiddleware_checkpoint reduced
    refine step (named.moves durable version moves) (by omega) (fun _ => by omega) (by omega)
      (fun quiet => stays (quiet.2 kind payload parsed)) fun completed => ?_
    rw [kind] at completed
    simp at completed
  · refine step named le_rfl (fun counts => ?_) reached (fun _ => rfl) fun completed => ?_
    · rw [other] at counts
      cases counts
    · simp [isNodeEvent, completed] at other

end

theorem split_at {events : List RunEventEnvelope}
    (ascending : events.Pairwise fun left right => left.seq < right.seq) :
    events = (events.filter fun event => event.seq ≤ checkpoint) ++
      events.filter fun event => checkpoint < event.seq := by
  induction events with
  | nil => rfl
  | cons event rest ih =>
    obtain ⟨first, others⟩ := pairwise_cons.mp ascending
    by_cases early : event.seq ≤ checkpoint
    · rw [filter_cons_of_pos (by simpa using early),
        filter_cons_of_neg (by simpa using early), cons_append, ← ih others]
    · have none_ : (rest.filter fun event => event.seq ≤ checkpoint) = [] := by
        refine filter_eq_nil_iff.mpr fun later found => ?_
        have above := first later found
        rw [decide_eq_true_eq]
        omega
      have all : (rest.filter fun event => checkpoint < event.seq) = rest := by
        refine filter_eq_self.mpr fun later found => ?_
        have above := first later found
        rw [decide_eq_true_eq]
        omega
      rw [filter_cons_of_neg (by simpa using early), none_, nil_append,
        filter_cons_of_pos (by simpa using Nat.lt_of_not_le early), all]

section
variable {graph : ExecutionGraph} {world : RunWorld Ext} {live next state stored : RunStateV3}
variable {rest : List RunEventEnvelope} {now : NonEmptyString}

theorem parse_trimmed (trimmed : Trimmed name) (found : NonEmptyString.parse name = some parsed) :
    parsed.text = name := by
  rw [trimmed.parse] at found
  exact congrArg NonEmptyString.text (Option.some.inj found).symm

theorem Named.persist (named : Named graph state) (durable : DurableGraph graph)
    (persisted : RunStateV3.persist state = some stored) :
    Named graph stored ∧ stored.cursor = state.cursor := by
  obtain ⟨version, nodeId, outcome, parsed, placed, -, rfl⟩ :=
    RunStateV3.persist_some_iff.mp persisted
  have named_ : version.text = graph.version :=
    (parse_trimmed (named.version ▸ durable.version) parsed).trans named.version
  have same : nodeId.text = state.cursor.nodeId := parse_trimmed named.nodeId placed
  refine ⟨⟨named_, ?_⟩, ?_⟩
  · show Trimmed nodeId.text
    rw [same]
    exact named.nodeId
  · rw [same]

theorem Idle.save (idle : Idle graph world) (kept : StoredAt graph world.events stored) :
    Idle graph (savedWorld world stored) := by
  refine ⟨idle.ascending, idle.positive, ?_, ?_, fun snapshot found => ?_⟩
  · rw [savedWorld, RunWorld.observe, recordedIn_append]
    exact (append_nil _).trans idle.recorded
  · exact idle.enters.observe fun nodeId entered => by cases entered
  · cases found
    exact kept

theorem Held.save (held : Held graph live [] world) (durable : DurableGraph graph)
    (persisted : RunStateV3.persist live = some stored) :
    Held graph live [] (savedWorld world stored) := by
  obtain ⟨placed, behind⟩ := held.all
  obtain ⟨named, cursor⟩ := held.named.persist durable persisted
  refine held_of_all (held.idle.save ⟨named, ?_, ?_⟩) held.named held.reached placed behind
  · rw [cursor]
    exact held.reached
  · rw [cursor]
    rw [split_at held.idle.ascending] at placed
    refine placed.front fun event found => ?_
    obtain ⟨found, later⟩ := mem_filter.mp found
    have above : live.cursor.checkpointSeq < event.seq := by simpa using later
    have silent : ¬ isNodeEvent event = true := fun counts => by
      have bound := behind event found counts
      omega
    simp only [isNodeEvent, Bool.or_eq_true, decide_eq_true_eq, not_or] at silent
    exact ⟨silent.1.2, fun kind => absurd kind silent.2⟩

theorem Idle.failed (idle : Idle graph world) (durable : DurableGraph graph)
    (found : world.snapshot = some state)
    (persisted : RunStateV3.persist (withOutcome state outcome now) = some stored) :
    Idle graph (savedWorld world stored) := by
  obtain ⟨named, reached, placed⟩ := idle.stored state found
  have cursor : (withOutcome state outcome now).cursor = state.cursor :=
    withOutcome_cursor state outcome now
  have ended : Named graph (withOutcome state outcome now) := by
    refine ⟨?_, cursor ▸ named.nodeId⟩
    unfold withOutcome
    split <;> exact named.version
  obtain ⟨kept, same⟩ := ended.persist durable persisted
  refine idle.save ⟨kept, ?_, ?_⟩
  · rw [same, cursor]
    exact reached
  · rw [same, cursor]
    exact placed

theorem Idle.loaded (idle : Idle graph world) (found : world.snapshot = some state) :
    Held graph state (world.events.filter fun event => state.cursor.checkpointSeq < event.seq)
      world := by
  obtain ⟨named, reached, placed⟩ := idle.stored state found
  refine ⟨idle, named, reached, world.events.filter fun event =>
    event.seq ≤ state.cursor.checkpointSeq, [], ?_, fun _ found => absurd found not_mem_nil,
    ?_, fun event found _ => ?_⟩
  · rw [append_nil]
    exact split_at idle.ascending
  · rwa [append_nil]
  · rw [append_nil] at found
    simpa using (mem_filter.mp found).2

theorem Held.replace (held : Held graph live rest world)
    (version : next.graphVersion = live.graphVersion) (cursor : next.cursor = live.cursor) :
    Held graph next rest world := by
  obtain ⟨idle, named, reached, placed⟩ := held
  refine ⟨idle, ⟨version.trans named.version, cursor ▸ named.nodeId⟩, cursor ▸ reached, ?_⟩
  rw [cursor]
  exact placed

end

section
variable {kernel : RuntimeKernel ExtAnswer} {identity : RunIdentity}
variable {around : Surroundings ExtAnswer} {world : RunWorld Ext}
variable {live : RunStateV3} {now : NonEmptyString}

theorem Idle.fresh (idle : Idle kernel.graph world) (durable : DurableGraph kernel.graph) :
    Held kernel.graph (initialState kernel identity now)
      (world.events.filter fun event => 0 < event.seq) world := by
  have all : world.events.filter (fun event => 0 < event.seq) = world.events :=
    filter_eq_self.mpr fun event found => by simpa using idle.positive event found
  obtain ⟨node, member, start⟩ := accepted_start kernel
  have nodeId : Trimmed kernel.graph.startNodeId := start ▸ durable.nodes node member
  rw [all]
  refine ⟨idle, ⟨rfl, nodeId⟩, Nat.succ_pos _, [], [], ?_, ?_, placed_nil, ?_⟩
  · rw [append_nil, nil_append]
  all_goals exact fun _ found => absurd found not_mem_nil

theorem Held.finished (held : Held kernel.graph live [] world)
    (done : applyCommands live commands = .ok applied) :
    Held kernel.graph (withOutcome applied outcome now) [] world := by
  have header := applyCommands_header done
  refine held.replace ?_ ((withOutcome_cursor applied outcome now).trans header.cursor)
  unfold withOutcome
  split <;> exact header.graphVersion

section
variable (durable : DurableGraph kernel.graph)
variable (noPrompt : ∀ node ∈ kernel.graph.nodes, node.id ≠ "build-context")
include durable noPrompt

theorem keeps_placed :
    KeepsWithin kernel identity around (fun _ _ _ => True) (Idle kernel.graph)
      (Held kernel.graph) fun live _ => Held kernel.graph live [] where
  idle_respects := respects_idle
  held_respects _ _ := respects_held
  inside_respects _ _ := respects_held
  cut held := held.idle
  cutInside held := held.idle
  ascending idle := idle.ascending
  returns _ _ := returns_anything _
  entered := by
    intro live world node held known
    refine held.observe rfl fun nodeId entered => ?_
    cases entered
    rw [(nodeFor_mem known).2]
    exact held.all.1
  called _ held := held.observe rfl fun _ entered => by cases entered
  effect held := held.effect _
  left _ held := held.observe rfl fun _ entered => by cases entered
  hooked _ held := held.observe rfl fun _ entered => by cases entered
  failing idle _ _ _ := idle.observe rfl fun _ entered => by cases entered
  failed idle found _ _ persisted := idle.failed durable found persisted
  finished idle := idle.observe rfl fun _ entered => by cases entered
  loaded idle found := idle.loaded found
  fresh _ idle _ := idle.fresh durable
  replayed held replayed := held.replay durable noPrompt replayed
  started now held seq kind := held.started now seq kind
  completed := by
    intro live world node result commands event held _ completion seq kind carried
    refine ⟨held.idle.record seq, fun _ now next reduced => ?_⟩
    exact held.complete durable completion.known rfl seq kind carried reduced
  committed := by
    intro live rest world pending answer commands event held _ _ seq kind carried
    refine ⟨held.idle.record seq, fun accepted now next reduced => ?_⟩
    have same : event.readBack = event :=
      readBack_survives (carried ▸ afterPayload_survives pending commands)
    exact held.commit durable noPrompt seq kind same (carried ▸ accepted.1) reduced
  saved held persisted := held.save durable persisted
  ended held _ done := held.finished done
  migrated := by
    intro live next world now held moved
    have same : migrateGraphState kernel live now = .ok live := if_pos held.named.version
    rw [same] at moved
    cases moved
    exact held
  relabelled := by
    intro live world held
    have same : migrateTerminalGraphMetadata kernel live = live := by
      unfold migrateTerminalGraphMetadata
      split
      · rw [← held.named.version]
      · rfl
    rw [same]
    exact held
  marked _ held _ := held.replace rfl rfl

theorem attemptRuns_placed (attempts : List (RunAttempt ExtAnswer)) :
    Idle kernel.graph (attemptRuns kernel identity {} attempts) := by
  refine attemptRuns_within (fun attempt _ => ⟨_, _, keeps_placed durable noPrompt⟩) ?_
  refine ⟨List.Pairwise.nil, ?_, rfl, ?_, ?_⟩
  · exact fun _ found => absurd found not_mem_nil
  · intro front nodeId back split
    simp at split
  · exact fun _ found => by cases found

end

end

/-- The commands resolve to a retry: they jump nowhere. -/
def asksForRetry (payload : AfterMiddlewarePayload) : Bool :=
  (lastJump payload.commands).isNone && (lastRetry payload.commands).isSome

/-- The last completion and whether a retry was its middleware's answer, after one more
observation. -/
def follow (last : Option (CompletedNodePayload × Bool)) :
    Observation Ext → Option (CompletedNodePayload × Bool)
  | .appended event =>
    if event.eventType = "node.completed" then
      match parseCompletedNodePayload event.payload with
      | .ok completed => some (completed, false)
      | .error _ => none
    else if event.eventType = "node.after_middleware" then
      match parseAfterMiddlewarePayload event.payload with
      | .ok answer => if asksForRetry answer then last.map fun known => (known.1, true) else none
      | .error _ => none
    else last
  | _ => last

def retriesFrom : Option (CompletedNodePayload × Bool) → List (Observation Ext) →
    List (CompletedNodePayload × String)
  | _, [] => []
  | some (completed, true), .entered nodeId :: rest =>
    (completed, nodeId) :: retriesFrom (some (completed, true)) rest
  | last, observation :: rest => retriesFrom (follow last observation) rest

/-- In the order of the trace: what completed and was answered with a retry, and each node
whose handler was entered from there to the next completion. -/
def retries (trace : List (Observation Ext)) : List (CompletedNodePayload × String) :=
  retriesFrom none trace

/-- The log's last completion, with no jump after it. -/
def LastCompleted (log : List RunEventEnvelope) (completed : CompletedNodePayload) : Prop :=
  ∃ front completion back, log = front ++ completion :: back ∧ completion.eventType = "node.completed" ∧
    parseCompletedNodePayload completion.payload = .ok completed ∧ ∀ event ∈ back, Quiet event

section
variable {log : List RunEventEnvelope} {completed : CompletedNodePayload}
variable {event : RunEventEnvelope}

theorem LastCompleted.append (known : LastCompleted log completed) (quiet : Quiet event) :
    LastCompleted (log ++ [event]) completed := by
  obtain ⟨front, completion, back, split, kind, parsed, others⟩ := known
  refine ⟨front, completion, back ++ [event], ?_, kind, parsed, fun other found => ?_⟩
  · rw [split]
    simp
  · rcases mem_append.mp found with found | found
    · exact others other found
    · rw [mem_singleton.mp found]
      exact quiet

theorem LastCompleted.follow (known : ∀ completed retried, last = some (completed, retried) →
      LastCompleted (recordedIn trace) completed)
    (next : NodeRetries.follow last observation = some (completed, retried)) :
    LastCompleted (recordedIn (trace ++ [observation])) completed := by
  rw [recordedIn_append]
  cases observation with
  | appended event =>
    show LastCompleted (recordedIn trace ++ [event]) completed
    unfold NodeRetries.follow at next
    dsimp only at next
    split at next
    · rename_i kind
      split at next
      · rename_i found parsed
        cases next
        exact ⟨recordedIn trace, event, [], rfl, kind, parsed, fun _ found => absurd found not_mem_nil⟩
      · cases next
    · rename_i uncompleted
      split at next
      · split at next
        · rename_i answer parsed
          split at next
          · rename_i asked
            obtain ⟨before, found, same⟩ := Option.map_eq_some_iff.mp next
            cases same
            refine (known before.1 before.2 found).append ⟨uncompleted, fun _ payload again => ?_⟩
            rw [parsed] at again
            cases again
            simp only [asksForRetry, Bool.and_eq_true, Option.isNone_iff_eq_none] at asked
            exact asked.1
          · cases next
        · cases next
      · rename_i unanswered
        exact (known completed retried next).append
          ⟨uncompleted, fun kind => absurd kind unanswered⟩
  | _ =>
    show LastCompleted (recordedIn trace ++ []) completed
    rw [append_nil]
    exact known completed retried next

end

/-- What is entered after a retry is where the completion leads. -/
theorem retriesFrom_placed :
    ∀ {seen : List (Observation Ext)} {last : Option (CompletedNodePayload × Bool)},
      EntersPlaced graph (seen ++ rest) →
      (∀ completed retried, last = some (completed, retried) → LastCompleted (recordedIn seen) completed) →
      ∀ entry ∈ retriesFrom last rest, continuation graph entry.1 = some entry.2 := by
  induction rest with
  | nil => exact fun _ _ entry found => absurd found not_mem_nil
  | cons observation rest ih =>
    intro seen last enters known entry found
    have shifted : EntersPlaced graph ((seen ++ [observation]) ++ rest) := by
      rw [append_assoc, singleton_append]
      exact enters
    have step : ∀ entry ∈ retriesFrom (follow last observation) rest,
        continuation graph entry.1 = some entry.2 :=
      ih shifted fun completed retried next => LastCompleted.follow known next
    unfold retriesFrom at found
    split at found
    · rename_i equation
      cases equation
    · rename_i completed nodeId others equation
      cases equation
      rcases mem_cons.mp found with rfl | found
      · obtain ⟨front, completion, back, split, kind, parsed, quiet⟩ := known completed true rfl
        exact enters seen nodeId rest rfl front completion back completed split kind parsed quiet
      · exact step entry found
    · rename_i equation
      cases equation
      exact step entry found

/-- In any runs of a graph without a `build-context` node, the handler that runs after a
retry is that of the completed node exactly where the completion leads back to it. -/
theorem retry_reenters_iff (kernel : RuntimeKernel ExtAnswer) (identity : RunIdentity)
    (durable : DurableGraph kernel.graph)
    (noPrompt : ∀ node ∈ kernel.graph.nodes, node.id ≠ "build-context")
    (attempts : List (RunAttempt ExtAnswer)) :
    ∀ retried ∈ retries (attemptRuns kernel identity ({} : RunWorld Ext) attempts).trace,
      (retried.2 = retried.1.nodeId ↔ continuation kernel.graph retried.1 = some retried.1.nodeId) := by
  intro retried found
  have idle : Idle kernel.graph (attemptRuns kernel identity ({} : RunWorld Ext) attempts) :=
    attemptRuns_placed durable noPrompt attempts
  have placed : EntersPlaced kernel.graph
      ([] ++ (attemptRuns kernel identity ({} : RunWorld Ext) attempts).trace) := idle.enters
  have leads := retriesFrom_placed placed (fun _ _ none_ => by cases none_) retried found
  rw [leads]
  exact ⟨congrArg some, Option.some.inj⟩

def retryCommand : JsValue := .object [("type", .string "retry"), ("reason", .string "again")]

/-- Middleware that answers every completion with a retry. -/
def retrying (attempt : RunAttempt ExtAnswer) : RunAttempt ExtAnswer :=
  { attempt with
    surroundings := { attempt.surroundings with
      middleware := fun _ context =>
        if context.hook = .afterNode then .ok (some { commands := some (.array [retryCommand]) })
        else .ok none } }

/-- `first` leads back to itself as long as its condition says so. -/
def loopingNode : ExecutionGraph where
  version := "looping-node"
  startNodeId := "first"
  predicates := ["again", "next"]
  nodes := [{ id := "first" }, { id := "second", terminal := true }]
  edges := [{ from_ := "first", to_ := "first", when_ := "again", loop := true },
    { from_ := "first", to_ := "second", when_ := "next" }]

def loopingKernel : RuntimeKernel (fun _ : Empty => Unit) where
  graph := loopingNode
  accepted := by decide
  nodes _ := some fun _ => .pure (some { condition := some "again" })
  proposalIntents _ := none
  isTaskState _ := false

theorem loopingNode_durable : DurableGraph loopingNode := by
  refine ⟨⟨by decide, by decide⟩, fun node found => ?_⟩
  simp only [loopingNode, mem_cons, not_mem_nil, or_false] at found
  rcases found with rfl | rfl <;> exact ⟨by decide, by decide⟩

/-- Where its edge leads back, the node is retried. -/
theorem looping_node_retried :
    (retries (attemptRuns loopingKernel sampleIdentity ({} : RunWorld Empty)
      [retrying KernelTerminal.calmRun]).trace).map (fun retried => (retried.1.nodeId, retried.2)) =
        [("first", "first"), ("first", "first")] ∧
      ∀ retried ∈ retries (attemptRuns loopingKernel sampleIdentity ({} : RunWorld Empty)
        [retrying KernelTerminal.calmRun]).trace, (retried.2 = retried.1.nodeId ↔
          continuation loopingNode retried.1 = some retried.1.nodeId) := by
  refine ⟨by decide +kernel, ?_⟩
  exact retry_reenters_iff loopingKernel sampleIdentity loopingNode_durable (by decide) _

/-- Where it leads on, the next node runs instead. -/
theorem retried_node_left :
    ¬ ∀ (kernel : RuntimeKernel fun _ : Empty => Unit) (identity : RunIdentity),
      (∀ node ∈ kernel.graph.nodes, node.id ≠ "build-context") →
      ∀ attempts, ∀ retried ∈
        retries (attemptRuns kernel identity ({} : RunWorld Empty) attempts).trace,
          retried.2 = retried.1.nodeId := by
  intro claimed
  have next : (retries (attemptRuns (KernelTerminal.twoNodeKernel (.ok ())) sampleIdentity
      ({} : RunWorld Empty) [retrying KernelTerminal.calmRun]).trace).map
        (fun retried => (retried.1.nodeId, retried.2)) = [("first", "second")] := by decide +kernel
  obtain ⟨retried, found, same⟩ := mem_map.mp (next ▸ mem_singleton_self ("first", "second"))
  have stays := claimed (KernelTerminal.twoNodeKernel (.ok ())) sampleIdentity (by decide)
    [retrying KernelTerminal.calmRun] retried found
  obtain ⟨completed, entered⟩ := Prod.mk.inj same
  rw [completed, entered] at stays
  exact absurd stays (by decide)

end QiongQi.NodeRetries
