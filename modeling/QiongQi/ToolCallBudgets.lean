import QiongQi.CountedCommands

/-! The tool-call budget over all runs of a production turn: what every stored or
shown state has counted are the usage ids of a beginning of the log, each once,
and never more calls than the limit allows. -/
namespace QiongQi.ToolCallBudgets
open JsonValues Programs RuntimeContracts MiddlewareCommands ExecutionGraphs RuntimeKernels
  KernelRuns KernelReducers KernelDurability KernelReplay KernelSteps KernelLive KernelInvariants
  KernelNodes KernelNodeResults AcceptedCommands RuntimeMiddlewares TaskStates UsageLedgers
  BudgetAccounts CountedCommands
open List hiding after

variable {tests : ContextLossTests} {options : BudgetMiddlewareOptions}
variable {deps : KernelV3NodeDependencies} {identity : RunIdentity}

/-- A state as it was stored or shown to middleware. -/
def seenState : Observation KernelCall → Option RunStateV3
  | .saved state => some state
  | .hooked context => some context.state
  | _ => none

/-- What is stored is never behind what was stored before it, nor is what the
middleware is shown. -/
def NotBehind (earlier later : Observation KernelCall) : Prop :=
  ∀ stored, earlier = .saved stored → ∀ state, seenState later = some state →
    stored.budgets.toolCallsUsed ≤ state.budgets.toolCallsUsed

/-- The entries that a snapshot has counted: those of the events up to its checkpoint. -/
def countedBy (state : RunStateV3) (events : List RunEventEnvelope) : List (String × ℚ) :=
  recordedUsage (events.filter fun event => event.seq ≤ state.cursor.checkpointSeq)

/-- The stores and the trace agree about tool calls. -/
structure Books (options : BudgetMiddlewareOptions) (world : RunWorld KernelCall) : Prop where
  ascending : world.events.Pairwise fun left right => left.seq < right.seq
  positive : ∀ event ∈ world.events, 0 < event.seq
  orderly : ∀ event ∈ world.events, OrderlyEvent event
  within : Within options (total (recordedUsage world.events))
  snapshot : ∀ state, world.snapshot = some state → Accounts state (countedBy state world.events) ∧
      state.cursor.checkpointSeq < nextSeq world.events
  stored : ∀ state, world.snapshot = some state → .saved state ∈ world.trace
  seen : ∀ observation ∈ world.trace, ∀ state, seenState observation = some state →
    ∃ applied, applied <+: recordedUsage world.events ∧ Accounts state applied
  forward : world.trace.Pairwise NotBehind
  latest : ∀ state, .saved state ∈ world.trace → ∃ last, world.snapshot = some last ∧
    state.budgets.toolCallsUsed ≤ last.budgets.toolCallsUsed

/-- The state in memory has counted the log but for the events still to be replayed. -/
structure Held (options : BudgetMiddlewareOptions) (live : RunStateV3)
    (rest : List RunEventEnvelope) (world : RunWorld KernelCall) : Prop where
  books : Books options world
  remaining : ∀ event ∈ rest, event ∈ world.events
  applied : ∃ done, recordedUsage world.events = done ++ recordedUsage rest ∧ Accounts live done
  behind : ∀ event ∈ world.events, eventUsage event ≠ [] →
    event.seq ≤ live.cursor.checkpointSeq ∨ event ∈ rest
  reached : live.cursor.checkpointSeq < nextSeq world.events
  ahead : ∀ state, world.snapshot = some state → state.budgets.toolCallsUsed ≤ live.budgets.toolCallsUsed

theorem respects_books : Respects (Books options) := by
  intro before after snapshot events trace books
  obtain ⟨ascending, positive, orderly, within, stored, kept, seen, forward, latest⟩ := books
  constructor
  · exact events ▸ ascending
  · exact events ▸ positive
  · exact events ▸ orderly
  · exact events ▸ within
  · rw [snapshot, events]
    exact stored
  · rw [snapshot, trace]
    exact kept
  · rw [trace, events]
    exact seen
  · exact trace ▸ forward
  · rw [snapshot, trace]
    exact latest

theorem respects_held (live : RunStateV3) (rest : List RunEventEnvelope) :
    Respects (Held options live rest) := by
  intro before after snapshot events trace held
  obtain ⟨books, remaining, applied, behind, reached, ahead⟩ := held
  constructor
  · exact respects_books.keep books snapshot events trace
  · exact events ▸ remaining
  · exact events ▸ applied
  · exact events ▸ behind
  · exact events ▸ reached
  · rw [snapshot]
    exact ahead

variable {live next : RunStateV3} {world : RunWorld KernelCall}

theorem Books.observe (books : Books options world) (unsaved : ∀ state, observation ≠ .saved state)
    (counts : ∀ state, seenState observation = some state →
      (∃ applied, applied <+: recordedUsage world.events ∧ Accounts state applied) ∧
        ∀ last, world.snapshot = some last → last.budgets.toolCallsUsed ≤ state.budgets.toolCallsUsed) :
    Books options (world.observe observation) := by
  obtain ⟨ascending, positive, orderly, within, stored, kept, seen, forward, latest⟩ := books
  refine ⟨ascending, positive, orderly, within, stored, ?_, ?_, ?_, ?_⟩
  · exact fun state found => mem_append_left _ (kept state found)
  · intro other found state shown
    rcases mem_append.mp found with found | found
    · exact seen other found state shown
    · rw [mem_singleton.mp found] at shown
      exact (counts state shown).1
  · refine pairwise_append.mpr ⟨forward, pairwise_singleton _ _, ?_⟩
    rintro earlier found later last old rfl state shown
    rw [mem_singleton.mp last] at shown
    obtain ⟨snapshot, held, le⟩ := latest old found
    exact le_trans le ((counts state shown).2 snapshot held)
  · intro state found
    rcases mem_append.mp found with found | found
    · exact latest state found
    · exact absurd (mem_singleton.mp found).symm (unsaved state)

theorem Held.counts (held : Held options live rest world) :
    (∃ applied, applied <+: recordedUsage world.events ∧ Accounts live applied) ∧
      ∀ last, world.snapshot = some last → last.budgets.toolCallsUsed ≤ live.budgets.toolCallsUsed := by
  obtain ⟨done, whole, accounts⟩ := held.applied
  exact ⟨⟨done, ⟨recordedUsage rest, whole.symm⟩, accounts⟩, held.ahead⟩

theorem Held.observe (held : Held options live rest world) (unsaved : ∀ state, observation ≠ .saved state)
    (shown : ∀ state, seenState observation = some state → state = live) :
    Held options live rest (world.observe observation) := by
  refine ⟨held.books.observe unsaved fun state found => ?_, held.remaining, held.applied,
    held.behind, held.reached, held.ahead⟩
  rw [shown state found]
  exact held.counts

variable {event : RunEventEnvelope} {stored state : RunStateV3} {now : NonEmptyString}
variable {payload : CompletedNodePayload} {commands : List MiddlewareCommand}

theorem Books.record (books : Books options world) (seq : event.seq = nextSeq world.events)
    (orderly : OrderlyEvent event.readBack)
    (within : Within options (total (recordedUsage world.events ++ eventUsage event.readBack))) :
    Books options (recordedWorld world event) := by
  obtain ⟨ascending, positive, orderlyBefore, _, stored, kept, seen, forward, latest⟩ := books
  have grown : recordedUsage (recordedWorld world event).events =
      recordedUsage world.events ++ eventUsage event.readBack := by
    show recordedUsage (world.events ++ [event.readBack]) = _
    rw [recordedUsage_append]
    simp only [recordedUsage, flatMap_cons, flatMap_nil, append_nil]
  have silent : ∀ other, other ∈ (recordedWorld world event).trace → other ∈ world.trace ∨
      seenState other = none ∧ ∀ state, other ≠ .saved state := by
    intro other found
    rcases mem_append.mp found with found | found
    · exact .inl found
    · rw [mem_singleton.mp found]
      exact .inr ⟨rfl, fun _ same => by cases same⟩
  refine ⟨?_, ?_, ?_, grown ▸ within, ?_, ?_, ?_, ?_, ?_⟩
  · refine pairwise_append.mpr ⟨ascending, pairwise_singleton _ _, ?_⟩
    intro left found right last
    rw [mem_singleton.mp last]
    have := seq_lt_nextSeq found
    show left.seq < event.seq
    omega
  · intro other found
    rcases mem_append.mp found with found | found
    · exact positive other found
    · rw [mem_singleton.mp found]
      show 0 < event.seq
      rw [seq]
      exact Nat.succ_pos _
  · intro other found
    rcases mem_append.mp found with found | found
    · exact orderlyBefore other found
    · rw [mem_singleton.mp found]
      exact orderly
  · intro state found
    obtain ⟨accounts, reached⟩ := stored state found
    have reached : state.cursor.checkpointSeq < nextSeq world.events := reached
    have same : countedBy state (recordedWorld world event).events = countedBy state world.events := by
      have later : ¬ event.readBack.seq ≤ state.cursor.checkpointSeq := by
        show ¬ event.seq ≤ _
        omega
      show recordedUsage ((world.events ++ [event.readBack]).filter _) = _
      rw [filter_append, filter_cons_of_neg (by simpa using later)]
      simp [countedBy]
    have above : nextSeq (recordedWorld world event).events =
        max (nextSeq world.events) (event.seq + 1) := nextSeq_append world.events event.readBack
    exact ⟨same ▸ accounts, by omega⟩
  · exact fun state found => mem_append_left _ (kept state found)
  · intro other found state shown
    rcases silent other found with found | ⟨none, -⟩
    · obtain ⟨applied, before, accounts⟩ := seen other found state shown
      exact ⟨applied, grown ▸ before.trans (prefix_append _ _), accounts⟩
    · rw [none] at shown
      cases shown
  · refine pairwise_append.mpr ⟨forward, pairwise_singleton _ _, ?_⟩
    rintro earlier found later last old rfl state shown
    rw [mem_singleton.mp last] at shown
    cases shown
  · intro state found
    rcases silent _ found with found | ⟨-, other⟩
    · exact latest state found
    · exact absurd rfl (other state)

theorem Held.record (held : Held options live rest world) (seq : event.seq = nextSeq world.events)
    (orderly : OrderlyEvent event.readBack) (silent : eventUsage event.readBack = []) :
    Held options live rest (recordedWorld world event) := by
  have grown : recordedUsage (recordedWorld world event).events = recordedUsage world.events := by
    show recordedUsage (world.events ++ [event.readBack]) = _
    rw [recordedUsage_append]
    simp only [recordedUsage, flatMap_cons, flatMap_nil, silent, append_nil]
  have above : nextSeq (recordedWorld world event).events =
      max (nextSeq world.events) (event.seq + 1) := nextSeq_append world.events event.readBack
  have reached := held.reached
  refine ⟨held.books.record seq orderly ?_, ?_, ?_, ?_, by omega, held.ahead⟩
  · rw [silent, append_nil]
    exact held.books.within
  · exact fun other found => mem_append_left _ (held.remaining other found)
  · rw [grown]
    exact held.applied
  · intro other found counts
    rcases mem_append.mp found with found | found
    · exact held.behind other found counts
    · rw [mem_singleton.mp found] at counts
      exact absurd silent counts

/-- A state with the same accounts, no further back, takes the place of another. -/
theorem Held.replace (held : Held options live rest world)
    (accounts : ∀ done, Accounts live done → Accounts next done)
    (forward : live.cursor.checkpointSeq ≤ next.cursor.checkpointSeq)
    (reached : next.cursor.checkpointSeq < nextSeq world.events) :
    Held options next rest world := by
  obtain ⟨done, whole, counted⟩ := held.applied
  refine ⟨held.books, held.remaining, ⟨done, whole, accounts done counted⟩, ?_, reached, ?_⟩
  · intro event found counts
    exact (held.behind event found counts).imp_left fun before => le_trans before forward
  · intro state found
    have same : next.budgets.toolCallsUsed = live.budgets.toolCallsUsed :=
      (accounts done counted).used.trans counted.used.symm
    rw [same]
    exact held.ahead state found

theorem savedWorld_books (books : Books options world)
    (accounts : Accounts stored (countedBy stored world.events))
    (reached : stored.cursor.checkpointSeq < nextSeq world.events)
    (ahead : ∀ state, world.snapshot = some state →
      state.budgets.toolCallsUsed ≤ stored.budgets.toolCallsUsed) :
    Books options (savedWorld world stored) := by
  obtain ⟨ascending, positive, orderly, within, _, _, seen, forward, latest⟩ := books
  have counted : ∃ applied, applied <+: recordedUsage world.events ∧ Accounts stored applied := by
    refine ⟨_, ?_, accounts⟩
    rw [recordedUsage_split ascending stored.cursor.checkpointSeq]
    exact prefix_append _ _
  have after : ∀ old, .saved old ∈ world.trace →
      old.budgets.toolCallsUsed ≤ stored.budgets.toolCallsUsed := by
    intro old found
    obtain ⟨last, held, le⟩ := latest old found
    exact le_trans le (ahead last held)
  refine ⟨ascending, positive, orderly, within, ?_, ?_, ?_, ?_, ?_⟩
  · rintro state ⟨⟩
    exact ⟨accounts, reached⟩
  · rintro state ⟨⟩
    exact mem_append_right _ mem_cons_self
  · intro other found state shown
    rcases mem_append.mp found with found | found
    · exact seen other found state shown
    · rw [mem_singleton.mp found] at shown
      cases shown
      exact counted
  · refine pairwise_append.mpr ⟨forward, pairwise_singleton _ _, ?_⟩
    rintro earlier found later last old rfl state shown
    rw [mem_singleton.mp last] at shown
    cases shown
    exact after old found
  · intro state found
    refine ⟨stored, rfl, ?_⟩
    rcases mem_append.mp found with found | found
    · exact after state found
    · cases mem_singleton.mp found
      exact le_refl _

private theorem persist_cursor (persisted : RunStateV3.persist state = some stored) :
    stored.cursor.checkpointSeq = state.cursor.checkpointSeq ∧ stored.budgets = state.budgets := by
  obtain ⟨_, _, _, _, _, _, rfl⟩ := RunStateV3.persist_some_iff.mp persisted
  exact ⟨rfl, rfl⟩

theorem Held.save (held : Held options live [] world) (persisted : RunStateV3.persist live = some stored) :
    Held options live [] (savedWorld world stored) := by
  obtain ⟨done, whole, accounts⟩ := held.applied
  obtain ⟨checkpoint, budgets⟩ := persist_cursor persisted
  have all : countedBy stored world.events = done := by
    have every : recordedUsage (world.events.filter fun event =>
        event.seq ≤ stored.cursor.checkpointSeq) = recordedUsage world.events := by
      refine recordedUsage_filter fun event found late => ?_
      by_contra counts
      rcases held.behind event found counts with before | absurdity
      · rw [checkpoint] at late
        exact absurd before (by simpa using late)
      · cases absurdity
    exact every.trans (whole.trans (append_nil done))
  refine ⟨savedWorld_books held.books ?_ ?_ ?_, held.remaining, ⟨done, whole, accounts⟩,
    held.behind, held.reached, ?_⟩
  · rw [all]
    exact accounts.persist persisted
  · rw [checkpoint]
    exact held.reached
  · rw [budgets]
    exact held.ahead
  · rintro state ⟨⟩
    rw [budgets]

private theorem nonneg_append : total done ≤ total (done ++ eventUsage event) :=
  total_le_append (eventUsage_nonneg event) done

variable {kernel : RuntimeKernel KernelAnswer}

private theorem replayEvent_accounts (accounts : Accounts live done) (orderly : OrderlyEvent event)
    (replayed : replayEvent kernel live pending event now = .ok (next, after)) :
    Accounts next (done ++ eventUsage event) := by
  rcases replayEvent_cases replayed with ⟨kind, rfl, -⟩ |
    ⟨kind, payload, node, parsed, -, known, reduces, -⟩ |
    ⟨kind, waiting, payload, -, parsed, -, reduces, -⟩ | ⟨unseen, rfl, -⟩
  · rw [eventUsage_silent (by rw [kind]; decide), append_nil]
    exact accounts.congr rfl rfl rfl rfl
  · have usage : eventUsage event = usageEntries payload.commands := by
      simp only [eventUsage, kind, if_true, parsed]
    rw [usage]
    exact reduceCompletedNode_accounts accounts (orderly.completed kind payload parsed)
      (nodeFor_mem known).2.symm reduces
  · rw [eventUsage_silent (by rw [kind]; decide), append_nil]
    exact reduceAfterMiddleware_accounts accounts (orderly.afterMiddleware kind payload parsed)
      reduces
  · have other : event.eventType ≠ "node.completed" := by
      intro completed
      simp [isNodeEvent, completed] at unseen
    rw [eventUsage_silent other, append_nil]
    exact accounts

theorem Held.replay (held : Held options live (event :: rest) world)
    (replayed : replayEvent kernel live pending event now = .ok (next, after)) :
    Held options next rest world := by
  obtain ⟨done, whole, accounts⟩ := held.applied
  have present : event ∈ world.events := held.remaining event mem_cons_self
  have counted := replayEvent_accounts accounts (held.books.orderly event present) replayed
  have moved := replayEvent_checkpoint replayed
  have below := seq_lt_nextSeq present
  have reached := held.reached
  refine ⟨held.books, ?_, ⟨_, ?_, counted⟩, ?_, ?_, ?_⟩
  · exact fun other found => held.remaining other (mem_cons_of_mem _ found)
  · rw [whole, append_assoc]
    rfl
  · intro other found counts
    have node : isNodeEvent event = true → event.seq ≤ next.cursor.checkpointSeq := by
      intro node
      rw [moved, if_pos node]
      exact le_max_right _ _
    rcases held.behind other found counts with before | left
    · refine .inl (le_trans before ?_)
      rw [moved]
      split <;> omega
    · rcases mem_cons.mp left with rfl | left
      · refine .inl (node ?_)
        by_contra unseen
        refine counts (eventUsage_silent fun completed => ?_)
        simp [isNodeEvent, completed] at unseen
      · exact .inr left
  · rw [moved]
    split <;> omega
  · intro state found
    rw [counted.used]
    have before := held.ahead state found
    rw [accounts.used] at before
    exact le_trans before nonneg_append

private theorem readBack_usage (kind : event.eventType = "node.completed")
    (carried : event.payload = payload.toJs) :
    (eventUsage event.readBack = [] ∨ eventUsage event.readBack = usageEntries payload.commands) ∧
      (parseCompletedNodePayload payload.toJs = .ok payload →
        eventUsage event.readBack = usageEntries payload.commands) := by
  have line : event.readBack.payload = .object (fieldsToJs (serializeFields payload.fields)) := by
    rw [RunEventEnvelope.readBack, carried]
    rfl
  have counted : ∀ again, parseCompletedNodePayload event.readBack.payload = .ok again →
      eventUsage event.readBack = usageEntries again.commands := by
    intro again parsed
    simp only [eventUsage, if_pos (show event.readBack.eventType = _ from kind), parsed]
  cases parsed : parseCompletedNodePayload event.readBack.payload with
  | error reason =>
    refine ⟨.inl ?_, fun found => ?_⟩
    · simp only [eventUsage, if_pos (show event.readBack.eventType = _ from kind), parsed]
    · obtain ⟨again, read⟩ := parseCompletedNodePayload_readable found
      rw [line] at parsed
      rw [parsed] at read
      cases read
  | ok again =>
    have same : again.commands = payload.commands :=
      (parseCompletedNodePayload_stored (line ▸ parsed)).2.1
    rw [counted again parsed, same]
    exact ⟨.inr rfl, fun _ => rfl⟩

private theorem readBack_orderly (kind : event.eventType = "node.completed")
    (carried : event.payload = payload.toJs) (orderly : OrderlyCompletion payload) :
    OrderlyEvent event.readBack := by
  have line : event.readBack.payload = .object (fieldsToJs (serializeFields payload.fields)) := by
    rw [RunEventEnvelope.readBack, carried]
    rfl
  refine ⟨fun _ again parsed => ?_, fun after => ?_⟩
  · rw [line] at parsed
    obtain ⟨named, commands, valued⟩ := parseCompletedNodePayload_stored parsed
    refine ⟨commands ▸ orderly.commands, fun restore value found => ?_⟩
    rw [valued] at found
    obtain ⟨document, written, rfl⟩ := Option.map_eq_some_iff.mp found
    obtain ⟨original, present, written⟩ := Option.bind_eq_some_iff.mp written
    obtain ⟨task, rfl⟩ := orderly.value (named.symm.trans restore) original present
    rw [serialize_toJs] at written
    cases written
    exact ⟨task, rfl⟩
  · have after : event.eventType = "node.after_middleware" := after
    rw [kind] at after
    exact absurd after (by decide)

theorem Held.complete (held : Held options live [] world) (orderly : OrderlyCompletion payload)
    (named : payload.nodeId = node.id) (room : Within options (live.budgets.toolCallsUsed +
      ((usageEntries payload.commands).map Prod.snd).sum))
    (seq : event.seq = nextSeq world.events) (kind : event.eventType = "node.completed")
    (carried : event.payload = payload.toJs) :
    Books options (recordedWorld world event) ∧
      (parseCompletedNodePayload payload.toJs = .ok payload → ∀ now next,
        reduceCompletedNode kernel live node payload event.seq now = .ok next →
          Held options next [] (recordedWorld world event)) := by
  obtain ⟨done, whole, accounts⟩ := held.applied
  have whole : recordedUsage world.events = done := whole.trans (append_nil done)
  obtain ⟨either, read⟩ := readBack_usage kind carried
  have within : Within options (total (recordedUsage world.events ++ eventUsage event.readBack)) := by
    intro limit configured
    refine le_trans ?_ (room limit configured)
    have nonneg : ∀ entry ∈ usageEntries payload.commands, 0 ≤ entry.2 := usageEntries_nonneg
    have bound := total_append_le nonneg done
    rw [whole, accounts.used]
    rcases either with silent | counted
    · rw [silent, append_nil]
      exact le_trans (total_le_append nonneg done) bound
    · rw [counted]
      exact bound
  have books := held.books.record seq (readBack_orderly kind carried orderly) within
  refine ⟨books, fun parsed now next reduced => ?_⟩
  have counted := reduceCompletedNode_accounts accounts orderly named reduced
  have grown : recordedUsage (recordedWorld world event).events = done ++ usageEntries payload.commands := by
    show recordedUsage (world.events ++ [event.readBack]) = _
    rw [recordedUsage_append, whole, ← read parsed]
    simp only [recordedUsage, flatMap_cons, flatMap_nil, append_nil]
  have checkpoint := reduceCompletedNode_checkpoint reduced
  have reached := held.reached
  have above : nextSeq (recordedWorld world event).events =
      max (nextSeq world.events) (event.seq + 1) := nextSeq_append world.events event.readBack
  refine ⟨books, fun _ found => (by cases found), ⟨_, ?_, counted⟩, ?_, by omega, ?_⟩
  · rw [grown]
    exact (append_nil _).symm
  · intro other found counts
    refine .inl ?_
    rw [checkpoint]
    rcases mem_append.mp found with found | found
    · rcases held.behind other found counts with before | absurdity
      · exact le_trans before (le_max_left _ _)
      · cases absurdity
    · rw [mem_singleton.mp found]
      exact le_max_right _ _
  · intro state found
    rw [counted.used]
    have before := held.ahead state found
    rw [accounts.used] at before
    exact le_trans before (total_le_append usageEntries_nonneg done)

theorem Held.commit (held : Held options live rest world)
    (plain : ∀ command ∈ commands, Plain command) (seq : event.seq = nextSeq world.events)
    (kind : event.eventType = "node.after_middleware")
    (carried : event.payload = (afterPayload pending commands).toJs) :
    Books options (recordedWorld world event) ∧ ∀ now next,
      reduceAfterMiddleware kernel live (afterPayload pending commands) event.seq now = .ok next →
        Held options next rest (recordedWorld world event) := by
  have other : event.readBack.eventType ≠ "node.completed" := by
    show event.eventType ≠ _
    rw [kind]
    decide
  have kept : event.readBack = event :=
    readBack_survives (carried ▸ afterPayload_survives pending commands)
  have orderly : OrderlyEvent event.readBack := by
    refine ⟨fun completed => absurd completed other, fun _ parsed found => ?_⟩
    rw [kept, carried] at found
    rw [parseAfterMiddlewarePayload_toJs found]
    exact plain
  have recorded := held.record seq orderly (eventUsage_silent other)
  refine ⟨recorded.books, fun now next reduced => ?_⟩
  have checkpoint := reduceAfterMiddleware_checkpoint reduced
  have reached := held.reached
  have above : nextSeq (recordedWorld world event).events =
      max (nextSeq world.events) (event.seq + 1) := nextSeq_append world.events event.readBack
  exact recorded.replace (fun done accounts => reduceAfterMiddleware_accounts accounts plain reduced)
    (by omega) (by omega)

private theorem Books.failing (books : Books options world) (found : world.snapshot = some state)
    (same : context.state = state) : Books options (world.observe (.hooked context)) := by
  obtain ⟨accounts, -⟩ := books.snapshot state found
  refine books.observe (fun _ saved => by cases saved) ?_
  rintro shown ⟨⟩
  rw [same]
  refine ⟨⟨_, ?_, accounts⟩, fun last held => ?_⟩
  · rw [recordedUsage_split books.ascending state.cursor.checkpointSeq]
    exact prefix_append _ _
  · rw [found] at held
    cases held
    exact le_refl _

private theorem Books.failed (books : Books options world) (found : world.snapshot = some state)
    (persisted : RunStateV3.persist (withOutcome state outcome now) = some stored) :
    Books options (savedWorld world stored) := by
  obtain ⟨accounts, reached⟩ := books.snapshot state found
  obtain ⟨checkpoint, budgets⟩ := persist_cursor persisted
  rw [withOutcome_cursor] at checkpoint
  have kept : (withOutcome state outcome now).budgets = state.budgets := by
    unfold withOutcome
    split <;> rfl
  refine savedWorld_books books ?_ (by omega) fun last held => ?_
  · have same : countedBy stored world.events = countedBy state world.events := by
      unfold countedBy
      rw [checkpoint]
    rw [same]
    exact (accounts.withOutcome outcome now).persist persisted
  · rw [found] at held
    cases held
    rw [budgets, kept]

private theorem Books.loaded (books : Books options world) (found : world.snapshot = some state) :
    Held options state (world.events.filter fun event => state.cursor.checkpointSeq < event.seq)
      world := by
  obtain ⟨accounts, reached⟩ := books.snapshot state found
  refine ⟨books, fun event member => (mem_filter.mp member).1,
    ⟨_, recordedUsage_split books.ascending _, accounts⟩, fun event member _ => ?_, reached, ?_⟩
  · by_cases before : event.seq ≤ state.cursor.checkpointSeq
    · exact .inl before
    · exact .inr (mem_filter.mpr ⟨member, by simpa using before⟩)
  · intro last held
    rw [found] at held
    cases held
    exact le_refl _

private theorem initialState_accounts :
    Accounts (initialState (productionKernel deps) identity now) [] := by
  refine ⟨rfl, ⟨[], rfl, nodup_nil, fun id => Iff.rfl⟩, ?_, fun field found => by cases found⟩
  rw [total_nil]
  rfl

private theorem Books.fresh (books : Books options world) (none : world.snapshot = none)
    (now : NonEmptyString) :
    Held options (initialState (productionKernel deps) identity now)
      (world.events.filter fun event => 0 < event.seq) world := by
  have all : world.events.filter (fun event => 0 < event.seq) = world.events := by
    rw [filter_eq_self]
    exact fun event found => by simpa using books.positive event found
  rw [all]
  refine ⟨books, fun _ => id, ⟨[], rfl, initialState_accounts⟩, fun _ found _ => .inr found,
    Nat.succ_pos _, fun state found => ?_⟩
  rw [none] at found
  cases found

private theorem Held.effect (held : Held options live rest world)
    (effect : EffectEventType × JsValue) (now : NonEmptyString) :
    Held options live rest (recordEffect identity now world effect) := by
  let event : RunEventEnvelope :=
    { seq := nextSeq world.events, identity, eventType := effect.1.name
      payload := effect.2, timestamp := now }
  show Held options live rest (recordedWorld world event)
  have notCompleted : event.readBack.eventType ≠ "node.completed" := by
    show effect.1.name ≠ _
    cases effect.1 <;> decide
  have notAfter : event.readBack.eventType ≠ "node.after_middleware" := by
    show effect.1.name ≠ _
    cases effect.1 <;> decide
  exact held.record rfl (orderly_other notCompleted notAfter) (eventUsage_silent notCompleted)

private theorem Held.started (held : Held options live [] world) (now : NonEmptyString)
    (seq : event.seq = nextSeq world.events) (kind : event.eventType = "node.started") :
    Held options (startedState live event.seq now) [] (recordedWorld world event) := by
  have notCompleted : event.readBack.eventType ≠ "node.completed" := by
    show event.eventType ≠ _
    rw [kind]
    decide
  have notAfter : event.readBack.eventType ≠ "node.after_middleware" := by
    show event.eventType ≠ _
    rw [kind]
    decide
  have reached := held.reached
  have above : nextSeq (recordedWorld world event).events =
      max (nextSeq world.events) (event.seq + 1) := nextSeq_append world.events event.readBack
  refine (held.record seq (orderly_other notCompleted notAfter)
    (eventUsage_silent notCompleted)).replace (fun done accounts => ?_) ?_ ?_
  · exact accounts.congr rfl rfl rfl rfl
  · show _ ≤ event.seq
    omega
  · show event.seq < _
    omega

private theorem Held.completes (held : Held options live [] world)
    (completion : Completion kernel (chained (kernelV3Middleware tests options) around)
      NodeResult live node result commands) (seq : event.seq = nextSeq world.events)
    (kind : event.eventType = "node.completed")
    (carried : event.payload = (completedPayload live node result commands).toJs) :
    Books options (recordedWorld world event) ∧
      (parseCompletedNodePayload (completedPayload live node result commands).toJs =
          .ok (completedPayload live node result commands) → ∀ now next,
        reduceCompletedNode kernel live node (completedPayload live node result commands)
          event.seq now = .ok next → Held options next [] (recordedWorld world event)) := by
  obtain ⟨-, ⟨answer, beforeCommands, ⟨clock, answers⟩, accepted, goesOn, parsed⟩, returned⟩ :=
    completion
  cases answers
  obtain ⟨rfl, open_⟩ := (before_commands rfl accepted).2 goesOn
  have taken := nodeCommands_accepted parsed
  obtain ⟨orderly, bound⟩ := result_orderly returned taken
  have room := within_pending open_
  refine held.complete ⟨orderly, fun named value found => ?_⟩ rfl (fun limit configured => ?_) seq
    kind carried
  · exact result_task returned named found
  · exact le_trans (add_le_add_right bound _) (room limit configured)

private theorem ending_plain
    (ending : EndingCommands (chained (kernelV3Middleware tests options) around) live
      commands) : ∀ command ∈ commands, Plain command := by
  obtain ⟨context, answer, -, hook, ⟨clock, answers⟩, accepted⟩ := ending
  cases answers
  rcases hook with hook | hook
  · rw [around_commands (by simp [hook]) (by simp [hook]) accepted]
    exact fun _ found => by cases found
  · exact (before_commands hook accepted).1

theorem keeps_books : Keeps (productionKernel deps) identity
      (chained (kernelV3Middleware tests options) around) NodeResult (Books options)
      (Held options) where
  idle_respects := respects_books
  held_respects := respects_held
  cut held := held.books
  ascending books := books.ascending
  returns := by
    intro live node handler fence registered
    have settled : NodeSettles { state := live, node, leaseFence := fence } node.id
        (invocationLimit node.id) (handler { state := live, node, leaseFence := fence }) :=
      handlers_settle registered
    exact settles_returns settled
  silent := by
    intro live rest world observation silent held
    refine held.observe ?_ ?_
    · rintro state rfl
      exact silent
    · intro state shown
      cases observation <;> first | exact absurd silent id | cases shown
  hooked := by
    rintro live rest world context rfl held
    refine held.observe (fun _ saved => by cases saved) ?_
    rintro state ⟨⟩
    rfl
  failing books found _ same := books.failing found same
  failed books found persisted := books.failed found persisted
  finished books := books.observe (fun _ saved => by cases saved) fun _ shown => by cases shown
  loaded books found := books.loaded found
  fresh now books none := books.fresh none now
  replayed held replayed := held.replay replayed
  effect held := held.effect _ _
  started now held seq kind := held.started now seq kind
  completed held completion seq kind carried := held.completes completion seq kind carried
  committed := by
    intro live rest world pending answer commands event held answers accepted seq kind carried
    obtain ⟨clock, answers⟩ := answers
    cases answers
    obtain ⟨books, kept⟩ := held.commit (after_commands rfl accepted) seq kind carried
    exact ⟨books, fun _ => kept⟩
  saved held persisted := held.save persisted
  ended := by
    intro live applied world commands outcome now held ending done
    have plain := ending_plain ending
    have cursor : (withOutcome applied outcome now).cursor = live.cursor :=
      (withOutcome_cursor applied outcome now).trans (applyCommands_header done).cursor
    refine held.replace (fun counted accounts => ?_) (by rw [cursor]) (cursor ▸ held.reached)
    exact (applyCommands_plain accounts plain done).withOutcome outcome now
  migrated := by
    intro live next world now held moved
    obtain ⟨done, -, accounts⟩ := held.applied
    have same : migrateGraphState (productionKernel deps) live now = .ok live :=
      if_pos accounts.version
    rw [same] at moved
    cases moved
    exact held
  relabelled := by
    intro live world held
    obtain ⟨done, -, accounts⟩ := held.applied
    have same : migrateTerminalGraphMetadata (productionKernel deps) live = live := by
      refine if_neg ?_
      rw [accounts.version]
      show ¬ upgradable productionV3 productionV3 = true
      decide
    rw [same]
    exact held
  marked status now held :=
    held.replace (fun _ accounts => accounts.congr rfl rfl rfl rfl) (le_refl _) held.reached

/-- An attempt whose middleware is the chain of production turns. -/
def budgeted (tests : ContextLossTests) (options : BudgetMiddlewareOptions)
    (attempt : RunAttempt KernelAnswer) : RunAttempt KernelAnswer :=
  { attempt with
    surroundings := chained (kernelV3Middleware tests options) attempt.surroundings }

private theorem emptyWorld_books : Books options {} where
  ascending := List.Pairwise.nil
  positive _ found := by cases found
  orderly _ found := by cases found
  within _ _ := le_max_right _ _
  snapshot _ found := by cases found
  stored _ found := by cases found
  seen _ found := by cases found
  forward := List.Pairwise.nil
  latest _ found := by cases found

theorem attemptRuns_books (attempts : List (RunAttempt KernelAnswer)) :
    Books options (attemptRuns (productionKernel deps) identity {}
      (attempts.map (budgeted tests options))) := by
  have kept : ∀ attempt ∈ attempts.map (budgeted tests options), ∃ held,
      Keeps (productionKernel deps) identity attempt.surroundings NodeResult (Books options)
        held := by
    intro attempt found
    obtain ⟨original, -, rfl⟩ := mem_map.mp found
    exact ⟨Held options, keeps_books⟩
  exact attemptRuns_keep kept emptyWorld_books

/-- Over any attempts to run a production turn, each of which may be cut short
anywhere, every state that was stored or shown to middleware has counted the usage
ids of a beginning of the log, each of them once and for what it added when it came
first; it is within the limit, and what is stored never goes back. -/
theorem toolCalls_budgeted (deps : KernelV3NodeDependencies) (tests : ContextLossTests)
    (options : BudgetMiddlewareOptions) (identity : RunIdentity)
    (attempts : List (RunAttempt KernelAnswer)) :
    let world := attemptRuns (productionKernel deps) identity {}
      (attempts.map (budgeted tests options))
    (∀ observation ∈ world.trace, ∀ state, seenState observation = some state →
      ∃ used earlier, budgetUsageIdSet state = .ok used ∧ used.Nodup ∧
        earlier <+: recordedUsage world.events ∧ (∀ id, id ∈ used ↔ id ∈ ids earlier) ∧
        state.budgets.toolCallsUsed = (used.map (amountOf earlier)).sum ∧
        Within options state.budgets.toolCallsUsed) ∧
      (∀ state, world.snapshot = some state → .saved state ∈ world.trace) ∧
      world.trace.Pairwise NotBehind := by
  intro world
  have books : Books options world := attemptRuns_books attempts
  refine ⟨fun observation found state shown => ?_, books.stored, books.forward⟩
  obtain ⟨earlier, before, accounts⟩ := books.seen observation found state shown
  obtain ⟨used, read, distinct, same⟩ := accounts.counted
  refine ⟨used, earlier, read, distinct, before, same, ?_, ?_⟩
  · rw [accounts.used]
    exact total_eq_sum distinct same
  · obtain ⟨later, whole⟩ := before
    have counted : ∀ entry ∈ later, 0 ≤ entry.2 := fun entry found =>
      recordedUsage_nonneg world.events entry (whole ▸ mem_append_right _ found)
    intro limit configured
    rw [accounts.used]
    refine le_trans (total_le_append counted earlier) ?_
    rw [whole]
    exact books.within limit configured

end QiongQi.ToolCallBudgets
