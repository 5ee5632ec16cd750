import QiongQi.KernelReducers

/-! Replay of a stored snapshot as a fold over the stored events, and the loop of
`replayAfterCheckpoint` as an execution of that fold. The two run against
different clocks, so states are compared apart from `updatedAt`. -/
namespace QiongQi.KernelReplay
open JsonValues Programs RuntimeContracts MiddlewareCommands ExecutionGraphs RuntimeKernels List
  KernelRuns KernelReducers

variable {Ext : Type} {ExtAnswer : Ext → Type}

/-- The same state with another status, updated at another time. -/
def mark (status : RunStatus) (now : NonEmptyString) (state : RunStateV3) : RunStateV3 :=
  { state with status, updatedAt := now }

/-- The same state, apart from `updatedAt` and from a status in the relation. -/
def Alike (same : RunStatus → RunStatus → Prop) (left right : RunStateV3) : Prop :=
  same left.status right.status ∧ ∃ status now, left = mark status now right

/-- The same state, apart from `updatedAt`. -/
abbrev SameRun (left right : RunStateV3) : Prop := Alike (· = ·) left right

/-- Statuses that no reducer tells apart. -/
structure Indistinct (same : RunStatus → RunStatus → Prop) : Prop where
  refl : ∀ status, same status status
  terminal : ∀ left right : RunStateV3, same left.status right.status → isTerminal left = isTerminal right

theorem indistinct_eq : Indistinct (· = ·) :=
  ⟨fun _ => rfl, fun _ _ same => isTerminal_congr same⟩

theorem SameRun.refl (state : RunStateV3) : SameRun state state :=
  ⟨rfl, state.status, state.updatedAt, rfl⟩

variable {left right next state snapshot : RunStateV3}
variable {pending after : Option PendingAfterMiddleware} {event : RunEventEnvelope}

theorem SameRun.symm (same : SameRun left right) : SameRun right left := by
  obtain ⟨status, _, now, rfl⟩ := same
  exact ⟨status.symm, right.status, right.updatedAt, rfl⟩

theorem Alike.trans_same (left : Alike same first second) (right : SameRun second third) :
    Alike same first third := by
  obtain ⟨related, status, now, rfl⟩ := left
  obtain ⟨equal, _, _, rfl⟩ := right
  exact ⟨equal ▸ related, status, now, rfl⟩

/-- States that agree in their status as well are the same. -/
theorem Alike.sameRun (alike : Alike same left right) (status : left.status = right.status) :
    SameRun left right :=
  ⟨status, alike.2⟩

private theorem addBudget_mark : addBudget (mark status now state) delta usageId processed =
      (addBudget state delta usageId processed).map fun added =>
        (mark status now added.1, added.2) := by
  cases usageId with
  | none =>
    simp only [addBudget, mark]
    cases budgetKeys.foldlM (addBudgetKey delta) state.budgets <;> rfl
  | some usageId =>
    simp only [addBudget, mark]
    split
    · rfl
    · cases budgetKeys.foldlM (addBudgetKey delta) state.budgets <;> rfl

private theorem applyCommand_mark : applyCommand (mark status now state) processed command =
      (applyCommand state processed command).map fun applied =>
        (mark status now applied.1, applied.2) := by
  cases command with
  | addBudget delta usageId =>
    simp only [applyCommand]
    have ids : processedUsageIds (mark status now state) processed = processedUsageIds state processed := by
      cases processed <;> rfl
    rw [ids]
    cases processedUsageIds state processed with
    | error message => rfl
    | ok ids =>
      simp only [bind, Except.bind, addBudget_mark]
      cases addBudget state delta usageId ids <;> rfl
  | setTaskRevision revision =>
    simp only [applyCommand]
    have revision : (mark status now state).taskRevision = state.taskRevision := rfl
    rw [revision]
    split <;> rfl
  | _ => rfl

private theorem applyCommandList_mark : ∀ (state : RunStateV3) (processed : Option (List String)),
      applyCommandList (mark status now state) processed commands =
        (applyCommandList state processed commands).map (mark status now) := by
  induction commands with
  | nil => exact fun _ _ => rfl
  | cons command rest ih =>
    intro state processed
    simp only [applyCommandList, applyCommand_mark]
    cases applyCommand state processed command with
    | error message => rfl
    | ok applied => exact ih applied.1 applied.2

theorem applyCommands_mark : applyCommands (mark status now state) commands =
      (applyCommands state commands).map (mark status now) := by
  simp only [applyCommands_eq]
  exact applyCommandList_mark state none

variable {kernel : RuntimeKernel ExtAnswer} {same : RunStatus → RunStatus → Prop}

theorem applyCommands_alike (alike : Alike same left right)
    (applied : applyCommands right commands = .ok next) :
    ∃ again, applyCommands left commands = .ok again ∧ Alike same again next := by
  obtain ⟨related, status, now, rfl⟩ := alike
  refine ⟨mark status now next, by rw [applyCommands_mark, applied]; rfl, ?_, status, now, rfl⟩
  rw [(applyCommands_header applied).status]
  exact related

private theorem withNodeValue_alike (alike : Alike same left right) (nodeId : String)
    (value : Option JsValue) :
    Alike same (withNodeValue left nodeId value) (withNodeValue right nodeId value) := by
  obtain ⟨related, status, now, rfl⟩ := alike
  cases value with
  | none | some value => exact ⟨related, status, now, rfl⟩

section
variable (indistinct : Indistinct same)
include indistinct

section
variable (alike : Alike same left right)
include alike

private theorem withOutcome_alike (outcome : RunOutcome) (now later : NonEmptyString) :
    Alike same (withOutcome left outcome later) (withOutcome right outcome now) := by
  have terminal := indistinct.terminal left right alike.1
  obtain ⟨related, status, before, rfl⟩ := alike
  simp only [withOutcome, terminal]
  split
  · exact ⟨related, status, before, rfl⟩
  · exact ⟨indistinct.refl _, outcome.status.toRunStatus, later, rfl⟩

private theorem endAt_alike (seq : Nat) (now later : NonEmptyString) :
    Alike same (endAt left outcome seq later) (endAt right outcome seq now) := by
  obtain ⟨related, status, moment, ended⟩ := withOutcome_alike indistinct alike outcome now later
  obtain ⟨_, _, _, rfl⟩ := alike
  refine ⟨related, status, later, ?_⟩
  simp only [endAt, ended]
  rfl

private theorem advanceTo_alike (loop : Bool) (seq : Nat) (now later : NonEmptyString) :
    Alike same (advanceTo left target loop seq later) (advanceTo right target loop seq now) := by
  obtain ⟨_, _, _, rfl⟩ := alike
  exact ⟨indistinct.refl _, .running, later, rfl⟩

/-- A completion reduced at another time, from a state that counts as the same. -/
theorem reduceCompletedNode_alike
    (reduced : reduceCompletedNode kernel right node payload seq now = .ok next) :
    ∃ again, reduceCompletedNode kernel left node payload seq later = .ok again ∧ Alike same again next := by
  obtain ⟨applied, commands, rest⟩ := except_bind reduced
  obtain ⟨appliedLeft, commandsLeft, alikeApplied⟩ := applyCommands_alike alike commands
  have valued := withNodeValue_alike alikeApplied node.id payload.value
  cases present : payload.outcome with
  | some outcome =>
    rw [present] at rest
    cases rest
    refine ⟨_, ?_, endAt_alike indistinct valued seq now later⟩
    simp only [reduceCompletedNode, commandsLeft, present, bind, Except.bind]
    rfl
  | none =>
    rw [present] at rest
    obtain ⟨target, found, rest⟩ := except_bind rest
    obtain ⟨_, known, final⟩ := except_bind rest
    cases final
    refine ⟨_, ?_, advanceTo_alike indistinct valued target.2 seq now later⟩
    simp only [reduceCompletedNode, commandsLeft, present, bind, Except.bind, found, known]
    rfl

private theorem afterMiddlewareState_alike (later : NonEmptyString)
    (settled : afterMiddlewareState right payload now = .ok next) :
    ∃ again, afterMiddlewareState left payload later = .ok again ∧ Alike same again next := by
  have terminal := indistinct.terminal left right alike.1
  simp only [afterMiddlewareState, terminal] at settled ⊢
  by_cases ended : isTerminal right = true
  · rw [if_pos ended] at settled ⊢
    cases settled
    exact ⟨left, rfl, alike⟩
  · rw [if_neg ended] at settled ⊢
    obtain ⟨applied, commands, final⟩ := except_bind settled
    obtain ⟨appliedLeft, commandsLeft, alikeApplied⟩ := applyCommands_alike alike commands
    simp only [commandsLeft, bind, Except.bind]
    cases final
    refine ⟨_, rfl, ?_⟩
    cases payload.outcome <|> commandOutcome payload.commands with
    | none => exact alikeApplied
    | some outcome => exact withOutcome_alike indistinct alikeApplied outcome now later

private theorem afterMiddlewareCursor_alike
    (moved : afterMiddlewareCursor kernel right commands = .ok next) :
    ∃ again, afterMiddlewareCursor kernel left commands = .ok again ∧ Alike same again next := by
  have terminal := indistinct.terminal left right alike.1
  simp only [afterMiddlewareCursor, terminal] at moved ⊢
  by_cases ended : isTerminal right = true
  · rw [if_pos ended] at moved ⊢
    cases moved
    exact ⟨left, rfl, alike⟩
  · rw [if_neg ended] at moved ⊢
    obtain ⟨related, status, before, rfl⟩ := alike
    simp only [applyControl, mark] at moved ⊢
    cases target : middlewareControlTarget kernel commands right.cursor.nodeId with
    | none =>
      rw [target] at moved
      cases moved
      exact ⟨_, rfl, related, status, before, rfl⟩
    | some nodeId =>
      rw [target] at moved
      obtain ⟨node, known, final⟩ := except_bind moved
      cases final
      simp only [known, bind, Except.bind]
      exact ⟨_, rfl, related, status, before, rfl⟩

/-- `afterNode` commands reduced at another time, from a state that counts as the
same. -/
theorem reduceAfterMiddleware_alike
    (reduced : reduceAfterMiddleware kernel right payload seq now = .ok next) :
    ∃ again, reduceAfterMiddleware kernel left payload seq later = .ok again ∧ Alike same again next := by
  obtain ⟨settled, first, rest⟩ := except_bind reduced
  obtain ⟨moved, second, final⟩ := except_bind rest
  obtain ⟨settledLeft, firstLeft, alikeSettled⟩ :=
    afterMiddlewareState_alike indistinct alike later first
  obtain ⟨movedLeft, secondLeft, alikeMoved⟩ :=
    afterMiddlewareCursor_alike indistinct alikeSettled second
  cases final
  simp only [reduceAfterMiddleware, firstLeft, secondLeft, bind, Except.bind]
  obtain ⟨related, status, _, rfl⟩ := alikeMoved
  exact ⟨_, rfl, related, status, later, rfl⟩

end

end

/-- What replay looks at. -/
def isNodeEvent (event : RunEventEnvelope) : Bool :=
  event.eventType = "node.started" || event.eventType = "node.completed" ||
    event.eventType = "node.after_middleware"

theorem replayEvent_started (kind : event.eventType = "node.started") :
    replayEvent kernel state pending event now = .ok (replayStarted state event, pending) := by
  simp only [replayEvent, kind, if_true]

theorem replayEvent_completed (kind : event.eventType = "node.completed")
    (parsed : parseCompletedNodePayload event.payload = .ok completed)
    (position : completed.nodeId = state.cursor.nodeId)
    (known : nodeFor kernel.graph completed.nodeId = .ok node)
    (reduced : reduceCompletedNode kernel state node completed event.seq now = .ok next) :
    replayEvent kernel state pending event now = .ok (next, some { node, completed }) := by
  have notStarted : event.eventType ≠ "node.started" := by rw [kind]; decide
  simp only [replayEvent, if_neg notStarted, if_pos kind, replayCompleted, parsed, bind, Except.bind]
  rw [if_neg (by simpa using position)]
  simp only [known, reduced]
  rfl

theorem replayEvent_afterMiddleware {pending : PendingAfterMiddleware}
    {after : AfterMiddlewarePayload} (kind : event.eventType = "node.after_middleware")
    (parsed : parseAfterMiddlewarePayload event.payload = .ok after)
    (matching : assertAfterMiddlewareMatches pending.completed after = .ok ())
    (reduced : reduceAfterMiddleware kernel state after event.seq now = .ok next) :
    replayEvent kernel state (some pending) event now = .ok (next, none) := by
  have notStarted : event.eventType ≠ "node.started" := by rw [kind]; decide
  have notCompleted : event.eventType ≠ "node.completed" := by rw [kind]; decide
  simp only [replayEvent, if_neg notStarted, if_neg notCompleted, if_pos kind,
    replayAfterMiddleware, parsed, matching, bind, Except.bind, reduced]
  rfl

theorem replayEvent_other (unseen : isNodeEvent event = false) :
    replayEvent kernel state pending event now = .ok (state, pending) := by
  simp only [isNodeEvent, Bool.or_eq_false_iff, decide_eq_false_iff_not] at unseen
  unfold replayEvent
  rw [if_neg unseen.1.1, if_neg unseen.1.2, if_neg unseen.2]

theorem replayEvent_cases
    (replayed : replayEvent kernel state pending event now = .ok (next, after)) :
    (event.eventType = "node.started" ∧ next = replayStarted state event ∧ after = pending) ∨
    (event.eventType = "node.completed" ∧ ∃ completed node,
      parseCompletedNodePayload event.payload = .ok completed ∧
      completed.nodeId = state.cursor.nodeId ∧ nodeFor kernel.graph completed.nodeId = .ok node ∧
      reduceCompletedNode kernel state node completed event.seq now = .ok next ∧
      after = some { node, completed }) ∨
    (event.eventType = "node.after_middleware" ∧ ∃ waiting payload,
      pending = some waiting ∧ parseAfterMiddlewarePayload event.payload = .ok payload ∧
      assertAfterMiddlewareMatches waiting.completed payload = .ok () ∧
      reduceAfterMiddleware kernel state payload event.seq now = .ok next ∧ after = none) ∨
    (isNodeEvent event = false ∧ next = state ∧ after = pending) := by
  by_cases started : event.eventType = "node.started"
  · rw [replayEvent_started started] at replayed
    cases replayed
    exact .inl ⟨started, rfl, rfl⟩
  by_cases completion : event.eventType = "node.completed"
  · unfold replayEvent at replayed
    rw [if_neg started, if_pos completion] at replayed
    obtain ⟨⟨reduced, found⟩, stepped, final⟩ := except_bind replayed
    cases final
    obtain ⟨completed, parsed, rest⟩ := except_bind stepped
    by_cases position : completed.nodeId = state.cursor.nodeId
    · rw [if_neg (by simpa using position)] at rest
      obtain ⟨node, known, rest⟩ := except_bind rest
      obtain ⟨reduced, reduces, final⟩ := except_bind rest
      cases final
      exact .inr (.inl ⟨completion, completed, node, parsed, position, known, reduces, rfl⟩)
    · rw [if_pos position] at rest
      cases rest
  by_cases afterMiddleware : event.eventType = "node.after_middleware"
  · unfold replayEvent at replayed
    rw [if_neg started, if_neg completion, if_pos afterMiddleware] at replayed
    obtain ⟨reduced, stepped, final⟩ := except_bind replayed
    cases final
    cases pending with
    | none => cases stepped
    | some waiting =>
      obtain ⟨payload, parsed, rest⟩ := except_bind stepped
      obtain ⟨_, matching, reduces⟩ := except_bind rest
      exact .inr (.inr (.inl ⟨afterMiddleware, waiting, payload, rfl, parsed, matching, reduces, rfl⟩))
  have unseen : isNodeEvent event = false := by
    simp [isNodeEvent, started, completion, afterMiddleware]
  rw [replayEvent_other unseen] at replayed
  cases replayed
  exact .inr (.inr (.inr ⟨unseen, rfl, rfl⟩))

/-- One stored event replayed twice, against two clocks. -/
theorem replayEvent_alike (indistinct : Indistinct same) (later : NonEmptyString)
    (alike : Alike same left right)
    (replayed : replayEvent kernel right pending event now = .ok (next, after)) :
    ∃ again, replayEvent kernel left pending event later = .ok (again, after) ∧ Alike same again next := by
  have nodeId : left.cursor.nodeId = right.cursor.nodeId := by
    obtain ⟨_, _, _, rfl⟩ := alike
    rfl
  rcases replayEvent_cases replayed with ⟨kind, rfl, rfl⟩ |
    ⟨kind, completed, node, parsed, position, known, reduces, rfl⟩ |
    ⟨kind, waiting, payload, rfl, parsed, matching, reduces, rfl⟩ | ⟨unseen, rfl, rfl⟩
  · refine ⟨_, replayEvent_started kind, ?_⟩
    obtain ⟨related, status, before, rfl⟩ := alike
    exact ⟨related, status, event.timestamp, rfl⟩
  · obtain ⟨again, reducesLeft, alikeNext⟩ :=
      reduceCompletedNode_alike indistinct alike reduces
    exact ⟨again, replayEvent_completed kind parsed (position.trans nodeId.symm) known reducesLeft, alikeNext⟩
  · obtain ⟨again, reducesLeft, alikeNext⟩ :=
      reduceAfterMiddleware_alike indistinct alike reduces
    exact ⟨again, replayEvent_afterMiddleware kind parsed matching reducesLeft, alikeNext⟩
  · exact ⟨left, replayEvent_other unseen, alike⟩

theorem replayEvent_checkpoint
    (replayed : replayEvent kernel state pending event now = .ok (next, after)) :
    next.cursor.checkpointSeq = if isNodeEvent event then max state.cursor.checkpointSeq event.seq
      else state.cursor.checkpointSeq := by
  rcases replayEvent_cases replayed with ⟨kind, rfl, -⟩ |
    ⟨kind, completed, node, -, -, -, reduces, -⟩ | ⟨kind, waiting, payload, -, -, -, reduces, -⟩ |
    ⟨unseen, rfl, -⟩
  · simp [isNodeEvent, kind, replayStarted]
  · simpa [isNodeEvent, kind] using reduceCompletedNode_checkpoint reduces
  · simpa [isNodeEvent, kind] using reduceAfterMiddleware_checkpoint reduces
  · simp [unseen]

variable (kernel) (identity : RunIdentity)

/-- One event of the fold: its own timestamp is the clock, and a completion must
be followed by its `node.after_middleware`. -/
def rebuildStep (position : RunStateV3 × Option PendingAfterMiddleware) (event : RunEventEnvelope) :
    Except String (RunStateV3 × Option PendingAfterMiddleware) := do
  assertEventIdentity identity event
  if position.2.isSome && event.eventType ≠ "node.after_middleware" then
    throw "completion without its after-middleware event"
  else replayEvent kernel position.1 position.2 event event.timestamp

/-- The state a snapshot and the events after its checkpoint stand for. -/
def rebuild (snapshot : RunStateV3) (events : List RunEventEnvelope) :
    Except String (RunStateV3 × Option PendingAfterMiddleware) :=
  (events.filter fun event => snapshot.cursor.checkpointSeq < event.seq).foldlM
    (rebuildStep kernel identity) (snapshot, none)

variable {kernel} {identity}

theorem assertEventIdentity_own (own : event.identity = identity) :
    assertEventIdentity identity event = .ok () := by
  simp [assertEventIdentity, identityMismatch, own]

theorem rebuild_append (later : snapshot.cursor.checkpointSeq < event.seq) :
    rebuild kernel identity snapshot (events ++ [event]) =
      (rebuild kernel identity snapshot events).bind fun position =>
        rebuildStep kernel identity position event := by
  simp only [rebuild, filter_append, filter_cons, decide_eq_true later, if_true,
    filter_nil, foldlM_append, foldlM_cons, foldlM_nil]
  cases List.foldlM (rebuildStep kernel identity) (snapshot, none)
      (events.filter fun event => snapshot.cursor.checkpointSeq < event.seq) with
  | error message => rfl
  | ok position =>
    simp only [bind, Except.bind]
    cases rebuildStep kernel identity position event <;> rfl

theorem rebuild_inert (own : ∀ event ∈ events, event.identity = identity)
    (inert : ∀ event ∈ events, snapshot.cursor.checkpointSeq < event.seq → isNodeEvent event = false) :
    rebuild kernel identity snapshot events = .ok (snapshot, none) := by
  unfold rebuild
  induction events with
  | nil => rfl
  | cons event rest ih =>
    have others := ih (fun event found => own event (mem_cons_of_mem _ found))
      fun event found => inert event (mem_cons_of_mem _ found)
    by_cases later : snapshot.cursor.checkpointSeq < event.seq
    · rw [filter_cons_of_pos (by simpa using later)]
      have stepped : rebuildStep kernel identity (snapshot, none) event = .ok (snapshot, none) := by
        simp only [rebuildStep, assertEventIdentity_own (own event mem_cons_self),
          replayEvent_other (inert event mem_cons_self later)]
        rfl
      simp only [foldlM_cons, stepped]
      exact others
    · rw [filter_cons_of_neg (by simpa using later)]
      exact others

/-- The process lives on and the stores answer. -/
structure Steady (around : Surroundings ExtAnswer) : Prop where
  alive : ∀ clock, around.alive clock = true
  stores : ∀ clock, around.storeFailure clock = none

private theorem execute_nowIso (steady : Steady around) (next : NonEmptyString → KernelProgram ExtAnswer α) :
    execute (runHost around identity) (await .nowIso >>= next) world =
      execute (runHost around identity) (next (around.nowIso world.clock)) world.tick :=
  execute_await (steady.alive world.clock) rfl

theorem rebuildStep_ready {position next : RunStateV3 × Option PendingAfterMiddleware}
    (stepped : rebuildStep kernel identity position event = .ok next) :
    (event.eventType ≠ "node.after_middleware" → position.2 = none) ∧
      replayEvent kernel position.1 position.2 event event.timestamp = .ok next := by
  obtain ⟨_, _, rest⟩ := except_bind stepped
  split at rest
  · cases rest
  · rename_i ready
    refine ⟨fun other => ?_, rest⟩
    simpa [other] using ready

private theorem replayLoop_rebuilds (steady : Steady around) :
    ∀ (world : RunWorld Ext) (left right : RunStateV3) (before : Option PendingAfterMiddleware),
      (∀ event ∈ events, event.identity = identity) →
      (∀ event ∈ events, event.seq = checkpoint → event.eventType ≠ "node.completed") →
      SameRun left right →
      (events.filter fun event => checkpoint < event.seq).foldlM (rebuildStep kernel identity)
        (right, before) = .ok (state, pending) →
      ∃ again after, execute (runHost around identity)
          (replayLoop kernel identity fence checkpoint left before events) world =
            (.returned (again, pending), after) ∧ SameRun again state := by
  induction events with
  | nil =>
    intro world left right before _ _ same folded
    cases folded
    exact ⟨left, world, rfl, same⟩
  | cons event rest ih =>
    intro world left right before own closed same folded
    have ownRest := fun event found => own event (mem_cons_of_mem _ found)
    have closedRest := fun event found => closed event (mem_cons_of_mem _ found)
    unfold replayLoop lift
    rw [execute_lift (by rw [assertEventIdentity_own (own event mem_cons_self)]; rfl)]
    by_cases past : checkpoint < event.seq
    · rw [filter_cons_of_pos (by simpa using past)] at folded
      obtain ⟨⟨next, between⟩, stepped, folded⟩ := except_bind folded
      obtain ⟨ready, replayed⟩ := rebuildStep_ready stepped
      have nothingOverdue : (if event.eventType = "node.after_middleware" then none else before) = none := by
        split
        · rfl
        · rename_i other
          exact ready other
      have current : (if event.eventType = "node.after_middleware" then before else none) = before := by
        split
        · rfl
        · rename_i other
          exact (ready other).symm
      obtain ⟨again, repeated, sameNext⟩ :=
        replayEvent_alike indistinct_eq (around.nowIso world.clock) same replayed
      rw [if_neg (by omega), if_neg (by omega)]
      simp only [nothingOverdue, current]
      show ∃ again after, execute (runHost around identity)
        (await .nowIso >>= _) world = _ ∧ _
      rw [execute_nowIso steady]
      rw [execute_lift (by rw [repeated]; rfl)]
      exact ih world.tick again next between ownRest closedRest sameNext folded
    · rw [filter_cons_of_neg (by simpa using past)] at folded
      split
      · exact ih world left right before ownRest closedRest same folded
      · rename_i notBefore
        rw [if_pos (by omega), if_neg (closed event mem_cons_self (by omega))]
        exact ih world left right before ownRest closedRest same folded

/-- Over a log in order, the loop of `replayAfterCheckpoint` computes the fold. -/
theorem replayEvents_rebuilds (steady : Steady around)
    (ascending : world.events.Pairwise fun left right => left.seq < right.seq)
    (own : ∀ event ∈ world.events, event.identity = identity)
    (closed : ∀ event ∈ world.events, event.seq = snapshot.cursor.checkpointSeq →
      event.eventType ≠ "node.completed")
    (rebuilt : rebuild kernel identity snapshot world.events = .ok (state, pending)) :
    ∃ again after, execute (runHost around identity)
        (replayEvents kernel identity fence snapshot) world = (.returned (again, pending), after) ∧
      SameRun again state := by
  have listed : (runHost around identity).perform world
      (.listAfter (snapshot.cursor.checkpointSeq - 1)) =
      (.ok (world.events.filter fun event => snapshot.cursor.checkpointSeq - 1 < event.seq), world.tick) := by
    simp only [runHost, perform, performListAfter, steady.stores]
  have sorted : sortEvents (world.events.filter fun event =>
      snapshot.cursor.checkpointSeq - 1 < event.seq) =
      world.events.filter fun event => snapshot.cursor.checkpointSeq - 1 < event.seq := by
    refine List.Pairwise.insertionSort_eq ((ascending.filter _).imp ?_)
    exact fun apart => Nat.le_of_lt apart
  unfold replayEvents await
  rw [execute_await (steady.alive world.clock) listed, sorted]
  refine replayLoop_rebuilds steady world.tick snapshot snapshot none
    (fun event found => own event (List.mem_filter.mp found).1)
    (fun event found => closed event (List.mem_filter.mp found).1) (SameRun.refl snapshot) ?_
  rw [filter_filter]
  refine Eq.trans (congrArg (fun events => events.foldlM (rebuildStep kernel identity)
    (snapshot, none)) (filter_congr fun event _ => ?_)) rebuilt
  simp only [Bool.and_eq_left_iff_imp, decide_eq_true_eq]
  omega

end QiongQi.KernelReplay
