import QiongQi.EffectCalls
import QiongQi.ThreadUpdates

/-! How turns end. `TurnService` records an event when a turn is interrupted and when it is
finished, and neither call looks at how far the turn has come: what they do to the abort
controller and the steering queue is left to `TurnSteering`. -/
namespace QiongQi.TurnEndings
open Machines EffectCalls ThreadRecords ThreadOperations
open List hiding after

inductive TurnEventKind where
  | turnStarted | turnCompleted | turnFailed | turnAborted
  deriving DecidableEq

def TurnEventKind.isTerminal : TurnEventKind → Bool
  | .turnStarted => false
  | .turnCompleted | .turnFailed | .turnAborted => true

structure TurnEvent where
  kind : TurnEventKind
  turnId : String
  deriving DecidableEq

/-- A call with the times at which it looks at the clock. -/
inductive TurnRequest where
  | startTurn (request : StartTurnRequest) (createdAt startedAt now : String)
  | interruptTurn (turnId : String) (discard : Bool) (finishedAt now : String)
  | finishTurn (turnId : String) (status : FinalStatus) (error : Option String)
      (finishedAt now failedAt projectedAt : String)

/-- What a call awaits: a mutation in the queue of the thread, which has the record to itself
from read to write, or an event. -/
inductive TurnEffect where
  | upsertThread (operation : ThreadOperation)
  | record (event : TurnEvent)
  deriving DecidableEq

structure TurnState where
  thread : ThreadRecord
  events : List TurnEvent := []

def perform (toLowerCase : String → String) (state : TurnState) : TurnEffect → TurnState
  | .upsertThread operation =>
    { state with thread := (apply toLowerCase operation state.thread).getD state.thread }
  | .record event => { state with events := state.events ++ [event] }

def finishedKind : FinalStatus → TurnEventKind
  | .completed => .turnCompleted
  | .aborted => .turnAborted
  | .failed => .turnFailed

def startTurn (request : StartTurnRequest) (createdAt startedAt now : String)
    (thread : ThreadRecord) : List TurnEffect :=
  [.upsertThread (settle (.startTurn request createdAt startedAt now) thread),
   .record ⟨.turnStarted, request.turnId⟩]

def interruptTurn (turnId : String) (discard : Bool) (finishedAt now : String) : List TurnEffect :=
  [.record ⟨.turnAborted, turnId⟩, .upsertThread (.plain (.interruptTurn turnId discard finishedAt now))]

/-- The error item of a failed turn is added last. -/
def finishTurn (turnId : String) (status : FinalStatus) (error : Option String)
    (finishedAt now failedAt projectedAt : String) : List TurnEffect :=
  let errorItem := (truthy error).map fun message =>
    TurnEffect.upsertThread (.plain (.projectItem (makeErrorItem turnId message failedAt) projectedAt))
  [.upsertThread (.plain (.finishTurn turnId status error finishedAt now)),
   .record ⟨finishedKind status, turnId⟩] ++ errorItem.toList

def turnEffects : TurnRequest → TurnState → List TurnEffect
  | .startTurn request createdAt startedAt now, state =>
    startTurn request createdAt startedAt now state.thread
  | .interruptTurn turnId discard finishedAt now, _ => interruptTurn turnId discard finishedAt now
  | .finishTurn turnId status error finishedAt now failedAt projectedAt, _ =>
    finishTurn turnId status error finishedAt now failedAt projectedAt

def turnProtocol (toLowerCase : String → String) : Protocol TurnRequest TurnEffect TurnState where
  effects := turnEffects
  perform := perform toLowerCase

def TurnStatus.isTerminal : TurnStatus → Bool
  | .queued | .running => false
  | .completed | .failed | .aborted => true

def statusOf (thread : ThreadRecord) (turnId : String) : Option TurnStatus :=
  (thread.turns.find? (·.id = turnId)).map (·.status)

/-- The stored turn has a terminal status. -/
def Ended (thread : ThreadRecord) (turnId : String) : Prop :=
  (statusOf thread turnId).any TurnStatus.isTerminal = true

instance (thread : ThreadRecord) (turnId : String) : Decidable (Ended thread turnId) :=
  inferInstanceAs (Decidable (_ = true))

def TurnRequest.ends (turnId : String) : TurnRequest → Bool
  | .startTurn _ _ _ _ => false
  | .interruptTurn id _ _ _ | .finishTurn id _ _ _ _ _ _ => id = turnId

def TurnEvent.ends (turnId : String) (event : TurnEvent) : Bool :=
  event.kind.isTerminal && event.turnId = turnId

def TurnEffect.announces (turnId : String) : TurnEffect → Bool
  | .record event => event.ends turnId
  | .upsertThread _ => false

def TurnEffect.finalizes (turnId : String) : TurnEffect → Bool
  | .upsertThread (.plain (.interruptTurn id _ _ _))
  | .upsertThread (.plain (.finishTurn id _ _ _ _)) => id = turnId
  | _ => false

variable {toLowerCase : String → String} {turnId : String}

theorem announces_once (request : TurnRequest) (state : TurnState) :
    ((turnProtocol toLowerCase).effects request state).countP (TurnEffect.announces turnId) =
      if request.ends turnId then 1 else 0 := by
  cases request with
  | startTurn request createdAt startedAt now => rfl
  | interruptTurn id discard finishedAt now =>
    show List.countP _ (interruptTurn id discard finishedAt now) = _
    simp [interruptTurn, countP_cons, TurnEffect.announces, TurnEvent.ends, TurnRequest.ends,
      TurnEventKind.isTerminal]
  | finishTurn id status error finishedAt now failedAt projectedAt =>
    show List.countP _ (finishTurn id status error finishedAt now failedAt projectedAt) = _
    have terminal : (finishedKind status).isTerminal = true := by cases status <;> rfl
    cases message : truthy error <;>
      simp [finishTurn, countP_cons, TurnEffect.announces, TurnEvent.ends, TurnRequest.ends,
        terminal, message]

theorem finalizes_once (request : TurnRequest) (state : TurnState) :
    ((turnProtocol toLowerCase).effects request state).countP (TurnEffect.finalizes turnId) =
      if request.ends turnId then 1 else 0 := by
  cases request with
  | startTurn request createdAt startedAt now => rfl
  | interruptTurn id discard finishedAt now =>
    show List.countP _ (interruptTurn id discard finishedAt now) = _
    simp [interruptTurn, countP_cons, TurnEffect.finalizes, TurnRequest.ends]
  | finishTurn id status error finishedAt now failedAt projectedAt =>
    show List.countP _ (finishTurn id status error finishedAt now failedAt projectedAt) = _
    cases message : truthy error <;>
      simp [finishTurn, countP_cons, TurnEffect.finalizes, TurnRequest.ends, message]

/-- The events are those that have been performed. -/
theorem events_count (effects : List TurnEffect) (state : TurnState) :
    (effects.foldl (perform toLowerCase) state).events.countP (TurnEvent.ends turnId) =
      state.events.countP (TurnEvent.ends turnId) + effects.countP (TurnEffect.announces turnId) := by
  induction effects generalizing state with
  | nil => rfl
  | cons effect rest ih =>
    rw [foldl_cons, ih, countP_cons]
    cases effect with
    | upsertThread operation => simp [perform, TurnEffect.announces]
    | record event =>
      by_cases ends : event.ends turnId = true
      · simp only [perform, TurnEffect.announces, countP_append, countP_singleton, ends, if_true]
        omega
      · simp only [perform, TurnEffect.announces, countP_append, countP_singleton, ends,
          Bool.false_eq_true, if_false]
        omega

theorem find_onTurn {id : String} (kept : ∀ turn, turn.id = id → (change turn).id = id) :
    (onTurn id change turns).find? (·.id = turnId) =
      (turns.find? (·.id = turnId)).map fun turn => if id = turnId then change turn else turn := by
  induction turns with
  | nil => rfl
  | cons turn rest ih =>
    have step : onTurn id change (turn :: rest) =
        (if turn.id = id then change turn else turn) :: onTurn id change rest := rfl
    rw [step]
    by_cases changed : turn.id = id
    · have sameId := kept turn changed
      by_cases here : id = turnId
      · simp [changed, sameId, here]
      · rw [if_pos changed, find?_cons_of_neg (by simpa [sameId] using here), ih,
          find?_cons_of_neg (by simpa [changed] using here)]
    · by_cases here : turn.id = turnId
      · have apart : id ≠ turnId := fun same => changed (here.trans same.symm)
        rw [if_neg changed]
        simp [here, apart]
      · rw [if_neg changed, find?_cons_of_neg (by simpa using here), ih,
          find?_cons_of_neg (by simpa using here)]

theorem status_frame (applied : apply toLowerCase operation current = some after)
    (unset : sets toLowerCase operation current .turns = false) :
    statusOf after turnId = statusOf current turnId := by
  have same : current.turns = after.turns := ThreadUpdates.apply_frame applied unset
  rw [statusOf, statusOf, same]

theorem status_finished (status : FinalStatus) (error : Option String) (finishedAt : String) (turn : Turn) :
    (finishedTurn status error finishedAt turn).id = turn.id ∧
      (finishedTurn status error finishedAt turn).status = status.turnStatus := by
  unfold finishedTurn
  cases truthy error <;> exact ⟨rfl, rfl⟩

theorem status_interrupted (discard : Bool) (finishedAt : String) (turn : Turn) :
    (interruptedTurn discard finishedAt turn).id = turn.id ∧
      (interruptedTurn discard finishedAt turn).status = .aborted := by
  cases discard <;> exact ⟨rfl, rfl⟩

theorem status_appended (turn : Turn) (item : TurnItems.TurnItem) :
    (appendTurnItem turn item).id = turn.id ∧ (appendTurnItem turn item).status = turn.status := by
  unfold appendTurnItem
  split <;> exact ⟨rfl, rfl⟩

theorem status_onTurn {id : String} (kept : ∀ turn, turn.id = id → (change turn).id = id)
    (stored : thread.turns = onTurn id change turns) :
    statusOf thread turnId = (turns.find? (·.id = turnId)).map fun turn =>
      if id = turnId then (change turn).status else turn.status := by
  rw [statusOf, stored, find_onTurn kept, Option.map_map]
  congr 1
  funext turn
  by_cases here : id = turnId <;> simp [here]

theorem status_started :
    statusOf (startedThread toLowerCase current request workModeId createdAt startedAt now) turnId =
      (statusOf current turnId).or (if request.turnId = turnId then some .running else none) := by
  have sameId : (ThreadRecords.startTurn (appendTurnItem (preparedTurn current.id workModeId request
      createdAt) (userItem request createdAt)) startedAt).id = request.turnId :=
    (status_appended _ _).1
  unfold statusOf startedThread
  rw [find?_append, Option.map_or]
  congr 1
  by_cases here : request.turnId = turnId
  · rw [if_pos here, find?_cons_of_pos (by simpa [sameId] using here)]
    rfl
  · rw [if_neg here, find?_cons_of_neg (by simpa [sameId] using here)]
    rfl

theorem status_projected :
    statusOf { touchThread current now with turns := projectedTurns item current.turns } turnId =
      statusOf current turnId := by
  cases found : current.turns.find? (·.id = item.turnId) with
  | none =>
    have same : projectedTurns item current.turns = current.turns := by rw [projectedTurns, found]
    rw [statusOf, statusOf]
    simp only [same]
  | some turn =>
    have named : turn.id = item.turnId := by simpa using find?_some found
    have stored : projectedTurns item current.turns =
        onTurn item.turnId (fun _ => appendTurnItem turn item) current.turns := by
      rw [projectedTurns, found]
    rw [status_onTurn (fun _ _ => (status_appended turn item).1.trans named) stored]
    by_cases here : item.turnId = turnId
    · subst here
      rw [statusOf, found]
      simp [(status_appended turn item).2]
    · simp [here, statusOf]

variable {effect : TurnEffect} {state : TurnState} {effects : List TurnEffect}

/-- An effect that does not finalize the turn leaves its status, or stores the turn as running. -/
theorem status_kept (keeps : effect.finalizes turnId = false) :
    statusOf (perform toLowerCase state effect).thread turnId = statusOf state.thread turnId ∨
      statusOf state.thread turnId = none ∧
        statusOf (perform toLowerCase state effect).thread turnId = some .running := by
  cases effect with
  | record event => exact .inl rfl
  | upsertThread operation =>
    simp only [perform]
    cases applied : apply toLowerCase operation state.thread with
    | none => exact .inl rfl
    | some after =>
      rw [Option.getD_some]
      cases operation with
      | startTurn request workModeId createdAt startedAt now =>
        cases applied
        rw [status_started]
        cases statusOf state.thread turnId with
        | some status => exact .inl rfl
        | none =>
          by_cases here : request.turnId = turnId
          · exact .inr ⟨rfl, by rw [if_pos here]; rfl⟩
          · exact .inl (by rw [if_neg here]; rfl)
      | plain request =>
        cases request with
        | finishTurn id status error finishedAt now =>
          have apart : ¬ id = turnId := by simpa [TurnEffect.finalizes] using keeps
          cases applied
          rw [status_onTurn (fun turn named => (status_finished status error finishedAt turn).1.trans
            named) rfl]
          simp [apart, statusOf]
        | interruptTurn id discard finishedAt now =>
          have apart : ¬ id = turnId := by simpa [TurnEffect.finalizes] using keeps
          cases applied
          unfold interruptedThread
          split
          · rw [status_onTurn (fun turn named => (status_interrupted discard finishedAt turn).1.trans
              named) rfl]
            simp [apart, statusOf]
          · exact .inl rfl
        | projectItem item now =>
          cases applied
          exact .inl status_projected
        | _ => exact .inl (status_frame applied rfl)

/-- An effect that finalizes a stored turn gives it a terminal status. -/
theorem ended_finalized (finalizes : effect.finalizes turnId = true) {status : TurnStatus}
    (stored : statusOf state.thread turnId = some status) :
    Ended (perform toLowerCase state effect).thread turnId := by
  obtain ⟨turn, found, -⟩ := Option.map_eq_some_iff.mp stored
  cases effect with
  | record event => cases finalizes
  | upsertThread operation =>
    cases operation with
    | startTurn request workModeId createdAt startedAt now => cases finalizes
    | plain request =>
      cases request with
      | finishTurn id status error finishedAt now =>
        obtain rfl : id = turnId := by simpa [TurnEffect.finalizes] using finalizes
        show Option.any _ (statusOf { touchThread state.thread now with
          turns := onTurn id (finishedTurn status error finishedAt) state.thread.turns
          status := .idle } id) = true
        rw [status_onTurn (fun turn named =>
          (status_finished status error finishedAt turn).1.trans named) rfl, found]
        simp only [Option.map_some, if_true, (status_finished status error finishedAt turn).2]
        cases status <;> rfl
      | interruptTurn id discard finishedAt now =>
        obtain rfl : id = turnId := by simpa [TurnEffect.finalizes] using finalizes
        have present : hasTurn state.thread id = true := by
          rw [hasTurn, any_eq_true]
          exact ⟨turn, mem_of_find?_eq_some found, by simpa using find?_some found⟩
        show Option.any _ (statusOf (interruptedThread state.thread id discard finishedAt now) id) = true
        rw [interruptedThread, if_pos present, status_onTurn
          (fun turn named => (status_interrupted discard finishedAt turn).1.trans named) rfl, found]
        simp only [Option.map_some, if_true, (status_interrupted discard finishedAt turn).2]
        rfl
      | _ => cases finalizes

theorem stored_of_ended (ended : Ended thread turnId) :
    ∃ status, statusOf thread turnId = some status := by
  unfold Ended at ended
  cases stored : statusOf thread turnId with
  | none =>
    rw [stored] at ended
    cases ended
  | some status => exact ⟨status, rfl⟩

theorem ended_kept (ended : Ended state.thread turnId) :
    Ended (effects.foldl (perform toLowerCase) state).thread turnId := by
  induction effects generalizing state with
  | nil => exact ended
  | cons effect rest ih =>
    apply ih
    by_cases finalizes : effect.finalizes turnId = true
    · obtain ⟨status, stored⟩ := stored_of_ended ended
      exact ended_finalized finalizes stored
    · rcases status_kept (eq_false_of_ne_true finalizes) with same | ⟨missing, -⟩
      · rw [Ended, same]
        exact ended
      · rw [Ended, missing] at ended
        cases ended

private theorem keeps_of_count (none : (effect :: rest).countP (TurnEffect.finalizes turnId) = 0) :
    effect.finalizes turnId = false ∧ rest.countP (TurnEffect.finalizes turnId) = 0 := by
  obtain ⟨keeps, others⟩ := forall_mem_cons.mp (countP_eq_zero.mp none)
  exact ⟨eq_false_of_ne_true keeps, countP_eq_zero.mpr others⟩

theorem stored_kept (none : effects.countP (TurnEffect.finalizes turnId) = 0)
    (stored : statusOf state.thread turnId = some status) :
    statusOf (effects.foldl (perform toLowerCase) state).thread turnId = some status := by
  induction effects generalizing state with
  | nil => exact stored
  | cons effect rest ih =>
    obtain ⟨keeps, others⟩ := keeps_of_count none
    apply ih others
    rcases status_kept keeps with same | ⟨missing, -⟩
    · exact same.trans stored
    · rw [missing] at stored
      cases stored

theorem unended_kept (none : effects.countP (TurnEffect.finalizes turnId) = 0)
    (running : ¬ Ended state.thread turnId) :
    ¬ Ended (effects.foldl (perform toLowerCase) state).thread turnId := by
  induction effects generalizing state with
  | nil => exact running
  | cons effect rest ih =>
    obtain ⟨keeps, others⟩ := keeps_of_count none
    apply ih others
    unfold Ended at running ⊢
    rcases status_kept keeps with same | ⟨-, started⟩
    · rw [same]
      exact running
    · rw [started]
      decide

/-- Once the stored status of the turn is terminal it stays as it is, and then one event of the
run announces the end of the turn. -/
structure EndsOnce (toLowerCase : String → String) (turnId : String) (initial : TurnState)
    (actions : List (Action TurnRequest)) (world : World TurnRequest TurnEffect TurnState) : Prop where
  stable : ∀ front later rest before after, actions = front ++ later ++ rest →
    runActions (step (turnProtocol toLowerCase)) { state := initial } front = some before →
    runActions (step (turnProtocol toLowerCase)) before later = some after →
    Ended before.state.thread turnId →
      statusOf after.state.thread turnId = statusOf before.state.thread turnId
  announced : Ended world.state.thread turnId → world.state.events.countP (TurnEvent.ends turnId) = 1

variable {initial : ThreadRecord} {actions : List (Action TurnRequest)}
  {world : World TurnRequest TurnEffect TurnState}

/-- When all calls are through, each of them that ends the turn has recorded an event. -/
theorem announced_per_call
    (ran : runActions (step (turnProtocol toLowerCase)) { state := { thread := initial } } actions =
      some world) (settled : world.Settled) :
    world.state.events.countP (TurnEvent.ends turnId) =
      world.calls.countP fun call => call.request.ends turnId := by
  have accounted := accounted_run ran
  have recorded := @events_count toLowerCase turnId world.performed { thread := initial }
  have state : world.state = world.performed.foldl (perform toLowerCase) { thread := initial } :=
    accounted.state
  rw [← state, countP_nil, Nat.zero_add] at recorded
  rw [recorded, count_settled accounted settled, due_eq announces_once accounted]

/-- A turn of the run ends once exactly when, if it ends at all, one call of `interruptTurn` or
`finishTurn` was made for it. -/
theorem turn_ends_once_iff (toLowerCase : String → String) (turnId : String) (initial : ThreadRecord)
    (actions : List (Action TurnRequest)) (world : World TurnRequest TurnEffect TurnState)
    (fresh : statusOf initial turnId = none)
    (ran : runActions (step (turnProtocol toLowerCase)) { state := { thread := initial } } actions =
      some world) (settled : world.Settled) :
    EndsOnce toLowerCase turnId { thread := initial } actions world ↔ (Ended world.state.thread turnId →
        (world.calls.countP fun call => call.request.ends turnId) = 1) := by
  have announced := @announced_per_call toLowerCase turnId initial actions world ran settled
  constructor
  · intro once ended
    rw [← announced]
    exact once.announced ended
  · intro single
    refine ⟨?_, fun ended => announced.trans (single ended)⟩
    intro front later rest before after split ranFront ranLater ended
    subst split
    obtain ⟨last, ranRest, ranLast⟩ : ∃ last,
        runActions (step (turnProtocol toLowerCase)) { state := { thread := initial } }
          (front ++ later) = some last ∧ runActions (step (turnProtocol toLowerCase)) last rest =
            some world := by
      rw [runActions_append] at ran
      exact Option.bind_eq_some_iff.mp ran
    obtain rfl : last = after := by
      rw [runActions_append, ranFront, Option.bind_some, ranLater] at ranRest
      exact (Option.some.inj ranRest).symm
    obtain ⟨between, performed, reached⟩ := performed_prefix ranLater
    obtain ⟨beyond, performedAll, reachedAll⟩ := performed_prefix ranLast
    have endedLast : Ended world.state.thread turnId := by
      rw [reachedAll, reached]
      exact ended_kept (ended_kept ended)
    have accounted := accounted_run ran
    have total : world.performed.countP (TurnEffect.finalizes turnId) = 1 := by
      rw [count_settled accounted settled, due_eq finalizes_once accounted]
      exact single endedLast
    -- the one finalizing effect comes before the turn has ended
    have first : before.performed.countP (TurnEffect.finalizes turnId) ≠ 0 := by
      intro none
      have start : ¬ Ended initial turnId := by
        rw [Ended, fresh]
        decide
      have state : before.state = before.performed.foldl (perform toLowerCase) { thread := initial } :=
        (accounted_run ranFront).state
      have running := @unended_kept toLowerCase turnId { thread := initial } _ none start
      rw [← state] at running
      exact running ended
    rw [performedAll, performed, countP_append, countP_append] at total
    have none : between.countP (TurnEffect.finalizes turnId) = 0 := by omega
    obtain ⟨status, stored⟩ := stored_of_ended ended
    rw [reached, stored]
    exact stored_kept none stored

private def idleThread : ThreadRecord :=
  { id := "thr_1", title := "New chat", workspace := "/work", model := "m"
    createdAt := "t0", updatedAt := "t0" }

private def ask : TurnRequest := .startTurn { turnId := "turn_1", prompt := "hi" } "t1" "t1" "t1"

private def complete : TurnRequest := .finishTurn "turn_1" .completed none "t2" "t2" "t2" "t2"

private def stop : TurnRequest := .interruptTurn "turn_1" false "t3" "t3"

/-- A turn that is started and finished, with nobody to interrupt it. -/
theorem turn_ends_once_alone :
    ∃ world, runActions (step (turnProtocol String.toLower)) { state := { thread := idleThread } }
        [.open ask, .proceed 0, .proceed 0, .open complete, .proceed 1, .proceed 1] = some world ∧
      statusOf world.state.thread "turn_1" = some .completed ∧
      (EndsOnce String.toLower "turn_1" { thread := idleThread }
        [.open ask, .proceed 0, .proceed 0, .open complete, .proceed 1, .proceed 1] world ↔
          (Ended world.state.thread "turn_1" →
            (world.calls.countP fun call => call.request.ends "turn_1") = 1)) :=
  ⟨_, rfl, by decide, turn_ends_once_iff String.toLower "turn_1" idleThread
      [.open ask, .proceed 0, .proceed 0, .open complete, .proceed 1, .proceed 1] _
      (by decide) rfl (by decide)⟩

/-- The loop finishes the turn, and an interrupt that comes after it makes it an aborted one
and records a second event. -/
theorem completed_turn_aborted :
    ∃ world, runActions (step (turnProtocol String.toLower)) { state := { thread := idleThread } }
        [.open ask, .proceed 0, .proceed 0, .open complete, .proceed 1, .proceed 1, .open stop,
          .proceed 2, .proceed 2] = some world ∧
      world.Settled ∧ statusOf world.state.thread "turn_1" = some .aborted ∧
      world.state.events = [⟨.turnStarted, "turn_1"⟩, ⟨.turnCompleted, "turn_1"⟩, ⟨.turnAborted, "turn_1"⟩] ∧
      ¬ EndsOnce String.toLower "turn_1" { thread := idleThread }
        [.open ask, .proceed 0, .proceed 0, .open complete, .proceed 1, .proceed 1, .open stop,
          .proceed 2, .proceed 2] world := by
  refine ⟨_, rfl, by decide, by decide, by decide, fun once => ?_⟩
  have kept := once.stable [.open ask, .proceed 0, .proceed 0, .open complete, .proceed 1, .proceed 1]
    [.open stop, .proceed 2, .proceed 2] [] _ _ rfl rfl rfl (by decide)
  exact absurd kept (by decide)

end QiongQi.TurnEndings
