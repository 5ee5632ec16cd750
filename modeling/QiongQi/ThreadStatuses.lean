import QiongQi.TurnEndings

/-! The status of a thread beside the statuses of its turns. The calls of `TurnService` set
the status of the thread from the turn that they are for. -/
namespace QiongQi.ThreadStatuses
open Machines EffectCalls ThreadRecords ThreadOperations TurnEndings

/-- The thread is running just while one of its turns is. -/
def Reflects (thread : ThreadRecord) : Prop :=
  thread.status = .running ↔ ∃ turn ∈ thread.turns, turn.status = .running

instance (thread : ThreadRecord) : Decidable (Reflects thread) :=
  inferInstanceAs (Decidable (_ ↔ _))

/-- No turn of another id is running. -/
def OnlyRunning (thread : ThreadRecord) (turnId : String) : Prop :=
  ∀ turn ∈ thread.turns, turn.status = .running → turn.id = turnId

instance (thread : ThreadRecord) (turnId : String) : Decidable (OnlyRunning thread turnId) :=
  inferInstanceAs (Decidable (∀ turn ∈ thread.turns, _))

/-- The effect ends no turn while another one is running. An item is put to the first turn of
its id, which takes the place of every turn with that id. -/
def Quiet (thread : ThreadRecord) : TurnEffect → Prop
  | .upsertThread (.plain (.finishTurn turnId _ _ _ _)) => OnlyRunning thread turnId
  | .upsertThread (.plain (.interruptTurn turnId _ _ _)) =>
    hasTurn thread turnId = true → OnlyRunning thread turnId
  | .upsertThread (.plain (.projectItem item _)) =>
    (∃ turn ∈ thread.turns, turn.status = .running) →
      OnlyRunning thread item.turnId → statusOf thread item.turnId = some .running
  | _ => True

instance (thread : ThreadRecord) : ∀ effect, Decidable (Quiet thread effect)
  | .record _ => .isTrue trivial
  | .upsertThread (.startTurn ..) => .isTrue trivial
  | .upsertThread (.plain (.finishTurn turnId _ _ _ _)) =>
    inferInstanceAs (Decidable (OnlyRunning thread turnId))
  | .upsertThread (.plain (.interruptTurn turnId _ _ _)) =>
    inferInstanceAs (Decidable (hasTurn thread turnId = true → OnlyRunning thread turnId))
  | .upsertThread (.plain (.projectItem item _)) =>
    inferInstanceAs (Decidable ((∃ turn ∈ thread.turns, turn.status = .running) →
      OnlyRunning thread item.turnId → statusOf thread item.turnId = some .running))
  | .upsertThread (.plain (.update ..)) => .isTrue trivial
  | .upsertThread (.plain (.setGoal ..)) => .isTrue trivial
  | .upsertThread (.plain (.setTodos ..)) => .isTrue trivial
  | .upsertThread (.plain (.finishGoalElapsedTimer ..)) => .isTrue trivial
  | .upsertThread (.plain (.startTurn ..)) => .isTrue trivial

/-- The effects of the three calls. -/
def ofTurns : TurnEffect → Bool
  | .record _ | .upsertThread (.startTurn ..) => true
  | .upsertThread (.plain (.finishTurn ..)) | .upsertThread (.plain (.interruptTurn ..)) => true
  | .upsertThread (.plain (.projectItem ..)) => true
  | _ => false

theorem effects_ofTurns : ∀ effect ∈ turnEffects request state, ofTurns effect = true := by
  cases request with
  | startTurn request createdAt startedAt now =>
    intro effect held
    simp only [turnEffects, TurnEndings.startTurn, settle, List.mem_cons, List.not_mem_nil, or_false] at held
    rcases held with rfl | rfl <;> rfl
  | interruptTurn turnId discard finishedAt now =>
    intro effect held
    simp only [turnEffects, interruptTurn, List.mem_cons, List.not_mem_nil, or_false] at held
    rcases held with rfl | rfl <;> rfl
  | finishTurn turnId status error finishedAt now failedAt projectedAt =>
    intro effect held
    rcases List.mem_append.mp held with held | held
    · simp only [List.mem_cons, List.not_mem_nil, or_false] at held
      rcases held with rfl | rfl <;> rfl
    · obtain ⟨message, -, rfl⟩ := Option.map_eq_some_iff.mp (Option.mem_toList.mp held)
      rfl

/-- Where the turns of an id have ended, a turn is running if another one was. -/
theorem running_onTurn {id : String} (ended : ∀ turn, (change turn).status ≠ .running) :
    (∃ turn ∈ onTurn id change turns, turn.status = .running) ↔
      ∃ turn ∈ turns, turn.status = .running ∧ turn.id ≠ id := by
  constructor
  · rintro ⟨turn, held, running⟩
    obtain ⟨old, member, rfl⟩ := List.mem_map.mp held
    by_cases same : old.id = id
    · rw [if_pos same] at running
      exact absurd running (ended old)
    · rw [if_neg same] at running
      exact ⟨old, member, running, same⟩
  · rintro ⟨turn, held, running, other⟩
    exact ⟨turn, List.mem_map.mpr ⟨turn, held, if_neg other⟩, running⟩

variable {turnId now : String} {thread : ThreadRecord} {state : TurnState}

theorem onlyRunning_iff : OnlyRunning thread turnId ↔
      ¬ ∃ turn ∈ thread.turns, turn.status = .running ∧ turn.id ≠ turnId := by
  constructor
  · rintro only ⟨turn, held, running, other⟩
    exact other (only turn held running)
  · intro none turn held running
    by_contra other
    exact none ⟨turn, held, running, other⟩

theorem reflects_ended (ended : ∀ turn, (change turn).status ≠ .running)
    (turns : next.turns = onTurn turnId change thread.turns) (idle : next.status = .idle) :
    Reflects next ↔ OnlyRunning thread turnId := by
  rw [Reflects, turns, idle, running_onTurn ended, onlyRunning_iff]
  simp

theorem finished_ended (finishedAt : String) (turn : Turn) :
    (finishedTurn status error finishedAt turn).status ≠ .running := by
  rw [(status_finished status error finishedAt turn).2]
  cases status <;> exact TurnStatus.noConfusion

theorem interrupted_ended (discard : Bool) (turn : Turn) :
    (interruptedTurn discard finishedAt turn).status ≠ .running := by
  exact TurnStatus.noConfusion

theorem mem_of_status (stored : statusOf thread turnId = some status) :
    ∃ turn ∈ thread.turns, turn.id = turnId ∧ turn.status = status := by
  obtain ⟨turn, found, same⟩ := Option.map_eq_some_iff.mp stored
  exact ⟨turn, List.mem_of_find?_eq_some found, by simpa using List.find?_some found, same⟩

/-- After an item is put to a turn, a turn is running if one of another id was, or the first
of that id. -/
theorem running_projected : (∃ turn ∈ projectedTurns item thread.turns, turn.status = .running) ↔
      (∃ turn ∈ thread.turns, turn.status = .running ∧ turn.id ≠ item.turnId) ∨
        statusOf thread item.turnId = some .running := by
  cases found : thread.turns.find? (·.id = item.turnId) with
  | none =>
    have same : projectedTurns item thread.turns = thread.turns := by rw [projectedTurns, found]
    have none : statusOf thread item.turnId = none := by rw [statusOf, found]; rfl
    rw [same, none]
    constructor
    · rintro ⟨turn, held, running⟩
      refine .inl ⟨turn, held, running, fun named => ?_⟩
      have missing := List.find?_eq_none.mp found turn held
      simp [named] at missing
    · rintro (⟨turn, held, running, -⟩ | none)
      · exact ⟨turn, held, running⟩
      · cases none
  | some first =>
    have stored : projectedTurns item thread.turns =
        onTurn item.turnId (fun _ => appendTurnItem first item) thread.turns := by
      rw [projectedTurns, found]
    have status : statusOf thread item.turnId = some first.status := by rw [statusOf, found]; rfl
    have named : first.id = item.turnId := by simpa using List.find?_some found
    rw [stored, status, Option.some.injEq]
    constructor
    · rintro ⟨turn, held, running⟩
      obtain ⟨old, member, rfl⟩ := List.mem_map.mp held
      by_cases same : old.id = item.turnId
      · rw [if_pos same, (status_appended first item).2] at running
        exact .inr running
      · rw [if_neg same] at running
        exact .inl ⟨old, member, running, same⟩
    · rintro (⟨turn, held, running, other⟩ | running)
      · exact ⟨turn, List.mem_map.mpr ⟨turn, held, if_neg other⟩, running⟩
      · refine ⟨appendTurnItem first item, List.mem_map.mpr ⟨first, ?_, if_pos named⟩, ?_⟩
        · exact List.mem_of_find?_eq_some found
        · rw [(status_appended first item).2]
          exact running

variable {toLowerCase : String → String}

theorem quiet_finish : OnlyRunning state.thread turnId ↔ Reflects { touchThread state.thread now with
        turns := onTurn turnId (finishedTurn status error finishedAt) state.thread.turns
        status := .idle } :=
  (reflects_ended (finished_ended finishedAt) rfl rfl).symm

theorem quiet_interrupt {discard : Bool} (right : Reflects state.thread) :
    (hasTurn state.thread turnId = true → OnlyRunning state.thread turnId) ↔
      Reflects (interruptedThread state.thread turnId discard finishedAt now) := by
  rw [interruptedThread]
  by_cases present : hasTurn state.thread turnId = true
  · rw [if_pos present, reflects_ended (interrupted_ended discard) rfl rfl]
    exact ⟨fun quiet => quiet present, fun only _ => only⟩
  · rw [if_neg present]
    exact iff_of_true (fun held => absurd held present) right

theorem quiet_project (right : Reflects state.thread) :
    ((∃ turn ∈ state.thread.turns, turn.status = .running) → OnlyRunning state.thread item.turnId →
          statusOf state.thread item.turnId = some .running) ↔
      Reflects { touchThread state.thread now with
        turns := projectedTurns item state.thread.turns } := by
  have written : Reflects { touchThread state.thread now with
        turns := projectedTurns item state.thread.turns } ↔
      (state.thread.status = .running ↔
        ∃ turn ∈ projectedTurns item state.thread.turns, turn.status = .running) := Iff.rfl
  have before : state.thread.status = .running ↔ ∃ turn ∈ state.thread.turns, turn.status = .running := right
  rw [written, before, running_projected, onlyRunning_iff]
  constructor
  · intro quiet
    constructor
    · intro running
      by_cases other : ∃ turn ∈ state.thread.turns, turn.status = .running ∧ turn.id ≠ item.turnId
      · exact .inl other
      · exact .inr (quiet running other)
    · rintro (⟨turn, held, running, -⟩ | first)
      · exact ⟨turn, held, running⟩
      · obtain ⟨turn, held, -, running⟩ := mem_of_status first
        exact ⟨turn, held, running⟩
  · intro same running only
    exact (same.mp running).resolve_left only

/-- Where the status of the thread is right, an effect keeps it right just where it is quiet. -/
theorem quiet_iff (right : Reflects state.thread) (known : ofTurns effect = true) :
    Quiet state.thread effect ↔ Reflects (perform toLowerCase state effect).thread := by
  cases effect with
  | record event => exact iff_of_true trivial right
  | upsertThread operation =>
    cases operation with
    | startTurn request workModeId createdAt startedAt now =>
      have running : Reflects
          (startedThread toLowerCase state.thread request workModeId createdAt startedAt now) :=
        iff_of_true rfl ⟨_, List.mem_append_right _ List.mem_cons_self, rfl⟩
      exact iff_of_true trivial running
    | plain request =>
      cases request with
      | finishTurn turnId status error finishedAt now => exact quiet_finish
      | interruptTurn turnId discard finishedAt now => exact quiet_interrupt right
      | projectItem item now => exact quiet_project right
      | update | setGoal | setTodos | finishGoalElapsedTimer | startTurn => cases known

/-- The effect that a step performs, if it performs one. -/
def nextEffect (world : World TurnRequest TurnEffect TurnState) :
    Action TurnRequest → Option TurnEffect
  | .open _ => none
  | .proceed index => world.calls[index]?.bind fun call => call.remaining.head?

/-- No turn is ended while another one is running. -/
def quiet (world : World TurnRequest TurnEffect TurnState) (action : Action TurnRequest) : Prop :=
  ∀ effect ∈ nextEffect world action, Quiet world.state.thread effect

instance (world : World TurnRequest TurnEffect TurnState) (action : Action TurnRequest) :
    Decidable (quiet world action) :=
  inferInstanceAs (Decidable (∀ effect ∈ nextEffect world action, _))

/-- What the calls have yet to do are effects of theirs. -/
def Ready (world : World TurnRequest TurnEffect TurnState) : Prop :=
  ∀ call ∈ world.calls, ∀ effect ∈ call.remaining, ofTurns effect = true

section
variable (world : World TurnRequest TurnEffect TurnState)
variable (action : Action TurnRequest)
variable (next : World TurnRequest TurnEffect TurnState)
include world action next

theorem ready_step (ready : Ready world)
    (stepped : step (turnProtocol toLowerCase) world action = some next) : Ready next := by
  rcases step_cases stepped with ⟨request, -, rfl⟩ |
    ⟨front, back, request, effects, effect, rest, calls, rfl⟩
  · intro call held
    rcases List.mem_append.mp held with earlier | last
    · exact ready call earlier
    · cases List.mem_singleton.mp last
      exact effects_ofTurns
  · have known := ready
    rw [Ready, calls] at known
    intro call held
    rcases List.mem_append.mp held with earlier | later
    · exact known call (List.mem_append_left _ earlier)
    rcases List.mem_cons.mp later with rfl | later
    · intro other left
      exact known ⟨request, effects, effect :: rest⟩ (by simp) other (List.mem_cons_of_mem _ left)
    · exact known call (List.mem_append_right _ (List.mem_cons_of_mem _ later))

theorem quiet_step_iff (holds : Ready world ∧ Reflects world.state.thread)
    (stepped : step (turnProtocol toLowerCase) world action = some next) :
    quiet world action ↔ Ready next ∧ Reflects next.state.thread := by
  obtain ⟨ready, right⟩ := holds
  rw [and_iff_right (ready_step world action next ready stepped)]
  cases action with
  | «open» request =>
    cases stepped
    exact iff_of_true (fun effect none => by cases none) right
  | proceed index =>
    rw [step] at stepped
    split at stepped
    · rename_i request effects effect rest found
      cases stepped
      have upcoming : nextEffect world (.proceed index) = some effect := by
        rw [nextEffect, found]
        rfl
      have known := ready _ (List.mem_of_getElem? found) effect List.mem_cons_self
      rw [quiet, upcoming]
      simp only [Option.mem_def, Option.some.injEq, forall_eq']
      exact quiet_iff right known
    · cases stepped

end

/-- Of a thread whose status is right, every state of a run has the right status just where no
turn is ended while another one is running. -/
theorem status_reflects_iff (toLowerCase : String → String) (initial : ThreadRecord)
    (actions : List (Action TurnRequest)) (final : World TurnRequest TurnEffect TurnState)
    (right : Reflects initial)
    (ran : runActions (step (turnProtocol toLowerCase)) { state := { thread := initial } } actions =
      some final) :
    (∀ front back middle, actions = front ++ back →
        runActions (step (turnProtocol toLowerCase)) { state := { thread := initial } } front =
          some middle → Reflects middle.state.thread) ↔
      Along (step (turnProtocol toLowerCase)) quiet { state := { thread := initial } } actions := by
  have start : Ready { state := { thread := initial } } := fun call held => by cases held
  exact along_iff_reached_beside ready_step quiet_step_iff actions start right ran

section Example

private def newThread : ThreadRecord :=
  { id := "thr_1", title := "New chat", workspace := "/work", model := "m"
    createdAt := "t0", updatedAt := "t0" }

private def askAs (turnId now : String) : TurnRequest :=
  .startTurn { turnId, prompt := "hi" } now now now

private def stopAs (turnId now : String) : TurnRequest := .interruptTurn turnId false now now

private def finishAs (turnId : String) (status : FinalStatus) (now : String) : TurnRequest :=
  .finishTurn turnId status none now now now now

private def oneAfterOther : List (Action TurnRequest) :=
  [.open (askAs "turn_1" "t1"), .proceed 0, .proceed 0,
    .open (finishAs "turn_1" .completed "t2"), .proceed 1, .proceed 1,
    .open (askAs "turn_2" "t3"), .proceed 2, .open (stopAs "turn_2" "t4"), .proceed 3, .proceed 2,
    .proceed 3]

theorem status_reflects_turns : ∃ final,
    runActions (step (turnProtocol String.toLower)) { state := { thread := newThread } }
      oneAfterOther = some final ∧
    final.state.thread.turns.map (fun turn => turn.status) = [.completed, .aborted] ∧
    Reflects final.state.thread := by
  have ran : ∃ final, runActions (step (turnProtocol String.toLower))
      { state := { thread := newThread } } oneAfterOther = some final ∧
      final.state.thread.turns.map (fun turn => turn.status) = [.completed, .aborted] :=
    ⟨_, rfl, by decide⟩
  obtain ⟨final, ran, statuses⟩ := ran
  have along : Along (step (turnProtocol String.toLower)) quiet
      { state := { thread := newThread } } oneAfterOther := by decide
  exact ⟨final, ran, statuses,
    (status_reflects_iff String.toLower newThread oneAfterOther final (by decide) ran).mpr along
      oneAfterOther [] final (List.append_nil _).symm ran⟩

/-- A turn is interrupted and the next one is started; then the loop of the first one finishes
it. -/
private def interruptedBefore : List (Action TurnRequest) :=
  [.open (askAs "turn_1" "t1"), .proceed 0, .proceed 0, .open (stopAs "turn_1" "t2"), .proceed 1, .proceed 1,
    .open (askAs "turn_2" "t3"), .proceed 2, .proceed 2,
    .open (finishAs "turn_1" .aborted "t4"), .proceed 3, .proceed 3]

theorem idle_while_running : ∃ final,
    runActions (step (turnProtocol String.toLower)) { state := { thread := newThread } }
      interruptedBefore = some final ∧
    final.state.thread.turns.map (fun turn => (turn.id, turn.status)) =
      [("turn_1", .aborted), ("turn_2", .running)] ∧
    final.state.thread.status = .idle ∧ ¬ Reflects final.state.thread :=
  ⟨_, rfl, by decide⟩

end Example

end QiongQi.ThreadStatuses
