import QiongQi.TurnSteering

/-! Steering reaches the session. Up to the end of the loop every accepted text is in
the session, on its way there, or in the queue; what is still in the queue at the end
is cleared. -/
namespace QiongQi.SteeringDelivery
open Machines RuntimeContracts TurnSteering List

variable {turnId : String} {maxSteps : Nat}

@[simp] theorem waiting_set (queue : SteeringQueue) (texts : List String) :
    (queue.set turnId texts).waiting turnId = texts := by
  have found : find Prod.fst turnId (put Prod.fst (turnId, texts) queue.buffers) =
      some (turnId, texts) := find_put_self Prod.fst (turnId, texts) queue.buffers
  simp [SteeringQueue.waiting, SteeringQueue.buffer, SteeringQueue.set, found]

theorem waiting_set_other (queue : SteeringQueue) (other : target ≠ turnId) :
    (queue.set target texts).waiting turnId = queue.waiting turnId := by
  have same : find Prod.fst turnId (put Prod.fst (target, texts) queue.buffers) =
      find Prod.fst turnId queue.buffers := find_put_other other
  simp [SteeringQueue.waiting, SteeringQueue.buffer, SteeringQueue.set, same]

/-- The trimmed text, unless it is blank. -/
def kept (text : String) : List String :=
  if jsTrim text = "" then [] else [jsTrim text]

section
variable (queue : SteeringQueue)
include queue

theorem waiting_enqueue :
    (queue.enqueue turnId text).waiting turnId = queue.waiting turnId ++ kept text := by
  by_cases blank : jsTrim text = ""
  · simp [SteeringQueue.enqueue, kept, blank]
  · simp only [SteeringQueue.enqueue, kept, if_neg blank, waiting_set]
    rfl

theorem waiting_enqueue_other (text : String) (other : target ≠ turnId) :
    (queue.enqueue target text).waiting turnId = queue.waiting turnId := by
  by_cases blank : jsTrim text = ""
  · simp [SteeringQueue.enqueue, blank]
  · simp only [SteeringQueue.enqueue, if_neg blank]
    exact waiting_set_other queue other

theorem drain_texts : (queue.drain turnId).1 = queue.waiting turnId := by
  unfold SteeringQueue.drain SteeringQueue.waiting
  split <;> rename_i found <;> simp [found]

theorem drain_waiting : (queue.drain turnId).2.waiting turnId = [] := by
  unfold SteeringQueue.drain
  split <;> rename_i found
  · simp [SteeringQueue.waiting, found]
  · simp [SteeringQueue.waiting, found]
  · exact waiting_set queue []

theorem waiting_setTurn : (queue.setTurn turnId).waiting turnId = queue.waiting turnId := by
  unfold SteeringQueue.setTurn
  cases found : queue.buffer turnId with
  | none =>
    have empty : (queue.set turnId []).waiting turnId = [] := waiting_set queue []
    simp only [Option.isSome_none, Bool.false_eq_true, if_false, empty]
    simp [SteeringQueue.waiting, found]
  | some texts => simp

end

/-- The accepted texts that a model step has seen, that are drained since, and that
wait. -/
structure SteeringLedger where
  seen : List String := []
  drained : List String := []
  waiting : List String := []

def SteeringLedger.enter (ledger : SteeringLedger) : TurnObservation → SteeringLedger
  | .accepted text => { ledger with waiting := ledger.waiting ++ kept text }
  | .drained => { ledger with drained := ledger.drained ++ ledger.waiting, waiting := [] }
  | .modelStep _ => { ledger with seen := ledger.seen ++ ledger.drained, drained := [] }
  | .interrupted => ledger

def ledgerOf (trace : List TurnObservation) : SteeringLedger :=
  trace.foldl SteeringLedger.enter {}

@[simp] theorem ledgerOf_append (trace : List TurnObservation) (observation : TurnObservation) :
    ledgerOf (trace ++ [observation]) = (ledgerOf trace).enter observation := by
  simp [ledgerOf]

def SteeringLedger.all (ledger : SteeringLedger) : List String :=
  ledger.seen ++ ledger.drained ++ ledger.waiting

private theorem fold_all (trace : List TurnObservation) : ∀ ledger : SteeringLedger,
    (trace.foldl SteeringLedger.enter ledger).all = ledger.all ++ (accepted trace).flatMap kept := by
  induction trace with
  | nil =>
    intro ledger
    simp [accepted]
  | cons observation rest ih =>
    intro ledger
    rw [foldl_cons, ih]
    cases observation <;> simp [SteeringLedger.enter, SteeringLedger.all, accepted]

theorem ledgerOf_all (trace : List TurnObservation) :
    (ledgerOf trace).all = (accepted trace).flatMap kept := by
  have folded := fold_all trace {}
  simpa [ledgerOf, SteeringLedger.all] using folded

theorem kept_length (texts : List String) : (texts.flatMap kept).length ≤ texts.length := by
  induction texts with
  | nil => simp
  | cons text rest ih =>
    have single : (kept text).length ≤ 1 := by
      unfold kept
      split <;> simp
    rw [flatMap_cons, length_append, length_cons]
    omega

/-- Nothing is blank where nothing is missing. -/
theorem kept_whole {texts : List String} (whole : texts.length ≤ (texts.flatMap kept).length) :
    (∀ text ∈ texts, jsTrim text ≠ "") ∧ texts.flatMap kept = texts.map jsTrim := by
  induction texts with
  | nil => simp
  | cons text rest ih =>
    have others := kept_length rest
    rw [flatMap_cons, length_append, length_cons] at whole
    by_cases blank : jsTrim text = ""
    · simp only [kept, if_pos blank, length_nil] at whole
      omega
    · have rest_whole : rest.length ≤ (rest.flatMap kept).length := by
        have single : (kept text).length = 1 := by simp [kept, blank]
        omega
      obtain ⟨notBlank, same⟩ := ih rest_whole
      refine ⟨?_, ?_⟩
      · intro other found
        rcases mem_cons.mp found with rfl | found
        · exact blank
        · exact notBlank other found
      · rw [flatMap_cons, same]
        simp [kept, blank]

theorem nonblank_of_inTime (inTime : SteeredInTime trace) :
    ∀ text ∈ accepted trace, jsTrim text ≠ "" := by
  induction trace with
  | nil =>
    intro text found
    cases found
  | cons observation rest ih =>
    cases observation with
    | accepted steered =>
      obtain ⟨⟨nonblank, -⟩, later⟩ := inTime
      intro text found
      rcases mem_cons.mp found with rfl | found
      · exact nonblank
      · exact ih later text found
    | drained => exact ih inTime
    | modelStep visible => exact ih inTime
    | interrupted => exact ih inTime

private theorem fold_served : ∀ ledger : SteeringLedger, (∀ text ∈ accepted trace, jsTrim text ≠ "") →
    ((trace.foldl SteeringLedger.enter ledger).drained = [] ∧
        (trace.foldl SteeringLedger.enter ledger).waiting = [] ↔
      (ledger.drained ≠ [] → trace.any isModelStep = true) ∧
        (ledger.waiting ≠ [] → drainedBeforeStep trace = true) ∧ SteeredInTime trace) := by
  induction trace with
  | nil =>
    intro ledger _
    simp [drainedBeforeStep, SteeredInTime]
  | cons observation rest ih =>
    intro ledger nonblank
    have later : ∀ text ∈ accepted rest, jsTrim text ≠ "" := by
      intro text found
      apply nonblank
      exact mem_filterMap.mpr (by
        obtain ⟨shown, held, same⟩ := mem_filterMap.mp found
        exact ⟨shown, mem_cons_of_mem _ held, same⟩)
    rw [foldl_cons, ih _ later]
    cases observation with
    | accepted text =>
      have clear : jsTrim text ≠ "" := nonblank text mem_cons_self
      simp only [SteeringLedger.enter, kept, if_neg clear, SteeredInTime, drainedBeforeStep,
        any_cons, isModelStep, Bool.false_or]
      constructor
      · rintro ⟨drained, waiting, inTime⟩
        have served := waiting (by simp)
        exact ⟨drained, fun _ => served, ⟨clear, served⟩, inTime⟩
      · rintro ⟨drained, -, ⟨-, served⟩, inTime⟩
        exact ⟨drained, fun _ => served, inTime⟩
    | drained =>
      simp only [SteeringLedger.enter, SteeredInTime, drainedBeforeStep, any_cons, isModelStep, Bool.false_or]
      constructor
      · rintro ⟨drained, -, inTime⟩
        refine ⟨fun some => drained ?_, fun some => drained ?_, inTime⟩
        · simp [some]
        · simp [some]
      · rintro ⟨drained, waiting, inTime⟩
        refine ⟨fun some => ?_, fun none => absurd rfl none, inTime⟩
        by_cases before : ledger.drained = []
        · exact waiting fun empty => some (by simp [before, empty])
        · exact drained before
    | modelStep visible | interrupted =>
      simp [SteeringLedger.enter, SteeredInTime, drainedBeforeStep, isModelStep]

theorem served_iff (nonblank : ∀ text ∈ accepted trace, jsTrim text ≠ "") :
    (ledgerOf trace).drained = [] ∧ (ledgerOf trace).waiting = [] ↔ SteeredInTime trace := by
  have served := fold_served {} nonblank
  simpa [ledgerOf] using served

/-- The texts that are drained and not yet in the session. -/
def pendingOf : TurnPhase → List String
  | .applying pending _ => pending
  | _ => []

/-- The turn fails or is aborted. -/
def Doomed : TurnPhase → Prop
  | .ending status _ | .finishing status _ | .finished status => status ≠ .completed
  | .thrown => True
  | _ => False

/-- The queue of the turn is cleared for good. -/
def Cleared : TurnPhase → Prop
  | .finishing _ _ | .finished _ | .thrown => True
  | _ => False

/-- Where the accepted texts are. `prior` are the messages the turn started with. -/
structure Steady (turnId : String) (prior : List String) (world : TurnWorld) : Prop where
  session : messagesOf turnId world.session ++ pendingOf world.phase =
    prior ++ (ledgerOf world.trace).seen ++ (ledgerOf world.trace).drained
  queue : ¬ Cleared world.phase → world.queue.waiting turnId = (ledgerOf world.trace).waiting
  within : ∀ visible, .modelStep visible ∈ world.trace →
    (messagesOf turnId visible).length ≤ (prior ++ (ledgerOf world.trace).seen).length
  latest : (ledgerOf world.trace).seen ≠ [] → ∃ visible, .modelStep visible ∈ world.trace ∧
    messagesOf turnId visible = prior ++ (ledgerOf world.trace).seen

/-- The texts are accounted for, unless the turn is interrupted or fails. -/
def Accounted (turnId : String) (prior : List String) (world : TurnWorld) : Prop :=
  .interrupted ∉ world.trace → ¬ Doomed world.phase → Steady turnId prior world

variable {prior : List String} {world next : TurnWorld}

section
variable (steady : Steady turnId prior world)
include steady

private theorem Steady.go (trace : next.trace = world.trace)
    (session : messagesOf turnId next.session = messagesOf turnId world.session)
    (pending : pendingOf next.phase = pendingOf world.phase)
    (queue : ¬ Cleared next.phase → ¬ Cleared world.phase ∧
      next.queue.waiting turnId = world.queue.waiting turnId) : Steady turnId prior next where
  session := by
    rw [trace, session, pending]
    exact steady.session
  queue := by
    intro cleared
    obtain ⟨before, same⟩ := queue cleared
    rw [trace, same]
    exact steady.queue before
  within := by
    rw [trace]
    exact steady.within
  latest := by
    rw [trace]
    exact steady.latest

private theorem Steady.steer (text : String) :
    Steady turnId prior ({ world with queue := world.queue.enqueue turnId text }.observe
      (.accepted text)) where
  session := by
    simpa [TurnWorld.observe, SteeringLedger.enter] using steady.session
  queue := by
    intro cleared
    have before := steady.queue cleared
    simp [TurnWorld.observe, SteeringLedger.enter, waiting_enqueue, before]
  within := by
    intro visible found
    have held : .modelStep visible ∈ world.trace := by simpa [TurnWorld.observe] using found
    simpa [TurnWorld.observe, SteeringLedger.enter] using steady.within visible held
  latest := by
    intro some
    have before : (ledgerOf world.trace).seen ≠ [] := by
      simpa [TurnWorld.observe, SteeringLedger.enter] using some
    obtain ⟨visible, held, same⟩ := steady.latest before
    refine ⟨visible, mem_append_left _ held, ?_⟩
    simpa [TurnWorld.observe, SteeringLedger.enter] using same

private theorem Steady.drain (inLoop : Bool)
    (idle : pendingOf world.phase = []) (open_ : ¬ Cleared world.phase) :
    Steady turnId prior (drainSteering turnId world inLoop) where
  session := by
    have texts : (world.queue.drain turnId).1 = (ledgerOf world.trace).waiting := by
      rw [drain_texts, steady.queue open_]
    have before := steady.session
    rw [idle, append_nil] at before
    simp [drainSteering, TurnWorld.observe, SteeringLedger.enter, pendingOf, before, texts]
  queue := by
    intro _
    simp [drainSteering, TurnWorld.observe, SteeringLedger.enter, drain_waiting]
  within := by
    intro visible found
    have held : .modelStep visible ∈ world.trace := by
      simpa [drainSteering, TurnWorld.observe] using found
    simpa [drainSteering, TurnWorld.observe, SteeringLedger.enter] using steady.within visible held
  latest := by
    intro some
    have before : (ledgerOf world.trace).seen ≠ [] := by
      simpa [drainSteering, TurnWorld.observe, SteeringLedger.enter] using some
    obtain ⟨visible, held, same⟩ := steady.latest before
    refine ⟨visible, mem_append_left _ held, ?_⟩
    simpa [drainSteering, TurnWorld.observe, SteeringLedger.enter] using same

private theorem Steady.apply (phase : world.phase = .applying (text :: rest) inLoop) :
    Steady turnId prior { world with
      session := world.session ++ [{ turnId, text }], phase := .applying rest inLoop } where
  session := by
    have before := steady.session
    simp only [phase, pendingOf] at before
    rw [← before]
    simp [messagesOf, pendingOf]
  queue := fun _ => steady.queue (by simp [Cleared, phase])
  within := steady.within
  latest := steady.latest

private theorem Steady.build (phase : world.phase = .stepping) : Steady turnId prior
      ({ world with phase := .running }.observe (.modelStep world.session)) := by
  have before : messagesOf turnId world.session =
      prior ++ (ledgerOf world.trace).seen ++ (ledgerOf world.trace).drained := by
    have before := steady.session
    simpa [phase, pendingOf] using before
  refine ⟨?_, ?_, ?_, ?_⟩
  · simpa [TurnWorld.observe, SteeringLedger.enter, pendingOf] using before
  · intro _
    have waits := steady.queue (by simp [Cleared, phase])
    simpa [TurnWorld.observe, SteeringLedger.enter] using waits
  · intro visible found
    rcases mem_append.mp found with held | last
    · have short := steady.within visible held
      simp only [TurnWorld.observe, ledgerOf_append, SteeringLedger.enter, length_append] at *
      omega
    · have same : visible = world.session := by simpa using last
      simp [same, before, TurnWorld.observe, SteeringLedger.enter]
  · intro _
    refine ⟨world.session, mem_append_right _ mem_cons_self, ?_⟩
    simp [before, TurnWorld.observe, SteeringLedger.enter]

end

private theorem Accounted.move (accounted : Accounted turnId prior world) (trace : next.trace = world.trace)
    (session : messagesOf turnId next.session = messagesOf turnId world.session)
    (pending : pendingOf next.phase = pendingOf world.phase)
    (queue : ¬ Cleared next.phase → ¬ Cleared world.phase ∧
      next.queue.waiting turnId = world.queue.waiting turnId)
    (doomed : Doomed world.phase → Doomed next.phase) : Accounted turnId prior next := by
  intro calm alive
  rw [trace] at calm
  exact (accounted calm fun before => alive (doomed before)).go trace session pending queue

private theorem accounted_doomed (doomed : Doomed next.phase) : Accounted turnId prior next :=
  fun _ alive => absurd doomed alive

private theorem steer_accounted (accounted : Accounted turnId prior world) :
    Accounted turnId prior (steerTurn turnId world target text) := by
  have others : target ≠ turnId → Accounted turnId prior
      { world with queue := world.queue.enqueue target text } := by
    intro other
    exact accounted.move rfl rfl rfl
      (fun open_ => ⟨open_, waiting_enqueue_other world.queue text other⟩) id
  have observed : Accounted turnId prior (if target = turnId then
        { world with queue := world.queue.enqueue target text }.observe (.accepted text)
      else { world with queue := world.queue.enqueue target text }) := by
    by_cases mine : target = turnId
    · subst mine
      rw [if_pos rfl]
      intro calm alive
      have before : .interrupted ∉ world.trace := fun found => calm (mem_append_left _ found)
      exact (accounted before alive).steer text
    · rw [if_neg mine]
      exact others mine
  by_cases ended : ∃ status, world.phase = .finished status
  · obtain ⟨status, phase⟩ := ended
    have same : steerTurn turnId world target text =
        { world with queue := world.queue.enqueue target text } := by
      simp [steerTurn, phase]
    rw [same]
    refine accounted.move rfl rfl rfl (fun open_ => ?_) id
    exact absurd (by simp [Cleared, phase]) open_
  · have same : steerTurn turnId world target text = (if target = turnId then
        { world with queue := world.queue.enqueue target text }.observe (.accepted text)
      else { world with queue := world.queue.enqueue target text }) := by
      unfold steerTurn
      split
      · rename_i status phase
        exact absurd ⟨status, phase⟩ ended
      · rfl
    rw [same]
    exact observed

private theorem drain_accounted (accounted : Accounted turnId prior world)
    (idle : pendingOf world.phase = []) (open_ : ¬ Cleared world.phase)
    (alive : ¬ Doomed world.phase) :
    Accounted turnId prior (drainSteering turnId world inLoop) := by
  intro calm _
  have before : .interrupted ∉ world.trace := fun found => calm (mem_append_left _ found)
  exact (accounted before alive).drain inLoop idle open_

theorem step_accounted (accounted : Accounted turnId prior world)
    (stepped : stepTurn turnId maxSteps world action = some next) :
    Accounted turnId prior next := by
  cases action with
  | steer target text =>
    cases stepped
    exact steer_accounted accounted
  | interrupt =>
    cases stepped
    exact fun calm => absurd (mem_append_right _ mem_cons_self) calm
  | append message =>
    simp only [stepTurn] at stepped
    split at stepped
    · cases stepped
    · rename_i other
      cases stepped
      refine accounted.move rfl ?_ rfl (fun open_ => ⟨open_, rfl⟩) id
      simp [messagesOf, other]
  | start =>
    simp only [stepTurn] at stepped
    split at stepped
    · rename_i phase
      cases stepped
      refine accounted.move rfl rfl (by simp [pendingOf, phase]) (fun _ => ?_) ?_
      · exact ⟨by simp [Cleared, phase], waiting_setTurn world.queue⟩
      · simp [Doomed, phase]
    · cases stepped
  | run =>
    simp only [stepTurn] at stepped
    split at stepped
    · rename_i phase
      split at stepped
      · cases stepped
        exact accounted_doomed (by simp [Doomed])
      split at stepped
      · cases stepped
        exact accounted_doomed (by simp [Doomed])
      · cases stepped
        refine accounted.move rfl rfl (by simp [pendingOf, phase]) (fun _ => ?_) ?_
        · exact ⟨by simp [Cleared, phase], rfl⟩
        · simp [Doomed, phase]
    · cases stepped
  | drain =>
    simp only [stepTurn] at stepped
    split at stepped
    · rename_i phase
      cases stepped
      apply drain_accounted accounted
      · simp [pendingOf, phase]
      · simp [Cleared, phase]
      · simp [Doomed, phase]
    · rename_i phase
      cases stepped
      unfold loopStep
      split
      · exact accounted_doomed (by simp [Doomed])
      split
      · exact accounted_doomed (by simp [Doomed])
      · apply drain_accounted accounted
        · simp [pendingOf, phase]
        · simp [Cleared, phase]
        · simp [Doomed, phase]
    · cases stepped
  | apply =>
    simp only [stepTurn] at stepped
    split at stepped
    · rename_i pending inLoop phase
      cases stepped
      cases pending with
      | cons text rest =>
        intro calm _
        exact (accounted calm (by simp [Doomed, phase])).apply phase
      | nil =>
        cases inLoop with
        | true | false =>
          refine accounted.move rfl rfl (by simp [pendingOf, phase, applyPending]) (fun _ => ?_) ?_
          · exact ⟨by simp [Cleared, phase], rfl⟩
          · simp [Doomed, phase]
    · cases stepped
  | build result =>
    simp only [stepTurn] at stepped
    split at stepped
    · rename_i phase
      cases stepped
      cases result with
      | built =>
        intro calm _
        have before : .interrupted ∉ world.trace :=
          fun found => calm (mem_append_left _ found)
        exact (accounted before (by simp [Doomed, phase])).build phase
      | stop =>
        refine accounted.move rfl rfl (by simp [pendingOf, phase, buildPrompt]) (fun _ => ?_) ?_
        · exact ⟨by simp [Cleared, phase], rfl⟩
        · simp [Doomed, phase]
      | aborted => exact accounted_doomed (by simp [Doomed, buildPrompt])
    · cases stepped
  | evaluate result =>
    simp only [stepTurn] at stepped
    split at stepped
    · rename_i phase
      have moves : ∀ step phase', pendingOf phase' = [] → ¬ Cleared phase' →
          Accounted turnId prior { world with step, phase := phase' } := by
        intro step phase' idle open_
        refine accounted.move rfl rfl (idle.trans (by simp [pendingOf, phase])) (fun _ => ?_) ?_
        · exact ⟨by simp [Cleared, phase], rfl⟩
        · simp [Doomed, phase]
      cases stepped
      cases result with
      | retry => exact moves world.step .looping rfl id
      | stop => exact moves world.step (.ending .completed false) rfl id
      | failed | aborted => exact accounted_doomed (by simp [Doomed, afterStep])
      | continue_ => exact moves (world.step + 1) .looping rfl id
    · cases stepped
  | throw =>
    simp only [stepTurn, catchError] at stepped
    split at stepped
    all_goals cases stepped
    all_goals exact accounted_doomed (by simp [Doomed])
  | clear | finish =>
    simp only [stepTurn] at stepped
    split at stepped
    · rename_i status caught phase
      cases stepped
      refine accounted.move rfl rfl (by simp [pendingOf, phase]) (fun open_ => ?_) ?_
      · exact absurd trivial open_
      · simp [Doomed, phase]
    · cases stepped

/-- A turn as `startTurn` stores it. -/
def storedTurn (queue : SteeringQueue) (session : List UserMessage) : TurnWorld :=
  { queue, session }

private theorem accounted_start (fresh : queue.waiting turnId = []) :
    Accounted turnId (messagesOf turnId session) (storedTurn queue session) := by
  intro _ _
  refine ⟨by simp [storedTurn, ledgerOf, pendingOf], fun _ => fresh, ?_, ?_⟩
  · exact fun _ found => by cases found
  · exact fun some => absurd rfl some

/-- At every moment of a turn that is not interrupted and does not fail, what it has added to the
session is a first part of the accepted texts, in their order. -/
theorem steering_in_order (turnId : String) (maxSteps : Nat) (queue : SteeringQueue)
    (session : List UserMessage) (fresh : queue.waiting turnId = []) (actions : List TurnAction)
    {final : TurnWorld}
    (ran : runActions (stepTurn turnId maxSteps) (storedTurn queue session) actions = some final)
    (uninterrupted : .interrupted ∉ final.trace) (sound : ¬ Doomed final.phase) :
    messagesOf turnId final.session <+:
      messagesOf turnId session ++ (accepted final.trace).flatMap kept := by
  have accounted : Accounted turnId (messagesOf turnId session) final :=
    invariant_always (fun _ _ _ holds stepped => step_accounted holds stepped) actions
      (accounted_start fresh) ran
  have steady := accounted uninterrupted sound
  refine ⟨pendingOf final.phase ++ (ledgerOf final.trace).waiting, ?_⟩
  rw [← append_assoc, steady.session, ← ledgerOf_all, SteeringLedger.all]
  simp only [append_assoc]

/-- A turn that completes without an interruption keeps its steering exactly when each
text was enqueued before a drain that a model step followed. -/
theorem steering_kept_iff_in_time (turnId : String) (maxSteps : Nat) (queue : SteeringQueue)
    (session : List UserMessage) (fresh : queue.waiting turnId = []) (actions : List TurnAction)
    {final : TurnWorld}
    (ran : runActions (stepTurn turnId maxSteps) (storedTurn queue session) actions = some final)
    (completed : final.phase = .finished .completed)
    (uninterrupted : .interrupted ∉ final.trace) :
    SteeringKept turnId (storedTurn queue session) final ↔ SteeredInTime final.trace := by
  have accounted : Accounted turnId (messagesOf turnId session) final :=
    invariant_always (fun _ _ _ holds stepped => step_accounted holds stepped) actions
      (accounted_start fresh) ran
  have steady := accounted uninterrupted (by simp [Doomed, completed])
  have stored := steady.session
  simp only [completed, pendingOf, append_nil] at stored
  have whole := ledgerOf_all final.trace
  unfold SteeringLedger.all at whole
  constructor
  · intro kept
    have lengths := congrArg List.length (kept.appended.symm.trans stored)
    have total := congrArg List.length whole
    simp only [storedTurn, length_append, length_map] at lengths total
    have all := kept_length (accepted final.trace)
    obtain ⟨nonblank, same⟩ := @kept_whole (accepted final.trace) (by omega)
    refine (served_iff nonblank).mp ⟨?_, ?_⟩
    · by_cases nothing : accepted final.trace = []
      · have empty : (ledgerOf final.trace).drained.length = 0 := by
          rw [nothing] at total
          simp only [flatMap_nil, length_nil] at total
          omega
        exact length_eq_zero_iff.mp empty
      · obtain ⟨visible, shown, saw⟩ := kept.seen nothing
        have short := steady.within visible shown
        rw [saw] at short
        simp only [storedTurn, length_append, length_map] at short
        exact length_eq_zero_iff.mp (by omega)
    · exact length_eq_zero_iff.mp (by omega)
  · intro inTime
    have nonblank := nonblank_of_inTime inTime
    obtain ⟨drained, waiting⟩ := (served_iff nonblank).mpr inTime
    have same : (accepted final.trace).flatMap kept = (accepted final.trace).map jsTrim := by
      rw [map_eq_flatMap]
      exact flatMap_congr fun text found => by simp [kept, nonblank text found]
    rw [drained, waiting, append_nil, append_nil, same] at whole
    rw [drained, append_nil] at stored
    refine ⟨by rw [stored, whole]; rfl, fun some => ?_⟩
    have seen : (ledgerOf final.trace).seen ≠ [] := by
      rw [whole]
      simpa using some
    obtain ⟨visible, shown, saw⟩ := steady.latest seen
    exact ⟨visible, shown, by rw [saw, whole]; rfl⟩

/-- One text before the turn runs and one during its first model step. -/
def steeredTwice : List TurnAction :=
  [.start, .steer "turn" " be brief ", .run, .drain, .apply, .apply, .drain, .apply, .build .built,
    .steer "turn" "in French", .evaluate .continue_, .drain, .apply, .apply, .build .built,
    .evaluate .stop, .clear, .finish]

/-- Both are kept. -/
theorem steering_kept_iff_in_time_twice :
    ∃ final, runActions (stepTurn "turn" 5) (storedTurn {} []) steeredTwice = some final ∧
      SteeringKept "turn" (storedTurn {} []) final := by
  have outcome : (runActions (stepTurn "turn" 5) (storedTurn {} []) steeredTwice).map
      (fun world => (world.phase, world.trace)) = some (.finished .completed,
        [.accepted " be brief ", .drained, .drained, .modelStep [⟨"turn", "be brief"⟩],
          .accepted "in French", .drained,
          .modelStep [⟨"turn", "be brief"⟩, ⟨"turn", "in French"⟩]]) := by
    decide
  obtain ⟨final, ran, same⟩ := Option.map_eq_some_iff.mp outcome
  obtain ⟨phase, trace⟩ := Prod.mk.inj same
  refine ⟨final, ran, ?_⟩
  have calm : .interrupted ∉ final.trace := by simp [trace]
  refine (steering_kept_iff_in_time "turn" 5 {} [] (by decide) steeredTwice ran phase calm).mpr ?_
  rw [trace]
  exact ⟨⟨by decide, rfl⟩, ⟨by decide, rfl⟩, trivial⟩

/-- The second text waits for the next drain. -/
theorem steering_in_order_twice :
    ∃ final, runActions (stepTurn "turn" 5) (storedTurn {} []) (steeredTwice.take 11) = some final ∧
      messagesOf "turn" final.session <+: ["be brief", "in French"] := by
  have outcome : (runActions (stepTurn "turn" 5) (storedTurn {} []) (steeredTwice.take 11)).map
      (fun world => (world.phase, world.trace)) = some (.looping,
        [.accepted " be brief ", .drained, .drained, .modelStep [⟨"turn", "be brief"⟩],
          .accepted "in French"]) := by
    decide
  obtain ⟨final, ran, same⟩ := Option.map_eq_some_iff.mp outcome
  obtain ⟨phase, trace⟩ := Prod.mk.inj same
  refine ⟨final, ran, ?_⟩
  have order := steering_in_order "turn" 5 {} [] (by decide) (steeredTwice.take 11) ran
    (by simp [trace]) (by simp [phase, Doomed])
  rw [trace] at order
  exact order

/-- A text comes while the last model step is running. -/
def steeredDuringLastStep : List TurnAction :=
  [.start, .run, .drain, .apply, .drain, .apply, .build .built, .steer "turn" "in French",
    .evaluate .stop, .clear, .finish]

/-- The turn completes without it. -/
theorem steering_lost_during_last_step :
    ∃ final, runActions (stepTurn "turn" 5) (storedTurn {} []) steeredDuringLastStep = some final ∧
      final.phase = .finished .completed ∧ .interrupted ∉ final.trace ∧
      ¬ SteeringKept "turn" (storedTurn {} []) final := by
  have outcome : (runActions (stepTurn "turn" 5) (storedTurn {} []) steeredDuringLastStep).map
      (fun world => (world.phase, world.session, world.trace)) = some (.finished .completed, [],
        [.drained, .drained, .modelStep [], .accepted "in French"]) := by
    decide
  obtain ⟨final, ran, same⟩ := Option.map_eq_some_iff.mp outcome
  obtain ⟨phase, rest⟩ := Prod.mk.inj same
  obtain ⟨session, trace⟩ := Prod.mk.inj rest
  refine ⟨final, ran, phase, by simp [trace], fun kept => ?_⟩
  have appended := kept.appended
  rw [session, trace] at appended
  cases appended

end QiongQi.SteeringDelivery
