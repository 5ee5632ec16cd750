import QiongQi.KernelReducers

/-! Terminal outcomes over sequences of runs. A failure is saved over the stored
snapshot, which may be older than the event log; a later run replays the log over
it, and a completion without an outcome reopens the state. Where the log holds no
such completion after the terminal snapshot, no later run changes the end. -/
namespace QiongQi.KernelTerminal
open JsonValues Programs RuntimeContracts MiddlewareCommands ExecutionGraphs RuntimeKernels
  KernelRuns KernelReducers

variable {Ext : Type} {ExtAnswer : Ext → Type}

/-- A stored completion whose replay sets the status back to running. -/
def reopens (event : RunEventEnvelope) : Bool :=
  event.eventType = "node.completed" && match parseCompletedNodePayload event.payload with
    | .ok completed => completed.outcome.isNone
    | .error _ => false

/-- What a later run may show of a run that ended in `final`. -/
def Agrees (final : RunStateV3) : Observation Ext → Prop
  | .saved stored => stored.status = final.status ∧ stored.outcome = final.outcome
  | .returned outcome => outcome = outcomeFromTerminalState final
  | .entered _ => False
  | .left _ _ => False
  | .called _ => False
  | .appended _ => True
  | .hooked _ => True

/-- The end of `final`, at a checkpoint no earlier than its own. -/
structure Follows (final state : RunStateV3) : Prop where
  status : state.status = final.status
  outcome : state.outcome = final.outcome
  checkpoint : final.cursor.checkpointSeq ≤ state.cursor.checkpointSeq

/-- The run is over: its snapshot follows `final`, no stored event reopens it, and
nothing shown since `base` disagrees with it. -/
structure Settled (final : RunStateV3) (base : List (Observation Ext)) (world : RunWorld Ext) :
    Prop where
  stored : ∃ snapshot, world.snapshot = some snapshot ∧ Follows final snapshot
  quiet : ∀ event ∈ world.events, final.cursor.checkpointSeq < event.seq → reopens event = false
  shown : ∃ later, world.trace = base ++ later ∧ ∀ observation ∈ later, Agrees final observation

/-- Nothing around the run fails in a way that `run` itself has to pass on: the
process lives on, the stores work, and neither the crash points nor the
middleware's `onError` throw. -/
structure Reliable (around : Surroundings ExtAnswer) : Prop where
  alive : ∀ clock, around.alive clock = true
  stores : ∀ clock, around.storeFailure clock = none
  onError : ∀ clock context, context.hook = .onError → ∃ result, around.middleware clock context = .ok result
  crashPoint : ∀ clock point, around.crashPoint clock point = .ok ()

/-- The operations a run may perform on a settled world. -/
def Harmless (final : RunStateV3) : RuntimeOp Ext → Prop
  | .save state _ => Follows final state
  | .append event _ => event.eventType ≠ "node.completed"
  | .enter _ => False
  | .leave _ _ => False
  | .external _ => False
  | _ => True

variable {final : RunStateV3} {base : List (Observation Ext)}
variable {around : Surroundings ExtAnswer} {identity : RunIdentity}
variable {state : RunStateV3}

theorem Follows.terminal (follows : Follows final state) (ended : isTerminal final = true) :
    isTerminal state = true :=
  (isTerminal_congr follows.status).trans ended

theorem Follows.reported (follows : Follows final state) :
    outcomeFromTerminalState state = outcomeFromTerminalState final :=
  outcomeFromTerminalState_congr follows.status follows.outcome

/-- A state with the end of a stored state is stored with that end. -/
theorem Follows.persisted (follows : Follows final state) (fixed : RunStateV3.persist final = some final)
    (persisted : RunStateV3.persist state = some stored) : Follows final stored := by
  obtain ⟨_, _, kept, _, _, outcomeKept, rfl⟩ := RunStateV3.persist_some_iff.mp persisted
  obtain ⟨_, _, fixedOutcome, _, _, finalKept, same⟩ := RunStateV3.persist_some_iff.mp fixed
  have outcome : kept = final.outcome := by
    rw [follows.outcome, finalKept] at outcomeKept
    rw [← Option.some.inj outcomeKept]
    exact (congrArg RunStateV3.outcome same).symm
  exact ⟨follows.status, outcome, follows.checkpoint⟩

private theorem reopens_other (other : event.eventType ≠ "node.completed") :
    reopens event = false := by
  simp [reopens, other]

theorem Settled.sameStores (settled : Settled final base world)
    (snapshot : world'.snapshot = world.snapshot) (events : world'.events = world.events)
    (trace : world'.trace = world.trace) : Settled final base world' := by
  obtain ⟨stored, quiet, shown⟩ := settled
  exact ⟨snapshot ▸ stored, events ▸ quiet, trace ▸ shown⟩

private theorem settled_observe (settled : Settled final base world)
    (agrees : Agrees final observation) : Settled final base (world.observe observation) := by
  obtain ⟨stored, quiet, later, grown, agree⟩ := settled
  refine ⟨stored, quiet, later ++ [observation], ?_, ?_⟩
  · simp only [RunWorld.observe, grown, List.append_assoc]
  · intro shown found
    rcases List.mem_append.mp found with found | found
    · exact agree shown found
    · rw [List.mem_singleton.mp found]
      exact agrees

private theorem settled_save (fixed : RunStateV3.persist final = some final)
    (follows : Follows final state) (settled : Settled final base world) :
    Settled final base (performSave around world state).2 := by
  unfold performSave
  split
  · exact settled
  · split
    · exact settled
    · rename_i stored persisted
      have kept := follows.persisted fixed persisted
      refine settled_observe ⟨⟨stored, rfl, kept⟩, settled.quiet, settled.shown⟩ ?_
      exact ⟨kept.status, kept.outcome⟩

private theorem settled_append (other : event.eventType ≠ "node.completed")
    (settled : Settled final base world) :
    Settled final base (performAppend around world event).2 := by
  unfold performAppend
  split
  · exact settled
  · split
    · exact settled
    · refine settled_observe ⟨settled.stored, ?_, settled.shown⟩ trivial
      intro stored found later
      rcases List.mem_append.mp found with found | found
      · exact settled.quiet stored found later
      · rw [List.mem_singleton.mp found]
        exact reopens_other other

theorem settled_perform (around : Surroundings ExtAnswer) (identity : RunIdentity)
    (fixed : RunStateV3.persist final = some final) (harmless : Harmless final op)
    (settled : Settled final base world) :
    Settled final base (perform around identity world op).2 := by
  cases op with
  | save state fence =>
    exact (settled_save fixed harmless settled).sameStores rfl rfl rfl
  | append event fence =>
    exact (settled_append harmless settled).sameStores rfl rfl rfl
  | middleware context =>
    have agrees : Agrees final (@Observation.hooked Ext context) := trivial
    exact (settled_observe settled agrees).sameStores rfl rfl rfl
  | enter nodeId | leave nodeId result | external call => exact absurd harmless id
  | _ => exact settled.sameStores rfl rfl rfl

/-- The errors a run over a settled world can meet: a lost lease already carries
the final outcome, and a crash is an unreliable crash point's. -/
def Tolerable (final : RunStateV3) (around : Surroundings ExtAnswer) : RuntimeError → Prop
  | .foreign _ => True
  | .leaseLost none => True
  | .leaseLost (some outcome) => outcome = outcomeFromTerminalState final
  | .kernelCrash _ => ¬ Reliable around

/-- The program keeps a settled world settled, and returns what is `good`. -/
abbrev Keeps (final : RunStateV3) (base : List (Observation Ext))
    (around : Surroundings ExtAnswer) (identity : RunIdentity)
    (program : KernelProgram ExtAnswer α) (good : α → Prop) : Prop :=
  Maintains (runHost around identity) (Settled final base) (Tolerable final around)
    (¬ Reliable around) program good

private theorem foreign_rejects {answer : Except ForeignError α}
    (rejected : answer.mapError RuntimeError.foreign = .error error) :
    ∃ foreign, answer = .error foreign ∧ error = .foreign foreign := by
  cases answer with
  | error foreign => exact ⟨foreign, rfl, (Except.error.inj rejected).symm⟩
  | ok value => cases rejected

theorem perform_rejects {op : RuntimeOp Ext}
    (rejected : (perform around identity world op).1 = .error error) :
    ∃ foreign, error = .foreign foreign := by
  cases op with
  | save state fence =>
    simp only [perform, performSave] at rejected
    split at rejected
    · exact ⟨_, (Except.error.inj rejected).symm⟩
    · split at rejected
      · exact ⟨_, (Except.error.inj rejected).symm⟩
      · cases rejected
  | append event fence =>
    simp only [perform, performAppend] at rejected
    split at rejected
    · exact ⟨_, (Except.error.inj rejected).symm⟩
    · split at rejected
      · exact ⟨_, (Except.error.inj rejected).symm⟩
      · cases rejected
  | listAfter seq =>
    simp only [perform, performListAfter] at rejected
    split at rejected
    · exact ⟨_, (Except.error.inj rejected).symm⟩
    · cases rejected
  | middleware context | crashPoint point | external call =>
    obtain ⟨foreign, _, found⟩ := foreign_rejects rejected
    exact ⟨foreign, found⟩
  | _ => cases rejected

private theorem stops_unreliable (dead : (runHost around identity).alive world = false) :
    ¬ Reliable around := by
  intro reliable
  have alive := reliable.alive world.clock
  rw [show around.alive world.clock = false from dead] at alive
  cases alive

section
variable (fixed : RunStateV3.persist final = some final)
include fixed

private theorem keeps_await (harmless : Harmless final op)
    (answers : ∀ world answer, Settled final base world →
      (perform around identity world op).1 = .ok answer → good answer) :
    Keeps final base around identity (await op) good := by
  refine maintains_await (fun world => settled_perform around identity fixed harmless) answers ?_
    fun world _ => stops_unreliable
  intro world error _ rejected
  obtain ⟨foreign, rfl⟩ := perform_rejects rejected
  trivial

private theorem keeps_op (harmless : Harmless final op) :
    Keeps final base around identity (await op : KernelProgram ExtAnswer _) fun _ => True :=
  keeps_await fixed harmless fun _ _ _ _ => trivial

omit fixed in
private theorem keeps_lift {good : α → Prop} (ok : ∀ value, result = .ok value → good value) :
    Keeps final base around identity (lift result) good := by
  cases result with
  | ok value => exact maintains_pure (ok value rfl)
  | error message => exact maintains_throw trivial

private theorem keeps_crashPoint (point : RuntimeKernelCrashPoint) :
    Keeps final base around identity (reachCrashPoint point) fun _ => True := by
  have reached : Maintains (runHost around identity) (Settled final base)
      (fun error => ∃ foreign, error = .foreign foreign ∧ ¬ Reliable around)
      (¬ Reliable around) (await (.crashPoint point)) fun _ => True := by
    refine maintains_await ?_ (fun _ _ _ _ => trivial) ?_ fun world _ => stops_unreliable
    · exact fun world settled => settled_perform around identity fixed trivial settled
    intro world error _ rejected
    obtain ⟨foreign, thrown, rfl⟩ := foreign_rejects rejected
    refine ⟨foreign, rfl, fun reliable => ?_⟩
    rw [reliable.crashPoint] at thrown
    cases thrown
  refine maintains_catching reached fun error thrown => ?_
  obtain ⟨foreign, rfl, unreliable⟩ := thrown
  exact maintains_throw unreliable

private theorem keeps_leaseHealthy (follows : Follows final state) :
    Keeps final base around identity (assertLeaseHealthy fence state) fun _ => True := by
  refine maintains_bind (keeps_op fixed trivial) fun renewed _ => ?_
  split
  · exact maintains_pure trivial
  · refine maintains_throw ?_
    unfold terminalOutcome
    split
    · exact follows.reported
    · trivial

private theorem keeps_recordEvent (other : eventType ≠ "node.completed") :
    Keeps final base around identity
      (recordEvent identity state nodeId eventType payload fence) fun _ => True := by
  refine maintains_bind (keeps_op fixed trivial) fun existing _ => ?_
  refine maintains_bind (keeps_op fixed trivial) fun now _ => ?_
  exact keeps_op fixed other

variable (ended : isTerminal final = true)
include ended

private theorem keeps_commitAfterMiddleware (pending : PendingAfterMiddleware)
    (follows : Follows final state) : Keeps final base around identity
      (commitAfterMiddleware kernel identity fence state pending) (Follows final) := by
  refine maintains_bind (keeps_leaseHealthy fixed follows) fun _ _ => ?_
  refine maintains_bind (keeps_op fixed trivial) fun result _ => ?_
  refine maintains_bind (keeps_leaseHealthy fixed follows) fun _ _ => ?_
  refine maintains_bind (keeps_lift fun _ _ => trivial) fun commands _ => ?_
  refine maintains_bind (keeps_lift fun _ _ => trivial) fun _ _ => ?_
  refine maintains_bind (keeps_crashPoint fixed _) fun _ _ => ?_
  refine maintains_bind (keeps_recordEvent fixed (by decide)) fun recorded _ => ?_
  refine maintains_bind (keeps_lift fun _ _ => trivial) fun committed _ => ?_
  refine maintains_bind (keeps_lift fun _ _ => trivial) fun _ _ => ?_
  refine maintains_bind (keeps_op fixed trivial) fun now _ => ?_
  refine maintains_bind
    (keeps_lift fun next reduced => (?_ : Follows final next)) fun next kept => ?_
  · obtain ⟨status, outcome, checkpoint⟩ :=
      reduceAfterMiddleware_terminal (follows.terminal ended) reduced
    refine ⟨status.trans follows.status, outcome.trans follows.outcome, ?_⟩
    have := follows.checkpoint
    omega
  · exact maintains_bind (keeps_crashPoint fixed _) fun _ _ => maintains_pure kept

private theorem commitPending_kept (pending : Option PendingAfterMiddleware)
    (follows : Follows final state) : Keeps final base around identity
      (commitPending kernel identity fence state pending) (Follows final) := by
  cases pending with
  | none => exact maintains_pure follows
  | some pending => exact keeps_commitAfterMiddleware fixed ended pending follows

omit fixed in
theorem replayEvent_follows (follows : Follows final state) (quiet : reopens event = false)
    (replayed : replayEvent kernel state pending event now = .ok (next, after)) :
    Follows final next := by
  have checkpoint := follows.checkpoint
  unfold replayEvent at replayed
  split at replayed
  · cases replayed
    exact ⟨follows.status, follows.outcome, by simp only [replayStarted]; omega⟩
  · split at replayed
    · rename_i completion
      obtain ⟨⟨reduced, _⟩, found, final⟩ := except_bind replayed
      cases final
      obtain ⟨completed, parsed, rest⟩ := except_bind found
      have outcome : completed.outcome.isSome := by
        simpa [reopens, completion, parsed, Option.isSome_iff_ne_none] using quiet
      split at rest
      · cases rest
      · obtain ⟨node, _, rest⟩ := except_bind rest
        obtain ⟨reduced, reduces, final⟩ := except_bind rest
        cases final
        obtain ⟨status, kept, moved⟩ :=
          reduceCompletedNode_terminal (follows.terminal ended) outcome reduces
        exact ⟨status.trans follows.status, kept.trans follows.outcome, by omega⟩
    · split at replayed
      · obtain ⟨reduced, found, final⟩ := except_bind replayed
        cases final
        cases pending with
        | none => cases found
        | some pending =>
          obtain ⟨payload, _, rest⟩ := except_bind found
          obtain ⟨_, _, reduces⟩ := except_bind rest
          obtain ⟨status, kept, moved⟩ :=
            reduceAfterMiddleware_terminal (follows.terminal ended) reduces
          exact ⟨status.trans follows.status, kept.trans follows.outcome, by omega⟩
      · cases replayed
        exact follows

private theorem replayLoop_kept {initialCheckpointSeq : Nat}
    (late : final.cursor.checkpointSeq ≤ initialCheckpointSeq) (events : List RunEventEnvelope) :
    ∀ state pending, Follows final state →
      (∀ event ∈ events, final.cursor.checkpointSeq < event.seq → reopens event = false) →
      Keeps final base around identity
        (replayLoop kernel identity fence initialCheckpointSeq state pending events)
        fun replayed => Follows final replayed.1 := by
  induction events with
  | nil => exact fun state pending follows _ => maintains_pure follows
  | cons event rest ih =>
    intro state pending follows quiet
    have quietRest : ∀ event ∈ rest, final.cursor.checkpointSeq < event.seq → reopens event = false :=
      fun event found => quiet event (List.mem_cons_of_mem _ found)
    unfold replayLoop
    refine maintains_bind (keeps_lift fun _ _ => trivial) fun _ _ => ?_
    split
    · exact ih state pending follows quietRest
    · split
      · split
        · refine maintains_bind (keeps_lift fun _ _ => trivial) fun completed _ => ?_
          exact ih state _ follows quietRest
        · exact ih state pending follows quietRest
      · rename_i notBefore notAt
        have after : final.cursor.checkpointSeq < event.seq := by omega
        refine maintains_bind (commitPending_kept fixed ended _ follows) fun committed kept => ?_
        refine maintains_bind (keeps_op fixed trivial) fun now _ => ?_
        refine maintains_bind (keeps_lift fun replayed found =>
          (?_ : Follows final replayed.1)) fun replayed kept => ?_
        · exact replayEvent_follows ended kept (quiet event List.mem_cons_self after) found
        · exact ih replayed.1 replayed.2 kept quietRest

private theorem replayAfterCheckpoint_kept (follows : Follows final state) :
    Keeps final base around identity
      (replayAfterCheckpoint kernel identity fence state) (Follows final) := by
  have listed : Keeps final base around identity
      (await (.listAfter (state.cursor.checkpointSeq - 1)) : KernelProgram ExtAnswer _)
      fun events => ∀ event ∈ events, final.cursor.checkpointSeq < event.seq → reopens event = false := by
    refine keeps_await fixed trivial fun world events settled answered => ?_
    simp only [perform, performListAfter] at answered
    split at answered
    · cases answered
    · cases answered
      exact fun event found => settled.quiet event (List.mem_filter.mp found).1
  refine maintains_bind (maintains_bind listed fun events quiet => ?_) fun replayed kept =>
    commitPending_kept fixed ended replayed.2 kept
  have sorted : ∀ event ∈ sortEvents events, final.cursor.checkpointSeq < event.seq → reopens event = false :=
    fun event found => quiet event ((List.mem_insertionSort _).mp found)
  exact replayLoop_kept fixed ended follows.checkpoint _ state none follows sorted

omit fixed ended in
private theorem migrated_follows (follows : Follows final state) :
    Follows final (migrateTerminalGraphMetadata kernel state) := by
  unfold migrateTerminalGraphMetadata
  split
  · exact ⟨follows.status, follows.outcome, follows.checkpoint⟩
  · exact follows

omit ended in
private theorem saveIf_kept (condition : Bool) (follows : Follows final state) :
    Keeps final base around identity
      (saveIf fence condition state : KernelProgram ExtAnswer Unit) fun _ => True := by
  unfold saveIf
  split
  · exact keeps_op fixed follows
  · exact maintains_pure trivial

omit ended in
private theorem afterRunIf_kept (condition : Bool) (state : RunStateV3) :
    Keeps final base around identity
      (afterRunIf condition state : KernelProgram ExtAnswer Unit) fun _ => True := by
  unfold afterRunIf
  split
  · exact maintains_bind (keeps_op fixed trivial) fun _ _ => maintains_pure trivial
  · exact maintains_pure trivial

private theorem rerunTerminal_kept (follows : Follows final state) :
    Keeps final base around identity (rerunTerminal kernel identity fence state)
      (· = outcomeFromTerminalState final) := by
  refine maintains_bind (replayAfterCheckpoint_kept fixed ended follows) fun replayed kept => ?_
  refine maintains_bind (afterRunIf_kept fixed _ replayed) fun _ _ => ?_
  refine maintains_bind (saveIf_kept fixed _ (migrated_follows kept)) fun _ _ => ?_
  exact maintains_pure kept.reported

omit fixed ended in
private theorem load_settled (settled : Settled final base world)
    (loaded : (perform around identity world .load).1 = .ok stored) :
    ∃ state, stored = some state ∧ Follows final state := by
  obtain ⟨snapshot, found, follows⟩ := settled.stored
  cases loaded
  exact ⟨snapshot, found, follows⟩

private theorem runHeld_kept (passes : Nat) :
    Keeps final base around identity (runHeld kernel identity fence passes)
      (· = outcomeFromTerminalState final) := by
  have loaded : Keeps final base around identity (loadState kernel identity)
      (Follows final) := by
    refine maintains_bind (keeps_await fixed trivial fun world stored settled answered =>
      load_settled settled answered) fun stored found => ?_
    obtain ⟨state, rfl, follows⟩ := found
    exact maintains_pure follows
  refine maintains_bind loaded fun state follows => ?_
  refine maintains_bind (keeps_lift fun _ _ => trivial) fun _ _ => ?_
  refine maintains_bind (keeps_leaseHealthy fixed follows) fun _ _ => ?_
  rw [if_pos (follows.terminal ended)]
  exact rerunTerminal_kept fixed ended follows

/-- The run's own result: the final outcome, or an error only where the
surroundings are unreliable. -/
abbrev Reports (final : RunStateV3) (base : List (Observation Ext))
    (around : Surroundings ExtAnswer) (identity : RunIdentity)
    (program : KernelProgram ExtAnswer α) (good : α → Prop) : Prop :=
  Maintains (runHost around identity) (Settled final base) (fun _ => ¬ Reliable around)
    (¬ Reliable around) program good

omit ended in
private theorem reports_await (harmless : Harmless final op)
    (answers : ∀ world answer, Settled final base world →
      (perform around identity world op).1 = .ok answer → good answer)
    (rejects : Reliable around → ∀ world error, (perform around identity world op).1 ≠ .error error) :
    Reports final base around identity (await op) good := by
  refine maintains_await (fun world => settled_perform around identity fixed harmless)
    answers ?_ fun world _ => stops_unreliable
  exact fun world error _ rejected reliable => rejects reliable world error rejected

omit ended in
private theorem reports_load :
    Reports final base around identity (await .load : KernelProgram ExtAnswer _)
      fun stored => ∃ state, stored = some state ∧ Follows final state :=
  reports_await fixed trivial (fun _ _ settled loaded => load_settled settled loaded)
    (fun _ _ _ rejected => by cases rejected)

private theorem reportStored_kept :
    Reports final base around identity (reportStored : KernelProgram ExtAnswer _)
      (· = outcomeFromTerminalState final) := by
  refine maintains_bind (reports_load fixed) fun stored found => ?_
  obtain ⟨state, rfl, follows⟩ := found
  simp only [follows.terminal ended, if_true]
  exact maintains_pure follows.reported

private theorem reportFailure_kept (error : RuntimeError) :
    Reports final base around identity (reportFailure fence error)
      (· = outcomeFromTerminalState final) := by
  refine maintains_bind (reports_load fixed) fun stored found => ?_
  obtain ⟨state, rfl, follows⟩ := found
  simp only [follows.terminal ended, if_true]
  refine maintains_bind (reports_await fixed trivial (fun _ _ _ _ => trivial) ?_)
    fun _ _ => maintains_pure follows.reported
  intro reliable world rejection rejected
  obtain ⟨foreign, thrown, _⟩ := foreign_rejects rejected
  obtain ⟨result, answered⟩ := reliable.onError world.clock
    { state, hook := .onError, error := some error } rfl
  rw [answered] at thrown
  cases thrown

private theorem recover_kept (tolerable : Tolerable final around error) :
    Reports final base around identity (recover fence error)
      (· = outcomeFromTerminalState final) := by
  cases error with
  | kernelCrash original => exact maintains_throw tolerable
  | leaseLost terminal =>
    cases terminal with
    | none => exact reportStored_kept fixed ended
    | some outcome => exact maintains_pure tolerable
  | foreign error =>
    refine maintains_bind (reports_await fixed trivial (fun _ _ _ _ => trivial)
      fun _ _ _ rejected => by cases rejected) fun lost _ => ?_
    split
    · exact reportStored_kept fixed ended
    · exact reportFailure_kept fixed ended _

theorem run_kept (leased : around.lease.acquired = true) (passes : Nat) :
    Reports final base around identity (run kernel identity passes)
      (· = outcomeFromTerminalState final) := by
  have acquired : Reports final base around identity
      (await .acquire : KernelProgram ExtAnswer _) fun lease => lease.acquired = true :=
    reports_await fixed trivial (fun _ _ _ answered => by cases answered; exact leased)
      (fun _ _ _ rejected => by cases rejected)
  refine maintains_bind acquired fun lease held => ?_
  have released : Maintains (runHost around identity) (Settled final base) (fun _ => True)
      (¬ Reliable around) (await (.release lease.fence)) fun _ => True := by
    refine maintains_await ?_ (fun _ _ _ _ => trivial) (fun _ _ _ _ => trivial)
      fun world _ => stops_unreliable
    exact fun world => settled_perform around identity fixed trivial
  rw [if_pos held]
  refine maintains_finallyDo (maintains_catching (runHeld_kept fixed ended passes)
    fun error tolerable => recover_kept fixed ended tolerable) ?_
  exact maintains_catching released fun _ _ => maintains_pure trivial

end

/-- A run that gets the lease adds nothing to a settled world that disagrees with
its end, and returns the final outcome where the surroundings are reliable. -/
theorem attemptRun_settled (kernel : RuntimeKernel ExtAnswer) (identity : RunIdentity)
    (fixed : RunStateV3.persist final = some final) (ended : isTerminal final = true)
    (leased : attempt.surroundings.lease.acquired = true) (settled : Settled final base world) :
    Settled final base (attemptRun kernel identity world attempt) ∧
      (Reliable attempt.surroundings → ∃ shown, (attemptRun kernel identity world attempt).trace =
        base ++ (shown ++ [.returned (outcomeFromTerminalState final)])) := by
  have reports : Reports final base attempt.surroundings identity
      (run kernel identity attempt.passes) (· = outcomeFromTerminalState final) :=
    run_kept fixed ended leased attempt.passes
  have ran := reports { world with clock := 0 } (settled.sameStores rfl rfl rfl)
  unfold attemptRun
  rcases finished : execute (runHost attempt.surroundings identity)
    (run kernel identity attempt.passes) { world with clock := 0 } with ⟨ending, after⟩
  rw [finished] at ran
  cases ending with
  | returned outcome =>
    obtain ⟨kept, rfl⟩ := ran
    obtain ⟨shown, grown, _⟩ := kept.shown
    refine ⟨settled_observe kept rfl, fun _ => ⟨shown, ?_⟩⟩
    simp only [RunWorld.observe, grown, List.append_assoc]
  | threw error | stopped => exact ⟨ran.1, fun reliable => absurd reliable ran.2⟩

theorem attemptRuns_settled (kernel : RuntimeKernel ExtAnswer) (identity : RunIdentity)
    (fixed : RunStateV3.persist final = some final) (ended : isTerminal final = true) :
    ∀ {world : RunWorld Ext}, Settled final base world →
      (∀ attempt ∈ attempts, attempt.surroundings.lease.acquired = true) →
      Settled final base (attemptRuns kernel identity world attempts) := by
  induction attempts with
  | nil => exact fun settled _ => settled
  | cons attempt rest ih =>
    intro world settled leased
    have first := attemptRun_settled kernel identity fixed ended
      (leased attempt List.mem_cons_self) settled
    exact ih first.1 fun attempt found => leased attempt (List.mem_cons_of_mem _ found)

/-- From the first run on: once a terminal snapshot is stored and no stored
completion after it reopens it, every later run that gets the lease saves only
snapshots with its status and outcome, calls no node handler and returns only its
outcome; and it does return wherever nothing around it fails. -/
theorem terminal_outcome_is_final (kernel : RuntimeKernel ExtAnswer) (identity : RunIdentity)
    (first later : List (RunAttempt ExtAnswer)) (last : RunAttempt ExtAnswer) (final : RunStateV3)
    (stored : (attemptRuns kernel identity {} first).snapshot = some final)
    (ended : isTerminal final = true)
    (quiet : ∀ event ∈ (attemptRuns kernel identity {} first).events,
      final.cursor.checkpointSeq < event.seq → reopens event = false)
    (leased : ∀ attempt ∈ later ++ [last], attempt.surroundings.lease.acquired = true) :
    ∃ shown, (attemptRuns kernel identity {} (first ++ later ++ [last])).trace =
        (attemptRuns kernel identity {} first).trace ++ shown ∧
      (∀ observation ∈ shown, Agrees final observation) ∧
      (Reliable last.surroundings → shown.getLast? = some (.returned (outcomeFromTerminalState final))) := by
  have fixed := attemptRuns_stored kernel identity first final stored
  have start : Settled final (attemptRuns kernel identity {} first).trace
      (attemptRuns kernel identity {} first) :=
    ⟨⟨final, stored, rfl, rfl, le_refl _⟩, quiet, [], by simp⟩
  have middle := attemptRuns_settled kernel identity fixed ended
    start fun attempt found => leased attempt (List.mem_append_left _ found)
  obtain ⟨settled, returns⟩ := attemptRun_settled kernel identity fixed
    ended (leased last (by simp)) middle
  obtain ⟨shown, grown, agrees⟩ := settled.shown
  have whole : attemptRuns kernel identity {} (first ++ later ++ [last]) = attemptRun kernel identity
      (attemptRuns kernel identity (attemptRuns kernel identity {} first) later) last := by
    simp only [attemptRuns, List.foldl_append, List.foldl_cons, List.foldl_nil]
  refine ⟨shown, whole ▸ grown, agrees, fun reliable => ?_⟩
  obtain ⟨front, returned⟩ := returns reliable
  have same : shown = front ++ [.returned (outcomeFromTerminalState final)] :=
    List.append_cancel_left (grown.symm.trans returned)
  simp only [same, List.getLast?_append, List.getLast?_singleton, Option.some_or]

/-- `first` leads to the terminal node `second`; neither is a checkpoint. -/
def twoNodes : ExecutionGraph where
  version := "two-nodes"
  startNodeId := "first"
  predicates := ["next"]
  nodes := [{ id := "first" }, { id := "second", terminal := true }]
  edges := [{ from_ := "first", to_ := "second", when_ := "next" }]

theorem twoNodes_accepted : validateExecutionGraph twoNodes = .ok twoNodes := by decide

/-- A kernel over `twoNodes` whose handlers call nothing. -/
def twoNodeKernel (second : Except ForeignError Unit) : RuntimeKernel (fun _ : Empty => Unit) where
  graph := twoNodes
  accepted := twoNodes_accepted
  nodes nodeId :=
    if nodeId = "first" then some fun _ => .pure none
    else if nodeId = "second" then some fun _ =>
      match second with
      | .ok _ => .pure none
      | .error error => .throw error
    else none
  proposalIntents _ := none
  isTaskState _ := false

def calmRun : RunAttempt (fun _ : Empty => Unit) where
  surroundings := .calm fun call => call.elim
  passes := 3

theorem calmRun_reliable : Reliable calmRun.surroundings where
  alive _ := rfl
  stores _ := rfl
  onError _ _ _ := ⟨none, rfl⟩
  crashPoint _ _ := rfl

/-- A completed two-node run stays completed when it is run again. -/
theorem terminal_outcome_is_final_completed :
    ∃ final shown, (attemptRuns (twoNodeKernel (.ok ())) sampleIdentity {} [calmRun]).snapshot = some final ∧
      (attemptRuns (twoNodeKernel (.ok ())) sampleIdentity {} ([calmRun] ++ [calmRun] ++ [calmRun])).trace =
        (attemptRuns (twoNodeKernel (.ok ())) sampleIdentity {} [calmRun]).trace ++ shown ∧
      (∀ observation ∈ shown, Agrees final observation) ∧
      shown.getLast? = some (.returned (outcomeFromTerminalState final)) := by
  have saved : ((attemptRuns (twoNodeKernel (.ok ())) sampleIdentity {} [calmRun]).snapshot.map
      isTerminal) = some true := by decide +kernel
  obtain ⟨final, stored, ended⟩ := Option.map_eq_some_iff.mp saved
  have checkpoint : ((attemptRuns (twoNodeKernel (.ok ())) sampleIdentity {} [calmRun]).snapshot.map
      fun state => state.cursor.checkpointSeq) = some 6 := by decide +kernel
  have quiet : ∀ event ∈ (attemptRuns (twoNodeKernel (.ok ())) sampleIdentity {} [calmRun]).events,
      6 < event.seq → reopens event = false := by decide +kernel
  rw [stored] at checkpoint
  obtain ⟨shown, grown, agrees, returns⟩ := terminal_outcome_is_final (twoNodeKernel (.ok ()))
    sampleIdentity [calmRun] [calmRun] calmRun final stored ended
    (fun event found later => quiet event found (Option.some.inj checkpoint ▸ later))
    (by simp [calmRun, Surroundings.calm])
  exact ⟨final, shown, stored, grown, agrees, returns calmRun_reliable⟩

def savedStatuses (trace : List (Observation Ext)) : List RunStatus :=
  trace.filterMap fun
    | .saved stored => some stored.status
    | _ => none

/-- `second` throws, so the failure is saved over the snapshot from before
`first`; the next run replays the completion of `first` and saves the state as
running again. -/
theorem failure_reopened_by_next_run :
    ∃ final, (attemptRuns (twoNodeKernel (.error (.error "boom"))) sampleIdentity {}
        [calmRun]).snapshot = some final ∧
      isTerminal final = true ∧
      ¬ ∃ shown, (attemptRuns (twoNodeKernel (.error (.error "boom"))) sampleIdentity {}
          [calmRun, calmRun]).trace =
          (attemptRuns (twoNodeKernel (.error (.error "boom"))) sampleIdentity {} [calmRun]).trace ++ shown ∧
        ∀ observation ∈ shown, Agrees final observation := by
  have saved : ((attemptRuns (twoNodeKernel (.error (.error "boom"))) sampleIdentity {}
      [calmRun]).snapshot.map isTerminal) = some true := by decide +kernel
  obtain ⟨final, stored, ended⟩ := Option.map_eq_some_iff.mp saved
  refine ⟨final, stored, ended, ?_⟩
  rintro ⟨shown, grown, agrees⟩
  have first : savedStatuses (attemptRuns (twoNodeKernel (.error (.error "boom"))) sampleIdentity {}
      [calmRun]).trace = [.created, .running, .failed] := by decide +kernel
  have second : savedStatuses (attemptRuns (twoNodeKernel (.error (.error "boom"))) sampleIdentity {}
      [calmRun, calmRun]).trace = [.created, .running, .failed, .running] := by decide +kernel
  rw [grown, savedStatuses, List.filterMap_append, ← savedStatuses, first] at second
  have reopened : RunStatus.running ∈ savedStatuses shown := by
    have rest : savedStatuses shown = [.running] := List.append_cancel_left second
    simp [rest]
  obtain ⟨observation, found, status⟩ := List.mem_filterMap.mp reopened
  have agreed := agrees observation found
  cases observation with
  | saved snapshot =>
    have running : snapshot.status = .running := Option.some.inj status
    rw [← isTerminal_congr agreed.1] at ended
    simp [isTerminal, running] at ended
  | _ => cases status

end QiongQi.KernelTerminal
