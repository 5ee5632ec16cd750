import QiongQi.Machines

/-! One A2A task: its submission, which also waits for its turn, and the requests to cancel
it. Each of them reads the record of the task and writes a whole record later. -/
namespace QiongQi.A2aTasks
open Machines

inductive A2ATaskStatus where
  | submitted | working | completed | failed | cancelled
  deriving DecidableEq

structure A2ATaskRecord where
  status : A2ATaskStatus
  threadId : Option String := none
  turnId : Option String := none
  deriving DecidableEq

def isTerminal : A2ATaskStatus → Bool
  | .completed | .failed | .cancelled => true
  | .submitted | .working => false

def preserveTerminal (current next : A2ATaskRecord) : A2ATaskRecord :=
  if !isTerminal current.status then next
  else if current.status = next.status then next
  else current

/-- `upsert` reads the file and then writes it. -/
inductive Upsert where
  | reading (record : A2ATaskRecord)
  | writing (next : A2ATaskRecord)
  deriving DecidableEq

def upsertNext (stored : Option A2ATaskRecord) (record : A2ATaskRecord) : A2ATaskRecord :=
  match stored with
  | none => record
  | some existing => preserveTerminal existing record

/-- `record.threadId && record.turnId`. -/
def A2ATaskRecord.hasTurn (record : A2ATaskRecord) : Bool :=
  record.threadId.any (· ≠ "") && record.turnId.any (· ≠ "")

inductive SubmitPhase where
  | submitting (upsert : Upsert)
  | workingOn (upsert : Upsert)
  | creatingThread
  | startingTurn (threadId : String)
  | recording (upsert : Upsert)
  | runningTurn
  | loadingItems (completed : Bool)
  | checking (completed : Bool)
  | completing (upsert : Upsert)
  | failing (upsert : Upsert)
  | answered
  | thrown

inductive CancelPhase where
  | getting
  | cancellingTurn (record : A2ATaskRecord)
  | upserting (upsert : Upsert)
  | answered
  | notFound
  | conflict
  | thrown
  deriving DecidableEq

/-- `settled` is the first terminal status that was stored. `cancelAnswered` and
`cancelledEarly` tell whether a cancel was answered with status cancelled, and whether one was
before the turn had started. -/
structure World where
  stored : Option A2ATaskRecord := none
  record : A2ATaskRecord := ⟨.submitted, none, none⟩
  submission : SubmitPhase := .submitting (.reading ⟨.submitted, none, none⟩)
  cancels : List CancelPhase := []
  started : Bool := false
  ran : Bool := false
  settled : Option A2ATaskStatus := none
  cancelAnswered : Bool := false
  cancelledEarly : Bool := false

/-- What comes back from an awaited operation of the submission: ids, and whether the turn
completed. -/
structure Reply where
  id : String := ""
  completed : Bool := false

inductive Action
  | submit (reply : Reply) (fails : Bool)
  | cancel
  | advance (number : Nat) (fails : Bool)

def write (world : World) (next : A2ATaskRecord) : World :=
  { world with
    stored := some next
    settled := world.settled.or (if isTerminal next.status then some next.status else none) }

/-- The submission goes on with an upsert of this record. -/
def upsert (world : World) (record : A2ATaskRecord) (phase : Upsert → SubmitPhase) : World :=
  { world with record := record, submission := phase (.reading record) }

/-- The `catch` branches. -/
def fail (world : World) : World :=
  upsert world { world.record with status := .failed } .failing

/-- One awaited operation of `a2aSubmitTask` and `completeA2ATask`. -/
def submit (world : World) (reply : Reply) : SubmitPhase → Bool → Option World
  | .submitting _, true => some { world with submission := .thrown }
  | .submitting (.reading record), false =>
    some { world with submission := .submitting (.writing (upsertNext world.stored record)) }
  | .submitting (.writing next), false =>
    some (upsert (write world next) { world.record with status := .working } .workingOn)
  | .workingOn (.reading record), false =>
    some { world with submission := .workingOn (.writing (upsertNext world.stored record)) }
  | .workingOn (.writing next), false =>
    some { write world next with submission := .creatingThread }
  | .creatingThread, false => some { world with submission := .startingTurn reply.id }
  | .startingTurn threadId, false =>
    some (upsert { world with started := true }
      { world.record with threadId := some threadId, turnId := some reply.id } .recording)
  | .recording (.reading record), false =>
    some { world with submission := .recording (.writing (upsertNext world.stored record)) }
  | .recording (.writing next), false =>
    if world.record.hasTurn then
      some { write world next with submission := .runningTurn, ran := true }
    else some (fail (write world next))
  | .runningTurn, false => some { world with submission := .loadingItems reply.completed }
  | .loadingItems completed, false => some { world with submission := .checking completed }
  | .checking completed, false =>
    if world.stored.any (·.status = .cancelled) then some { world with submission := .answered }
    else
      some (upsert world
        { world.record with status := if completed then .completed else .failed } .completing)
  | .completing (.reading record), false =>
    some { world with submission := .completing (.writing (upsertNext world.stored record)) }
  | .completing (.writing next), false => some { write world next with submission := .answered }
  | .failing (.reading record), false =>
    some { world with submission := .failing (.writing (upsertNext world.stored record)) }
  | .failing (.writing next), false => some { write world next with submission := .answered }
  | .failing _, true => some { world with submission := .answered }
  | .workingOn _, true | .creatingThread, true | .startingTurn _, true | .recording _, true
  | .runningTurn, true | .loadingItems _, true | .checking _, true | .completing _, true =>
    some (fail world)
  | .answered, _ | .thrown, _ => none

/-- One awaited operation of `a2aCancelTask`. -/
def advance (world : World) : CancelPhase → Bool → Option (World × CancelPhase)
  | .getting, _ =>
    match world.stored with
    | none => some (world, .notFound)
    | some record =>
      if record.status = .completed ∨ record.status = .failed then some (world, .conflict)
      else if record.hasTurn then some (world, .cancellingTurn record)
      else some (world, .upserting (.reading { record with status := .cancelled }))
  | .cancellingTurn record, false =>
    some (world, .upserting (.reading { record with status := .cancelled }))
  | .upserting (.reading record), false =>
    some (world, .upserting (.writing (upsertNext world.stored record)))
  | .upserting (.writing next), false =>
    some ({ write world next with
      cancelAnswered := true
      cancelledEarly := world.cancelledEarly || !world.started }, .answered)
  | .cancellingTurn _, true | .upserting _, true => some (world, .thrown)
  | .answered, _ | .notFound, _ | .conflict, _ | .thrown, _ => none

def step (world : World) : Action → Option World
  | .submit reply fails => submit world reply world.submission fails
  | .cancel => some { world with cancels := world.cancels ++ [.getting] }
  | .advance number fails =>
    match world.cancels[number]? with
    | none => none
    | some phase =>
      match advance world phase fails with
      | none => none
      | some (next, later) => some { next with cancels := next.cancels.set number later }

/-- A terminal status that was stored is still stored, a cancel that was answered has left the
task cancelled, and no turn is run that was cancelled before it had started. -/
structure Effective (world : World) : Prop where
  final : ∀ status, world.settled = some status → world.stored.map (·.status) = some status
  cancelled : world.cancelAnswered = true → world.stored.map (·.status) = some .cancelled
  unrun : world.cancelledEarly = true → world.ran = false

/-- The stored record is not terminal with another status than the one that is written. -/
def unsettled (world : World) (next : A2ATaskRecord) : Bool :=
  world.stored.all fun record => !isTerminal record.status || record.status = next.status

/-- What the submission writes next. -/
def SubmitPhase.writes : SubmitPhase → Option A2ATaskRecord
  | .submitting (.writing next) | .workingOn (.writing next) | .recording (.writing next)
  | .completing (.writing next) | .failing (.writing next) => some next
  | _ => none

/-- The submission goes on to run the turn when its record is written. -/
def runsTurn (world : World) : Bool :=
  match world.submission with
  | .recording (.writing _) => world.record.hasTurn
  | _ => false

/-- The record that is written goes with what is stored by then, a cancel writes that the task
is cancelled, and the turn is run where no cancel was answered before it had started. -/
def timely (world : World) : Action → Bool
  | .submit _ false =>
    world.submission.writes.all (unsettled world) && !(runsTurn world && world.cancelledEarly)
  | .advance number false =>
    match world.cancels[number]? with
    | some (.upserting (.writing next)) => unsettled world next && next.status = .cancelled
    | _ => true
  | _ => true

/-- What holds after every run. -/
structure Tracked (world : World) : Prop where
  settles : ∀ record, world.stored = some record → isTerminal record.status = true → world.settled ≠ none
  terminal : ∀ status, world.settled = some status → isTerminal status = true
  started : world.ran = true → world.started = true
  recording : ∀ upsert, world.submission = .recording upsert → world.started = true

/-- Nothing is written, and no turn is run. -/
structure Unwritten (world next : World) : Prop where
  stored : next.stored = world.stored
  settled : next.settled = world.settled
  cancelAnswered : next.cancelAnswered = world.cancelAnswered
  cancelledEarly : next.cancelledEarly = world.cancelledEarly
  ran : next.ran = world.ran
  started : world.started = true → next.started = true

variable {world next : World} {record : A2ATaskRecord}
variable {phase later : CancelPhase}

theorem effective_unwritten (same : Unwritten world next) : Effective next ↔ Effective world := by
  constructor
  · rintro ⟨final, cancelled, unrun⟩
    rw [same.stored, same.settled] at final
    rw [same.cancelAnswered, same.stored] at cancelled
    rw [same.cancelledEarly, same.ran] at unrun
    exact ⟨final, cancelled, unrun⟩
  · rintro ⟨final, cancelled, unrun⟩
    refine ⟨?_, ?_, ?_⟩
    · rw [same.stored, same.settled]
      exact final
    · rw [same.cancelAnswered, same.stored]
      exact cancelled
    · rw [same.cancelledEarly, same.ran]
      exact unrun

theorem tracked_unwritten (tracked : Tracked world) (same : Unwritten world next)
    (recording : ∀ upsert, next.submission = .recording upsert → next.started = true) :
    Tracked next := by
  refine ⟨?_, ?_, ?_, recording⟩
  · rw [same.stored, same.settled]
    exact tracked.settles
  · rw [same.settled]
    exact tracked.terminal
  · rw [same.ran]
    exact fun ran => same.started (tracked.started ran)

/-- A record is written. -/
structure Written (world next : World) (record : A2ATaskRecord) : Prop where
  stored : next.stored = some record
  settled : next.settled = world.settled.or (if isTerminal record.status then some record.status else none)
  started : next.started = world.started

theorem settled_written (written : Written world next record) :
    next.settled ≠ none ↔ world.settled ≠ none ∨ isTerminal record.status = true := by
  rw [written.settled]
  cases world.settled with
  | some status => simp
  | none => cases isTerminal record.status <;> simp

theorem tracked_written (tracked : Tracked world) (written : Written world next record)
    (started : next.ran = true → next.started = true)
    (recording : ∀ upsert, next.submission = .recording upsert → next.started = true) :
    Tracked next := by
  refine ⟨?_, ?_, started, recording⟩
  · intro stored held ended
    rw [written.stored] at held
    cases held
    exact (settled_written written).mpr (.inr ended)
  · intro status held
    rw [written.settled, Option.or_eq_some_iff] at held
    rcases held with old | ⟨-, new⟩
    · exact tracked.terminal status old
    · split at new
      · rename_i ended
        cases new
        exact ended
      · cases new

/-- A terminal status stays just where the record that is written goes with it. -/
theorem final_written (tracked : Tracked world) (effective : Effective world)
    (written : Written world next record) :
    (∀ status, next.settled = some status → next.stored.map (·.status) = some status) ↔
      unsettled world record = true := by
  rw [written.stored, written.settled]
  cases settled : world.settled with
  | some status =>
    have held := effective.final status settled
    obtain ⟨stored, found, same⟩ := Option.map_eq_some_iff.mp held
    have ended := tracked.terminal status settled
    simp only [Option.some_or, Option.some.injEq, Option.map_some, unsettled, found,
      Option.all_some, same, ended, Bool.not_true, Bool.false_or, decide_eq_true_eq]
    constructor
    · exact fun kept => (kept status rfl).symm
    · rintro kept other rfl
      exact kept.symm
  | none =>
    refine iff_of_true ?_ ?_
    · intro status held
      split at held
      · exact held
      · cases held
    · cases found : world.stored with
      | none => simp [unsettled, found]
      | some stored =>
        have going : isTerminal stored.status = false := by
          rw [← Bool.not_eq_true]
          exact fun ended => tracked.settles stored found ended settled
        simp [unsettled, found, going]

/-- Where a cancel was answered, that the task is cancelled is what is settled. -/
theorem cancelled_settled (tracked : Tracked world) (effective : Effective world)
    (replied : world.cancelAnswered = true) : world.settled = some .cancelled := by
  have held := effective.cancelled replied
  obtain ⟨record, found, same⟩ := Option.map_eq_some_iff.mp held
  have ended : isTerminal record.status = true := by
    rw [same]
    rfl
  obtain ⟨status, settled⟩ := Option.ne_none_iff_exists'.mp (tracked.settles record found ended)
  rw [effective.final status settled] at held
  rw [settled, Option.some.inj held]

/-- What the submission writes leaves the requests to cancel alone. -/
structure Submitted (world next : World) (record : A2ATaskRecord) : Prop where
  written : Written world next record
  cancelAnswered : next.cancelAnswered = world.cancelAnswered
  cancelledEarly : next.cancelledEarly = world.cancelledEarly
  ran : next.ran = (world.ran || runsTurn world)
  recorded : ∀ upsert, next.submission ≠ .recording upsert

theorem submit_failed {phase : SubmitPhase} (submitted : submit world reply phase true = some next) :
    Unwritten world next ∧ ∀ upsert, next.submission ≠ .recording upsert := by
  cases phase with
  | answered | thrown => cases submitted
  | creatingThread | startingTurn | runningTurn | loadingItems | checking =>
    cases submitted
    exact ⟨⟨rfl, rfl, rfl, rfl, rfl, id⟩, fun _ same => by cases same⟩
  | submitting upsert | workingOn upsert | recording upsert | completing upsert
  | failing upsert =>
    cases upsert with
    | reading | writing =>
      cases submitted
      exact ⟨⟨rfl, rfl, rfl, rfl, rfl, id⟩, fun _ same => by cases same⟩

/-- An operation of the submission writes a record, or it writes nothing. -/
theorem submit_cases {phase : SubmitPhase} (here : world.submission = phase)
    (submitted : submit world reply phase false = some next) :
    (phase.writes = none ∧ runsTurn world = false ∧ Unwritten world next ∧
        ∀ upsert, next.submission = .recording upsert →
          next.started = true ∨ ∃ earlier, phase = .recording earlier) ∨
      ∃ record, phase.writes = some record ∧ Submitted world next record := by
  cases phase with
  | answered | thrown => cases submitted
  | creatingThread | runningTurn | loadingItems =>
    cases submitted
    exact .inl ⟨rfl, by rw [runsTurn, here], ⟨rfl, rfl, rfl, rfl, rfl, id⟩, fun _ same => by cases same⟩
  | startingTurn threadId =>
    cases submitted
    exact .inl ⟨rfl, by rw [runsTurn, here], ⟨rfl, rfl, rfl, rfl, rfl, fun _ => rfl⟩, fun _ _ => .inl rfl⟩
  | checking completed =>
    simp only [submit] at submitted
    split at submitted
    all_goals
      cases submitted
      exact .inl ⟨rfl, by rw [runsTurn, here], ⟨rfl, rfl, rfl, rfl, rfl, id⟩, fun _ same => by cases same⟩
  | recording upsert =>
    cases upsert with
    | reading record =>
      cases submitted
      exact .inl ⟨rfl, by rw [runsTurn, here], ⟨rfl, rfl, rfl, rfl, rfl, id⟩, fun _ _ => .inr ⟨_, rfl⟩⟩
    | writing written =>
      simp only [submit] at submitted
      split at submitted
      · rename_i hasTurn
        cases submitted
        refine .inr ⟨written, rfl, ⟨rfl, rfl, rfl⟩, rfl, rfl, ?_, fun _ same => by cases same⟩
        simp only [runsTurn, here, hasTurn, Bool.or_true]
      · rename_i hasTurn
        cases submitted
        refine .inr ⟨written, rfl, ⟨rfl, rfl, rfl⟩, rfl, rfl, ?_, fun _ same => by cases same⟩
        show world.ran = _
        simp only [runsTurn, here, hasTurn, Bool.or_false]
  | submitting upsert | workingOn upsert | completing upsert | failing upsert =>
    cases upsert with
    | reading record =>
      cases submitted
      exact .inl ⟨rfl, by rw [runsTurn, here], ⟨rfl, rfl, rfl, rfl, rfl, id⟩, fun _ same => by cases same⟩
    | writing written =>
      cases submitted
      refine .inr ⟨written, rfl, ⟨rfl, rfl, rfl⟩, rfl, rfl, ?_, fun _ same => by cases same⟩
      show world.ran = _
      simp only [runsTurn, here, Bool.or_false]

theorem runsTurn_started (tracked : Tracked world) (runs : runsTurn world = true) :
    world.started = true := by
  unfold runsTurn at runs
  split at runs
  · rename_i there
    exact tracked.recording _ there
  · cases runs

theorem tracked_submit (tracked : Tracked world)
    (submitted : submit world reply world.submission fails = some next) : Tracked next := by
  cases fails with
  | true =>
    obtain ⟨same, other⟩ := submit_failed submitted
    exact tracked_unwritten tracked same fun upsert there => absurd there (other upsert)
  | false =>
    rcases submit_cases rfl submitted with ⟨-, -, same, recording⟩ | ⟨record, -, made⟩
    · refine tracked_unwritten tracked same fun upsert there => ?_
      rcases recording upsert there with started | ⟨earlier, before⟩
      · exact started
      · exact same.started (tracked.recording earlier before)
    · refine tracked_written tracked made.written (fun went => ?_)
        fun upsert there => absurd there (made.recorded upsert)
      rw [made.written.started]
      rw [made.ran, Bool.or_eq_true] at went
      exact went.elim tracked.started (runsTurn_started tracked)

/-- The submission keeps what is claimed just where its operation is timely. -/
theorem submit_iff (tracked : Tracked world) (effective : Effective world)
    (submitted : submit world reply world.submission fails = some next) :
    timely world (.submit reply fails) = true ↔ Effective next := by
  cases fails with
  | true =>
    rw [effective_unwritten (submit_failed submitted).1]
    exact iff_of_true rfl effective
  | false =>
    rcases submit_cases rfl submitted with ⟨silent, waits, same, -⟩ | ⟨record, writes, made⟩
    · rw [effective_unwritten same]
      refine iff_of_true ?_ effective
      simp [timely, silent, waits]
    · obtain ⟨written, answered, early, ran, -⟩ := made
      have final := final_written tracked effective written
      simp only [timely, writes, Option.all_some, Bool.and_eq_true, ← final]
      constructor
      · rintro ⟨kept, calm⟩
        refine ⟨kept, fun replied => ?_, fun cancelled => ?_⟩
        · rw [answered] at replied
          -- The stored status is cancelled, and it stays.
          refine kept .cancelled ?_
          rw [written.settled, cancelled_settled tracked effective replied]
          rfl
        · rw [early] at cancelled
          rw [cancelled, Bool.and_true, Bool.not_eq_true'] at calm
          rw [ran, effective.unrun cancelled, calm]
          rfl
      · intro after
        refine ⟨after.final, ?_⟩
        cases cancelled : world.cancelledEarly with
        | false => rw [Bool.and_false, Bool.not_false]
        | true =>
          have unrun := after.unrun (early.trans cancelled)
          rw [ran, Bool.or_eq_false_iff] at unrun
          rw [unrun.2]
          rfl

/-- An operation of a cancel writes a record and answers, or it leaves the world. -/
theorem advance_cases (advanced : advance world phase fails = some (next, later)) :
    (next = world ∧ (fails = false → ∀ record, phase ≠ .upserting (.writing record))) ∨
      ∃ record, fails = false ∧ phase = .upserting (.writing record) ∧ next = { write world record with
          cancelAnswered := true
          cancelledEarly := world.cancelledEarly || !world.started } := by
  cases phase with
  | answered | notFound | conflict | thrown => cases advanced
  | getting =>
    simp only [advance] at advanced
    refine .inl ⟨?_, fun _ _ same => by cases same⟩
    split at advanced
    · cases advanced
      rfl
    · split at advanced
      · cases advanced
        rfl
      · split at advanced <;> cases advanced <;> rfl
  | cancellingTurn record =>
    refine .inl ⟨?_, fun _ _ same => by cases same⟩
    cases fails <;> cases advanced <;> rfl
  | upserting upsert =>
    cases upsert with
    | reading record =>
      refine .inl ⟨?_, fun _ _ same => by cases same⟩
      cases fails <;> cases advanced <;> rfl
    | writing record =>
      cases fails with
      | true =>
        cases advanced
        exact .inl ⟨rfl, fun went => by cases went⟩
      | false =>
        cases advanced
        exact .inr ⟨record, rfl, rfl, rfl⟩

/-- The world after an operation of a cancel. -/
def afterCancel (next : World) (number : Nat) (later : CancelPhase) : World :=
  { next with cancels := next.cancels.set number later }

theorem written_cancel (record : A2ATaskRecord) (number : Nat) (later : CancelPhase) :
    Written world (afterCancel { write world record with
      cancelAnswered := true
      cancelledEarly := world.cancelledEarly || !world.started } number later) record :=
  ⟨rfl, rfl, rfl⟩

theorem unwritten_cancel (world : World) (number : Nat) (later : CancelPhase) :
    Unwritten world (afterCancel world number later) :=
  ⟨rfl, rfl, rfl, rfl, rfl, id⟩

theorem tracked_advance (tracked : Tracked world)
    (advanced : advance world phase fails = some (next, later)) :
    Tracked (afterCancel next number later) := by
  rcases advance_cases advanced with ⟨rfl, -⟩ | ⟨record, -, -, rfl⟩
  · exact tracked_unwritten tracked (unwritten_cancel next number later) tracked.recording
  · exact tracked_written tracked (written_cancel record number later) tracked.started
      tracked.recording

/-- A cancel keeps what is claimed just where its operation is timely. -/
theorem advance_iff (tracked : Tracked world) (effective : Effective world)
    (found : world.cancels[number]? = some phase)
    (advanced : advance world phase fails = some (next, later)) :
    timely world (.advance number fails) = true ↔ Effective (afterCancel next number later) := by
  rcases advance_cases advanced with ⟨rfl, other⟩ | ⟨record, rfl, rfl, rfl⟩
  · rw [effective_unwritten (unwritten_cancel next number later)]
    refine iff_of_true ?_ effective
    cases fails with
    | true => rfl
    | false =>
      simp only [timely, found]
      split
      · rename_i record written
        exact absurd (Option.some.inj written) (other rfl record)
      · rfl
  · have final := final_written tracked effective (written_cancel record number later)
    simp only [timely, found, Bool.and_eq_true, decide_eq_true_eq, ← final]
    constructor
    · rintro ⟨kept, cancelled⟩
      refine ⟨kept, fun _ => congrArg some cancelled, fun early => ?_⟩
      show world.ran = false
      rcases Bool.or_eq_true_iff.mp early with before | now
      · exact effective.unrun before
      · cases ran : world.ran with
        | false => rfl
        | true =>
          rw [tracked.started ran] at now
          cases now
    · intro after
      exact ⟨after.final, Option.some.inj (after.cancelled rfl)⟩

theorem step_cases {action : Action} (stepped : step world action = some next) :
    (∃ reply fails, action = .submit reply fails ∧ submit world reply world.submission fails = some next) ∨
      (action = .cancel ∧ next = { world with cancels := world.cancels ++ [.getting] }) ∨
      ∃ number fails phase after later, action = .advance number fails ∧ world.cancels[number]? = some phase ∧
        advance world phase fails = some (after, later) ∧
        next = afterCancel after number later := by
  cases action with
  | submit reply fails => exact .inl ⟨reply, fails, rfl, stepped⟩
  | cancel =>
    cases stepped
    exact .inr (.inl ⟨rfl, rfl⟩)
  | advance number fails =>
    simp only [step] at stepped
    split at stepped
    · cases stepped
    · rename_i phase found
      split at stepped
      · cases stepped
      · rename_i after later advanced
        cases stepped
        exact .inr (.inr ⟨number, fails, phase, after, later, rfl, found, advanced, rfl⟩)

theorem tracked_step (world : World) (action : Action) (next : World) (tracked : Tracked world)
    (stepped : step world action = some next) : Tracked next := by
  rcases step_cases stepped with ⟨reply, fails, rfl, submitted⟩ | ⟨rfl, rfl⟩ |
    ⟨number, fails, phase, after, later, rfl, -, advanced, rfl⟩
  · exact tracked_submit tracked submitted
  · exact tracked_unwritten tracked ⟨rfl, rfl, rfl, rfl, rfl, id⟩ tracked.recording
  · exact tracked_advance tracked advanced

theorem timely_iff (world : World) (action : Action) (next : World)
    (holds : Tracked world ∧ Effective world) (stepped : step world action = some next) :
    timely world action = true ↔ Tracked next ∧ Effective next := by
  obtain ⟨tracked, effective⟩ := holds
  rw [and_iff_right (tracked_step world action next tracked stepped)]
  rcases step_cases stepped with ⟨reply, fails, rfl, submitted⟩ | ⟨rfl, rfl⟩ |
    ⟨number, fails, phase, after, later, rfl, found, advanced, rfl⟩
  · exact submit_iff tracked effective submitted
  · have same : Unwritten world { world with cancels := world.cancels ++ [.getting] } :=
      ⟨rfl, rfl, rfl, rfl, rfl, id⟩
    exact iff_of_true rfl ((effective_unwritten same).mpr effective)
  · exact advance_iff tracked effective found advanced

theorem tracked_start : Tracked {} where
  settles := fun _ held => by cases held
  terminal := fun _ held => by cases held
  started := fun ran => by cases ran
  recording := fun _ there => by cases there

theorem effective_start : Effective {} where
  final := fun _ held => by cases held
  cancelled := fun replied => by cases replied
  unrun := fun _ => rfl

/-- In a run, cancelling is effective at every moment just where each record is written while
the stored one is not terminal with another status, each cancel writes that the task is
cancelled, and the turn is run where no cancel was answered before it had started. -/
theorem cancel_effective_iff (actions : List Action) (final : World)
    (ran : runActions step {} actions = some final) :
    (∀ front back middle, actions = front ++ back →
        runActions step {} front = some middle → Effective middle) ↔
      Along step (fun world action => timely world action = true) {} actions :=
  along_iff_reached_beside tracked_step timely_iff actions tracked_start effective_start ran

section Example

private def goesOn : Action := .submit {} false

/-- The task is submitted, its turn is started and run. -/
private def submitted : List Action :=
  [goesOn, goesOn, goesOn, goesOn, .submit ⟨"thread", false⟩ false, .submit ⟨"turn", false⟩ false,
    goesOn, goesOn]

/-- The turn completes, and then the task cannot be cancelled any more. -/
private def cancelledLate : List Action :=
  submitted ++ [.submit ⟨"", true⟩ false, goesOn, goesOn, goesOn, goesOn, .cancel, .advance 0 false]

/-- The turn is aborted by the cancel, and fails before the cancel writes. -/
private def cancelledRunning : List Action :=
  submitted ++ [.cancel, .advance 0 false, .advance 0 false, goesOn, goesOn, goesOn, goesOn, goesOn,
      .advance 0 false, .advance 0 false]

/-- The turn completes while the cancel has read the record that it is about to write. -/
private def cancelledCompleting : List Action :=
  submitted ++ [.cancel, .advance 0 false, .advance 0 false, .advance 0 false, .submit ⟨"", true⟩ false,
      goesOn, goesOn, goesOn, goesOn, .advance 0 false]

/-- The task is cancelled when it has been submitted and no turn been started. -/
private def cancelledBefore : List Action :=
  [goesOn, goesOn, .cancel, .advance 0 false, .advance 0 false, .advance 0 false, goesOn, goesOn,
    .submit ⟨"thread", false⟩ false, .submit ⟨"turn", false⟩ false, goesOn, goesOn]

theorem cancel_effective_late : ∃ final, runActions step {} cancelledLate = some final ∧
    final.cancels = [.conflict] ∧ final.settled = some .completed ∧ Effective final := by
  have ran : ∃ final, runActions step {} cancelledLate = some final ∧
      final.cancels = [.conflict] ∧ final.settled = some .completed := by decide
  obtain ⟨final, ran, cancels, settled⟩ := ran
  have along : Along step (fun world action => timely world action = true) {} cancelledLate := by
    decide
  exact ⟨final, ran, cancels, settled, (cancel_effective_iff cancelledLate final ran).mpr along
    cancelledLate [] final (List.append_nil _).symm ran⟩

/-- A cancel is answered and the task has failed, a completed task becomes cancelled, and a
cancelled task is run. -/
theorem cancel_ineffective :
    (∃ final, runActions step {} cancelledRunning = some final ∧ final.cancels = [.answered] ∧
      final.stored.map (·.status) = some .failed ∧ ¬ Effective final) ∧
    (∃ final, runActions step {} cancelledCompleting = some final ∧
      final.settled = some .completed ∧ final.stored.map (·.status) = some .cancelled ∧
      ¬ Effective final) ∧
    ∃ final, runActions step {} cancelledBefore = some final ∧ final.cancels = [.answered] ∧
      final.cancelledEarly = true ∧ final.ran = true ∧ ¬ Effective final := by
  refine ⟨?_, ?_, ?_⟩
  · have ran : ∃ final, runActions step {} cancelledRunning = some final ∧
        final.cancels = [.answered] ∧ final.stored.map (·.status) = some .failed ∧
        final.cancelAnswered = true := by decide
    obtain ⟨final, ran, answered, stored, replied⟩ := ran
    refine ⟨final, ran, answered, stored, fun effective => ?_⟩
    have cancelled := effective.cancelled replied
    rw [stored] at cancelled
    cases cancelled
  · have ran : ∃ final, runActions step {} cancelledCompleting = some final ∧
        final.settled = some .completed ∧ final.stored.map (·.status) = some .cancelled := by
      decide
    obtain ⟨final, ran, settled, stored⟩ := ran
    refine ⟨final, ran, settled, stored, fun effective => ?_⟩
    have kept := effective.final .completed settled
    rw [stored] at kept
    cases kept
  · have ran : ∃ final, runActions step {} cancelledBefore = some final ∧
        final.cancels = [.answered] ∧ final.cancelledEarly = true ∧ final.ran = true := by
      decide
    obtain ⟨final, ran, answered, early, went⟩ := ran
    refine ⟨final, ran, answered, early, went, fun effective => ?_⟩
    have unrun := effective.unrun early
    rw [went] at unrun
    cases unrun

end Example

end QiongQi.A2aTasks
