import QiongQi.FileLocks

/-! One call of `withFileLock`: how often it runs its operation, how it ends, and what it
leaves of the lock that it has made. -/
namespace QiongQi.LockedCalls
open Machines FileLocks
open List hiding after

/-- What an operation throws. A value may have a `code`; `null` and `undefined` have no
properties that could be read. -/
inductive Thrown
  | nullish (isNull : Bool)
  | value (identity : Nat) (code : Option String)
  deriving DecidableEq

/-- How an operation ends. -/
inductive Ended (α : Type)
  | returns (value : α)
  | throws (error : Thrown)
  deriving DecidableEq

/-- How a call ends. Where it does not end as its operation did, the error is one of the file
system, of the time that it has waited, or of reading the `code` of nothing. -/
inductive Outcome (α : Type)
  | resolves (value : α)
  | rejects (error : Thrown)
  | fails

/-- `(error as { code?: string }).code === 'EEXIST'` -/
def Thrown.exists_ : Thrown → Bool
  | .nullish _ => false
  | .value _ code => code = some "EEXIST"

/-- The call goes round its loop again. -/
def Ended.again {α : Type} : Ended α → Bool
  | .returns _ => false
  | .throws error => error.exists_

def Ended.outcome {α : Type} : Ended α → Outcome α
  | .returns value => .resolves value
  | .throws (.nullish _) => .fails
  | .throws (.value identity code) => .rejects (.value identity code)

/-- The operation does not end with an error that the call takes for a lock in use, or that it
cannot read. -/
def Ended.plain {α : Type} : Ended α → Bool
  | .returns _ => true
  | .throws (.nullish _) => false
  | .throws (.value _ code) => code ≠ some "EEXIST"

/-- How far the call has come: its first `mkdir` makes the directory that the lock goes into. -/
inductive Entry
  | preparing
  | unprepared
  | locking (number : Nat)
  deriving DecidableEq

/-- A call in a world of other callers. `ran` lists how its operations have ended, and
`created` the locks that it has made. -/
structure Call (α : Type) where
  world : World
  pid : Nat
  entry : Entry
  ran : List (Ended α)
  created : List Nat
  deriving DecidableEq

/-- What happens next: in the call, or anywhere else. -/
inductive Deed (α : Type)
  | prepare (fails : Bool)
  | operates (ended : Ended α)
  | advances (event : Event)
  | others (action : Action)

section
variable {α : Type}

/-- `withFileLock` is called. -/
def Call.start (α : Type) (world : World) (pid : Nat) : Call α :=
  ⟨world, pid, .preparing, [], []⟩

def Call.phase (call : Call α) : Option Phase :=
  match call.entry with
  | .locking number => call.world.callers[number]?.map Caller.phase
  | _ => none

def Call.outcome (call : Call α) : Option (Outcome α) :=
  match call.entry, call.phase with
  | .unprepared, _ => some .fails
  | _, some .returned => call.ran.getLast?.map Ended.outcome
  | _, some .thrown => some .fails
  | _, _ => none

def Call.over (call : Call α) : Bool :=
  call.entry = .unprepared || call.phase = some .returned || call.phase = some .thrown

/-- How often the operation has been called. -/
def Call.invoked (call : Call α) : Nat :=
  match call.phase with
  | some (.inside _) => call.ran.length + 1
  | _ => call.ran.length

def Call.holding (call : Call α) : Option Nat :=
  call.phase.bind Phase.holding

/-- The world goes on, and nothing of the call's own. -/
def Call.within (call : Call α) (action : Action) : Option (Call α) :=
  (FileLocks.step .withFileLock call.world action).map fun world => { call with world := world }

/-- The lock that a `mkdir` has made is the one that the call holds from then on. -/
def Call.recorded (call : Call α) : Event → Call α
  | .mkdir _ => { call with created := call.created ++ call.holding.toList }
  | _ => call

def Action.moves (number : Nat) : Action → Bool
  | .advance other _ => other = number
  | _ => false

/-- One step. Where the call is over, nothing of it is left to happen. -/
def step (call : Call α) (deed : Deed α) : Option (Call α) :=
  if call.over then
    none
  else
    match call.entry, deed with
    | .preparing, .prepare true => some { call with entry := .unprepared }
    | .preparing, .prepare false =>
      (call.within (.call call.pid)).map fun next =>
        { next with entry := .locking call.world.callers.length }
    | .preparing, .others action => call.within action
    | .locking number, .operates ended =>
      (call.within (.advance number (.operation ended.again))).map fun next =>
        { next with ran := next.ran ++ [ended] }
    | .locking _, .advances (.operation _) => none
    | .locking number, .advances event =>
      (call.within (.advance number event)).map fun next => next.recorded event
    | .locking number, .others action =>
      if Action.moves number action then none else call.within action
    | _, _ => none

/-- The operation is called at most once, its own error is what the call ends with, and no
lock of the call is left behind. -/
def Served (call : Call α) : Prop :=
  call.invoked ≤ 1 ∧
    (∀ error, .throws error ∈ call.ran → ∀ outcome ∈ call.outcome, outcome = .rejects error) ∧
    (call.over → ∀ lock ∈ call.world.lock, lock.serial ∉ call.created)

/-- Operations end plainly, and the removal of a lock that the call still has does not fail. -/
def orderly (call : Call α) : Deed α → Prop
  | .operates ended => ended.plain
  | .advances (.remove true) =>
    ∀ serial ∈ call.holding, ∀ lock ∈ call.world.lock, lock.serial ≠ serial
  | _ => True

instance (call : Call α) : DecidablePred (orderly call)
  | .prepare _ | .others _ => .isTrue trivial
  | .operates ended => inferInstanceAs (Decidable (ended.plain = true))
  | .advances (.remove true) => inferInstanceAs (Decidable
      (∀ serial ∈ call.holding, ∀ lock ∈ call.world.lock, lock.serial ≠ serial))
  | .advances (.remove false) | .advances (.mkdir _) | .advances (.writeOwner _)
  | .advances (.operation _) | .advances (.readOwner _) | .advances .stat | .advances .poll =>
    .isTrue trivial

/-- No lock of the call is there any more. -/
def Call.gone (call : Call α) : Prop := ∀ lock ∈ call.world.lock, lock.serial ∉ call.created

/-- What the call has done, by where it has come to. -/
def At (call : Call α) : Phase → Prop
  | .trying | .readingOwner _ | .statting _ | .removing _ | .waiting =>
    call.ran = [] ∧ call.created = []
  | .writing serial | .inside serial | .undoing serial =>
    call.ran = [] ∧ call.created = [serial]
  | .releasing serial again =>
    again = false ∧ call.created = [serial] ∧ ∃ ended, call.ran = [ended] ∧ ended.plain
  | .returned => call.gone ∧ ∃ ended, call.ran = [ended] ∧ ended.plain
  | .thrown => call.gone ∧ call.ran = []

/-- What orderly steps keep. -/
def Orderly (call : Call α) : Prop :=
  match call.entry with
  | .locking _ => ∃ phase, call.phase = some phase ∧ At call phase
  | _ => call.ran = [] ∧ call.created = []

variable {ended : Ended α} {call next middle : Call α} {number : Nat}

theorem plain_again (plain : ended.plain) : ended.again = false := by
  cases ended with
  | returns value => rfl
  | throws error =>
    cases error with
    | nullish isNull => rfl
    | value identity code => simpa [Ended.plain, Ended.again, Thrown.exists_] using plain

theorem plain_outcome (plain : (Ended.throws error : Ended α).plain) :
    (Ended.throws error : Ended α).outcome = .rejects error := by
  cases error with
  | nullish isNull => cases plain
  | value identity code => rfl

theorem stay_cases : stay .withFileLock world nowMs startedAt = .thrown ∨
      stay .withFileLock world nowMs startedAt = .waiting := by
  unfold stay
  split
  · exact .inl rfl
  · exact .inr rfl

theorem within_eq (went : call.within action = some next) : ∃ world,
      FileLocks.step .withFileLock call.world action = some world ∧ next = { call with world := world } := by
  obtain ⟨world, stepped, rfl⟩ := Option.map_eq_some_iff.mp went
  exact ⟨world, stepped, rfl⟩

theorem within_advance (entry : call.entry = .locking number)
    (went : call.within (.advance number event) = some next) : ∃ caller after later,
      call.phase = some caller.phase ∧
        advance .withFileLock call.world number caller caller.phase event = some (after, later) ∧
        next = { call with world := next.world } ∧ next.phase = some later ∧
        next.world.lock = after.lock := by
  obtain ⟨world, stepped, rfl⟩ := within_eq went
  simp only [FileLocks.step] at stepped
  split at stepped
  · cases stepped
  · rename_i caller live
    split at stepped
    · cases stepped
    · rename_i after later advanced
      cases stepped
      obtain ⟨found, -⟩ := live_at live
      have bound := (List.getElem?_eq_some_iff.mp found).1
      refine ⟨caller, after, later, ?_, advanced, rfl, ?_, rfl⟩
      · simp [Call.phase, entry, found]
      · simp [Call.phase, entry, getElem?_set_self bound]

theorem within_others (entry : call.entry = .locking number) (there : call.phase.isSome)
    (apart : Action.moves number action = false) (went : call.within action = some next) :
    next = { call with world := next.world } ∧ next.phase = call.phase := by
  obtain ⟨world, stepped, rfl⟩ := within_eq went
  refine ⟨rfl, ?_⟩
  simp only [Call.phase, entry, Option.isSome_map, getElem?_eq_some_iff, Option.isSome_iff_exists] at there ⊢
  obtain ⟨caller, bound, found⟩ := there
  congr 1
  cases action with
  | call pid =>
    simp only [FileLocks.step] at stepped
    split at stepped
    · cases stepped
    · cases stepped
      exact getElem?_append_left bound
  | advance other event =>
    have differ : other ≠ number := by simpa [Action.moves] using apart
    simp only [FileLocks.step] at stepped
    split at stepped
    · cases stepped
    · split at stepped
      · cases stepped
      · cases stepped
        exact getElem?_set_ne differ
  | die pid =>
    cases stepped
    rfl
  | tick ms =>
    cases stepped
    rfl

@[simp] theorem recorded_phase (call : Call α) (event : Event) :
    (call.recorded event).phase = call.phase := by
  cases event <;> rfl

/-- Where a removal succeeds, or finds another lock, the call's lock is gone. -/
theorem gone_removed (held : call.holding = some serial) (created : next.created = [serial])
    (fair : orderly call (.advances (.remove fails)))
    (lock : next.world.lock = (if fails then call.world else call.world.remove number).lock) :
    next.gone := by
  intro found there
  rw [created, mem_singleton]
  cases fails with
  | false =>
    rw [lock, if_neg Bool.false_ne_true, remove_lock] at there
    cases there
  | true =>
    rw [lock, if_pos rfl] at there
    exact fair serial held found there

/-- What one step of the call's own, other than its operation, keeps. -/
theorem at_advances (entry : call.entry = .locking number) (there : call.phase = some phase)
    (at_ : At call phase) (other : ∀ exists_, event ≠ .operation exists_)
    (fair : orderly call (.advances event))
    (went : call.within (.advance number event) = some next) : ∃ later,
      (next.recorded event).phase = some later ∧ At (next.recorded event) later := by
  obtain ⟨caller, after, later, before, advanced, same, moved, lock⟩ := within_advance entry went
  obtain rfl : phase = caller.phase := Option.some.inj (there.symm.trans before)
  refine ⟨later, by rw [recorded_phase]; exact moved, ?_⟩
  have ran : next.ran = call.ran := by rw [same]
  have created : next.created = call.created := by rw [same]
  have holding : ∀ {found}, caller.phase = found → call.holding = found.holding := by
    intro found is
    rw [Call.holding, there, is]
    rfl
  have waits (nowMs : Nat) (stays : later = stay .withFileLock call.world nowMs caller.startedAt)
      (before : call.ran = [] ∧ call.created = []) : At next later := by
    rcases stay_cases with given | waiting
    · rw [stays, given]
      exact ⟨fun _ _ => by simp [created, before.2], ran.trans before.1⟩
    · rw [stays, waiting]
      exact ⟨ran.trans before.1, created.trans before.2⟩
  cases phase : caller.phase <;> cases event <;> rw [phase] at at_ advanced <;>
    simp only [advance, reduceCtorEq] at advanced
  case trying.mkdir fails =>
    cases fails with
    | true =>
      cases advanced
      refine ⟨fun _ _ => ?_, ran.trans at_.1⟩
      simp [Call.recorded, created, at_.2, Call.holding, moved, Phase.holding]
    | false =>
      dsimp only at advanced
      split at advanced
      all_goals
        cases advanced
        refine ⟨ran.trans at_.1, ?_⟩
        simp [Call.recorded, created, at_.2, Call.holding, moved, Phase.holding]
  case writing.writeOwner serial fails =>
    have kept : next.ran = [] ∧ next.created = [serial] :=
      ⟨ran.trans at_.1, created.trans at_.2⟩
    cases fails with
    | true =>
      cases advanced
      exact kept
    | false =>
      dsimp only at advanced
      split at advanced
      all_goals
        cases advanced
        exact kept
  case inside.operation serial exists_ => exact absurd rfl (other exists_)
  case releasing.remove serial again fails =>
    obtain ⟨rfl, made, ended, once, plain⟩ := at_
    cases advanced
    have gone := gone_removed (holding phase) (created.trans made) fair lock
    exact ⟨gone, ended, ran.trans once, plain⟩
  case undoing.remove serial fails =>
    cases advanced
    exact ⟨gone_removed (holding phase) (created.trans at_.2) fair lock, ran.trans at_.1⟩
  case readingOwner.readOwner nowMs alive =>
    have kept : next.ran = [] ∧ next.created = [] := ⟨ran.trans at_.1, created.trans at_.2⟩
    split at advanced
    · split at advanced
      · cases advanced
        exact waits nowMs rfl at_
      · split at advanced
        · cases advanced
          exact kept
        · cases advanced
    · cases advanced
      exact kept
  case statting.stat nowMs =>
    have kept : next.ran = [] ∧ next.created = [] := ⟨ran.trans at_.1, created.trans at_.2⟩
    split at advanced
    · cases advanced
      exact kept
    · split at advanced
      · cases advanced
        exact kept
      · cases advanced
        exact waits nowMs rfl at_
  case removing.remove judged fails =>
    cases fails with
    | true =>
      cases advanced
      exact ⟨fun _ _ => by simp [Call.recorded, created, at_.2], ran.trans at_.1⟩
    | false =>
      cases advanced
      exact ⟨ran.trans at_.1, created.trans at_.2⟩
  case waiting.poll =>
    cases advanced
    exact ⟨ran.trans at_.1, created.trans at_.2⟩

/-- The steps that a call which is not over can take. -/
inductive Went (call : Call α) : Deed α → Call α → Prop
  | unprepared (entry : call.entry = .preparing) :
    Went call (.prepare true) { call with entry := .unprepared }
  | prepared (middle : Call α) (entry : call.entry = .preparing)
    (went : call.within (.call call.pid) = some middle) :
    Went call (.prepare false) { middle with entry := .locking call.world.callers.length }
  | aside (next : Call α) (action : Action) (entry : call.entry = .preparing)
    (went : call.within action = some next) : Went call (.others action) next
  | operated (number : Nat) (middle : Call α) (ended : Ended α)
    (entry : call.entry = .locking number)
    (went : call.within (.advance number (.operation ended.again)) = some middle) :
    Went call (.operates ended) { middle with ran := middle.ran ++ [ended] }
  | advanced (number : Nat) (middle : Call α) (event : Event)
    (entry : call.entry = .locking number) (other : ∀ exists_, event ≠ .operation exists_)
    (went : call.within (.advance number event) = some middle) :
    Went call (.advances event) (middle.recorded event)
  | around (number : Nat) (next : Call α) (action : Action)
    (entry : call.entry = .locking number) (apart : Action.moves number action = false)
    (went : call.within action = some next) : Went call (.others action) next

theorem step_went (stepped : step call deed = some next) :
    call.over = false ∧ Went call deed next := by
  unfold step at stepped
  split at stepped
  · cases stepped
  · rename_i ongoing
    refine ⟨by simpa using ongoing, ?_⟩
    split at stepped
    · rename_i entry
      cases stepped
      exact .unprepared entry
    · rename_i entry
      obtain ⟨middle, went, rfl⟩ := Option.map_eq_some_iff.mp stepped
      exact .prepared middle entry went
    · rename_i action entry
      exact .aside next action entry stepped
    · rename_i number ended entry
      obtain ⟨middle, went, rfl⟩ := Option.map_eq_some_iff.mp stepped
      exact .operated number middle ended entry went
    · cases stepped
    · rename_i number event other entry
      obtain ⟨middle, went, rfl⟩ := Option.map_eq_some_iff.mp stepped
      exact .advanced number middle event entry other went
    · rename_i number action entry
      split at stepped
      · cases stepped
      · rename_i apart
        exact .around number next action entry (by simpa using apart) stepped
    · cases stepped

/-- What the end of an operation keeps, where it ends plainly. -/
theorem at_operated (entry : call.entry = .locking number) (there : call.phase = some phase)
    (at_ : At call phase) (plain : ended.plain)
    (went : call.within (.advance number (.operation ended.again)) = some middle) : ∃ later,
      Call.phase { middle with ran := middle.ran ++ [ended] } = some later ∧
        At { middle with ran := middle.ran ++ [ended] } later := by
  obtain ⟨caller, after, later, before, advanced, same, moved, -⟩ := within_advance entry went
  obtain rfl : phase = caller.phase := Option.some.inj (there.symm.trans before)
  refine ⟨later, moved, ?_⟩
  cases phase : caller.phase <;> rw [phase] at at_ advanced <;>
    simp only [advance, reduceCtorEq] at advanced
  case inside serial =>
    cases advanced
    have ran : middle.ran = [] := by rw [same]; exact at_.1
    have created : middle.created = [serial] := by rw [same]; exact at_.2
    exact ⟨by simp [plain_again plain], created, ended, by simp [ran], plain⟩

theorem orderly_locking (entry : call.entry = .locking number) :
    Orderly call ↔ ∃ phase, call.phase = some phase ∧ At call phase := by
  simp only [Orderly, entry]

theorem over_phase (there : call.phase = some phase) (ongoing : call.over = false) :
    phase ≠ .returned ∧ phase ≠ .thrown := by
  constructor
  all_goals
    rintro rfl
    simp [Call.over, there] at ongoing

theorem orderly_step (call : Call α) (deed : Deed α) (next : Call α) (kept : Orderly call)
    (fair : orderly call deed) (stepped : step call deed = some next) : Orderly next := by
  obtain ⟨ongoing, went⟩ := step_went stepped
  unfold Orderly at kept
  cases went with
  | unprepared entry =>
    rw [entry] at kept
    exact kept
  | prepared middle entry went =>
    rw [entry] at kept
    obtain ⟨world, called, rfl⟩ := within_eq went
    simp only [FileLocks.step] at called
    split at called
    · cases called
    · cases called
      exact ⟨.trying, by simp [Call.phase], kept⟩
  | aside next action entry went =>
    rw [entry] at kept
    obtain ⟨world, -, rfl⟩ := within_eq went
    simp only [Orderly, entry]
    exact kept
  | operated number middle ended entry went =>
    rw [entry] at kept
    obtain ⟨phase, there, at_⟩ := kept
    have entry_ : Call.entry { middle with ran := middle.ran ++ [ended] } = .locking number := by
      obtain ⟨world, -, rfl⟩ := within_eq went
      exact entry
    exact (orderly_locking entry_).mpr (at_operated entry there at_ fair went)
  | advanced number middle event entry other went =>
    rw [entry] at kept
    obtain ⟨phase, there, at_⟩ := kept
    have entry_ : (middle.recorded event).entry = .locking number := by
      obtain ⟨world, -, rfl⟩ := within_eq went
      cases event <;> exact entry
    exact (orderly_locking entry_).mpr (at_advances entry there at_ other fair went)
  | around number next action entry apart went =>
    rw [entry] at kept
    obtain ⟨phase, there, at_⟩ := kept
    obtain ⟨same, stays⟩ := within_others entry (by rw [there]; rfl) apart went
    obtain ⟨returned, thrown⟩ := over_phase there ongoing
    have entry_ : next.entry = .locking number := by rw [same]; exact entry
    refine (orderly_locking entry_).mpr ⟨phase, stays.trans there, ?_⟩
    rw [same]
    cases phase with
    | returned => exact absurd rfl returned
    | thrown => exact absurd rfl thrown
    | _ => exact at_

theorem orderly_served (kept : Orderly call) : Served call := by
  have empty (ran : call.ran = []) (once : call.invoked ≤ 1) (gone : call.over → call.gone) :
      Served call :=
    ⟨once, fun error thrown => by simp [ran] at thrown, gone⟩
  cases entry : call.entry with
  | preparing | unprepared =>
    have none : call.phase = none := by simp [Call.phase, entry]
    simp only [Orderly, entry] at kept
    refine empty kept.1 (by simp [Call.invoked, none, kept.1]) fun _ _ _ => ?_
    simp [kept.2]
  | locking number =>
    obtain ⟨phase, there, at_⟩ := (orderly_locking entry).mp kept
    have busy (ran : call.ran = []) (returned : phase ≠ .returned) (thrown : phase ≠ .thrown) :
        Served call := by
      refine empty ran ?_ fun finished => ?_
      · simp only [Call.invoked, there, ran]
        split <;> simp
      · simp [Call.over, entry, there, returned, thrown] at finished
    cases phase with
    | releasing serial again =>
      obtain ⟨-, created, ended, ran, plain⟩ := at_
      refine ⟨by simp [Call.invoked, there, ran], fun error _ outcome ends => ?_, fun finished => ?_⟩
      · simp [Call.outcome, entry, there] at ends
      · simp [Call.over, entry, there] at finished
    | returned =>
      obtain ⟨gone, ended, ran, plain⟩ := at_
      refine ⟨by simp [Call.invoked, there, ran], fun error thrown outcome ends => ?_, fun _ => gone⟩
      simp only [ran, mem_singleton] at thrown
      subst thrown
      simp only [Call.outcome, entry, there, ran, getLast?_singleton, Option.map_some,
        Option.mem_some_iff] at ends
      exact ends.symm.trans (plain_outcome plain)
    | thrown =>
      exact empty at_.2 (by simp [Call.invoked, there, at_.2]) fun _ => at_.1
    | _ => exact busy at_.1 nofun nofun

/-- A call that releases its lock goes on as its last operation has ended. -/
def EndsAt (ran : List (Ended α)) : Phase → Prop
  | .releasing _ again => ∃ last, ran.getLast? = some last ∧ last.again = again
  | .returned => ∃ last, ran.getLast? = some last ∧ last.again = false
  | _ => True

/-- What every step keeps. -/
structure Settled (call : Call α) : Prop where
  placed : ∀ number, call.entry = .locking number → call.phase.isSome
  ends : ∀ phase, call.phase = some phase → EndsAt call.ran phase

theorem settled_advanced (settled : Settled call) (entry : call.entry = .locking number)
    (other : ∀ exists_, event ≠ .operation exists_)
    (went : call.within (.advance number event) = some middle) : Settled middle := by
  obtain ⟨caller, after, later, before, advanced, same, moved, -⟩ := within_advance entry went
  refine ⟨fun _ _ => by simp [moved], fun found there => ?_⟩
  obtain rfl : later = found := Option.some.inj (moved.symm.trans there)
  have ends := settled.ends caller.phase before
  have ran : middle.ran = call.ran := by rw [same]
  have waits (nowMs : Nat) :
      EndsAt call.ran (stay .withFileLock call.world nowMs caller.startedAt) := by
    rcases stay_cases with given | waiting
    · rw [given]
      trivial
    · rw [waiting]
      trivial
  rw [ran]
  cases phase : caller.phase <;> cases event <;> rw [phase] at ends advanced <;>
    simp only [advance, reduceCtorEq] at advanced
  case inside.operation serial exists_ => exact absurd rfl (other exists_)
  case releasing.remove serial again fails =>
    cases again with
    | false =>
      cases advanced
      exact ends
    | true =>
      cases advanced
      trivial
  case trying.mkdir fails =>
    cases fails with
    | true =>
      cases advanced
      trivial
    | false =>
      dsimp only at advanced
      split at advanced <;> cases advanced <;> trivial
  case writing.writeOwner serial fails =>
    cases fails with
    | true =>
      cases advanced
      trivial
    | false =>
      dsimp only at advanced
      split at advanced <;> cases advanced <;> trivial
  case removing.remove judged fails => cases fails <;> cases advanced <;> trivial
  case readingOwner.readOwner nowMs alive =>
    split at advanced
    · split at advanced
      · cases advanced
        exact waits nowMs
      · split at advanced <;> cases advanced
        trivial
    · cases advanced
      trivial
  case statting.stat nowMs =>
    split at advanced
    · cases advanced
      trivial
    · split at advanced <;> cases advanced
      · trivial
      · exact waits nowMs
  all_goals
    cases advanced
    trivial

theorem settled_operated (entry : call.entry = .locking number)
    (went : call.within (.advance number (.operation ended.again)) = some middle) :
    Settled { middle with ran := middle.ran ++ [ended] } := by
  obtain ⟨caller, after, later, before, advanced, same, moved, -⟩ := within_advance entry went
  have shifted : Call.phase { middle with ran := middle.ran ++ [ended] } = some later := moved
  refine ⟨fun _ _ => by rw [shifted]; rfl, fun found there => ?_⟩
  obtain rfl : later = found := Option.some.inj (moved.symm.trans there)
  cases phase : caller.phase <;> rw [phase] at advanced <;>
    simp only [advance, reduceCtorEq] at advanced
  case inside serial =>
    cases advanced
    exact ⟨ended, by simp, by simp⟩

theorem settled_step (call : Call α) (deed : Deed α) (next : Call α) (settled : Settled call)
    (stepped : step call deed = some next) : Settled next := by
  obtain ⟨-, went⟩ := step_went stepped
  cases went with
  | unprepared entry => exact ⟨nofun, nofun⟩
  | prepared middle entry went =>
    obtain ⟨world, called, rfl⟩ := within_eq went
    simp only [FileLocks.step] at called
    split at called
    · cases called
    · cases called
      refine ⟨fun number _ => by simp [Call.phase], fun phase there => ?_⟩
      simp only [Call.phase, getElem?_concat_length, Option.map_some, Option.some.injEq]
        at there
      rw [← there]
      trivial
  | aside next action entry went =>
    obtain ⟨world, -, rfl⟩ := within_eq went
    refine ⟨fun number there => ?_, fun phase there => ?_⟩
    · simp [entry] at there
    · simp [Call.phase, entry] at there
  | operated number middle ended entry went => exact settled_operated entry went
  | advanced number middle event entry other went =>
    obtain ⟨placed, ends⟩ := settled_advanced settled entry other went
    cases event <;> exact ⟨placed, ends⟩
  | around number next action entry apart went =>
    obtain ⟨same, stays⟩ := within_others entry (settled.placed number entry) apart went
    have ran : next.ran = call.ran := by rw [same]
    refine ⟨fun _ _ => ?_, fun phase there => ?_⟩
    · rw [stays]
      exact settled.placed number entry
    · rw [ran]
      exact settled.ends phase (stays.symm.trans there)

/-- Nothing that such a call can still do serves it. -/
def Spoiled (call : Call α) : Prop :=
  (∃ ended ∈ call.ran, ¬ ended.plain) ∨ call.over ∧ ¬ call.gone

theorem spoiled_step (call : Call α) (deed : Deed α) (next : Call α) (spoiled : Spoiled call)
    (stepped : step call deed = some next) : Spoiled next := by
  obtain ⟨ongoing, went⟩ := step_went stepped
  obtain ⟨ended, found, wild⟩ : ∃ ended ∈ call.ran, ¬ ended.plain :=
    spoiled.resolve_right fun finished => by simp [ongoing] at finished
  refine .inl ⟨ended, ?_, wild⟩
  cases went with
  | unprepared entry => exact found
  | prepared middle entry went | aside middle action entry went
  | around number middle action entry apart went =>
    obtain ⟨world, -, rfl⟩ := within_eq went
    exact found
  | operated number middle last entry went =>
    obtain ⟨world, -, rfl⟩ := within_eq went
    exact mem_append_left _ found
  | advanced number middle event entry other went =>
    obtain ⟨world, -, rfl⟩ := within_eq went
    cases event <;> exact found

theorem ran_invoked : call.ran.length ≤ call.invoked := by
  unfold Call.invoked
  split <;> omega

theorem spoiled_unserved (settled : Settled call) (spoiled : Spoiled call) (finished : call.over) :
    ¬ Served call := by
  rintro ⟨once, own, released⟩
  rcases spoiled with ⟨ended, found, wild⟩ | ⟨-, left⟩
  · obtain ⟨error, rfl⟩ : ∃ error, ended = .throws error := by
      cases ended with
      | returns value => exact absurd rfl wild
      | throws error => exact ⟨error, rfl⟩
    have failed : call.outcome ≠ some .fails := fun ends => nomatch own error found .fails ends
    have entry : call.entry ≠ .unprepared := fun entry => failed (by simp [Call.outcome, entry])
    have thrown : call.phase ≠ some .thrown := fun thrown => failed (by simp [Call.outcome, thrown])
    have returned : call.phase = some .returned := by
      simpa [Call.over, entry, thrown] using finished
    have alone : call.ran = [.throws error] := by
      have short := Nat.le_trans ran_invoked once
      match ran : call.ran, found, short with
      | [last], found, _ => rw [mem_singleton.mp found]
    obtain ⟨last, is, later⟩ := settled.ends _ returned
    obtain rfl : Ended.throws error = last := by simpa [alone] using is
    have ends : call.outcome = some (Ended.throws error : Ended α).outcome := by
      simp [Call.outcome, returned, alone]
    cases error with
    | nullish isNull => exact failed ends
    | value identity code => exact wild (by simpa [Ended.plain, Ended.again, Thrown.exists_]
        using later)
  · exact left (released finished)

theorem spoiled_first (next : Call α) (kept : Orderly call) (unfair : ¬ orderly call deed)
    (stepped : step call deed = some next) : Spoiled next := by
  obtain ⟨-, went⟩ := step_went stepped
  cases went with
  | unprepared entry | prepared middle entry went | aside middle action entry went
  | around number middle action entry apart went => exact absurd trivial unfair
  | operated number middle ended entry went =>
    exact .inl ⟨ended, mem_append_right _ (mem_singleton.mpr rfl), unfair⟩
  | advanced number middle event entry other went =>
    obtain ⟨phase, there, at_⟩ := (orderly_locking entry).mp kept
    obtain ⟨caller, after, later, before, advanced, same, moved, lock⟩ :=
      within_advance entry went
    obtain rfl : phase = caller.phase := Option.some.inj (there.symm.trans before)
    obtain ⟨rfl, serial, held, found, inPlace, own⟩ : event = .remove true ∧
        ∃ serial ∈ call.holding, ∃ found ∈ call.world.lock, found.serial = serial := by
      cases event with
      | remove fails =>
        cases fails with
        | false => exact absurd trivial unfair
        | true =>
          simp only [orderly, not_forall] at unfair
          obtain ⟨serial, held, found, inPlace, own⟩ := unfair
          exact ⟨rfl, serial, held, found, inPlace, not_not.mp own⟩
      | _ => exact absurd trivial unfair
    have created : middle.created = call.created := by rw [same]
    have left (finished : later = .returned ∨ later = .thrown) (kept : after.lock = call.world.lock)
        (made : call.created = [serial]) : Spoiled (middle.recorded (.remove true)) := by
      have stays : found ∈ middle.world.lock := by rw [lock, kept]; exact inPlace
      refine .inr ⟨?_, fun gone => gone found stays ?_⟩
      · rcases finished with rfl | rfl
        all_goals simp [Call.over, moved]
      · rw [own]
        exact (created.trans made) ▸ mem_singleton.mpr rfl
    simp only [Call.holding, there, Option.bind_some] at held
    cases phase : caller.phase <;> rw [phase] at at_ held advanced <;> cases held <;>
      simp only [advance, reduceCtorEq] at advanced
    case releasing.refl again =>
      obtain ⟨rfl, made, -⟩ := at_
      cases advanced
      exact left (.inl rfl) rfl made
    case undoing.refl =>
      cases advanced
      exact left (.inr rfl) rfl at_.2

theorem start_orderly : Orderly (Call.start α world pid) := ⟨rfl, rfl⟩

theorem start_settled : Settled (Call.start α world pid) :=
  ⟨nofun, nofun⟩

theorem spoiled_run : ∀ {call final : Call α}, Orderly call →
    ¬ Along step orderly call deeds → runActions step call deeds = some final → Spoiled final := by
  induction deeds with
  | nil => exact fun _ unfair _ => absurd trivial unfair
  | cons deed rest ih =>
    intro call final kept unfair ran
    unfold runActions at ran
    cases stepped : step call deed with
    | none =>
      rw [stepped] at ran
      cases ran
    | some next =>
      rw [stepped] at ran
      by_cases fair : orderly call deed
      · refine ih (orderly_step call deed next kept fair stepped) (fun along => unfair ⟨fair, ?_⟩)
          ran
        rw [stepped]
        exact along
      · exact invariant_always spoiled_step rest (spoiled_first next kept fair stepped) ran

/-- A call whose steps are orderly is served at every moment, and no other call that comes to
its end is. -/
theorem served_iff_orderly (world : World) (pid : Nat) (deeds : List (Deed α)) (final : Call α)
    (ran : runActions step (Call.start α world pid) deeds = some final) :
    (Along step orderly (Call.start α world pid) deeds → Served final) ∧
      (final.over → Served final → Along step orderly (Call.start α world pid) deeds) := by
  refine ⟨fun along => ?_, fun finished served => ?_⟩
  · exact orderly_served (invariant_run orderly_step deeds start_orderly along ran)
  · by_contra unfair
    have spoiled := spoiled_run start_orderly unfair ran
    have settled := invariant_always settled_step deeds start_settled ran
    exact spoiled_unserved settled spoiled finished served

end

section Example

private def unlocked : World := ⟨0, none, 0, [], [], []⟩

private def busy : Thrown := .value 0 (some "EEXIST")

/-- The operation fails with an error of its own, while another call waits. -/
theorem served_iff_orderly_failed : Served (⟨⟨0, none, 1, [⟨1, 0, .returned⟩, ⟨2, 0, .waiting⟩],
      [], []⟩, 1, .locking 0, [.throws (.value 7 (some "ENOENT"))], [0]⟩ : Call Unit) :=
  (served_iff_orderly unlocked 1
    [.prepare false, .advances (.mkdir false), .advances (.writeOwner false), .others (.call 2),
      .others (.advance 1 (.mkdir false)), .others (.advance 1 (.readOwner true)),
      .operates (.throws (.value 7 (some "ENOENT"))), .advances (.remove false)] _
    (by decide)).1 (by decide)

/-- An operation that could not create a file is run again. -/
theorem operation_repeated : ∃ final : Call Unit, runActions step (Call.start Unit unlocked 1)
        [.prepare false, .advances (.mkdir false), .advances (.writeOwner false),
          .operates (.throws busy), .advances (.remove false), .advances (.readOwner false),
          .advances .stat, .advances (.mkdir false), .advances (.writeOwner false),
          .operates (.returns ()), .advances (.remove false)] = some final ∧
      final.over ∧ final.invoked = 2 ∧ final.outcome = some (.resolves ()) ∧ ¬ Served final :=
  ⟨⟨⟨0, none, 2, [⟨1, 0, .returned⟩], [], []⟩, 1, .locking 0, [.throws busy, .returns ()],
    [0, 1]⟩, by decide, rfl, rfl, rfl, fun served => absurd served.1 (by decide)⟩

end Example

end QiongQi.LockedCalls
