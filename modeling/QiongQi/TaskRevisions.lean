import Mathlib.Data.List.Basic
import QiongQi.LockFiles
import QiongQi.Machines

/-! Revisions of a task state: `FileTaskStateStore` with its commit lock, and
`InMemoryTaskStateStore`. The files are those of one scope; a call for another scope touches
none of them. -/
namespace QiongQi.TaskRevisions
open Machines LockFiles List

/-- A task state, as far as the stores read it. -/
structure TaskState (τ : Type) where
  revision : Nat
  content : τ

/-- `randomUUID` of a call of this run, or of an earlier one. -/
inductive Token
  | call (number : Nat)
  | earlier (number : Nat)
  deriving DecidableEq

structure TaskStatePreparedRevision where
  token : Token
  revision : Nat
  expectedRevision : Nat
  deriving DecidableEq

structure PreparedPayload (τ : Type) where
  prepared : TaskStatePreparedRevision
  state : TaskState τ

def TaskStatePreparedRevision.name (prepared : TaskStatePreparedRevision) : Nat × Token :=
  (prepared.revision, prepared.token)

def PreparedPayload.name {τ : Type} (payload : PreparedPayload τ) : Nat × Token :=
  payload.prepared.name

/-- `active.json`, which names a revision file. -/
structure ActivePointer where
  revision : Nat
  token : Token

def LOCK_ATTEMPTS : Nat := 100

def LOCK_STALE_MS : Nat := 10000

structure Lock where
  serial : Nat
  mtimeMs : Nat

/-- The file operation that a call comes to next. -/
inductive Phase (τ : Type)
  | preparing (state : TaskState τ) (expectedRevision : Nat)
  | saving (payload : PreparedPayload τ)
  | prepared (prepared : TaskStatePreparedRevision)
  | opening (prepared : TaskStatePreparedRevision) (attempt : Nat)
  | statting (prepared : TaskStatePreparedRevision) (attempt : Nat)
  | removing (prepared : TaskStatePreparedRevision) (attempt judged : Nat)
  | recording (prepared : TaskStatePreparedRevision) (serial : Nat)
  | loading (prepared : TaskStatePreparedRevision) (serial : Nat)
  | comparing (payload : PreparedPayload τ) (serial : Nat)
  | replacing (payload : PreparedPayload τ) (serial : Nat)
  | releasing (serial : Nat) (committed : Bool)
  | committed
  | thrown
  | gone

/-- `commits` lists what has been committed, the latest last. -/
structure World (τ : Type) where
  now : Nat
  lock : Option Lock
  made : Nat
  revisions : List (PreparedPayload τ)
  active : Option ActivePointer
  writers : List (Phase τ)
  commits : List (PreparedPayload τ)

/-- Calls of the store, at their file operations. A commit is for what a call of `prepare`
has returned. -/
inductive Action (τ : Type)
  | prepare (state : TaskState τ) (expectedRevision : Nat)
  | commit (number : Nat)
  | advance (number : Nat) (fails : Bool)
  | die (number : Nat)
  | tick (ms : Nat)

variable {τ : Type}

def World.activeRevision (world : World τ) : Nat :=
  match world.active with
  | none => 0
  | some pointer => pointer.revision

/-- `load` of the scope. -/
def World.load (world : World τ) : Option (TaskState τ) :=
  match world.active with
  | none => none
  | some pointer =>
    (find PreparedPayload.name (pointer.revision, pointer.token) world.revisions).map
      PreparedPayload.state

/-- The next attempt to create the lock file, if there is one left. -/
def retry (prepared : TaskStatePreparedRevision) (attempt : Nat) : Phase τ :=
  if attempt + 1 < LOCK_ATTEMPTS then .opening prepared (attempt + 1) else .thrown

/-- One file operation of a call, which may fail: what it changes, and where the call comes
to. -/
def advance (world : World τ) (number : Nat) : Phase τ → Bool → Option (World τ × Phase τ)
  | .preparing state expectedRevision, false =>
    if world.activeRevision ≠ expectedRevision ∨ state.revision ≠ expectedRevision + 1 then
      some (world, .thrown)
    else
      some (world, .saving ⟨⟨.call number, state.revision, expectedRevision⟩, state⟩)
  | .saving payload, false =>
    some ({ world with revisions := put PreparedPayload.name payload world.revisions },
      .prepared payload.prepared)
  | .opening prepared attempt, false =>
    match world.lock with
    | none =>
      some ({ world with lock := some ⟨world.made, world.now⟩, made := world.made + 1 },
        .recording prepared world.made)
    | some _ => some (world, .statting prepared attempt)
  | .statting prepared attempt, false =>
    match world.lock with
    | none => some (world, retry prepared attempt)
    | some lock =>
      if world.now - lock.mtimeMs > LOCK_STALE_MS then
        some (world, .removing prepared attempt lock.serial)
      else
        some (world, retry prepared attempt)
  | .statting prepared attempt, true => some (world, retry prepared attempt)
  | .removing prepared attempt _, fails =>
    some (if fails then world else { world with lock := none }, retry prepared attempt)
  | .recording prepared serial, false =>
    some ({ world with lock := world.lock.map fun lock =>
      if lock.serial = serial then { lock with mtimeMs := world.now } else lock },
      .loading prepared serial)
  | .loading prepared serial, false =>
    match find PreparedPayload.name prepared.name world.revisions with
    | none => some (world, .releasing serial false)
    | some payload => some (world, .comparing ⟨prepared, payload.state⟩ serial)
  | .comparing payload serial, false =>
    if world.activeRevision ≠ payload.prepared.expectedRevision then
      some (world, .releasing serial false)
    else if payload.state.revision ≠ payload.prepared.revision then
      some (world, .releasing serial false)
    else
      some (world, .replacing payload serial)
  | .replacing payload serial, false =>
    some ({ world with
      active := some ⟨payload.prepared.revision, payload.prepared.token⟩
      commits := world.commits ++ [payload] }, .releasing serial true)
  | .releasing _ committed, false =>
    some ({ world with lock := none }, if committed then .committed else .thrown)
  -- the lock file stays where its `writeFile` or its `rm` fails
  | .preparing _ _, true | .saving _, true | .opening _ _, true | .recording _ _, true
  | .releasing _ _, true => some (world, .thrown)
  | .loading _ serial, true | .comparing _ serial, true | .replacing _ serial, true =>
    some (world, .releasing serial false)
  | .prepared _, _ | .committed, _ | .thrown, _ | .gone, _ => none

def step (world : World τ) : Action τ → Option (World τ)
  | .prepare state expectedRevision =>
    some { world with writers := world.writers ++ [.preparing state expectedRevision] }
  | .commit number =>
    match world.writers[number]? with
    | some (.prepared prepared) =>
      some { world with writers := world.writers ++ [.opening prepared 0] }
    | _ => none
  | .advance number fails =>
    match world.writers[number]? with
    | none => none
    | some phase =>
      match advance world number phase fails with
      | none => none
      | some (next, later) => some { next with writers := world.writers.set number later }
  | .die number => some { world with writers := world.writers.set number .gone }
  | .tick ms => some { world with now := world.now + ms }

/-- The committed revisions go up by one from the base, no two of them build on one revision,
and the store has the last of them. -/
structure Chain (base : Nat) (commits : List (PreparedPayload τ))
    (current : Option (TaskState τ)) : Prop where
  numbered : commits.map (fun payload => payload.state.revision) = List.range' (base + 1) commits.length
  sole : (commits.map fun payload => payload.prepared.expectedRevision).Nodup
  kept : ∀ last, commits.getLast? = some last → current = some last.state

/-- No call is under way. Earlier processes may have left a lock, an active revision and
prepared ones. -/
structure Fresh (world : World τ) : Prop where
  writers : world.writers = []
  commits : world.commits = []
  lock : ∀ lock ∈ world.lock, lock.serial < world.made
  tokens : ∀ payload ∈ world.revisions, ∀ number, payload.prepared.token ≠ .call number

/-- The lock file that a call has created and not yet removed. -/
def Phase.holding : Phase τ → Option Nat
  | .recording _ serial | .loading _ serial | .comparing _ serial | .replacing _ serial
  | .releasing serial _ => some serial
  | _ => none

/-- The lock file that a call has found to be too old. -/
def Phase.judging : Phase τ → Option Nat
  | .removing _ _ judged => some judged
  | _ => none

def World.held (world : World τ) (serial : Nat) : Bool :=
  world.writers.any fun phase => phase.holding = some serial

/-- No live writer still holds a lock file that is found to be older than ten seconds, and
the file that is then removed is the one that was found so, or gone. -/
def orderly (world : World τ) : Action τ → Bool
  | .advance number false =>
    match world.writers[number]? with
    | some (.statting _ _) => world.lock.all fun lock =>
      world.now - lock.mtimeMs ≤ LOCK_STALE_MS || !world.held lock.serial
    | some (.removing _ _ judged) => world.lock.all fun lock => lock.serial = judged
    | _ => true
  | _ => true

def World.locks (world : World τ) : Locks Nat where
  file := world.lock.map Lock.serial
  made := world.made
  holds number serial :=
    ∃ phase, world.writers[number]? = some phase ∧ phase.holding = some serial
  judged number serial :=
    ∃ phase, world.writers[number]? = some phase ∧ phase.judging = some serial

/-- The file of a payload has its state. -/
def World.filed (world : World τ) (payload : PreparedPayload τ) : Prop :=
  (find PreparedPayload.name payload.name world.revisions).map PreparedPayload.state = some payload.state

/-- The revision file of the call is yet to be written. -/
def Phase.unsaved : Phase τ → Bool
  | .preparing _ _ | .saving _ => true
  | _ => false

/-- What a call has found out before it comes to a file operation. -/
def World.phaseKept (world : World τ) (number : Nat) : Phase τ → Prop
  | .saving payload => payload.prepared.token = .call number ∧
    payload.prepared.revision = payload.prepared.expectedRevision + 1
  | .prepared prepared | .opening prepared _ | .statting prepared _ | .removing prepared _ _
  | .recording prepared _ | .loading prepared _ =>
    prepared.revision = prepared.expectedRevision + 1
  | .comparing payload _ =>
    payload.prepared.revision = payload.prepared.expectedRevision + 1 ∧ world.filed payload
  | .replacing payload _ =>
    payload.prepared.revision = payload.prepared.expectedRevision + 1 ∧ world.filed payload ∧
      payload.state.revision = payload.prepared.revision ∧
      world.activeRevision = payload.prepared.expectedRevision
  | _ => True

/-- What orderly steps keep. -/
structure Kept (base : Nat) (world : World τ) : Prop where
  guarded : Guarded world.locks
  numbered : world.commits.map (fun payload => payload.state.revision) =
    List.range' (base + 1) world.commits.length
  based : world.commits.map (fun payload => payload.prepared.expectedRevision) =
    List.range' base world.commits.length
  active : world.activeRevision = base + world.commits.length
  last : ∀ last, world.commits.getLast? = some last →
    world.active = some ⟨last.prepared.revision, last.prepared.token⟩ ∧ world.filed last
  saved : ∀ payload ∈ world.revisions, ∀ number, payload.prepared.token = .call number →
    ∃ phase, world.writers[number]? = some phase ∧ phase.unsaved = false
  phases : ∀ number phase, world.writers[number]? = some phase → world.phaseKept number phase

theorem Kept.chain (kept : Kept base world) : Chain base world.commits world.load := by
  refine ⟨kept.numbered, ?_, fun last ended => ?_⟩
  · rw [kept.based]
    exact nodup_range'
  · obtain ⟨active, filed⟩ := kept.last last ended
    unfold World.load
    rw [active]
    exact filed

theorem Fresh.kept {world : World τ} (fresh : Fresh world) : Kept world.activeRevision world := by
  obtain ⟨writers, commits, lock, tokens⟩ := fresh
  have nobody : ∀ (number : Nat) (phase : Phase τ), world.writers[number]? ≠ some phase := by
    intro number phase
    simp [writers]
  refine ⟨⟨?_, ?_, ?_, ?_⟩, ?_, ?_, ?_, ?_, ?_, ?_⟩
  · rintro number serial ⟨phase, found, -⟩
    exact absurd found (nobody number phase)
  · rintro number other serial ⟨phase, found, -⟩
    exact absurd found (nobody number phase)
  · intro serial there
    obtain ⟨found, at_, rfl⟩ := Option.map_eq_some_iff.mp there
    exact lock found at_
  · rintro number serial ⟨phase, found, -⟩
    exact absurd found (nobody number phase)
  · rw [commits]
    rfl
  · rw [commits]
    rfl
  · rw [commits]
    rfl
  · intro last ended
    rw [commits] at ended
    cases ended
  · intro payload held number token
    exact absurd token (tokens payload held number)
  · intro number phase found
    exact absurd found (nobody number phase)

section
variable {world after : World τ} {phase later : Phase τ} {fails : Bool}

theorem retry_quiet (prepared : TaskStatePreparedRevision) (attempt : Nat) :
    (retry prepared attempt : Phase τ).holding = none ∧ (retry prepared attempt : Phase τ).judging = none ∧
      (retry prepared attempt : Phase τ).unsaved = false := by
  unfold retry
  split <;> exact ⟨rfl, rfl, rfl⟩

theorem retry_kept (next : prepared.revision = prepared.expectedRevision + 1) :
    world.phaseKept number (retry prepared attempt) := by
  unfold retry
  split
  · exact next
  · trivial

/-- What one file operation does to what is stored. -/
theorem advance_store (advanced : advance world number phase fails = some (after, later)) :
    (after.active = world.active ∧ after.commits = world.commits ∧
        after.revisions = world.revisions ∧ phase.unsaved = later.unsaved) ∨
      (phase.unsaved = true ∧ later = .thrown ∧ after = world) ∨
      (∃ payload, phase = .saving payload ∧ later = .prepared payload.prepared ∧
        after = { world with revisions := put PreparedPayload.name payload world.revisions }) ∨
      (∃ payload serial, phase = .replacing payload serial ∧ later = .releasing serial true ∧
        after = { world with
          active := some ⟨payload.prepared.revision, payload.prepared.token⟩
          commits := world.commits ++ [payload] }) := by
  unfold advance at advanced
  split at advanced
  case h_1 state expectedRevision =>
    split at advanced
    · cases advanced
      exact .inr (.inl ⟨rfl, rfl, rfl⟩)
    · cases advanced
      exact .inl ⟨rfl, rfl, rfl, rfl⟩
  case h_2 payload =>
    cases advanced
    exact .inr (.inr (.inl ⟨payload, rfl, rfl, rfl⟩))
  case h_10 payload serial =>
    cases advanced
    exact .inr (.inr (.inr ⟨payload, serial, rfl, rfl, rfl⟩))
  case h_3 | h_8 =>
    split at advanced <;> cases advanced <;> exact .inl ⟨rfl, rfl, rfl, rfl⟩
  case h_4 prepared attempt =>
    have quiet := (retry_quiet (τ := τ) prepared attempt).2.2
    split at advanced
    · cases advanced
      exact .inl ⟨rfl, rfl, rfl, quiet.symm⟩
    · split at advanced
      · cases advanced
        exact .inl ⟨rfl, rfl, rfl, rfl⟩
      · cases advanced
        exact .inl ⟨rfl, rfl, rfl, quiet.symm⟩
  case h_5 prepared attempt =>
    cases advanced
    exact .inl ⟨rfl, rfl, rfl, (retry_quiet prepared attempt).2.2.symm⟩
  case h_6 _ prepared attempt judged =>
    have quiet := (retry_quiet (τ := τ) prepared attempt).2.2
    cases advanced
    cases fails <;> exact .inl ⟨rfl, rfl, rfl, quiet.symm⟩
  case h_9 payload serial =>
    split at advanced
    · cases advanced
      exact .inl ⟨rfl, rfl, rfl, rfl⟩
    · split at advanced <;> cases advanced <;> exact .inl ⟨rfl, rfl, rfl, rfl⟩
  case h_11 serial committed =>
    cases advanced
    cases committed <;> exact .inl ⟨rfl, rfl, rfl, rfl⟩
  case h_12 | h_13 =>
    cases advanced
    exact .inr (.inl ⟨rfl, rfl, rfl⟩)
  case h_20 | h_21 | h_22 | h_23 => cases advanced
  all_goals
    cases advanced
    exact .inl ⟨rfl, rfl, rfl, rfl⟩

/-- What one file operation does to the lock. -/
inductive LockEffect (world after : World τ) (phase later : Phase τ) (fails : Bool) : Prop
  | quiet (file : after.lock.map Lock.serial = world.lock.map Lock.serial)
    (made : after.made = world.made)
    (holding : later.holding = none ∨ later.holding = phase.holding)
    (judging : later.judging = none)
  | created (free : world.lock = none) (lock : after.lock = some ⟨world.made, world.now⟩)
    (made : after.made = world.made + 1) (holding : later.holding = some world.made)
    (judging : later.judging = none)
  | judged (prepared : TaskStatePreparedRevision) (attempt : Nat) (lock : Lock)
    (asked : phase = .statting prepared attempt) (went : fails = false)
    (there : world.lock = some lock) (old : world.now - lock.mtimeMs > LOCK_STALE_MS)
    (same : world = after) (found : later = .removing prepared attempt lock.serial)
  | released (serial : Nat) (held : phase.holding = some serial) (lock : after.lock = none)
    (made : after.made = world.made) (holding : later.holding = none)
    (judging : later.judging = none)
  | reclaimed (prepared : TaskStatePreparedRevision) (attempt judged : Nat)
    (asked : phase = .removing prepared attempt judged) (went : fails = false)
    (lock : after.lock = none) (made : after.made = world.made) (holding : later.holding = none)
    (judging : later.judging = none)

theorem advance_lock (advanced : advance world number phase fails = some (after, later)) :
    LockEffect world after phase later fails := by
  unfold advance at advanced
  split at advanced
  case h_1 | h_8 =>
    split at advanced <;> cases advanced <;> first
      | exact .quiet rfl rfl (.inl rfl) rfl
      | exact .quiet rfl rfl (.inr rfl) rfl
  case h_3 =>
    split at advanced
    · rename_i free
      cases advanced
      exact .created free rfl rfl rfl rfl
    · cases advanced
      exact .quiet rfl rfl (.inl rfl) rfl
  case h_4 prepared attempt =>
    obtain ⟨holding, judging, -⟩ := retry_quiet (τ := τ) prepared attempt
    split at advanced
    · cases advanced
      exact .quiet rfl rfl (.inl holding) judging
    · rename_i lock there
      split at advanced
      · rename_i old
        cases advanced
        exact .judged prepared attempt lock rfl rfl there old rfl rfl
      · cases advanced
        exact .quiet rfl rfl (.inl holding) judging
  case h_5 prepared attempt =>
    obtain ⟨holding, judging, -⟩ := retry_quiet (τ := τ) prepared attempt
    cases advanced
    exact .quiet rfl rfl (.inl holding) judging
  case h_6 _ prepared attempt judged =>
    obtain ⟨holding, judging, -⟩ := retry_quiet (τ := τ) prepared attempt
    cases advanced
    cases fails with
    | false => exact .reclaimed prepared attempt judged rfl rfl rfl rfl holding judging
    | true => exact .quiet rfl rfl (.inl holding) judging
  case h_7 prepared serial =>
    cases advanced
    refine .quiet ?_ rfl (.inr rfl) rfl
    cases world.lock with
    | none => rfl
    | some lock =>
      simp only [Option.map_some]
      split <;> rfl
  case h_9 payload serial =>
    split at advanced
    · cases advanced
      exact .quiet rfl rfl (.inr rfl) rfl
    · split at advanced <;> cases advanced <;> exact .quiet rfl rfl (.inr rfl) rfl
  case h_11 serial committed =>
    cases advanced
    cases committed <;> exact .released serial rfl rfl rfl rfl rfl
  case h_20 | h_21 | h_22 | h_23 => cases advanced
  all_goals
    cases advanced
    first
      | exact .quiet rfl rfl (.inl rfl) rfl
      | exact .quiet rfl rfl (.inr rfl) rfl

theorem phase_kept (kept : world.phaseKept number phase)
    (advanced : advance world number phase fails = some (after, later)) :
    after.phaseKept number later := by
  unfold advance at advanced
  split at advanced
  case h_1 state expectedRevision =>
    split at advanced
    · cases advanced
      trivial
    · rename_i fits
      cases advanced
      rw [not_or, not_not, not_not] at fits
      exact ⟨rfl, fits.2⟩
  case h_2 =>
    cases advanced
    exact kept.2
  case h_3 =>
    split at advanced <;> cases advanced <;> exact kept
  case h_4 prepared attempt =>
    split at advanced
    · cases advanced
      exact retry_kept kept
    · split at advanced
      · cases advanced
        exact kept
      · cases advanced
        exact retry_kept kept
  case h_5 prepared attempt =>
    cases advanced
    exact retry_kept kept
  case h_6 _ prepared attempt judged =>
    cases advanced
    exact retry_kept kept
  case h_7 =>
    cases advanced
    exact kept
  case h_8 prepared serial =>
    split at advanced
    · cases advanced
      trivial
    · rename_i payload found
      cases advanced
      exact ⟨kept, by simp only [World.filed, PreparedPayload.name, found, Option.map_some]⟩
  case h_9 payload serial =>
    split at advanced
    · cases advanced
      trivial
    · rename_i current
      split at advanced
      · cases advanced
        trivial
      · rename_i same
        cases advanced
        exact ⟨kept.1, kept.2, not_not.mp same, not_not.mp current⟩
  case h_11 serial committed =>
    cases advanced
    cases committed <;> trivial
  case h_20 | h_21 | h_22 | h_23 => cases advanced
  all_goals
    cases advanced
    trivial

theorem writers_set (found : world.writers[number]? = some phase) :
    (world.writers.set number later)[other]? =
      if other = number then some later else world.writers[other]? := by
  by_cases same : other = number
  · subst same
    have bound := (List.getElem?_eq_some_iff.mp found).1
    rw [if_pos rfl, getElem?_set_self bound]
  · rw [if_neg same, getElem?_set_ne (Ne.symm same)]

theorem some_set (found : world.writers[number]? = some phase) (part : Phase τ → Option Nat)
    (held : ∃ one, (world.writers.set number later)[other]? = some one ∧ part one = some serial) :
    (other = number ∧ part later = some serial) ∨
      (other ≠ number ∧ ∃ one, world.writers[other]? = some one ∧ part one = some serial) := by
  obtain ⟨one, at_, shown⟩ := held
  rw [writers_set found] at at_
  by_cases same : other = number
  · rw [if_pos same] at at_
    cases at_
    exact .inl ⟨same, shown⟩
  · rw [if_neg same] at at_
    exact .inr ⟨same, one, at_, shown⟩

theorem held_of_holds (holds : world.locks.holds number serial) : world.held serial = true := by
  obtain ⟨phase, found, held⟩ := holds
  exact any_eq_true.mpr ⟨phase, mem_of_getElem? found, by simpa using held⟩

/-- An orderly file operation does to the lock what a lock file allows. -/
theorem advance_moves (found : world.writers[number]? = some phase)
    (fair : orderly world (.advance number fails) = true)
    (effect : LockEffect world after phase later fails) :
    Moves world.locks (World.locks { after with writers := world.writers.set number later }) := by
  cases effect with
  | quiet file made holding judging =>
    refine .stays file made (fun other serial held => ?_) (fun other serial before => ?_)
    · rcases some_set found Phase.holding held with ⟨rfl, own⟩ | ⟨-, held⟩
      · rcases holding with none | same
        · rw [none] at own
          cases own
        · exact ⟨phase, found, same ▸ own⟩
      · exact held
    · rcases some_set found Phase.judging before with ⟨-, own⟩ | ⟨-, before⟩
      · rw [judging] at own
        cases own
      · exact before
  | created free lock made holding judging =>
    refine .creates number (by rw [World.locks, free]; rfl) (by rw [World.locks, lock]; rfl) made
      (fun other serial held => ?_) (fun other serial before => ?_)
    · rcases some_set found Phase.holding held with ⟨same, own⟩ | ⟨-, held⟩
      · rw [holding] at own
        exact .inr ⟨same, (Option.some.inj own).symm⟩
      · exact .inl held
    · rcases some_set found Phase.judging before with ⟨-, own⟩ | ⟨-, before⟩
      · rw [judging] at own
        cases own
      · exact before
  | judged prepared attempt lock asked went there old same later_ =>
    subst asked went same later_
    have young : world.held lock.serial = false := by
      have verdict := fair
      simp only [orderly, found, there, Option.all_some, Bool.or_eq_true, decide_eq_true_eq,
        Bool.not_eq_true'] at verdict
      exact verdict.resolve_left (by omega)
    refine .judges number lock.serial (by rw [World.locks, there]; rfl)
      (fun other held => ?_) rfl rfl (fun other serial held => ?_) (fun other serial before => ?_)
    · have taken := held_of_holds held
      rw [young] at taken
      cases taken
    · rcases some_set found Phase.holding held with ⟨-, own⟩ | ⟨-, held⟩
      · cases own
      · exact held
    · rcases some_set found Phase.judging before with ⟨rfl, own⟩ | ⟨-, before⟩
      · cases own
        exact .inr ⟨rfl, rfl⟩
      · exact .inl before
  | released serial held lock made holding judging =>
    refine .releases number serial ⟨phase, found, held⟩ (by rw [World.locks, lock]; rfl) made
      (fun other serial held => ?_) (fun other serial before => ?_)
    · rcases some_set found Phase.holding held with ⟨-, own⟩ | ⟨apart, held⟩
      · rw [holding] at own
        cases own
      · exact ⟨held, apart⟩
    · rcases some_set found Phase.judging before with ⟨-, own⟩ | ⟨-, before⟩
      · rw [judging] at own
        cases own
      · exact before
  | reclaimed prepared attempt judged asked went lock made holding judging =>
    subst asked went
    have same : world.locks.file = none ∨ world.locks.file = some judged := by
      cases there : world.lock with
      | none => exact .inl (by rw [World.locks, there]; rfl)
      | some other =>
        simp only [orderly, found, there, Option.all_some, decide_eq_true_eq] at fair
        exact .inr (by rw [World.locks, there, ← fair]; rfl)
    refine .removes number judged ⟨_, found, rfl⟩ same (by rw [World.locks, lock]; rfl) made
      (fun other serial held => ?_) (fun other serial before => ?_)
    · rcases some_set found Phase.holding held with ⟨-, own⟩ | ⟨-, held⟩
      · rw [holding] at own
        cases own
      · exact held
    · rcases some_set found Phase.judging before with ⟨-, own⟩ | ⟨-, before⟩
      · rw [judging] at own
        cases own
      · exact before

/-- What a call has found out stays so, unless it is about to replace the active revision and
that changes. -/
theorem phaseKept_mono (filed : ∀ payload, world.filed payload → after.filed payload)
    (same : after.activeRevision = world.activeRevision ∨ ∀ payload serial, phase ≠ .replacing payload serial)
    (kept : world.phaseKept number phase) : after.phaseKept number phase := by
  cases phase with
  | comparing payload serial => exact ⟨kept.1, filed payload kept.2⟩
  | replacing payload serial =>
    rcases same with same | other
    · exact ⟨kept.1, filed payload kept.2.1, kept.2.2.1, same.trans kept.2.2.2⟩
    · exact absurd rfl (other payload serial)
  | _ => exact kept

/-- The calls after a step, where the other calls keep what they have found out. -/
theorem phases_set (kept : Kept base world) (found : world.writers[number]? = some phase)
    (own : after.phaseKept number later)
    (filed : ∀ payload, world.filed payload → after.filed payload)
    (same : after.activeRevision = world.activeRevision ∨
      ∀ other one, other ≠ number → world.writers[other]? = some one →
        ∀ payload serial, one ≠ .replacing payload serial)
    (other : Nat) (one : Phase τ) (at_ : (world.writers.set number later)[other]? = some one) :
    after.phaseKept other one := by
  rw [writers_set found] at at_
  by_cases caller : other = number
  · rw [if_pos caller] at at_
    cases at_
    exact caller ▸ own
  · rw [if_neg caller] at at_
    exact phaseKept_mono filed (same.imp_right fun others => others other one caller at_)
      (kept.phases other one at_)

theorem saved_set (kept : Kept base world) (found : world.writers[number]? = some phase)
    (unsaved : phase.unsaved = later.unsaved ∨ phase.unsaved = true)
    (held : payload ∈ world.revisions) (token : payload.prepared.token = .call other) :
    ∃ one, (world.writers.set number later)[other]? = some one ∧ one.unsaved = false := by
  obtain ⟨one, at_, saved⟩ := kept.saved payload held other token
  by_cases own : other = number
  · subst own
    cases found.symm.trans at_
    rcases unsaved with same | unsaved
    · exact ⟨later, by rw [writers_set found, if_pos rfl], same ▸ saved⟩
    · rw [unsaved] at saved
      cases saved
  · exact ⟨one, by rw [writers_set found, if_neg own, at_], saved⟩

theorem kept_same (kept : Kept base world) (found : world.writers[number]? = some phase)
    (own : after.phaseKept number later)
    (guarded : Guarded (World.locks { after with writers := world.writers.set number later }))
    (active : after.active = world.active) (commits : after.commits = world.commits)
    (revisions : after.revisions = world.revisions)
    (unsaved : phase.unsaved = later.unsaved ∨ phase.unsaved = true) :
    Kept base { after with writers := world.writers.set number later } := by
  have filed : ∀ payload, world.filed payload → after.filed payload := by
    intro payload filed
    unfold World.filed at filed ⊢
    rw [revisions]
    exact filed
  have same : after.activeRevision = world.activeRevision := by
    unfold World.activeRevision
    rw [active]
  refine ⟨guarded, ?_, ?_, ?_, fun last ended => ?_, fun payload held other token => ?_, ?_⟩
  · rw [commits]
    exact kept.numbered
  · rw [commits]
    exact kept.based
  · rw [commits]
    exact same.trans kept.active
  · obtain ⟨pointed, stored⟩ := kept.last last (commits ▸ ended)
    exact ⟨active.trans pointed, filed last stored⟩
  · exact saved_set kept found unsaved (revisions ▸ held) token
  · have phases := phases_set kept found own filed (.inl same)
    exact phases

theorem kept_saved (kept : Kept base world) (found : world.writers[number]? = some (.saving payload))
    (guarded : Guarded (World.locks { world with
      revisions := put PreparedPayload.name payload world.revisions
      writers := world.writers.set number (.prepared payload.prepared) })) : Kept base { world with
      revisions := put PreparedPayload.name payload world.revisions
      writers := world.writers.set number (.prepared payload.prepared) } := by
  obtain ⟨token, next⟩ := kept.phases number _ found
  have filed : ∀ other, world.filed other → World.filed { world with
      revisions := put PreparedPayload.name payload world.revisions } other := by
    intro other filed
    have apart : payload.name ≠ other.name := by
      intro same
      obtain ⟨stored, there, -⟩ := Option.map_eq_some_iff.mp filed
      obtain ⟨held, named⟩ := find_mem there
      have name : stored.prepared.token = .call number := by
        rw [← token]
        exact congrArg Prod.snd (named.trans same.symm)
      obtain ⟨phase, at_, saved⟩ := kept.saved stored held number name
      rw [found] at at_
      cases at_
      cases saved
    unfold World.filed
    rw [find_put_other apart]
    exact filed
  refine ⟨guarded, kept.numbered, kept.based, kept.active, fun last ended => ?_,
    fun stored held other named => ?_, ?_⟩
  · obtain ⟨pointed, stored⟩ := kept.last last ended
    exact ⟨pointed, filed last stored⟩
  · rcases mem_put.mp held with rfl | ⟨held, -⟩
    · have own : other = number := by
        rw [token] at named
        cases named
        rfl
      rw [own]
      exact ⟨_, by rw [writers_set found, if_pos rfl], rfl⟩
    · exact saved_set kept found (.inr rfl) held named
  · have own : World.phaseKept { world with
        revisions := put PreparedPayload.name payload world.revisions } number
        (.prepared payload.prepared) := next
    have phases := phases_set kept found own filed (.inl rfl)
    exact phases

theorem kept_replaced (kept : Kept base world)
    (found : world.writers[number]? = some (.replacing payload serial))
    (guarded : Guarded (World.locks { world with
      active := some ⟨payload.prepared.revision, payload.prepared.token⟩
      commits := world.commits ++ [payload]
      writers := world.writers.set number (.releasing serial true) })) : Kept base { world with
      active := some ⟨payload.prepared.revision, payload.prepared.token⟩
      commits := world.commits ++ [payload]
      writers := world.writers.set number (.releasing serial true) } := by
  obtain ⟨next, filed, revision, current⟩ := kept.phases number _ found
  have active := kept.active
  refine ⟨guarded, ?_, ?_, ?_, fun last ended => ?_, fun stored held other named => ?_, ?_⟩
  · simp only [map_append, map_cons, map_nil, kept.numbered, length_append,
      length_singleton, List.range'_1_concat]
    rw [show payload.state.revision = base + 1 + world.commits.length by omega]
  · simp only [map_append, map_cons, map_nil, kept.based, length_append,
      length_singleton, List.range'_1_concat]
    rw [show payload.prepared.expectedRevision = base + world.commits.length by omega]
  · simp only [World.activeRevision, length_append, length_singleton]
    omega
  · simp only [getLast?_append, getLast?_singleton, Option.some_or] at ended
    cases ended
    exact ⟨rfl, filed⟩
  · have unsaved : (Phase.replacing payload serial).unsaved =
        (Phase.releasing serial true : Phase τ).unsaved := rfl
    exact saved_set kept found (.inl unsaved) held named
  · refine phases_set kept found trivial (fun _ filed => filed) (.inr ?_)
    rintro other one apart at_ stored key rfl
    exact apart (kept.guarded.exclusive ⟨_, at_, rfl⟩ ⟨_, found, rfl⟩)

theorem kept_advance (kept : Kept base world) (found : world.writers[number]? = some phase)
    (fair : orderly world (.advance number fails) = true)
    (advanced : advance world number phase fails = some (after, later)) :
    Kept base { after with writers := world.writers.set number later } := by
  have guarded := kept.guarded.moves (advance_moves found fair (advance_lock advanced))
  have own := phase_kept (kept.phases number phase found) advanced
  rcases advance_store advanced with ⟨active, commits, revisions, unsaved⟩ |
    ⟨unsaved, rfl, rfl⟩ | ⟨payload, rfl, rfl, rfl⟩ | ⟨payload, serial, rfl, rfl, rfl⟩
  · exact kept_same kept found own guarded active commits revisions (.inl unsaved)
  · exact kept_same kept found own guarded rfl rfl rfl (.inr unsaved)
  · have saved := kept_saved kept found guarded
    exact saved
  · have replaced := kept_replaced kept found guarded
    exact replaced

theorem kept_fewer (kept : Kept base world) (lock : next_.lock = world.lock)
    (made : next_.made = world.made) (revisions : next_.revisions = world.revisions)
    (active : next_.active = world.active) (commits : next_.commits = world.commits)
    (fewer : ∀ (number : Nat) (phase : Phase τ), next_.writers[number]? = some phase →
      world.writers[number]? = some phase ∨
        phase.holding = none ∧ phase.judging = none ∧ world.phaseKept number phase)
    (more : ∀ (number : Nat) (phase : Phase τ), world.writers[number]? = some phase → phase.unsaved = false →
        ∃ later, next_.writers[number]? = some later ∧ later.unsaved = false) : Kept base next_ := by
  have moved : Moves world.locks next_.locks := by
    refine .stays (by rw [World.locks, World.locks, lock]) made (fun number serial held => ?_)
      (fun number serial before => ?_)
    · obtain ⟨phase, found, held⟩ := held
      rcases fewer number phase found with found | ⟨none, -⟩
      · exact ⟨phase, found, held⟩
      · rw [none] at held
        cases held
    · obtain ⟨phase, found, before⟩ := before
      rcases fewer number phase found with found | ⟨-, none, -⟩
      · exact ⟨phase, found, before⟩
      · rw [none] at before
        cases before
  have filed : ∀ payload, world.filed payload → next_.filed payload := by
    intro payload filed
    unfold World.filed at filed ⊢
    rw [revisions]
    exact filed
  have same : next_.activeRevision = world.activeRevision := by
    unfold World.activeRevision
    rw [active]
  refine ⟨kept.guarded.moves moved, ?_, ?_, ?_, fun last ended => ?_,
    fun payload held number token => ?_, fun number phase found => ?_⟩
  · rw [commits]
    exact kept.numbered
  · rw [commits]
    exact kept.based
  · rw [commits]
    exact same.trans kept.active
  · obtain ⟨pointed, stored⟩ := kept.last last (commits ▸ ended)
    exact ⟨active.trans pointed, filed last stored⟩
  · obtain ⟨phase, found, saved⟩ := kept.saved payload (revisions ▸ held) number token
    exact more number phase found saved
  · have before : world.phaseKept number phase := by
      rcases fewer number phase found with found | ⟨-, -, own⟩
      · exact kept.phases number phase found
      · exact own
    exact phaseKept_mono filed (.inl same) before

theorem kept_append (kept : Kept base world) (holding : phase.holding = none)
    (judging : phase.judging = none) (own : ∀ number, world.phaseKept number phase) :
    Kept base { world with writers := world.writers ++ [phase] } := by
  refine kept_fewer kept rfl rfl rfl rfl rfl (fun number one found => ?_)
    (fun number one found saved => ?_)
  · rw [getElem?_append] at found
    split at found
    · exact .inl found
    · have last := mem_of_getElem? found
      rw [mem_singleton] at last
      exact .inr ⟨last ▸ holding, last ▸ judging, last ▸ own number⟩
  · have bound := (List.getElem?_eq_some_iff.mp found).1
    exact ⟨one, by rw [getElem?_append_left bound, found], saved⟩

theorem kept_step (kept : Kept base world) (fair : orderly world action = true)
    (stepped : step world action = some next_) : Kept base next_ := by
  cases action with
  | prepare state expectedRevision =>
    cases stepped
    exact kept_append kept rfl rfl fun _ => trivial
  | commit number =>
    simp only [step] at stepped
    split at stepped
    · rename_i prepared found
      cases stepped
      exact kept_append kept rfl rfl fun _ => kept.phases number _ found
    · cases stepped
  | advance number fails =>
    simp only [step] at stepped
    split at stepped
    · cases stepped
    · rename_i phase found
      split at stepped
      · cases stepped
      · rename_i after later advanced
        cases stepped
        exact kept_advance kept found fair advanced
  | die number =>
    cases stepped
    refine kept_fewer kept rfl rfl rfl rfl rfl (fun other one found => ?_)
      (fun other one found saved => ?_)
    · rw [getElem?_set] at found
      split at found
      · split at found
        · cases found
          exact .inr ⟨rfl, rfl, trivial⟩
        · cases found
      · exact .inl found
    · by_cases own : number = other
      · subst own
        have bound := (List.getElem?_eq_some_iff.mp found).1
        exact ⟨.gone, getElem?_set_self bound, rfl⟩
      · exact ⟨one, by rw [getElem?_set_ne own, found], saved⟩
  | tick ms =>
    cases stepped
    exact kept_fewer kept rfl rfl rfl rfl rfl (fun _ _ found => .inl found)
      fun _ phase found saved => ⟨phase, found, saved⟩

end

/-- `handed` lists what `prepare` has returned. -/
structure Memory (τ : Type) where
  active : Option (TaskState τ)
  prepared : List (PreparedPayload τ)
  tokens : Nat
  handed : List TaskStatePreparedRevision
  commits : List (PreparedPayload τ)

inductive MemoryAction (τ : Type)
  | prepare (state : TaskState τ) (expectedRevision : Nat)
  | commit (prepared : TaskStatePreparedRevision)

def Memory.activeRevision (memory : Memory τ) : Nat :=
  match memory.active with
  | none => 0
  | some state => state.revision

/-- A call of the store in memory has no await. One that throws changes nothing. -/
def memoryStep (memory : Memory τ) : MemoryAction τ → Option (Memory τ)
  | .prepare state expectedRevision =>
    if memory.activeRevision ≠ expectedRevision ∨ state.revision ≠ expectedRevision + 1 then
      some memory
    else
      let prepared : TaskStatePreparedRevision :=
        ⟨.call memory.tokens, state.revision, expectedRevision⟩
      some { memory with
        prepared := put PreparedPayload.name ⟨prepared, state⟩ memory.prepared
        tokens := memory.tokens + 1
        handed := prepared :: memory.handed }
  | .commit prepared =>
    if prepared ∈ memory.handed then
      match find PreparedPayload.name prepared.name memory.prepared with
      | none => some memory
      | some entry =>
        if memory.activeRevision ≠ prepared.expectedRevision then
          some memory
        else
          some { memory with
            active := some entry.state
            prepared := drop PreparedPayload.name prepared.name memory.prepared
            commits := memory.commits ++ [⟨prepared, entry.state⟩] }
    else
      none

/-- A new store. -/
def emptyMemory : Memory τ where
  active := none
  prepared := []
  tokens := 0
  handed := []
  commits := []

/-- What the calls of the store in memory keep. -/
structure MemoryKept (base : Nat) (memory : Memory τ) : Prop where
  numbered : memory.commits.map (fun payload => payload.state.revision) =
    List.range' (base + 1) memory.commits.length
  based : memory.commits.map (fun payload => payload.prepared.expectedRevision) =
    List.range' base memory.commits.length
  active : memory.activeRevision = base + memory.commits.length
  last : ∀ last, memory.commits.getLast? = some last → memory.active = some last.state
  handed : ∀ prepared ∈ memory.handed, prepared.revision = prepared.expectedRevision + 1
  entries : ∀ entry ∈ memory.prepared, entry.state.revision = entry.prepared.revision

theorem MemoryKept.chain (kept : MemoryKept base memory) :
    Chain base memory.commits memory.active := by
  refine ⟨kept.numbered, ?_, kept.last⟩
  rw [kept.based]
  exact nodup_range'

theorem memoryKept_step (kept : MemoryKept base memory)
    (stepped : memoryStep memory action = some next_) : MemoryKept base next_ := by
  cases action with
  | prepare state expectedRevision =>
    simp only [memoryStep] at stepped
    split at stepped
    · cases stepped
      exact kept
    · rename_i fits
      rw [not_or, not_not, not_not] at fits
      cases stepped
      refine ⟨kept.numbered, kept.based, kept.active, kept.last, fun prepared held => ?_,
        fun entry held => ?_⟩
      · rcases mem_cons.mp held with rfl | held
        · exact fits.2
        · exact kept.handed prepared held
      · rcases mem_put.mp held with rfl | ⟨held, -⟩
        · rfl
        · exact kept.entries entry held
  | commit prepared =>
    simp only [memoryStep] at stepped
    split at stepped
    · rename_i handed
      split at stepped
      · cases stepped
        exact kept
      · rename_i entry found
        split at stepped
        · cases stepped
          exact kept
        · rename_i current
          cases stepped
          have next_ := kept.handed prepared handed
          have active := kept.active
          obtain ⟨held, named⟩ := find_mem found
          have revision : entry.state.revision = prepared.revision :=
            (kept.entries entry held).trans (congrArg Prod.fst named)
          refine ⟨?_, ?_, ?_, fun last ended => ?_, kept.handed, fun other held => ?_⟩
          · simp only [map_append, map_cons, map_nil, kept.numbered,
              length_append, length_singleton, List.range'_1_concat]
            rw [show entry.state.revision = base + 1 + memory.commits.length by omega]
          · simp only [map_append, map_cons, map_nil, kept.based,
              length_append, length_singleton, List.range'_1_concat]
            rw [show prepared.expectedRevision = base + memory.commits.length by omega]
          · simp only [Memory.activeRevision, length_append, length_singleton]
            omega
          · simp only [getLast?_append, getLast?_singleton, Option.some_or] at ended
            cases ended
            rfl
          · exact kept.entries other (mem_drop.mp held).1
    · cases stepped

theorem memoryKept_empty : MemoryKept 0 (emptyMemory : Memory τ) where
  numbered := rfl
  based := rfl
  active := rfl
  last := fun _ ended => by cases ended
  handed := fun _ held => by cases held
  entries := fun _ held => by cases held

/-- The revisions form a chain: in the file store where its lock files are not taken from
live writers, in the store in memory always. -/
theorem revisions_chain (actions : List (Action τ)) (world final : World τ) (fresh : Fresh world)
    (fair : Along step (fun state action => orderly state action = true) world actions)
    (ran : runActions step world actions = some final)
    (calls : List (MemoryAction τ)) (memory : Memory τ)
    (called : runActions memoryStep emptyMemory calls = some memory) :
    Chain world.activeRevision final.commits final.load ∧ Chain 0 memory.commits memory.active :=
  ⟨(invariant_run (fun _ _ _ => kept_step) actions fresh.kept fair ran).chain,
    (invariant_always (fun _ _ _ => memoryKept_step) calls memoryKept_empty called).chain⟩

section Example

private def unrevised : World Nat := ⟨0, none, 0, [], none, [], []⟩

private theorem unrevised_fresh : Fresh unrevised :=
  ⟨rfl, rfl, fun _ there => (by cases there), fun _ held => (by cases held)⟩

/-- Two writers prepare on one revision, both commit one after the other, and a later
revision follows. -/
private def twoCommits : List (Action Nat) :=
  [.prepare ⟨1, 10⟩ 0, .prepare ⟨1, 11⟩ 0, .advance 0 false, .advance 0 false, .advance 1 false,
    .advance 1 false, .commit 1, .commit 0] ++ List.replicate 6 (.advance 2 false) ++
    List.replicate 5 (.advance 3 false) ++
    [.prepare ⟨2, 20⟩ 1, .advance 4 false, .advance 4 false, .commit 4] ++
    List.replicate 6 (.advance 5 false)

private def twoCalls : List (MemoryAction Nat) :=
  [.prepare ⟨1, 10⟩ 0, .prepare ⟨1, 11⟩ 0, .commit ⟨.call 0, 1, 0⟩, .commit ⟨.call 1, 1, 0⟩]

theorem revisions_chain_two : ∃ final memory, runActions step unrevised twoCommits = some final ∧
      runActions memoryStep emptyMemory twoCalls = some memory ∧
      final.commits.length = 2 ∧ Chain 0 final.commits final.load ∧
      Chain 0 memory.commits memory.active :=
  ⟨_, _, rfl, rfl, rfl, revisions_chain twoCommits unrevised _ unrevised_fresh
    (by decide) rfl twoCalls _ rfl⟩

/-- A writer that has compared pauses for eleven seconds; another one takes its lock and
commits, and then both have committed a revision 1. -/
theorem paused_writer_commits : Fresh unrevised ∧ ∃ final, runActions step unrevised
        ([.prepare ⟨1, 10⟩ 0, .prepare ⟨1, 11⟩ 0, .advance 0 false, .advance 0 false,
          .advance 1 false, .advance 1 false, .commit 0, .commit 1] ++
          List.replicate 4 (.advance 2 false) ++ [.tick 11000] ++
          List.replicate 9 (.advance 3 false) ++ [.advance 2 false]) = some final ∧
      final.commits.map (fun payload => payload.state.revision) = [1, 1] ∧
      final.commits.map (fun payload => payload.prepared.expectedRevision) = [0, 0] ∧
      ¬ Chain 0 final.commits final.load := by
  refine ⟨unrevised_fresh, _, rfl, rfl, rfl, fun chain => ?_⟩
  exact absurd chain.numbered (by decide)

end Example

end QiongQi.TaskRevisions
