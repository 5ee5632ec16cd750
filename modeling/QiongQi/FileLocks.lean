import QiongQi.LockFiles
import QiongQi.Machines

/-! `withFileLock` and `acquireFileMutationLock`: a lock directory with an owner record, and
its reclaiming from owners that are gone. -/
namespace QiongQi.FileLocks
open Machines LockFiles

/-- The two routines run one algorithm. `withFileLock` takes an `EEXIST` error of its own
operation for a taken lock, and it reads the clock after `stat` and not before. -/
inductive Routine
  | withFileLock
  | acquireFileMutationLock
  deriving DecidableEq

def LOCK_WAIT_TIMEOUT_MS : Nat := 60000

def OWNERLESS_LOCK_STALE_MS : Nat := 600000

/-- The lock directory, with the pid in its `owner.json`. The number tells it apart from the
directories that were there before. -/
structure Lock where
  serial : Nat
  mtimeMs : Nat
  owner : Option Nat
  deriving DecidableEq

/-- The file system step that a caller comes to next. -/
inductive Phase
  | trying
  | writing (serial : Nat)
  | inside (serial : Nat)
  | releasing (serial : Nat) (again : Bool)
  | undoing (serial : Nat)
  | readingOwner (nowMs : Nat)
  | statting (nowMs : Nat)
  | removing (judged : Nat)
  | waiting
  | returned
  | thrown
  deriving DecidableEq

structure Caller where
  pid : Nat
  startedAt : Nat
  phase : Phase
  deriving DecidableEq

/-- `robbed` lists the callers that have removed a lock, each with a live caller that was
holding it. -/
structure World where
  now : Nat
  lock : Option Lock
  made : Nat
  callers : List Caller
  dead : List Nat
  robbed : List (Nat × Nat)
  deriving DecidableEq

/-- What a caller does. A file system step fails where `fails` says so; an operation ends
with an `EEXIST` error where `exists_` does. A pid that is no longer in use is not alive; one
that another process has taken since then is. -/
inductive Event
  | mkdir (fails : Bool)
  | writeOwner (fails : Bool)
  | operation (exists_ : Bool)
  | remove (fails : Bool)
  | readOwner (alive : Bool)
  | stat
  | poll
  deriving DecidableEq

inductive Action
  | call (pid : Nat)
  | advance (number : Nat) (event : Event)
  | die (pid : Nat)
  | tick (ms : Nat)

/-- The lock that a caller has created and not yet removed. -/
def Phase.holding : Phase → Option Nat
  | .writing serial | .inside serial | .releasing serial _ | .undoing serial => some serial
  | _ => none

/-- The lock that a caller has judged to be left behind. -/
def Phase.judging : Phase → Option Nat
  | .removing judged => some judged
  | _ => none

/-- A caller of a process that is alive. -/
def World.live (world : World) (number : Nat) : Option Caller :=
  world.callers[number]?.filter fun caller => caller.pid ∉ world.dead

def World.holders (world : World) (serial : Nat) : List Nat :=
  (List.range world.callers.length).filter fun number =>
    (world.live number).any fun caller => caller.phase.holding = some serial

/-- `rm`, whoever has made the directory. -/
def World.remove (world : World) (number : Nat) : World :=
  match world.lock with
  | none => world
  | some lock =>
    { world with
      lock := none
      robbed := world.robbed ++
        ((world.holders lock.serial).filter fun holder => holder ≠ number).map (number, ·) }

def Routine.clock (routine : Routine) (world : World) (nowMs : Nat) : Nat :=
  match routine with
  | .withFileLock => world.now
  | .acquireFileMutationLock => nowMs

/-- The lock stays: the caller waits, or gives up. -/
def stay (routine : Routine) (world : World) (nowMs startedAt : Nat) : Phase :=
  if routine.clock world nowMs - startedAt ≥ LOCK_WAIT_TIMEOUT_MS then .thrown else .waiting

def Lock.stale (lock : Lock) (nowMs : Nat) : Bool :=
  ¬ nowMs - lock.mtimeMs < OWNERLESS_LOCK_STALE_MS

/-- One caller goes on: what it changes outside of itself, and where it comes to. -/
def advance (routine : Routine) (world : World) (number : Nat) (caller : Caller) :
    Phase → Event → Option (World × Phase)
  | .trying, .mkdir true => some (world, .thrown)
  | .trying, .mkdir false =>
    match world.lock with
    | none =>
      some ({ world with
        lock := some ⟨world.made, world.now, none⟩
        made := world.made + 1 }, .writing world.made)
    | some _ => some (world, .readingOwner world.now)
  | .writing serial, .writeOwner true => some (world, .undoing serial)
  | .writing serial, .writeOwner false =>
    match world.lock with
    | none => some (world, .undoing serial)
    | some lock =>
      some ({ world with lock := some { lock with owner := some caller.pid } }, .inside serial)
  | .undoing _, .remove fails =>
    some (if fails then world else world.remove number, .thrown)
  | .inside serial, .operation exists_ =>
    some (world, .releasing serial (exists_ && routine = .withFileLock))
  | .releasing _ again, .remove fails =>
    some (if fails then world else world.remove number, if again then .readingOwner world.now else .returned)
  | .readingOwner nowMs, .readOwner alive =>
    match world.lock with
    | some ⟨serial, _, some pid⟩ =>
      if alive then
        some (world, stay routine world nowMs caller.startedAt)
      else if pid ∈ world.dead then
        some (world, .removing serial)
      else
        none
    | _ => some (world, .statting nowMs)
  | .statting nowMs, .stat =>
    match world.lock with
    | none => some (world, .trying)
    | some lock =>
      if lock.stale (routine.clock world nowMs) then
        some (world, .removing lock.serial)
      else
        some (world, stay routine world nowMs caller.startedAt)
  | .removing _, .remove false => some (world.remove number, .trying)
  | .removing _, .remove true => some (world, .thrown)
  | .waiting, .poll => some (world, .trying)
  | _, _ => none

def step (routine : Routine) (world : World) : Action → Option World
  | .call pid =>
    if pid ∈ world.dead then
      none
    else
      some { world with callers := world.callers ++ [⟨pid, world.now, .trying⟩] }
  | .advance number event =>
    match world.live number with
    | none => none
    | some caller =>
      match advance routine world number caller caller.phase event with
      | none => none
      | some (next, phase) =>
        some { next with callers := world.callers.set number { caller with phase := phase } }
  | .die pid => some { world with dead := pid :: world.dead }
  | .tick ms => some { world with now := world.now + ms }

def World.inside (world : World) (number : Nat) : Prop :=
  ∃ caller serial, world.live number = some caller ∧ caller.phase = .inside serial

/-- At most one live caller is inside its operation, and nobody has removed a lock that
another live caller was holding. -/
def Exclusive (world : World) : Prop :=
  (∀ left right, world.inside left → world.inside right → left = right) ∧ world.robbed = []

/-- Nobody has called yet. A lock may have been left behind. -/
def Fresh (world : World) : Prop :=
  world.callers = [] ∧ world.robbed = [] ∧ ∀ lock ∈ world.lock, lock.serial < world.made

/-- A reclaiming `rm` finds no lock or the one that was judged, and no live caller is still
holding a lock that has had no owner record for the ten minutes. -/
def orderly (routine : Routine) (world : World) : Action → Bool
  | .advance number event =>
    match world.live number with
    | none => true
    | some caller =>
      match caller.phase, event with
      | .removing judged, .remove false => world.lock.all fun lock => lock.serial = judged
      | .statting nowMs, .stat => world.lock.all fun lock =>
        !lock.stale (routine.clock world nowMs) || (world.holders lock.serial).isEmpty
      | _, _ => true
  | _ => true

def World.locks (world : World) : Locks Nat where
  file := world.lock.map Lock.serial
  made := world.made
  holds number serial :=
    ∃ caller, world.live number = some caller ∧ caller.phase.holding = some serial
  judged number serial :=
    ∃ caller, world.live number = some caller ∧ caller.phase.judging = some serial

/-- What orderly steps keep: an owner record names the process of whoever holds the lock. -/
structure Kept (world : World) : Prop where
  guarded : Guarded world.locks
  recorded : ∀ lock pid, world.lock = some lock → lock.owner = some pid →
    ∀ number caller, world.live number = some caller →
      caller.phase.holding = some lock.serial → caller.pid = pid
  robbed : world.robbed = []

theorem Kept.exclusive (kept : Kept world) : Exclusive world := by
  refine ⟨fun left right leftInside rightInside => ?_, kept.robbed⟩
  obtain ⟨leftCaller, first, leftLive, leftPhase⟩ := leftInside
  obtain ⟨rightCaller, second, rightLive, rightPhase⟩ := rightInside
  have leftHolds : world.locks.holds left first := ⟨leftCaller, leftLive, by rw [leftPhase]; rfl⟩
  have rightHolds : world.locks.holds right second :=
    ⟨rightCaller, rightLive, by rw [rightPhase]; rfl⟩
  exact kept.guarded.exclusive leftHolds rightHolds

theorem Fresh.kept {world : World} (fresh : Fresh world) : Kept world := by
  obtain ⟨callers, robbed, old⟩ := fresh
  have nobody : ∀ number, world.live number = none := by
    intro number
    simp [World.live, callers]
  refine ⟨⟨?_, ?_, ?_, ?_⟩, ?_, robbed⟩
  · rintro number serial ⟨caller, live, -⟩
    rw [nobody] at live
    cases live
  · rintro left right serial ⟨caller, live, -⟩
    rw [nobody] at live
    cases live
  · intro serial there
    obtain ⟨lock, found, rfl⟩ := Option.map_eq_some_iff.mp there
    exact old lock found
  · rintro number serial ⟨caller, live, -⟩
    rw [nobody] at live
    cases live
  · intro lock pid _ _ number caller live
    rw [nobody] at live
    cases live

section
variable {routine : Routine} {world next : World} {number : Nat} {caller : Caller} {event : Event}
variable {serial other : Nat} {after : World} {later : Phase}

theorem mem_holders : number ∈ world.holders serial ↔ world.locks.holds number serial := by
  simp only [World.holders, World.locks, List.mem_filter, List.mem_range, Option.any_eq_true,
    decide_eq_true_eq]
  refine ⟨fun ⟨_, held⟩ => held, fun held => ⟨?_, held⟩⟩
  obtain ⟨caller, live, -⟩ := held
  simp only [World.live, Option.filter_eq_some_iff] at live
  exact (List.getElem?_eq_some_iff.mp live.1).1

theorem remove_robbed (alone : ∀ lock ∈ world.lock, ∀ other,
      world.locks.holds other lock.serial → other = number) :
    (world.remove number).robbed = world.robbed := by
  unfold World.remove
  split
  · rfl
  · rename_i lock there
    have others : (world.holders lock.serial).filter (fun holder => holder ≠ number) = [] := by
      rw [List.filter_eq_nil_iff]
      intro other held
      have same := alone lock there other (mem_holders.mp held)
      simpa using same
    simp only [others, List.map_nil, List.append_nil]

@[simp] theorem remove_lock : (world.remove number).lock = none := by
  unfold World.remove
  split
  · assumption
  · rfl

@[simp] theorem remove_made : (world.remove number).made = world.made := by
  unfold World.remove
  split <;> rfl

@[simp] theorem remove_dead : (world.remove number).dead = world.dead := by
  unfold World.remove
  split <;> rfl

/-- What one step of a caller does to the lock. -/
inductive Effect (routine : Routine) (world : World) (number : Nat) (caller : Caller) (event : Event) :
    World → Phase → Prop
  | quiet (later : Phase)
    (holding : later.holding = none ∨ later.holding = caller.phase.holding)
    (judging : later.judging = none) : Effect routine world number caller event world later
  | created (free : world.lock = none) :
    Effect routine world number caller event
      { world with lock := some ⟨world.made, world.now, none⟩, made := world.made + 1 }
      (.writing world.made)
  | recorded (serial : Nat) (lock : Lock) (phase : caller.phase = .writing serial)
    (there : world.lock = some lock) :
    Effect routine world number caller event
      { world with lock := some { lock with owner := some caller.pid } } (.inside serial)
  | ownerGone (lock : Lock) (pid : Nat) (there : world.lock = some lock)
    (owner : lock.owner = some pid) (gone : pid ∈ world.dead) :
    Effect routine world number caller event world (.removing lock.serial)
  | ownerless (lock : Lock) (nowMs : Nat) (phase : caller.phase = .statting nowMs)
    (asked : event = .stat) (there : world.lock = some lock)
    (stale : lock.stale (routine.clock world nowMs)) :
    Effect routine world number caller event world (.removing lock.serial)
  | released (serial : Nat) (later : Phase) (held : caller.phase.holding = some serial)
    (holding : later.holding = none) (judging : later.judging = none) :
    Effect routine world number caller event (world.remove number) later
  | reclaimed (judged : Nat) (phase : caller.phase = .removing judged)
    (asked : event = .remove false) :
    Effect routine world number caller event (world.remove number) .trying

theorem stay_holding : (stay routine world nowMs startedAt).holding = none ∧
      (stay routine world nowMs startedAt).judging = none := by
  unfold stay
  split <;> exact ⟨rfl, rfl⟩

theorem advance_effect
    (advanced : advance routine world number caller caller.phase event = some (after, later)) :
    Effect routine world number caller event after later := by
  obtain ⟨pid, startedAt, phase⟩ := caller
  dsimp only at advanced
  unfold advance at advanced
  split at advanced
  case h_1 => 
    cases advanced
    exact .quiet _ (.inl rfl) rfl
  case h_2 =>
    split at advanced
    · rename_i free
      cases advanced
      exact .created free
    · cases advanced
      exact .quiet _ (.inl rfl) rfl
  case h_3 serial =>
    cases advanced
    exact .quiet _ (.inr rfl) rfl
  case h_4 serial =>
    split at advanced
    · cases advanced
      exact .quiet _ (.inr rfl) rfl
    · rename_i lock there
      cases advanced
      exact .recorded serial lock rfl there
  case h_5 serial fails =>
    cases advanced
    cases fails with
    | false => exact .released serial _ rfl rfl rfl
    | true => exact .quiet _ (.inl rfl) rfl
  case h_6 serial exists_ =>
    cases advanced
    exact .quiet _ (.inr rfl) rfl
  case h_7 serial again fails =>
    cases advanced
    cases fails with
    | false => cases again <;> exact .released serial _ rfl rfl rfl
    | true => cases again <;> exact .quiet _ (.inl rfl) rfl
  case h_8 nowMs alive =>
    split at advanced
    · rename_i serial mtimeMs owner there
      cases alive with
      | true =>
        cases advanced
        obtain ⟨holding, judging⟩ := stay_holding
        exact .quiet _ (.inl holding) judging
      | false =>
        by_cases gone : owner ∈ world.dead
        · simp only [Bool.false_eq_true, if_false, gone, if_true] at advanced
          cases advanced
          exact .ownerGone ⟨serial, mtimeMs, some owner⟩ owner there rfl gone
        · simp only [Bool.false_eq_true, if_false, gone] at advanced
          cases advanced
    · cases advanced
      exact .quiet _ (.inl rfl) rfl
  case h_9 nowMs =>
    split at advanced
    · cases advanced
      exact .quiet _ (.inl rfl) rfl
    · rename_i lock there
      split at advanced
      · rename_i stale
        cases advanced
        exact .ownerless lock nowMs rfl rfl there stale
      · cases advanced
        obtain ⟨holding, judging⟩ := stay_holding
        exact .quiet _ (.inl holding) judging
  case h_10 judged =>
    cases advanced
    exact .reclaimed judged rfl rfl
  case h_11 | h_12 =>
    cases advanced
    exact .quiet _ (.inl rfl) rfl
  case h_13 => cases advanced

section
variable (live : world.live number = some caller)
include live

theorem live_at : world.callers[number]? = some caller ∧ caller.pid ∉ world.dead := by
  simpa [World.live, Option.filter_eq_some_iff] using live

theorem live_set (dead : after.dead = world.dead) : World.live { after with
        callers := world.callers.set number { caller with phase := later } } other =
      if other = number then some { caller with phase := later } else world.live other := by
  obtain ⟨found, alive⟩ := live_at live
  unfold World.live
  by_cases same : other = number
  · subst same
    have bound := (List.getElem?_eq_some_iff.mp found).1
    simp only [List.getElem?_set_self bound, if_true, dead, Option.filter_some, alive,
      not_false_eq_true, decide_true]
  · simp only [List.getElem?_set_ne (Ne.symm same), if_neg same, dead]

theorem one_set (dead : after.dead = world.dead) (liveOne : World.live { after with
      callers := world.callers.set number { caller with phase := later } } other = some one) :
    (other = number ∧ one = { caller with phase := later }) ∨
      (other ≠ number ∧ world.live other = some one) := by
  rw [live_set live dead] at liveOne
  by_cases same : other = number
  · rw [if_pos same] at liveOne
    cases liveOne
    exact .inl ⟨same, rfl⟩
  · rw [if_neg same] at liveOne
    exact .inr ⟨same, liveOne⟩

theorem some_set (dead : after.dead = world.dead)
    (part : Phase → Option Nat) (held : ∃ one, World.live { after with
        callers := world.callers.set number { caller with phase := later } } other = some one ∧
      part one.phase = some serial) : (other = number ∧ part later = some serial) ∨
      (other ≠ number ∧ ∃ one, world.live other = some one ∧ part one.phase = some serial) := by
  obtain ⟨one, liveOne, phase⟩ := held
  rcases one_set live dead liveOne with ⟨same, rfl⟩ | ⟨apart, liveOne⟩
  · exact .inl ⟨same, phase⟩
  · exact .inr ⟨apart, one, liveOne, phase⟩

end

section
variable (kept : Kept world)
include kept

section
variable (live : world.live number = some caller)
include live

theorem recorded_set (holding : later.holding = none ∨ later.holding = caller.phase.holding)
    (there : world.lock = some lock) (owner : lock.owner = some pid)
    (liveOne : World.live { world with
      callers := world.callers.set number { caller with phase := later } } other = some one)
    (held : one.phase.holding = some lock.serial) : one.pid = pid := by
  rcases one_set live rfl liveOne with ⟨rfl, rfl⟩ | ⟨-, liveOne⟩
  · rcases holding with none | same
    · rw [none] at held
      cases held
    · exact kept.recorded lock pid there owner other caller live (same ▸ held)
  · exact kept.recorded lock pid there owner other one liveOne held

theorem kept_quiet (holding : later.holding = none ∨ later.holding = caller.phase.holding)
    (judging : later.judging = none) :
    Kept { world with callers := world.callers.set number { caller with phase := later } } := by
  have moved : Moves world.locks (World.locks { world with
      callers := world.callers.set number { caller with phase := later } }) := by
    refine .stays rfl rfl (fun other serial held => ?_) (fun other serial before => ?_)
    · rcases some_set live rfl Phase.holding held with ⟨rfl, own⟩ | ⟨-, held⟩
      · rcases holding with none | same
        · rw [none] at own
          cases own
        · exact ⟨caller, live, same ▸ own⟩
      · exact held
    · rcases some_set live rfl Phase.judging before with ⟨-, own⟩ | ⟨-, before⟩
      · rw [judging] at own
        cases own
      · exact before
  exact ⟨kept.guarded.moves moved, fun _ _ there owner _ _ liveOne held =>
    recorded_set kept live holding there owner liveOne held, kept.robbed⟩

theorem kept_created (free : world.lock = none) : Kept { world with
      lock := some ⟨world.made, world.now, none⟩
      made := world.made + 1
      callers := world.callers.set number { caller with phase := .writing world.made } } := by
  have moved : Moves world.locks (World.locks { world with
      lock := some ⟨world.made, world.now, none⟩
      made := world.made + 1
      callers := world.callers.set number { caller with phase := .writing world.made } }) := by
    refine .creates number (by rw [World.locks, free]; rfl) rfl rfl
      (fun other serial held => ?_) (fun other serial before => ?_)
    · rcases some_set live rfl Phase.holding held with ⟨rfl, own⟩ | ⟨-, held⟩
      · cases own
        exact .inr ⟨rfl, rfl⟩
      · exact .inl held
    · rcases some_set live rfl Phase.judging before with ⟨-, own⟩ | ⟨-, before⟩
      · cases own
      · exact before
  refine ⟨kept.guarded.moves moved, ?_, kept.robbed⟩
  intro lock pid there owner
  cases there
  cases owner

theorem kept_recorded
    (phase : caller.phase = .writing serial) (there : world.lock = some lock) : Kept { world with
      lock := some { lock with owner := some caller.pid }
      callers := world.callers.set number { caller with phase := .inside serial } } := by
  have held : world.locks.holds number serial := ⟨caller, live, by rw [phase]; rfl⟩
  have moved : Moves world.locks (World.locks { world with
      lock := some { lock with owner := some caller.pid }
      callers := world.callers.set number { caller with phase := .inside serial } }) := by
    refine .stays (by rw [World.locks, World.locks, there]; rfl) rfl
      (fun other serial held => ?_) (fun other serial before => ?_)
    · rcases some_set live rfl Phase.holding held with ⟨rfl, own⟩ | ⟨-, held⟩
      · exact ⟨caller, live, by rw [phase]; exact own⟩
      · exact held
    · rcases some_set live rfl Phase.judging before with ⟨-, own⟩ | ⟨-, before⟩
      · cases own
      · exact before
  refine ⟨kept.guarded.moves moved, ?_, kept.robbed⟩
  intro found pid at_ owner other one liveOne heldOne
  cases at_
  cases owner
  rcases one_set live rfl liveOne with ⟨-, rfl⟩ | ⟨apart, liveOne⟩
  · rfl
  · -- nobody else holds the lock whose record is written
    exact absurd (kept.guarded.exclusive ⟨one, liveOne, heldOne⟩ held) apart

theorem kept_judged
    (there : world.lock = some lock) (idle : ∀ other, ¬ world.locks.holds other lock.serial) :
    Kept { world with
      callers := world.callers.set number { caller with phase := .removing lock.serial } } := by
  have moved : Moves world.locks (World.locks { world with
      callers := world.callers.set number { caller with phase := .removing lock.serial } }) := by
    refine .judges number lock.serial (by rw [World.locks, there]; rfl) idle rfl rfl
      (fun other serial held => ?_) (fun other serial before => ?_)
    · rcases some_set live rfl Phase.holding held with ⟨-, own⟩ | ⟨-, held⟩
      · cases own
      · exact held
    · rcases some_set live rfl Phase.judging before with ⟨rfl, own⟩ | ⟨-, before⟩
      · cases own
        exact .inr ⟨rfl, rfl⟩
      · exact .inl before
  exact ⟨kept.guarded.moves moved, fun _ _ there owner _ _ liveOne held =>
    recorded_set kept live (.inl rfl) there owner liveOne held, kept.robbed⟩

end

theorem kept_removed (moved : Moves world.locks (World.locks { world.remove number with
      callers := world.callers.set number { caller with phase := later } }))
    (alone : ∀ lock ∈ world.lock, ∀ other,
      world.locks.holds other lock.serial → other = number) : Kept { world.remove number with
      callers := world.callers.set number { caller with phase := later } } := by
  refine ⟨kept.guarded.moves moved, ?_, (remove_robbed alone).trans kept.robbed⟩
  intro lock pid there
  simp only [remove_lock] at there
  cases there

theorem kept_released (live : world.live number = some caller)
    (held : caller.phase.holding = some serial) (holding : later.holding = none)
    (judging : later.judging = none) : Kept { world.remove number with
      callers := world.callers.set number { caller with phase := later } } := by
  have own : world.locks.holds number serial := ⟨caller, live, held⟩
  refine kept_removed kept (.releases number serial own (by simp [World.locks])
    (by simp [World.locks]) (fun other serial held => ?_) (fun other serial before => ?_))
    (fun _ _ _ held => kept.guarded.exclusive held own)
  · rcases some_set live remove_dead Phase.holding held with ⟨-, own⟩ | ⟨apart, held⟩
    · rw [holding] at own
      cases own
    · exact ⟨held, apart⟩
  · rcases some_set live remove_dead Phase.judging before with ⟨-, own⟩ | ⟨-, before⟩
    · rw [judging] at own
      cases own
    · exact before

theorem kept_reclaimed (live : world.live number = some caller)
    (phase : caller.phase = .removing judged) (same : ∀ lock ∈ world.lock, lock.serial = judged) :
    Kept { world.remove number with
      callers := world.callers.set number { caller with phase := .trying } } := by
  have before : world.locks.judged number judged := ⟨caller, live, by rw [phase]; rfl⟩
  have file : world.locks.file = none ∨ world.locks.file = some judged := by
    cases there : world.lock with
    | none => exact .inl (by rw [World.locks, there]; rfl)
    | some lock =>
      refine .inr ?_
      rw [World.locks, there, ← same lock there]
      rfl
  have nobody := kept.guarded.nobody before file
  refine kept_removed kept (.removes number judged before file (by simp [World.locks])
    (by simp [World.locks]) (fun other serial held => ?_) (fun other serial before => ?_))
    (fun lock _ other held => absurd held (nobody other lock.serial))
  · rcases some_set live remove_dead Phase.holding held with ⟨-, own⟩ | ⟨-, held⟩
    · cases own
    · exact held
  · rcases some_set live remove_dead Phase.judging before with ⟨-, own⟩ | ⟨-, before⟩
    · cases own
    · exact before

theorem kept_advance (fair : orderly routine world (.advance number event) = true)
    (live : world.live number = some caller)
    (advanced : advance routine world number caller caller.phase event = some (after, later)) :
    Kept { after with callers := world.callers.set number { caller with phase := later } } := by
  have effect := advance_effect advanced
  cases effect with
  | quiet _ holding judging => exact kept_quiet kept live holding judging
  | created free => exact kept_created kept live free
  | recorded serial lock phase there =>
    have written := kept_recorded kept live phase there
    exact written
  | ownerGone lock pid there owner gone =>
    refine kept_judged kept live there fun other held => ?_
    obtain ⟨one, liveOne, holding⟩ := held
    have named := kept.recorded lock pid there owner other one liveOne holding
    exact (live_at liveOne).2 (named ▸ gone)
  | ownerless lock nowMs phase asked there stale =>
    refine kept_judged kept live there fun other held => ?_
    have none : world.holders lock.serial = [] := by
      simpa [orderly, live, phase, asked, there, stale] using fair
    have member := mem_holders.mpr held
    rw [none] at member
    cases member
  | released serial _ held holding judging => exact kept_released kept live held holding judging
  | reclaimed judged phase asked =>
    have same : ∀ lock ∈ world.lock, lock.serial = judged := by
      simpa [orderly, live, phase, asked, Option.all_eq_true] using fair
    exact kept_reclaimed kept live phase same

end

end

theorem kept_fewer (kept : Kept world) (lock : next.lock = world.lock)
    (made : next.made = world.made) (robbed : next.robbed = world.robbed)
    (fewer : ∀ number caller, next.live number = some caller →
      world.live number = some caller ∨ caller.phase = .trying) : Kept next := by
  have moved : Moves world.locks next.locks := by
    refine .stays (by rw [World.locks, World.locks, lock]) made (fun number serial held => ?_)
      (fun number serial before => ?_)
    · obtain ⟨caller, live, holding⟩ := held
      rcases fewer number caller live with live | trying
      · exact ⟨caller, live, holding⟩
      · rw [trying] at holding
        cases holding
    · obtain ⟨caller, live, judging⟩ := before
      rcases fewer number caller live with live | trying
      · exact ⟨caller, live, judging⟩
      · rw [trying] at judging
        cases judging
  refine ⟨kept.guarded.moves moved, ?_, robbed.trans kept.robbed⟩
  intro found pid there owner number caller live holding
  rw [lock] at there
  rcases fewer number caller live with live | trying
  · exact kept.recorded found pid there owner number caller live holding
  · rw [trying] at holding
    cases holding

theorem kept_step (kept : Kept world) (fair : orderly routine world action = true)
    (stepped : step routine world action = some next) : Kept next := by
  cases action with
  | call pid =>
    simp only [step] at stepped
    split at stepped
    · cases stepped
    · cases stepped
      refine kept_fewer kept rfl rfl rfl fun number caller live => ?_
      simp only [World.live, List.getElem?_append] at live ⊢
      split at live
      · exact .inl live
      · obtain ⟨found, -⟩ := Option.filter_eq_some_iff.mp live
        have last := List.mem_of_getElem? found
        rw [List.mem_singleton] at last
        exact .inr (by rw [last])
  | advance number event =>
    simp only [step] at stepped
    split at stepped
    · cases stepped
    · rename_i caller live
      split at stepped
      · cases stepped
      · rename_i after later advanced
        cases stepped
        exact kept_advance kept fair live advanced
  | die pid =>
    cases stepped
    refine kept_fewer kept rfl rfl rfl fun number caller live => ?_
    simp only [World.live, Option.filter_eq_some_iff, List.mem_cons, not_or, decide_eq_true_eq]
      at live ⊢
    exact .inl ⟨live.1, live.2.2⟩
  | tick ms =>
    cases stepped
    exact kept_fewer kept rfl rfl rfl fun _ _ live => .inl live

/-- Where reclaimers remove only what they judged, and no live caller leaves its lock without
an owner record for too long, the lock is exclusive at every moment. -/
theorem orderly_run_exclusive (routine : Routine) (actions : List Action) (world final : World)
    (fresh : Fresh world)
    (fair : Along (step routine) (fun state action => orderly routine state action = true) world
      actions)
    (ran : runActions (step routine) world actions = some final) : Exclusive final :=
  (invariant_run (fun _ _ _ => kept_step) actions fresh.kept fair ran).exclusive

section Example

private def unlocked : World := ⟨0, none, 0, [], [], []⟩

private theorem unlocked_fresh : Fresh unlocked :=
  ⟨rfl, rfl, fun _ there => by cases there⟩

/-- An owner dies with its lock, and one waiter reclaims it while another waits. -/
theorem orderly_run_exclusive_reclaimed : Exclusive
    ⟨0, some ⟨1, 0, some 2⟩, 2, [⟨1, 0, .inside 0⟩, ⟨2, 0, .inside 1⟩, ⟨3, 0, .waiting⟩], [1], []⟩ :=
  orderly_run_exclusive .withFileLock
    [.call 1, .call 2, .call 3, .advance 0 (.mkdir false), .advance 0 (.writeOwner false),
      .die 1, .advance 1 (.mkdir false), .advance 1 (.readOwner false),
      .advance 1 (.remove false), .advance 1 (.mkdir false), .advance 1 (.writeOwner false),
      .advance 2 (.mkdir false), .advance 2 (.readOwner true)]
    unlocked _ unlocked_fresh (by decide) (by decide)

/-- Two waiters have both read the record of a dead owner, and the second of them removes the
lock that the first has made since then. -/
theorem reclaimed_twice : Fresh unlocked ∧ ∃ final, runActions (step .withFileLock) unlocked
        [.call 1, .call 2, .call 3, .advance 0 (.mkdir false), .advance 0 (.writeOwner false),
          .die 1, .advance 1 (.mkdir false), .advance 1 (.readOwner false),
          .advance 2 (.mkdir false), .advance 2 (.readOwner false),
          .advance 1 (.remove false), .advance 1 (.mkdir false), .advance 1 (.writeOwner false),
          .advance 2 (.remove false), .advance 2 (.mkdir false),
          .advance 2 (.writeOwner false)] = some final ∧
      final.inside 1 ∧ final.inside 2 ∧ final.robbed = [(2, 1)] ∧ ¬ Exclusive final := by
  have first : World.inside ⟨0, some ⟨2, 0, some 3⟩, 3,
      [⟨1, 0, .inside 0⟩, ⟨2, 0, .inside 1⟩, ⟨3, 0, .inside 2⟩], [1], [(2, 1)]⟩ 1 :=
    ⟨⟨2, 0, .inside 1⟩, 1, rfl, rfl⟩
  have second : World.inside ⟨0, some ⟨2, 0, some 3⟩, 3,
      [⟨1, 0, .inside 0⟩, ⟨2, 0, .inside 1⟩, ⟨3, 0, .inside 2⟩], [1], [(2, 1)]⟩ 2 :=
    ⟨⟨3, 0, .inside 2⟩, 2, rfl, rfl⟩
  exact ⟨unlocked_fresh, _, by decide, first, second, rfl,
    fun exclusive => absurd (exclusive.1 1 2 first second) (by decide)⟩

end Example

end QiongQi.FileLocks
