import QiongQi.LeaseStores

/-! Who executes a run. Overlapping calls of `RuntimeKernel.run` for one identity share
the lease store: a call executes once it has the lease, and releases it at its end. The
lease is the holder's, so it keeps other holders out, not other calls of the holder. -/
namespace QiongQi.RunExecutors
open Machines LeaseStores
open List hiding drop

/-- A call that was granted the lease: it executes nodes, and then has only the release
left to do. -/
structure RunCall where
  id : Nat
  holderId : String
  fence : LeaseFence
  executing : Bool := true
  lost : Bool := false

structure ExecutorWorld where
  now : Int := 0
  files : LeaseFiles := {}
  issued : Nat := 0
  begun : Nat := 0
  calls : List RunCall := []

/-- A call begins with `acquire`; the guard renews its lease; its nodes end; the `finally`
block releases. `stop` is a process that ends in the middle of a call. -/
inductive ExecutorAction where
  | clock (now : Int)
  | run (holderId : String) (leaseTtlMs : Int)
  | renew (id : Nat) (leaseTtlMs : Int)
  | end_ (id : Nat)
  | release (id : Nat)
  | stop (id : Nat)

variable (randomUUID : Nat → String)

/-- A call that is not granted the lease returns `lease_unavailable` at once. -/
def beginRun (world : ExecutorWorld) (holderId : String) (leaseTtlMs : Int) : ExecutorWorld :=
  let (files, result) :=
    acquire world.files world.now holderId leaseTtlMs (randomUUID world.issued)
  match result.fence with
  | none => { world with files, begun := world.begun + 1 }
  | some fence => { world with
      files
      issued := world.issued + 1
      begun := world.begun + 1
      calls := { id := world.begun, holderId, fence } :: world.calls }

def renewCall (world : ExecutorWorld) (call : RunCall) (leaseTtlMs : Int) : ExecutorWorld :=
  let (files, renewed) := renew world.files world.now call.holderId (some call.fence) leaseTtlMs
  { world with
    files
    calls := put RunCall.id { call with lost := call.lost || !renewed } world.calls }

def endCall (world : ExecutorWorld) (call : RunCall) : ExecutorWorld :=
  { world with calls := put RunCall.id { call with executing := false } world.calls }

def releaseCall (world : ExecutorWorld) (call : RunCall) : ExecutorWorld :=
  { world with
    files := release world.files call.holderId (some call.fence)
    calls := drop RunCall.id call.id world.calls }

def stepExecutor (world : ExecutorWorld) : ExecutorAction → Option ExecutorWorld
  | .clock now => some { world with now }
  | .run holderId leaseTtlMs => some (beginRun randomUUID world holderId leaseTtlMs)
  | .renew id leaseTtlMs =>
    (find RunCall.id id world.calls).map fun call => renewCall world call leaseTtlMs
  | .end_ id => (find RunCall.id id world.calls).map (endCall world)
  | .release id =>
    match find RunCall.id id world.calls with
    | some call => if call.executing then none else some (releaseCall world call)
    | none => none
  | .stop id => (find RunCall.id id world.calls).map fun call =>
      { world with calls := drop RunCall.id call.id world.calls }

/-- The lease that a call was granted is still in the file. -/
def HasLease (files : LeaseFiles) (call : RunCall) : Prop :=
  files.lease.map Lease.toFence = some call.fence

/-- One call at most executes, and it has its lease. -/
structure SingleExecutor (world : ExecutorWorld) : Prop where
  single : ∀ left ∈ world.calls, ∀ right ∈ world.calls, left.executing = true →
    right.executing = true → left.id = right.id
  leased : ∀ call ∈ world.calls, call.executing = true → HasLease world.files call

/-- The lease does not expire. -/
def Unexpired (world : ExecutorWorld) : ExecutorAction → Prop
  | .clock now => ∀ lease ∈ world.files.lease, now < lease.expiresAt
  | _ => True

/-- The lease does not expire, and a holder has one call at a time. -/
def OneCallPerHolder (world : ExecutorWorld) : ExecutorAction → Prop
  | .clock now => ∀ lease ∈ world.files.lease, now < lease.expiresAt
  | .run holderId _ => ∀ call ∈ world.calls, call.holderId ≠ holderId
  | _ => True

instance (world : ExecutorWorld) : ∀ action, Decidable (Unexpired world action)
  | .clock now => inferInstanceAs (Decidable (∀ lease ∈ world.files.lease, now < lease.expiresAt))
  | .run _ _ | .renew _ _ | .end_ _ | .release _ | .stop _ => .isTrue trivial

instance (world : ExecutorWorld) : ∀ action, Decidable (OneCallPerHolder world action)
  | .clock now => inferInstanceAs (Decidable (∀ lease ∈ world.files.lease, now < lease.expiresAt))
  | .run holderId _ => inferInstanceAs (Decidable (∀ call ∈ world.calls, call.holderId ≠ holderId))
  | .renew _ _ | .end_ _ | .release _ | .stop _ => .isTrue trivial

variable {randomUUID : Nat → String} {world next : ExecutorWorld}

/-- Every call under way has its lease, which is in force. -/
structure Leased (world : ExecutorWorld) : Prop where
  unexpired : ∀ lease, world.files.lease = some lease → world.now < lease.expiresAt
  leased : ∀ call ∈ world.calls, HasLease world.files call ∧ call.fence.holderId = call.holderId
  single : ∀ left ∈ world.calls, ∀ right ∈ world.calls, left.id = right.id

variable {call : RunCall}

private theorem lease_of_call (leased : Leased world) (held : call ∈ world.calls) :
    ∃ lease, world.files.lease = some lease ∧ lease.toFence = call.fence ∧
      lease.holderId = call.holderId ∧ world.now < lease.expiresAt := by
  obtain ⟨named, holder⟩ := leased.leased call held
  obtain ⟨lease, found, same⟩ := Option.map_eq_some_iff.mp named
  refine ⟨lease, found, same, ?_, leased.unexpired lease found⟩
  rw [← holder, ← same]
  rfl

private theorem expiry_later : now < expiry now ttlMs := by
  unfold expiry
  omega

section
variable (leased : Leased world)
include leased

private theorem taken_of_call (held : call ∈ world.calls) (other : call.holderId ≠ holderId) :
    leaseState world.files world.now holderId = .taken := by
  obtain ⟨lease, found, -, holder, unexpired⟩ := lease_of_call leased held
  have current : ¬ lease.expiresAt ≤ world.now := by omega
  simp [leaseState, found, current, holder, other]

private theorem begin_leased (leaseTtlMs : Int) (apart : ∀ call ∈ world.calls, call.holderId ≠ holderId) :
    Leased (beginRun randomUUID world holderId leaseTtlMs) := by
  have nobody : ∀ {state : LeaseState}, leaseState world.files world.now holderId = state →
      state ≠ .taken → world.calls = [] := by
    intro state found free
    cases calls : world.calls with
    | nil => rfl
    | cons call rest =>
      have held : call ∈ world.calls := by
        rw [calls]
        exact mem_cons_self
      have taken := taken_of_call leased held (apart call held)
      rw [found] at taken
      exact absurd taken free
  unfold beginRun acquire
  cases state : leaseState world.files world.now holderId with
  | taken => exact ⟨leased.unexpired, leased.leased, leased.single⟩
  | held current =>
    have alone := nobody state (by simp)
    have found : world.files.lease = some current ∧ current.holderId = holderId := by
      unfold leaseState at state
      split at state
      · cases state
      · rename_i lease found
        split at state
        · cases state
        · split at state
          · rename_i holder
            cases state
            exact ⟨found, holder⟩
          · cases state
    refine ⟨leased.unexpired, ?_, ?_⟩
    · intro call held
      rw [alone] at held
      rw [mem_singleton.mp held]
      exact ⟨by simp [HasLease, found.1], found.2⟩
    · intro left heldLeft right heldRight
      rw [alone] at heldLeft heldRight
      rw [mem_singleton.mp heldLeft, mem_singleton.mp heldRight]
  | free =>
    have alone := nobody state (by simp)
    refine ⟨?_, ?_, ?_⟩
    · rintro lease ⟨⟩
      exact expiry_later
    · intro call held
      rw [alone] at held
      rw [mem_singleton.mp held]
      exact ⟨rfl, rfl⟩
    · intro left heldLeft right heldRight
      rw [alone] at heldLeft heldRight
      rw [mem_singleton.mp heldLeft, mem_singleton.mp heldRight]

section
variable (held : call ∈ world.calls)
include held

private theorem renew_leased (leaseTtlMs : Int) : Leased (renewCall world call leaseTtlMs) := by
  obtain ⟨lease, found, same, holder, unexpired⟩ := lease_of_call leased held
  have mine : sameFence lease call.fence = true := by
    rw [← same]
    simp [sameFence, Lease.toFence]
  have renews : renewable world.files world.now call.holderId (some call.fence) = some lease := by
    simp [renewable, found, holder, mine, unexpired]
  unfold renewCall renew
  rw [renews]
  refine ⟨?_, ?_, ?_⟩
  · rintro renewed ⟨⟩
    exact expiry_later
  · intro other kept
    have before : other.fence = call.fence ∧ other.holderId = call.holderId := by
      rcases mem_put.mp kept with rfl | ⟨kept, different⟩
      · exact ⟨rfl, rfl⟩
      · exact absurd (leased.single other kept call held) different
    rw [HasLease, before.1, before.2]
    refine ⟨?_, (leased.leased call held).2⟩
    rw [← same]
    rfl
  · intro left keptLeft right keptRight
    have named : ∀ other ∈ put RunCall.id { call with lost := call.lost || !true } world.calls,
        other.id = call.id := by
      intro other kept
      rcases mem_put.mp kept with rfl | ⟨kept, -⟩
      · rfl
      · exact leased.single other kept call held
    rw [named left keptLeft, named right keptRight]

private theorem end_leased : Leased (endCall world call) := by
  refine ⟨leased.unexpired, ?_, ?_⟩
  · intro other kept
    rcases mem_put.mp kept with rfl | ⟨kept, -⟩
    · exact leased.leased call held
    · exact leased.leased other kept
  · intro left keptLeft right keptRight
    have named : ∀ other ∈ put RunCall.id { call with executing := false } world.calls,
        other.id = call.id := by
      intro other kept
      rcases mem_put.mp kept with rfl | ⟨kept, -⟩
      · rfl
      · exact leased.single other kept call held
    rw [named left keptLeft, named right keptRight]

private theorem drop_alone : ∀ other, other ∉ drop RunCall.id call.id world.calls := by
  intro other kept
  obtain ⟨kept, different⟩ := mem_drop.mp kept
  exact different (leased.single other kept call held)

private theorem leave_leased
    (kept : ∀ lease, files.lease = some lease → world.files.lease = some lease) :
    Leased { world with files, calls := drop RunCall.id call.id world.calls } := by
  refine ⟨fun lease found => leased.unexpired lease (kept lease found), ?_, ?_⟩
  all_goals exact fun other left => absurd left (drop_alone leased held other)

end

end

theorem step_leased (leased : Leased world) (apart : OneCallPerHolder world action)
    (stepped : stepExecutor randomUUID world action = some next) : Leased next := by
  cases action with
  | clock now =>
    cases stepped
    exact ⟨fun lease found => apart lease found, leased.leased, leased.single⟩
  | run holderId leaseTtlMs =>
    cases stepped
    exact begin_leased leased leaseTtlMs apart
  | renew id leaseTtlMs =>
    obtain ⟨call, found, rfl⟩ := Option.map_eq_some_iff.mp stepped
    exact renew_leased leased (find_mem found).1 leaseTtlMs
  | end_ id =>
    obtain ⟨call, found, rfl⟩ := Option.map_eq_some_iff.mp stepped
    exact end_leased leased (find_mem found).1
  | release id =>
    simp only [stepExecutor] at stepped
    split at stepped
    · rename_i call found
      split at stepped
      · cases stepped
      · cases stepped
        apply leave_leased leased (find_mem found).1
        intro lease kept
        unfold LeaseStores.release at kept
        split at kept
        · exact kept
        · cases kept
    · cases stepped
  | stop id =>
    obtain ⟨call, found, rfl⟩ := Option.map_eq_some_iff.mp stepped
    exact leave_leased leased (find_mem found).1 fun _ kept => kept

private theorem leased_start : Leased {} where
  unexpired := fun _ found => by cases found
  leased := fun _ held => by cases held
  single := fun _ held => by cases held

/-- Where the lease does not expire and calls that overlap have different holders, one
call at most executes, and no call loses its lease to the end of another. -/
theorem executor_single (randomUUID : Nat → String) (actions : List ExecutorAction)
    (apart : Along (stepExecutor randomUUID) OneCallPerHolder {} actions) {final : ExecutorWorld}
    (ran : runActions (stepExecutor randomUUID) {} actions = some final) :
    SingleExecutor final := by
  have leased : Leased final :=
    invariant_run (fun _ _ _ holds fair stepped => step_leased holds fair stepped) actions
      leased_start apart ran
  refine ⟨?_, ?_⟩
  · exact fun left heldLeft right heldRight _ _ => leased.single left heldLeft right heldRight
  · exact fun call held _ => (leased.leased call held).1

/-- A second holder is refused, and gets the lease after the first has released it. -/
def twoHolders : List ExecutorAction :=
  [.run "a" 30, .run "b" 30, .clock 10, .renew 0 30, .clock 35, .end_ 0, .release 0, .run "b" 30]

theorem executor_single_two_holders :
    ∃ final, runActions (stepExecutor fun issued => s!"token-{issued}") {} twoHolders = some final ∧
      final.calls.map RunCall.id = [2] ∧ SingleExecutor final := by
  have ids : (runActions (stepExecutor fun issued => s!"token-{issued}") {} twoHolders).map
      (fun world => world.calls.map RunCall.id) = some [2] := by
    decide
  obtain ⟨final, ran, same⟩ := Option.map_eq_some_iff.mp ids
  refine ⟨final, ran, same, ?_⟩
  exact executor_single _ twoHolders (by decide) ran

/-- Two calls of one process, which have one holder id. -/
def oneHolderTwice : List ExecutorAction :=
  [.run "qiongqi:1" 30, .run "qiongqi:1" 30]

/-- Both execute. -/
theorem one_holder_executes_twice :
    Along (stepExecutor fun issued => s!"token-{issued}") Unexpired {} oneHolderTwice ∧
    ∃ final, runActions (stepExecutor fun issued => s!"token-{issued}") {} oneHolderTwice =
      some final ∧ ¬ SingleExecutor final := by
  refine ⟨by decide, ?_⟩
  have executing : (runActions (stepExecutor fun issued => s!"token-{issued}") {}
      oneHolderTwice).map (fun world => world.calls.map fun call => (call.id, call.executing)) =
      some [(1, true), (0, true)] := by
    decide
  obtain ⟨final, ran, same⟩ := Option.map_eq_some_iff.mp executing
  refine ⟨final, ran, fun single => ?_⟩
  obtain ⟨second, rest, calls, secondIs, restIs⟩ := map_eq_cons_iff.mp same
  obtain ⟨first, nothing, others, firstIs, -⟩ := map_eq_cons_iff.mp restIs
  have heldSecond : second ∈ final.calls := by
    rw [calls]
    exact mem_cons_self
  have heldFirst : first ∈ final.calls := by
    rw [calls, others]
    exact mem_cons_of_mem _ mem_cons_self
  obtain ⟨idSecond, executesSecond⟩ := Prod.mk.inj secondIs
  obtain ⟨idFirst, executesFirst⟩ := Prod.mk.inj firstIs
  have same := single.single second heldSecond first heldFirst executesSecond executesFirst
  omega

end QiongQi.RunExecutors
