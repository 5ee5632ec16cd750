import QiongQi.LeaseStores

/-! Fencing. A lease that is granted after another has a larger epoch, and no write with
the fence of the earlier one is accepted any more, as long as a lease is not released
before its epoch is written and the clock does not run backwards. -/
namespace QiongQi.LeaseFences
open Machines LeaseStores
open List hiding after append below

/-- A lease that was written, as it was last renewed. -/
structure Grant where
  fence : LeaseFence
  expiresAt : Int
  released : Bool := false

inductive StoreObservation where
  | granted (fence : LeaseFence)
  | saved (fence : Option LeaseFence)
  | appended (fence : Option LeaseFence)
  | rejected (message : String)

structure LeaseWorld where
  now : Int := 0
  files : LeaseFiles := {}
  issued : Nat := 0
  grants : List Grant := []
  trace : List StoreObservation := []

/-- `stops` is a process that stops between the two writes of `acquire`. -/
inductive StoreAction where
  | clock (now : Int)
  | acquire (holderId : String) (ttlMs : Int) (stops : Bool)
  | renew (holderId : String) (fence : Option LeaseFence) (ttlMs : Int)
  | release (holderId : String) (fence : Option LeaseFence)
  | save (state : String) (fence : Option LeaseFence)
  | append (event : RunEvent) (fence : Option LeaseFence)

/-- `requireFence` of the two stores. -/
structure FenceOptions where
  snapshots : Bool
  events : Bool

def LeaseWorld.observe (world : LeaseWorld) (observation : StoreObservation) : LeaseWorld :=
  { world with trace := world.trace ++ [observation] }

/-- The grant with the fence is renewed, or released. -/
def updateGrant (fence : LeaseFence) (change : Grant → Grant) (grants : List Grant) : List Grant :=
  grants.map fun grant => if grant.fence = fence then change grant else grant

variable (randomUUID : Nat → String) (options : FenceOptions)

def acquireLease (world : LeaseWorld) (holderId : String) (ttlMs : Int) (stops : Bool) : LeaseWorld :=
  let token := randomUUID world.issued
  let lease := newLease world.files world.now holderId ttlMs token
  let files := if stops then acquireStopped world.files world.now holderId ttlMs token
    else (acquire world.files world.now holderId ttlMs token).1
  match leaseState world.files world.now holderId with
  | .taken | .held _ => { world with files }
  | .free =>
    let grant := { fence := lease.toFence, expiresAt := lease.expiresAt }
    { world with files, issued := world.issued + 1, grants := world.grants ++ [grant] }.observe
      (.granted lease.toFence)

def renewLease (world : LeaseWorld) (holderId : String) (fence : Option LeaseFence) (ttlMs : Int) :
    LeaseWorld :=
  let files := (renew world.files world.now holderId fence ttlMs).1
  match renewable world.files world.now holderId fence with
  | none => { world with files }
  | some current =>
    let renewed (grant : Grant) := { grant with expiresAt := expiry world.now ttlMs }
    { world with files, grants := updateGrant current.toFence renewed world.grants }

def releaseLease (world : LeaseWorld) (holderId : String) (fence : Option LeaseFence) : LeaseWorld :=
  let files := release world.files holderId fence
  match releasable world.files holderId fence with
  | none => { world with files }
  | some current =>
    let released (grant : Grant) := { grant with released := true }
    { world with files, grants := updateGrant current.toFence released world.grants }

def saveState (world : LeaseWorld) (state : String) (fence : Option LeaseFence) : LeaseWorld :=
  match save options.snapshots world.files world.now state fence with
  | .ok files => { world with files }.observe (.saved fence)
  | .error message => world.observe (.rejected message)

def appendEvent (world : LeaseWorld) (event : RunEvent) (fence : Option LeaseFence) : LeaseWorld :=
  match append options.events world.files world.now event fence with
  | .ok (files, _) => { world with files }.observe (.appended fence)
  | .error message => world.observe (.rejected message)

def stepStore (world : LeaseWorld) : StoreAction → Option LeaseWorld
  | .clock now => some { world with now }
  | .acquire holderId ttlMs stops => some (acquireLease randomUUID world holderId ttlMs stops)
  | .renew holderId fence ttlMs => some (renewLease world holderId fence ttlMs)
  | .release holderId fence => some (releaseLease world holderId fence)
  | .save state fence => some (saveState options world state fence)
  | .append event fence => some (appendEvent options world event fence)

/-- The fence of an accepted write. -/
def writtenUnder : StoreObservation → Option LeaseFence
  | .saved fence | .appended fence => fence
  | _ => none

structure Fenced (world : LeaseWorld) : Prop where
  increasing : world.grants.Pairwise fun earlier later => earlier.fence.epoch < later.fence.epoch
  single : world.grants.Pairwise fun earlier later =>
    ¬ ((earlier.released = false ∧ world.now < earlier.expiresAt) ∧
      later.released = false ∧ world.now < later.expiresAt)
  rejected : ∀ front observation back fence, world.trace = front ++ observation :: back →
    writtenUnder observation = some fence → ∀ before between,
    front = before ++ .granted fence :: between → ∀ later, .granted later ∉ between

/-- When a step keeps the fences apart: the clock does not run backwards, and a lease
is released only after its epoch was written. -/
def Recorded (world : LeaseWorld) : StoreAction → Prop
  | .clock now => world.now ≤ now
  | .release holderId _ => ∀ lease ∈ world.files.lease, lease.holderId = holderId →
    lease.epoch ≤ world.files.epoch
  | .append _ (some _) => options.events = true
  | _ => True

instance (world : LeaseWorld) : ∀ action, Decidable (Recorded options world action)
  | .clock now => inferInstanceAs (Decidable (world.now ≤ now))
  | .release holderId _ => inferInstanceAs (Decidable (∀ lease ∈ world.files.lease,
      lease.holderId = holderId → lease.epoch ≤ world.files.epoch))
  | .append _ (some _) => inferInstanceAs (Decidable (options.events = true))
  | .append _ none | .acquire _ _ _ | .renew _ _ _ | .save _ _ => .isTrue trivial

variable {randomUUID : Nat → String} {options : FenceOptions} {world next : LeaseWorld}

def grantedFence : StoreObservation → Option LeaseFence
  | .granted fence => some fence
  | _ => none

/-- The highest epoch that the files know. -/
def knownEpoch (files : LeaseFiles) : Nat :=
  max ((files.lease.map Lease.epoch).getD 0) files.epoch

/-- A grant under which nothing can be written any more. -/
def Ended (now : Int) (grant : Grant) : Prop :=
  grant.released = true ∨ grant.expiresAt ≤ now

/-- The grant stands for the lease in the file. -/
structure Stands (grant : Grant) (lease : Lease) : Prop where
  fence : grant.fence = lease.toFence
  expiresAt : grant.expiresAt = lease.expiresAt

structure Fencing (world : LeaseWorld) : Prop where
  increasing : world.grants.Pairwise fun earlier later => earlier.fence.epoch < later.fence.epoch
  known : ∀ grant ∈ world.grants, grant.fence.epoch ≤ knownEpoch world.files
  newest : ∀ lease, world.files.lease = some lease → ∀ grant ∈ world.grants, grant.fence.epoch ≤ lease.epoch
  standing : ∀ grant ∈ world.grants, Ended world.now grant ∨
    ∃ lease, world.files.lease = some lease ∧ Stands grant lease
  shown : world.trace.filterMap grantedFence = world.grants.map Grant.fence
  rejected : ∀ front observation back fence, world.trace = front ++ observation :: back →
    writtenUnder observation = some fence → ∀ before between,
    front = before ++ .granted fence :: between → ∀ later, .granted later ∉ between

variable {fence : LeaseFence} {files : LeaseFiles} {now : Int} {holderId : String}

private theorem mem_updateGrant (found : grant ∈ updateGrant fence change grants) :
    ∃ old ∈ grants, grant = if old.fence = fence then change old else old := by
  obtain ⟨old, held, same⟩ := mem_map.mp found
  exact ⟨old, held, same.symm⟩

private theorem updateGrant_fences (fence : LeaseFence) (change : Grant → Grant)
    (keeps : ∀ grant, (change grant).fence = grant.fence) (grants : List Grant) :
    (updateGrant fence change grants).map Grant.fence = grants.map Grant.fence := by
  rw [updateGrant, map_map]
  apply map_congr_left
  intro grant _
  by_cases mine : grant.fence = fence
  · simp [mine, keeps]
  · simp [mine]

private theorem increasing_fences {grants : List Grant} :
    (grants.Pairwise fun earlier later => earlier.fence.epoch < later.fence.epoch) ↔
      (grants.map Grant.fence).Pairwise fun earlier later => earlier.epoch < later.epoch := by
  rw [pairwise_map]

private theorem Fencing.fences (fencing : Fencing world) (grants : List Grant)
    (same : grants.map Grant.fence = world.grants.map Grant.fence) :
    (grants.Pairwise fun earlier later => earlier.fence.epoch < later.fence.epoch) ∧
      (∀ grant ∈ grants, ∃ old ∈ world.grants, old.fence = grant.fence) := by
  constructor
  · rw [increasing_fences, same]
    exact increasing_fences.mp fencing.increasing
  · intro grant found
    have listed : grant.fence ∈ world.grants.map Grant.fence := by
      rw [← same]
      exact mem_map_of_mem found
    exact mem_map.mp listed

private theorem leaseState_free (free : leaseState files now holderId = .free) :
    ∀ lease, files.lease = some lease → lease.expiresAt ≤ now := by
  intro lease found
  unfold leaseState at free
  rw [found] at free
  simp only at free
  by_cases expired : lease.expiresAt ≤ now
  · exact expired
  · rw [if_neg expired] at free
    split at free <;> cases free

private theorem acquire_files {ttlMs : Int} {token : String} :
    (leaseState files now holderId ≠ .free → (acquire files now holderId ttlMs token).1 = files ∧
        acquireStopped files now holderId ttlMs token = files) ∧
    (leaseState files now holderId = .free → (acquire files now holderId ttlMs token).1 =
        writeEpoch (writeLease files (newLease files now holderId ttlMs token))
          (newLease files now holderId ttlMs token).epoch ∧
      acquireStopped files now holderId ttlMs token =
        writeLease files (newLease files now holderId ttlMs token)) := by
  unfold acquire acquireStopped
  constructor
  · intro busy
    cases state : leaseState files now holderId with
    | taken => exact ⟨rfl, rfl⟩
    | held lease => exact ⟨rfl, rfl⟩
    | free => exact absurd state busy
  · intro free
    rw [free]
    exact ⟨rfl, rfl⟩

private theorem inForce_lease (accepted : inForce files now fence = true) :
    ∃ lease, files.lease = some lease ∧ lease.toFence = fence := by
  unfold inForce at accepted
  cases found : files.lease with
  | none => simp [found] at accepted
  | some lease =>
    refine ⟨lease, rfl, ?_⟩
    simp only [found, Option.any_some, Bool.and_eq_true, decide_eq_true_eq, sameFence] at accepted
    obtain ⟨⟨-, holder⟩, ⟨epoch, token⟩, -⟩ := accepted
    simp [Lease.toFence, holder, epoch, token]

private theorem assertSnapshotFence_ok {requireFence : Bool}
    (asserted : assertSnapshotFence requireFence files now (some fence) = .ok ()) :
    inForce files now fence = true := by
  unfold assertSnapshotFence at asserted
  by_cases accepted : inForce files now fence = true
  · exact accepted
  · simp only [if_neg accepted] at asserted
    cases asserted

private theorem assertEventFence_ok {requireFence : Bool} (required : requireFence = true)
    (asserted : assertEventFence requireFence files now (some fence) = .ok ()) :
    inForce files now fence = true := by
  unfold assertEventFence at asserted
  by_cases accepted : inForce files now fence = true
  · exact accepted
  · cases found : files.lease with
    | none => simp [required, found] at asserted
    | some lease => simp [required, found, accepted] at asserted

private theorem Fencing.kept (fencing : Fencing world) (now : next.now = world.now)
    (lease : next.files.lease = world.files.lease) (epoch : next.files.epoch = world.files.epoch)
    (grants : next.grants = world.grants)
    (shown : next.trace.filterMap grantedFence = world.trace.filterMap grantedFence)
    (rejected : ∀ front observation back fence, next.trace = front ++ observation :: back →
      writtenUnder observation = some fence → ∀ before between,
      front = before ++ .granted fence :: between → ∀ later, .granted later ∉ between) :
    Fencing next where
  increasing := by
    rw [grants]
    exact fencing.increasing
  known := by
    rw [grants, knownEpoch, lease, epoch]
    exact fencing.known
  newest := by
    rw [grants, lease]
    exact fencing.newest
  standing := by
    rw [grants, lease, now]
    exact fencing.standing
  shown := by
    rw [shown, grants]
    exact fencing.shown
  rejected := rejected

private theorem Fencing.write (fencing : Fencing world) {observation : StoreObservation}
    (silent : grantedFence observation = none)
    (accepted : ∀ fence, writtenUnder observation = some fence → inForce world.files world.now fence = true)
    (files : LeaseFiles) (lease : files.lease = world.files.lease)
    (epoch : files.epoch = world.files.epoch) :
    Fencing ({ world with files }.observe observation) := by
  refine fencing.kept rfl lease epoch rfl (by simp [LeaseWorld.observe, silent]) ?_
  intro front middle back fence split written before between ended later reissued
  rcases split_snoc split with ⟨-, rfl, rfl⟩ | ⟨rest, -, earlier⟩
  · obtain ⟨current, found, same⟩ := inForce_lease (accepted fence written)
    have listed := fencing.shown
    have first : (StoreObservation.granted fence :: between).filterMap grantedFence =
        fence :: between.filterMap grantedFence := rfl
    rw [ended, filterMap_append, first] at listed
    have ordered := increasing_fences.mp fencing.increasing
    rw [← listed] at ordered
    have after : later ∈ between.filterMap grantedFence :=
      mem_filterMap.mpr ⟨.granted later, reissued, rfl⟩
    have below : fence.epoch < later.epoch :=
      rel_of_pairwise_cons (pairwise_append.mp ordered).2.1 after
    have granted : later ∈ world.grants.map Grant.fence := by
      rw [← listed]
      exact mem_append_right _ (mem_cons_of_mem _ after)
    obtain ⟨grant, held, named⟩ := mem_map.mp granted
    have newest := fencing.newest current found grant held
    rw [named] at newest
    have sameEpoch : current.epoch = fence.epoch := by rw [← same]; rfl
    omega
  · exact fencing.rejected front middle rest fence earlier written before between ended later reissued

private theorem Fencing.grant (fencing : Fencing world) {grant : Grant}
    (written : files.lease = some lease) (epoch : lease.epoch = knownEpoch world.files + 1)
    (expired : ∀ current, world.files.lease = some current → current.expiresAt ≤ world.now)
    (stands : Stands grant lease) (issued : Nat) :
    Fencing ({ world with files, issued, grants := world.grants ++ [grant] }.observe
      (.granted lease.toFence)) where
  increasing := by
    refine pairwise_append.mpr ⟨fencing.increasing, pairwise_singleton _ _, ?_⟩
    intro earlier held last only
    have below := fencing.known earlier held
    have newer : last.fence.epoch = lease.epoch := by
      rw [mem_singleton.mp only, stands.fence]
      rfl
    omega
  known := by
    intro other held
    have highest : lease.epoch ≤ knownEpoch files := by
      simp [knownEpoch, written, Nat.le_max_left]
    show other.fence.epoch ≤ knownEpoch files
    rcases mem_append.mp held with held | last
    · have below := fencing.known other held
      omega
    · rw [mem_singleton.mp last, stands.fence]
      exact highest
  newest := by
    intro current found other held
    have same : lease = current := Option.some.inj (written.symm.trans found)
    rw [← same]
    rcases mem_append.mp held with held | last
    · have below := fencing.known other held
      omega
    · rw [mem_singleton.mp last, stands.fence]
      exact Nat.le_refl _
  standing := by
    intro other held
    rcases mem_append.mp held with held | last
    · left
      rcases fencing.standing other held with ended | ⟨current, found, stood⟩
      · exact ended
      · right
        rw [stood.expiresAt]
        exact expired current found
    · right
      rw [mem_singleton.mp last]
      exact ⟨lease, written, stands⟩
  shown := by
    simp [LeaseWorld.observe, filterMap_append, fencing.shown, grantedFence, stands.fence]
  rejected := by
    intro front middle back fence split wrote before between ended later reissued
    rcases split_snoc split with ⟨-, -, rfl⟩ | ⟨rest, -, earlier⟩
    · cases wrote
    · exact fencing.rejected front middle rest fence earlier wrote before between ended later
        reissued

private theorem renewable_lease {fence : Option LeaseFence}
    (found : renewable files now holderId fence = some current) : files.lease = some current :=
  (Option.filter_eq_some_iff.mp found).1

private theorem releasable_lease {fence : Option LeaseFence}
    (found : releasable files holderId fence = some current) :
    files.lease = some current ∧ current.holderId = holderId := by
  obtain ⟨lease, passes⟩ := Option.filter_eq_some_iff.mp found
  simp only [Bool.and_eq_true, decide_eq_true_eq] at passes
  exact ⟨lease, passes.1⟩

section
variable (fencing : Fencing world)
include fencing

private theorem Fencing.ended (lease : world.files.lease = some current)
    (held : old ∈ world.grants) (mine : old.fence ≠ current.toFence) : Ended world.now old := by
  rcases fencing.standing old held with ended | ⟨other, found, stands⟩
  · exact ended
  · have same : current = other := Option.some.inj (lease.symm.trans found)
    rw [← same] at stands
    exact absurd stands.fence mine

private theorem Fencing.renew (lease : world.files.lease = some current)
    (expiresAt : Int) : Fencing { world with
      files := writeLease world.files { current with expiresAt }
      grants := updateGrant current.toFence (fun grant => { grant with expiresAt }) world.grants } := by
  have fences := updateGrant_fences current.toFence
    (fun grant => { grant with expiresAt }) (fun _ => rfl) world.grants
  obtain ⟨increasing, olds⟩ := fencing.fences _ fences
  refine ⟨increasing, ?_, ?_, ?_, ?_, fencing.rejected⟩
  · intro grant held
    obtain ⟨old, heldOld, same⟩ := olds grant held
    have below := fencing.known old heldOld
    rw [same] at below
    simpa [knownEpoch, writeLease, lease] using below
  · intro renewed found grant held
    obtain ⟨old, heldOld, same⟩ := olds grant held
    have below := fencing.newest current lease old heldOld
    have epoch : renewed.epoch = current.epoch := by
      rw [← Option.some.inj found]
    rw [epoch, ← same]
    exact below
  · intro grant held
    obtain ⟨old, heldOld, rfl⟩ := mem_updateGrant held
    by_cases mine : old.fence = current.toFence
    · right
      rw [if_pos mine]
      exact ⟨_, rfl, mine, rfl⟩
    · left
      rw [if_neg mine]
      exact fencing.ended lease heldOld mine
  · rw [fences]
    exact fencing.shown

private theorem Fencing.release (lease : world.files.lease = some current)
    (recorded : current.epoch ≤ world.files.epoch) : Fencing { world with
      files := { world.files with lease := none }
      grants := updateGrant current.toFence (fun grant => { grant with released := true })
        world.grants } := by
  have fences := updateGrant_fences current.toFence
    (fun grant => { grant with released := true }) (fun _ => rfl) world.grants
  obtain ⟨increasing, olds⟩ := fencing.fences _ fences
  refine ⟨increasing, ?_, fun _ absurdity => (by cases absurdity), ?_, ?_, fencing.rejected⟩
  · intro grant held
    obtain ⟨old, heldOld, same⟩ := olds grant held
    have below := fencing.newest current lease old heldOld
    rw [same] at below
    have within : grant.fence.epoch ≤ world.files.epoch := Nat.le_trans below recorded
    simpa [knownEpoch] using within
  · intro grant held
    obtain ⟨old, heldOld, rfl⟩ := mem_updateGrant held
    left
    by_cases mine : old.fence = current.toFence
    · rw [if_pos mine]
      exact .inl rfl
    · rw [if_neg mine]
      exact fencing.ended lease heldOld mine
  · rw [fences]
    exact fencing.shown

private theorem Fencing.clock (later : world.now ≤ now) : Fencing { world with now } where
  increasing := fencing.increasing
  known := fencing.known
  newest := fencing.newest
  standing := by
    intro grant held
    rcases fencing.standing grant held with (released | expired) | stands
    · exact .inl (.inl released)
    · exact .inl (.inr (Int.le_trans expired later))
    · exact .inr stands
  shown := fencing.shown
  rejected := fencing.rejected

private theorem acquire_fencing : Fencing (acquireLease randomUUID world holderId ttlMs stops) := by
  obtain ⟨busy, free⟩ := @acquire_files world.files world.now holderId ttlMs
    (randomUUID world.issued)
  unfold acquireLease
  by_cases state : leaseState world.files world.now holderId = .free
  · obtain ⟨written, stopped⟩ := free state
    simp only [state]
    refine fencing.grant ?_ rfl (leaseState_free state) ⟨rfl, rfl⟩ _
    cases stops with
    | true =>
      rw [if_pos rfl, stopped]
      rfl
    | false =>
      rw [if_neg (by decide), written]
      rfl
  · obtain ⟨kept, stopped⟩ := busy state
    have files : (if stops then acquireStopped world.files world.now holderId ttlMs
          (randomUUID world.issued)
        else (acquire world.files world.now holderId ttlMs (randomUUID world.issued)).1) =
        world.files := by
      rw [kept, stopped, ite_self]
    cases found : leaseState world.files world.now holderId with
    | free => exact absurd found state
    | taken | held lease =>
      simp only [files]
      exact fencing

theorem step_fencing {action : StoreAction} (recorded : Recorded options world action)
    (stepped : stepStore randomUUID options world action = some next) : Fencing next := by
  cases action with
  | clock now =>
    cases stepped
    exact fencing.clock recorded
  | acquire holderId ttlMs stops =>
    cases stepped
    exact acquire_fencing fencing
  | renew holderId fence ttlMs =>
    cases stepped
    unfold renewLease LeaseStores.renew
    cases found : renewable world.files world.now holderId fence with
    | none => exact fencing
    | some current => exact fencing.renew (renewable_lease found) (expiry world.now ttlMs)
  | release holderId fence =>
    cases stepped
    unfold releaseLease LeaseStores.release
    cases found : releasable world.files holderId fence with
    | none => exact fencing
    | some current =>
      obtain ⟨lease, holder⟩ := releasable_lease found
      exact fencing.release lease (recorded current lease holder)
  | save state fence =>
    cases stepped
    unfold saveState
    split
    · rename_i files saved
      unfold LeaseStores.save at saved
      cases asserted : assertSnapshotFence options.snapshots world.files world.now fence with
      | error message =>
        rw [asserted] at saved
        cases saved
      | ok _ =>
        rw [asserted] at saved
        cases saved
        refine fencing.write rfl ?_ _ rfl rfl
        rintro carried ⟨⟩
        exact assertSnapshotFence_ok asserted
    · refine fencing.write rfl ?_ _ rfl rfl
      rintro carried ⟨⟩
  | append event fence =>
    cases stepped
    unfold appendEvent
    split
    · rename_i files stored appended
      unfold LeaseStores.append at appended
      cases asserted : assertEventFence options.events world.files world.now fence with
      | error message =>
        rw [asserted] at appended
        cases appended
      | ok _ =>
        rw [asserted] at appended
        have kept : files.lease = world.files.lease ∧ files.epoch = world.files.epoch := by
          split at appended
          · cases appended
            exact ⟨rfl, rfl⟩
          · split at appended
            · cases appended
            · cases appended
              exact ⟨rfl, rfl⟩
        refine fencing.write rfl ?_ _ kept.1 kept.2
        rintro carried ⟨⟩
        exact assertEventFence_ok recorded asserted
    · refine fencing.write rfl ?_ _ rfl rfl
      rintro carried ⟨⟩

theorem fenced_of_fencing : Fenced world where
  increasing := fencing.increasing
  single := by
    refine fencing.increasing.imp_of_mem fun {earlier later} heldEarlier heldLater below => ?_
    rintro ⟨⟨kept, open_⟩, keptLater, openLater⟩
    have standing : ∀ grant ∈ world.grants, grant.released = false → world.now < grant.expiresAt →
        ∃ lease, world.files.lease = some lease ∧ Stands grant lease := by
      intro grant held unreleased unexpired
      rcases fencing.standing grant held with (released | expired) | stands
      · rw [unreleased] at released
        cases released
      · omega
      · exact stands
    obtain ⟨lease, found, stands⟩ := standing earlier heldEarlier kept open_
    obtain ⟨other, foundOther, standsOther⟩ := standing later heldLater keptLater openLater
    have same : lease = other := Option.some.inj (found.symm.trans foundOther)
    rw [stands.fence, standsOther.fence, same] at below
    exact Nat.lt_irrefl _ below
  rejected := fencing.rejected

end

private theorem fencing_start : Fencing {} := by
  refine ⟨List.Pairwise.nil, ?_, ?_, ?_, rfl, ?_⟩
  · exact fun _ held => by cases held
  · exact fun _ _ _ held => by cases held
  · exact fun _ held => by cases held
  · intro front observation back fence split
    exact absurd split (by simp)

/-- In every run whose clock does not run backwards and whose leases are released only
after their epoch was written, the fences keep earlier holders out. -/
theorem leases_fenced (randomUUID : Nat → String) (options : FenceOptions) (actions : List StoreAction)
    (recorded : Along (stepStore randomUUID options) (Recorded options) {} actions)
    {final : LeaseWorld} (ran : runActions (stepStore randomUUID options) {} actions = some final) :
    Fenced final := by
  have fencing : Fencing final :=
    invariant_run (fun _ _ _ holds fair stepped => step_fencing holds fair stepped) actions
      fencing_start recorded ran
  exact fenced_of_fencing fencing

def numberedToken (issued : Nat) : String := s!"token-{issued}"

/-- A lease is stopped short of its epoch, taken up again by its holder, lets its time
run out and is followed by another holder's, which keeps the first one's writes out. -/
def expiredHolder : List StoreAction :=
  [.acquire "a" 10 true, .acquire "a" 10 false, .save "first" (some ⟨"a", 1, numberedToken 0⟩),
    .clock 10, .acquire "b" 10 false, .save "late" (some ⟨"a", 1, numberedToken 0⟩),
    .append ⟨"event", 1⟩ (some ⟨"b", 2, numberedToken 1⟩), .release "b" none,
    .acquire "a" 10 false]

/-- The epochs are 1, 2 and 3. -/
theorem leases_fenced_expired_holder :
    ∃ final, runActions (stepStore numberedToken ⟨true, true⟩) {} expiredHolder = some final ∧
      final.grants.map (fun grant => grant.fence.epoch) = [1, 2, 3] ∧
      final.files.snapshot = some "first" ∧ Fenced final := by
  have outcome : (runActions (stepStore numberedToken ⟨true, true⟩) {} expiredHolder).map
      (fun world => (world.grants.map fun grant => grant.fence.epoch, world.files.snapshot)) =
      some ([1, 2, 3], some "first") := by
    decide
  obtain ⟨final, ran, same⟩ := Option.map_eq_some_iff.mp outcome
  obtain ⟨epochs, snapshot⟩ := Prod.mk.inj same
  refine ⟨final, ran, epochs, snapshot, ?_⟩
  exact leases_fenced numberedToken ⟨true, true⟩ expiredHolder (by decide) ran

/-- The holder of a lease that was stopped short of its epoch takes it up again and
releases it. -/
def releasedBeforeEpoch : List StoreAction :=
  [.acquire "a" 10 true, .acquire "a" 10 false, .release "a" none, .acquire "b" 10 false]

/-- The next lease has the same epoch. -/
theorem epoch_reused_after_stop :
    ∃ final, runActions (stepStore numberedToken ⟨true, true⟩) {} releasedBeforeEpoch = some final ∧
      ¬ Fenced final := by
  have epochs : (runActions (stepStore numberedToken ⟨true, true⟩) {} releasedBeforeEpoch).map
      (fun world => world.grants.map fun grant => grant.fence.epoch) = some [1, 1] := by
    decide
  obtain ⟨final, ran, same⟩ := Option.map_eq_some_iff.mp epochs
  refine ⟨final, ran, fun fenced => ?_⟩
  have increasing : (final.grants.map fun grant => grant.fence.epoch).Pairwise (· < ·) :=
    pairwise_map.mpr fenced.increasing
  rw [same] at increasing
  exact absurd increasing (by decide)

end QiongQi.LeaseFences
