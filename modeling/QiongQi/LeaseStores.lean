import QiongQi.Machines

/-! The lease of one run identity as `FileRunStateStore` and `FileRunEventStore` keep it:
a lease file, an epoch file, and writes that carry the fence of a lease. Operations hold
the file lock; a process may stop between the two writes of `acquire`. -/
namespace QiongQi.LeaseStores

structure LeaseFence where
  holderId : String
  epoch : Nat
  token : String
  deriving DecidableEq

structure Lease where
  holderId : String
  expiresAt : Int
  epoch : Nat
  token : String
  deriving DecidableEq

def Lease.toFence (lease : Lease) : LeaseFence where
  holderId := lease.holderId
  epoch := lease.epoch
  token := lease.token

def sameFence (lease : Lease) (fence : LeaseFence) : Bool :=
  lease.epoch = fence.epoch && lease.token = fence.token && lease.holderId = fence.holderId

structure RunEvent where
  eventId : String
  seq : Nat

/-- The files of the identity. A missing epoch file reads as zero. -/
structure LeaseFiles where
  lease : Option Lease := none
  epoch : Nat := 0
  snapshot : Option String := none
  events : List RunEvent := []

structure AcquireResult where
  acquired : Bool
  expiresAt : Option Int := none
  fence : Option LeaseFence := none
  deriving DecidableEq

/-- What `acquire` finds: another holder's lease, the caller's own, or none in force. -/
inductive LeaseState where
  | taken
  | held (lease : Lease)
  | free
  deriving DecidableEq

/-- `Math.max(1, Math.floor(ttlMs))` from now. -/
def expiry (now ttlMs : Int) : Int := now + max 1 ttlMs

def leaseState (files : LeaseFiles) (now : Int) (holderId : String) : LeaseState :=
  match files.lease with
  | none => .free
  | some current =>
    if current.expiresAt ≤ now then .free
    else if current.holderId = holderId then .held current
    else .taken

/-- The lease that `acquire` writes. -/
def newLease (files : LeaseFiles) (now : Int) (holderId : String) (ttlMs : Int) (token : String) :
    Lease where
  holderId
  expiresAt := expiry now ttlMs
  epoch := max ((files.lease.map Lease.epoch).getD 0) files.epoch + 1
  token

def writeLease (files : LeaseFiles) (lease : Lease) : LeaseFiles :=
  { files with lease := some lease }

def writeEpoch (files : LeaseFiles) (epoch : Nat) : LeaseFiles :=
  { files with epoch }

def acquire (files : LeaseFiles) (now : Int) (holderId : String) (ttlMs : Int) (token : String) :
    LeaseFiles × AcquireResult :=
  match leaseState files now holderId with
  | .taken => (files, { acquired := false })
  | .held current =>
    (files, { acquired := true, expiresAt := current.expiresAt, fence := current.toFence })
  | .free =>
    let lease := newLease files now holderId ttlMs token
    (writeEpoch (writeLease files lease) lease.epoch,
      { acquired := true, expiresAt := lease.expiresAt, fence := lease.toFence })

/-- `acquire` in a process that stops after the lease file is written. -/
def acquireStopped (files : LeaseFiles) (now : Int) (holderId : String) (ttlMs : Int)
    (token : String) : LeaseFiles :=
  match leaseState files now holderId with
  | .taken | .held _ => files
  | .free => writeLease files (newLease files now holderId ttlMs token)

/-- The lease that the holder may renew. -/
def renewable (files : LeaseFiles) (now : Int) (holderId : String) (fence : Option LeaseFence) :
    Option Lease :=
  files.lease.filter fun current =>
    current.holderId = holderId && fence.all (sameFence current) && now < current.expiresAt

def renew (files : LeaseFiles) (now : Int) (holderId : String) (fence : Option LeaseFence)
    (ttlMs : Int) : LeaseFiles × Bool :=
  match renewable files now holderId fence with
  | none => (files, false)
  | some current => (writeLease files { current with expiresAt := expiry now ttlMs }, true)

/-- The lease that the holder releases. -/
def releasable (files : LeaseFiles) (holderId : String) (fence : Option LeaseFence) :
    Option Lease :=
  files.lease.filter fun current => current.holderId = holderId && fence.all (sameFence current)

def release (files : LeaseFiles) (holderId : String) (fence : Option LeaseFence) : LeaseFiles :=
  match releasable files holderId fence with
  | none => files
  | some _ => { files with lease := none }

/-- The fence is that of the lease in force. -/
def inForce (files : LeaseFiles) (now : Int) (fence : LeaseFence) : Bool :=
  files.lease.any fun current =>
    now < current.expiresAt && current.holderId = fence.holderId && sameFence current fence

/-- `FileRunStateStore.assertFence`. -/
def assertSnapshotFence (requireFence : Bool) (files : LeaseFiles) (now : Int) :
    Option LeaseFence → Except String Unit
  | none => if requireFence then .error "runtime snapshot write requires an active lease fence"
    else .ok ()
  | some fence => if inForce files now fence then .ok ()
    else .error "runtime snapshot write rejected by stale lease fence"

def save (requireFence : Bool) (files : LeaseFiles) (now : Int) (state : String)
    (fence : Option LeaseFence) : Except String LeaseFiles := do
  assertSnapshotFence requireFence files now fence
  return { files with snapshot := some state }

/-- `FileRunEventStore.assertFence`. -/
def assertEventFence (requireFence : Bool) (files : LeaseFiles) (now : Int)
    (fence : Option LeaseFence) : Except String Unit :=
  if !requireFence then .ok ()
  else
    match fence, files.lease with
    | none, _ => .error "runtime event write requires an active lease fence"
    | some _, none => .error "runtime event write rejected: active lease fence unavailable"
    | some fence, some _ => if inForce files now fence then .ok ()
      else .error "runtime event write rejected by stale lease fence"

/-- The stored event, and whether a line was written for it. -/
def append (requireFence : Bool) (files : LeaseFiles) (now : Int) (event : RunEvent)
    (fence : Option LeaseFence) : Except String (LeaseFiles × RunEvent) := do
  assertEventFence requireFence files now fence
  match files.events.find? fun candidate => candidate.eventId = event.eventId with
  | some duplicate => return (files, duplicate)
  | none =>
    if files.events.any fun candidate => candidate.seq = event.seq then
      throw s!"duplicate run event sequence {event.seq}"
    else return ({ files with events := files.events ++ [event] }, event)

end QiongQi.LeaseStores
