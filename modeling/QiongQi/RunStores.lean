import Mathlib.Data.Rat.Floor
import QiongQi.JsonValues
import QiongQi.KeyedMaps
import QiongQi.LeaseStores
import QiongQi.MultiAgentRuns
import QiongQi.RankedLists

/-! `InMemoryMultiAgentRunStore` and `FileMultiAgentRunStore`, each with all of its runs,
versions and leases. Both are written after one interface and are meant to be exchangeable. -/
namespace QiongQi.RunStores
open AgentGraphs Mailboxes MultiAgentRuns Machines KeyedMaps RankedLists RuntimeContracts
open LeaseStores (LeaseFence Lease AcquireResult)
open JsonValues (JsNumber)

def isTruthy : JsNumber → Bool
  | .nan | .negativeZero => false
  | .infinity _ => true
  | .finite value => value ≠ 0

/-- A number of milliseconds, which a date need not have. -/
inductive Moment where
  | invalid
  | never
  | instant (ms : Int)

/-- `now + Math.max(1, Math.floor(ttlMs))` -/
def expiry (now : Int) : JsNumber → Moment
  | .nan => .invalid
  | .infinity false => .never
  | .infinity true | .negativeZero => .instant (now + 1)
  | .finite ttlMs => .instant (now + max 1 ⌊ttlMs⌋)

/-- `moment > now` -/
def Moment.isAfter (moment : Moment) (now : Int) : Bool :=
  match moment with
  | .invalid => false
  | .never => true
  | .instant ms => now < ms

/-- `moment <= now`, which for `NaN` is false, too. -/
def Moment.hasPassed (moment : Moment) (now : Int) : Bool :=
  match moment with
  | .invalid | .never => false
  | .instant ms => ms ≤ now

def maxTime : Int := 8640000000000000

/-- `new Date(moment).toISOString()`; the text stands for its time. -/
def toISOString : Moment → Except Thrown Int
  | .instant ms =>
    if -maxTime ≤ ms ∧ ms ≤ maxTime then .ok ms else .error (.error "Invalid time value")
  | .invalid | .never => .error (.error "Invalid time value")

structure RunDocument where
  run : MultiAgentRun
  threadId : NonEmptyString
  createdAt : String
  deriving DecidableEq

def RunDocument.runId (document : RunDocument) : String := document.run.runId.text

def RunDocument.hasPending (document : RunDocument) : Bool :=
  document.run.outbox.any fun intent => intent.status = .pending

structure UpdateOptions where
  fence : Option LeaseFence := none
  expectedVersion : Option Int := none

/-- The third argument of `renewLease`. -/
inductive FenceOrTtl where
  | fence (fence : LeaseFence)
  | ttl (ttlMs : JsNumber)

def FenceOrTtl.fence? : FenceOrTtl → Option LeaseFence
  | .fence given => some given
  | .ttl _ => none

def effectiveTtl (ttlMs : Option JsNumber) : FenceOrTtl → Option JsNumber
  | .fence _ => ttlMs
  | .ttl ttlMs => some ttlMs

/-- A call with what the schema makes of the run that is saved, the time, and the token that
`randomUUID` gives; `mutate` checks what it returns. -/
inductive RunStoreCall where
  | save (parsed : Except Thrown RunDocument)
  | load (runId : String)
  | update (runId : String) (mutate : RunDocument → Except Thrown RunDocument)
      (options : UpdateOptions) (now : Int)
  | loadVersion (runId : String)
  | acquireLease (runId holderId : String) (ttlMs : JsNumber) (now : Int) (token : String)
  | renewLease (runId holderId : String) (fenceOrTtl : FenceOrTtl) (ttlMs : Option JsNumber)
      (now : Int)
  | releaseLease (runId holderId : String) (fence : Option LeaseFence)
  | listByThread (threadId : String)
  | listAll
  | listWithPendingOutbox
  | delete (runId : String)

inductive Answer where
  | done
  | run (document : Option RunDocument)
  | updated (document : RunDocument)
  | version (version : Option Nat)
  | acquired (result : AcquireResult)
  | renewed (renewed : Bool)
  | runs (documents : List RunDocument)
  deriving DecidableEq

/-- What the stores take from the language and the file system: the order of texts, and the
order in which a directory is listed. -/
structure Surroundings where
  localeCompare : String → String → Ordering
  readdir : List String → List String
  transitive : ∀ first second third, localeCompare first second ≠ .gt →
    localeCompare second third ≠ .gt → localeCompare first third ≠ .gt
  total : ∀ first second, localeCompare first second ≠ .gt ∨ localeCompare second first ≠ .gt
  listed : ∀ names, (readdir names).Perm names

def olderFirst (around : Surroundings) (left right : RunDocument) : Bool :=
  around.localeCompare left.createdAt right.createdAt ≠ .gt

/-- The version that a new run gets. -/
def withVersion (runId : String) (versions : List (String × Nat)) : List (String × Nat) :=
  if (find Prod.fst runId versions).isSome then versions else setEntry Prod.fst (runId, 0) versions

def versionOf (versions : List (String × Nat)) (runId : String) : Nat :=
  ((find Prod.fst runId versions).map Prod.snd).getD 0

def assertVersion (currentVersion : Nat) (expectedVersion : Option Int) : Except Thrown Unit :=
  match expectedVersion with
  | none => .ok ()
  | some expected =>
    if expected = currentVersion then .ok ()
    else
      .error (.error s!"MultiAgentRun version mismatch: expected {expected}, got {currentVersion}")

def staleFence : Thrown := .error "MultiAgentRun update rejected by stale lease fence"

/-- The run that an update writes, after the fence and the version. -/
def updatedRun (runId : String) (fenced : Except Thrown Unit) (currentVersion : Nat)
    (expectedVersion : Option Int) (mutate : RunDocument → Except Thrown RunDocument)
    (current : RunDocument) : Except Thrown RunDocument := do
  fenced
  assertVersion currentVersion expectedVersion
  let next ← mutate current
  if next.runId ≠ runId then
    throw (.error ("MultiAgentRun update cannot change runId: " ++ next.runId ++ " !== " ++ runId))
  return next

structure MemoryLease where
  holderId : String
  expiresAt : Moment
  epoch : Nat
  token : String

def MemoryLease.toFence (lease : MemoryLease) : LeaseFence where
  holderId := lease.holderId
  epoch := lease.epoch
  token := lease.token

def MemoryLease.sameFence (lease : MemoryLease) (fence : LeaseFence) : Bool :=
  lease.holderId = fence.holderId && lease.epoch = fence.epoch && lease.token = fence.token

structure MemoryStore where
  runs : List RunDocument := []
  versions : List (String × Nat) := []
  leases : List (String × MemoryLease) := []
  leaseEpochs : List (String × Nat) := []

namespace MemoryStore

def leaseOf (store : MemoryStore) (runId : String) : Option MemoryLease :=
  (find Prod.fst runId store.leases).map Prod.snd

def save (store : MemoryStore) : Except Thrown RunDocument → MemoryStore × Except Thrown Answer
  | .error thrown => (store, .error thrown)
  | .ok document =>
    ({ store with
        runs := setEntry RunDocument.runId document store.runs
        versions := withVersion document.runId store.versions }, .ok .done)

def assertFence (store : MemoryStore) (runId : String) (now : Int) :
    Option LeaseFence → Except Thrown Unit
  | none => .ok ()
  | some fence =>
    match store.leaseOf runId with
    | none => .error staleFence
    | some current =>
      if current.expiresAt.hasPassed now || !current.sameFence fence then .error staleFence
      else .ok ()

def update (store : MemoryStore) (runId : String)
    (mutate : RunDocument → Except Thrown RunDocument) (options : UpdateOptions) (now : Int) :
    MemoryStore × Except Thrown Answer :=
  match find RunDocument.runId runId store.runs with
  | none => (store, .error (.error ("MultiAgentRun not found: " ++ runId)))
  | some current =>
    let currentVersion := versionOf store.versions runId
    match updatedRun runId (store.assertFence runId now options.fence) currentVersion
        options.expectedVersion mutate current with
    | .error thrown => (store, .error thrown)
    | .ok next =>
      ({ store with
          runs := setEntry RunDocument.runId next store.runs
          versions := setEntry Prod.fst (runId, currentVersion + 1) store.versions },
        .ok (.updated next))

def loadVersion (store : MemoryStore) (runId : String) : Option Nat :=
  (find RunDocument.runId runId store.runs).map fun _ => versionOf store.versions runId

/-- A new lease is there before its time is written as a text. -/
def acquireLease (store : MemoryStore) (runId holderId : String) (ttlMs : JsNumber) (now : Int)
    (token : String) : MemoryStore × Except Thrown Answer :=
  match (store.leaseOf runId).filter fun current => current.expiresAt.isAfter now with
  | some current =>
    if current.holderId ≠ holderId then (store, .ok (.acquired { acquired := false }))
    else
      (store, (toISOString current.expiresAt).map fun expiresAt =>
        .acquired { acquired := true, expiresAt, fence := current.toFence })
  | none =>
    let last := ((find Prod.fst runId store.leaseEpochs).map Prod.snd).or
      ((store.leaseOf runId).map MemoryLease.epoch)
    let lease : MemoryLease :=
      { holderId, expiresAt := expiry now ttlMs, epoch := last.getD 0 + 1, token }
    ({ store with
        leases := setEntry Prod.fst (runId, lease) store.leases
        leaseEpochs := setEntry Prod.fst (runId, lease.epoch) store.leaseEpochs },
      (toISOString lease.expiresAt).map fun expiresAt =>
        .acquired { acquired := true, expiresAt, fence := lease.toFence })

def renewLease (store : MemoryStore) (runId holderId : String) (fenceOrTtl : FenceOrTtl)
    (ttlMs : Option JsNumber) (now : Int) : MemoryStore × Except Thrown Answer :=
  match store.leaseOf runId, effectiveTtl ttlMs fenceOrTtl with
  | some current, some ttl =>
    if !isTruthy ttl || current.holderId ≠ holderId ||
        fenceOrTtl.fence?.any (fun fence => !current.sameFence fence) ||
        current.expiresAt.hasPassed now then (store, .ok (.renewed false))
    else
      ({ store with
          leases := setEntry Prod.fst (runId, { current with expiresAt := expiry now ttl })
            store.leases }, .ok (.renewed true))
  | _, _ => (store, .ok (.renewed false))

def releaseLease (store : MemoryStore) (runId holderId : String) (fence : Option LeaseFence) :
    MemoryStore :=
  if (store.leaseOf runId).any fun current =>
      current.holderId = holderId && fence.all current.sameFence then
    { store with leases := drop Prod.fst runId store.leases }
  else store

def listByThread (around : Surroundings) (store : MemoryStore) (threadId : String) :
    List RunDocument :=
  (store.runs.filter fun run => run.threadId.text = threadId).mergeSort (olderFirst around)

def listAll (around : Surroundings) (store : MemoryStore) : List RunDocument :=
  store.runs.mergeSort (olderFirst around)

def listWithPendingOutbox (around : Surroundings) (store : MemoryStore) : List RunDocument :=
  (store.runs.filter RunDocument.hasPending).mergeSort (olderFirst around)

def delete (store : MemoryStore) (runId : String) : MemoryStore :=
  { store with
    runs := drop RunDocument.runId runId store.runs
    versions := drop Prod.fst runId store.versions
    leases := drop Prod.fst runId store.leases }

def perform (around : Surroundings) (store : MemoryStore) :
    RunStoreCall → MemoryStore × Except Thrown Answer
  | .save parsed => store.save parsed
  | .load runId => (store, .ok (.run (find RunDocument.runId runId store.runs)))
  | .update runId mutate options now => store.update runId mutate options now
  | .loadVersion runId => (store, .ok (.version (store.loadVersion runId)))
  | .acquireLease runId holderId ttlMs now token =>
    store.acquireLease runId holderId ttlMs now token
  | .renewLease runId holderId fenceOrTtl ttlMs now =>
    store.renewLease runId holderId fenceOrTtl ttlMs now
  | .releaseLease runId holderId fence => (store.releaseLease runId holderId fence, .ok .done)
  | .listByThread threadId => (store, .ok (.runs (store.listByThread around threadId)))
  | .listAll => (store, .ok (.runs (store.listAll around)))
  | .listWithPendingOutbox => (store, .ok (.runs (store.listWithPendingOutbox around)))
  | .delete runId => (store.delete runId, .ok .done)

end MemoryStore

/-- The directories of the threads, with the run files in them, and the files of the other
directories under the names of their runs. -/
structure FileStore where
  threadDirs : List String := []
  runFiles : List RunDocument := []
  versions : List (String × Nat) := []
  leases : List (String × Lease) := []
  leaseEpochs : List (String × Nat) := []

/-- The directory and the name of a run file. -/
def RunDocument.path (document : RunDocument) : String × String :=
  (document.threadId.text, document.runId)

namespace FileStore

def leaseOf (store : FileStore) (runId : String) : Option Lease :=
  (find Prod.fst runId store.leases).map Prod.snd

/-- A call on a run that has a safe name. -/
def withRun (store : FileStore) (runId : String)
    (body : String → FileStore × Except Thrown Answer) : FileStore × Except Thrown Answer :=
  match safeSegment runId "runId" with
  | .error thrown => (store, .error thrown)
  | .ok safeRunId => body safeRunId

def threadIds (around : Surroundings) (store : FileStore) : Except Thrown (List String) :=
  (around.readdir store.threadDirs).mapM fun threadDir => safeSegment threadDir "threadId"

def findRunFiles (around : Surroundings) (store : FileStore) (runId : String) :
    Except Thrown (List RunDocument) := do
  let threadIds ← store.threadIds around
  return threadIds.filterMap fun threadId => find RunDocument.path (threadId, runId) store.runFiles

def saveParsed (around : Surroundings) (store : FileStore) (document : RunDocument) :
    Except Thrown FileStore := do
  let threadId ← safeSegment document.threadId.text "threadId"
  let runId ← safeSegment document.runId "runId"
  let existing ← store.findRunFiles around runId
  let moved := existing.filter fun file => file.threadId.text ≠ threadId
  let kept := store.runFiles.filter fun file => !moved.any fun other => other.path = file.path
  return { store with
    threadDirs :=
      if threadId ∈ store.threadDirs then store.threadDirs else store.threadDirs ++ [threadId]
    runFiles := setEntry RunDocument.path document kept }

def save (around : Surroundings) (store : FileStore) :
    Except Thrown RunDocument → FileStore × Except Thrown Answer
  | .error thrown => (store, .error thrown)
  | .ok document =>
    store.withRun document.runId fun runId =>
      match store.saveParsed around document with
      | .error thrown => (store, .error thrown)
      | .ok saved => ({ saved with versions := withVersion runId saved.versions }, .ok .done)

def assertFence (store : FileStore) (runId : String) (now : Int) :
    Option LeaseFence → Except Thrown Unit
  | none => .ok ()
  | some fence =>
    match store.leaseOf runId with
    | none => .error staleFence
    | some current =>
      if current.expiresAt ≤ now || !LeaseStores.sameFence current fence then .error staleFence
      else .ok ()

def load (around : Surroundings) (store : FileStore) (runId : String) :
    Except Thrown (Option RunDocument) :=
  (store.findRunFiles around runId).map List.head?

def update (around : Surroundings) (store : FileStore) (runId : String)
    (mutate : RunDocument → Except Thrown RunDocument) (options : UpdateOptions) (now : Int) :
    FileStore × Except Thrown Answer :=
  store.withRun runId fun runId =>
    match store.load around runId with
    | .error thrown => (store, .error thrown)
    | .ok none => (store, .error (.error ("MultiAgentRun not found: " ++ runId)))
    | .ok (some current) =>
      let currentVersion := versionOf store.versions runId
      match updatedRun runId (store.assertFence runId now options.fence) currentVersion
          options.expectedVersion mutate current with
      | .error thrown => (store, .error thrown)
      | .ok next =>
        match store.saveParsed around next with
        | .error thrown => (store, .error thrown)
        | .ok saved =>
          ({ saved with versions := setEntry Prod.fst (runId, currentVersion + 1) saved.versions },
            .ok (.updated next))

def loadVersion (store : FileStore) (runId : String) : Option Nat :=
  (find Prod.fst runId store.versions).map Prod.snd

/-- A lease is written when its time has been made a text. -/
def acquireLease (store : FileStore) (runId holderId : String) (ttlMs : JsNumber) (now : Int)
    (token : String) : FileStore × Except Thrown Answer :=
  store.withRun runId fun runId =>
    match safeSegment holderId "holderId" with
    | .error thrown => (store, .error thrown)
    | .ok _ =>
      match (store.leaseOf runId).filter fun current => now < current.expiresAt with
      | some current =>
        if current.holderId ≠ holderId then (store, .ok (.acquired { acquired := false }))
        else
          (store, .ok (.acquired
            { acquired := true, expiresAt := current.expiresAt, fence := current.toFence }))
      | none =>
        let leased := ((store.leaseOf runId).map Lease.epoch).getD 0
        let last := ((find Prod.fst runId store.leaseEpochs).map Prod.snd).getD 0
        match toISOString (expiry now ttlMs) with
        | .error thrown => (store, .error thrown)
        | .ok expiresAt =>
          let lease : Lease := { holderId, expiresAt, epoch := max leased last + 1, token }
          ({ store with
              leases := setEntry Prod.fst (runId, lease) store.leases
              leaseEpochs := setEntry Prod.fst (runId, lease.epoch) store.leaseEpochs },
            .ok (.acquired { acquired := true, expiresAt, fence := lease.toFence }))

def renewLease (store : FileStore) (runId holderId : String) (fenceOrTtl : FenceOrTtl)
    (ttlMs : Option JsNumber) (now : Int) : FileStore × Except Thrown Answer :=
  store.withRun runId fun runId =>
    match effectiveTtl ttlMs fenceOrTtl, store.leaseOf runId with
    | some ttl, some current =>
      if current.holderId ≠ holderId ||
          fenceOrTtl.fence?.any (fun fence => !LeaseStores.sameFence current fence) ||
          current.expiresAt ≤ now then (store, .ok (.renewed false))
      else
        match toISOString (expiry now ttl) with
        | .error thrown => (store, .error thrown)
        | .ok expiresAt =>
          ({ store with
              leases := setEntry Prod.fst (runId, { current with expiresAt }) store.leases },
            .ok (.renewed true))
    | _, _ => (store, .ok (.renewed false))

def releaseLease (store : FileStore) (runId holderId : String) (fence : Option LeaseFence) :
    FileStore × Except Thrown Answer :=
  store.withRun runId fun runId =>
    if (store.leaseOf runId).any fun current =>
        current.holderId = holderId && fence.all (LeaseStores.sameFence current) then
      ({ store with leases := drop Prod.fst runId store.leases }, .ok .done)
    else (store, .ok .done)

/-- The runs of a thread in the order in which their directory is listed. -/
def threadRuns (around : Surroundings) (store : FileStore) (threadId : String) :
    List RunDocument :=
  let entries := (store.runFiles.filter fun file => file.threadId.text = threadId).map
    RunDocument.runId
  (around.readdir entries).filterMap fun runId =>
    find RunDocument.path (threadId, runId) store.runFiles

def listByThread (around : Surroundings) (store : FileStore) (threadId : String) :
    Except Thrown (List RunDocument) :=
  (safeSegment threadId "threadId").map fun threadId =>
    (store.threadRuns around threadId).mergeSort (olderFirst around)

def listAll (around : Surroundings) (store : FileStore) : Except Thrown (List RunDocument) :=
  ((around.readdir store.threadDirs).mapM (store.listByThread around)).map fun lists =>
    lists.flatten.mergeSort (olderFirst around)

def listWithPendingOutbox (around : Surroundings) (store : FileStore) :
    Except Thrown (List RunDocument) :=
  (store.listAll around).map fun runs => runs.filter RunDocument.hasPending

def delete (around : Surroundings) (store : FileStore) (runId : String) :
    FileStore × Except Thrown Answer :=
  store.withRun runId fun runId =>
    match store.findRunFiles around runId with
    | .error thrown => (store, .error thrown)
    | .ok existing =>
      ({ store with
          runFiles := store.runFiles.filter fun file =>
            !existing.any fun other => other.path = file.path
          versions := drop Prod.fst runId store.versions
          leases := drop Prod.fst runId store.leases }, .ok .done)

def perform (around : Surroundings) (store : FileStore) :
    RunStoreCall → FileStore × Except Thrown Answer
  | .save parsed => store.save around parsed
  | .load runId =>
    store.withRun runId fun runId => (store, (store.load around runId).map Answer.run)
  | .update runId mutate options now => store.update around runId mutate options now
  | .loadVersion runId =>
    store.withRun runId fun runId => (store, .ok (.version (store.loadVersion runId)))
  | .acquireLease runId holderId ttlMs now token =>
    store.acquireLease runId holderId ttlMs now token
  | .renewLease runId holderId fenceOrTtl ttlMs now =>
    store.renewLease runId holderId fenceOrTtl ttlMs now
  | .releaseLease runId holderId fence => store.releaseLease runId holderId fence
  | .listByThread threadId => (store, (store.listByThread around threadId).map Answer.runs)
  | .listAll => (store, (store.listAll around).map Answer.runs)
  | .listWithPendingOutbox => (store, (store.listWithPendingOutbox around).map Answer.runs)
  | .delete runId => store.delete around runId

end FileStore

end QiongQi.RunStores
