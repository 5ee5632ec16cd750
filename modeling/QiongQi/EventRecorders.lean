import QiongQi.Machines
import QiongQi.SessionLogs

/-! `RuntimeEventRecorder.record` on one thread: the event bus that hands out
numbers from memory, the session log that knows the highest stored one, and the
steps of concurrent calls between their awaits. -/
namespace QiongQi.EventRecorders
open Machines SessionLogs

/-- What the bus of one process remembers of the thread. -/
structure InMemoryEventBus where
  events : List RuntimeEvent := []
  nextSeq : Option Nat := none

def InMemoryEventBus.publish (bus : InMemoryEventBus) (event : RuntimeEvent) : InMemoryEventBus :=
  { bus with events := bus.events ++ [event] }

/-- The number `allocateSeq` answers. -/
def InMemoryEventBus.nextNumber (bus : InMemoryEventBus) : Nat :=
  bus.nextSeq.getD (highestSeq bus.events) + 1

def InMemoryEventBus.allocateSeq (bus : InMemoryEventBus) : InMemoryEventBus :=
  { bus with nextSeq := some bus.nextNumber }

structure RuntimeEventDraft where
  kind : String
  seq : Option Nat := none
  timestamp : Option String := none
  model : Option String := none
  deriving DecidableEq

/-- How far a call of `record` has come. -/
inductive RecordStage where
  | allocated
  | looked (persistedSeq : Nat)
  | published (persistedSeq : Nat) (event : RuntimeEvent)
  | appended (event : RuntimeEvent)
  | compacting (event : RuntimeEvent) (contents : List RuntimeEvent)

structure RecordCall where
  id : Nat
  draft : RuntimeEventDraft
  allocatedSeq : Nat
  stage : RecordStage

/-- `draft.seq ?? Math.max(allocatedSeq, persistedSeq + 1)`. -/
def stampedSeq (draft : RuntimeEventDraft) (allocatedSeq persistedSeq : Nat) : Nat :=
  draft.seq.getD (max allocatedSeq (persistedSeq + 1))

def stampEvent (call : RecordCall) (persistedSeq : Nat) (nowIso : String) : RuntimeEvent where
  seq := stampedSeq call.draft call.allocatedSeq persistedSeq
  kind := call.draft.kind
  timestamp := call.draft.timestamp.getD nowIso
  model := call.draft.model

inductive RecorderObservation where
  | began (id : Nat)
  | appended (id : Nat) (event : RuntimeEvent)
  | finished (id : Nat) (event : RuntimeEvent)

/-- The thread: its log on disk, the bus of the running process, the calls under
way, and what has been observed of them. -/
structure RecorderWorld where
  log : List RuntimeEvent := []
  bus : InMemoryEventBus := {}
  calls : List RecordCall := []
  begun : Nat := 0
  trace : List RecorderObservation := []

/-- The steps between the awaits of `record` (`allocateSeq` to the read of the log,
the number and `publish`, the append, and for a usage event a compaction that reads
the log and writes it), a number taken for a heartbeat, and a new process. -/
inductive RecorderAction where
  | begin (draft : RuntimeEventDraft)
  | readHighest (id : Nat)
  | publish (id : Nat) (nowIso : String)
  | append (id : Nat)
  | readForCompaction (id : Nat)
  | writeCompacted (id : Nat) (nowIso : String)
  | finish (id : Nat)
  | fail (id : Nat)
  | heartbeat
  | restart
  deriving DecidableEq

def RecorderWorld.advance (world : RecorderWorld) (call : RecordCall) (stage : RecordStage) :
    RecorderWorld :=
  { world with calls := put RecordCall.id { call with stage } world.calls }

def RecorderWorld.leave (world : RecorderWorld) (id : Nat) : RecorderWorld :=
  { world with calls := drop RecordCall.id id world.calls }

def RecorderWorld.observe (world : RecorderWorld) (observation : RecorderObservation) :
    RecorderWorld :=
  { world with trace := world.trace ++ [observation] }

def beginRecord (world : RecorderWorld) (draft : RuntimeEventDraft) : RecorderWorld :=
  { world with
    bus := world.bus.allocateSeq
    calls := { id := world.begun, draft, allocatedSeq := world.bus.nextNumber
               stage := .allocated } :: world.calls
    begun := world.begun + 1 }.observe (.began world.begun)

variable (compaction : UsageEventCompaction)

/-- One step of a call. A `fail` is a draft that does not validate, or an append or
a usage sink that throws. -/
def stepCall (world : RecorderWorld) (call : RecordCall) : RecorderAction → Option RecorderWorld
  | .readHighest _ =>
    match call.stage with
    | .allocated => some (world.advance call (.looked (highestSeq world.log)))
    | _ => none
  | .publish _ nowIso =>
    match call.stage with
    | .looked persistedSeq =>
      let event := stampEvent call persistedSeq nowIso
      some ({ world with bus := world.bus.publish event }.advance call
        (.published persistedSeq event))
    | _ => none
  | .append _ =>
    match call.stage with
    | .published _ event =>
      some (({ world with log := world.log ++ [event] }.advance call (.appended event)).observe
        (.appended call.id event))
    | _ => none
  | .readForCompaction _ =>
    match call.stage with
    | .appended event =>
      if isUsage event then some (world.advance call (.compacting event world.log)) else none
    | _ => none
  | .writeCompacted _ nowIso =>
    match call.stage with
    | .compacting event contents =>
      some ({ world with log := compactedLog compaction world.log contents nowIso }.advance call
        (.appended event))
    | _ => none
  | .finish _ =>
    match call.stage with
    | .appended event => some ((world.leave call.id).observe (.finished call.id event))
    | _ => none
  | .fail _ => some (world.leave call.id)
  | _ => none

def stepRecorder (world : RecorderWorld) (action : RecorderAction) : Option RecorderWorld :=
  match action with
  | .begin draft => some (beginRecord world draft)
  | .heartbeat => some { world with bus := world.bus.allocateSeq }
  | .restart => some { world with bus := {}, calls := [] }
  | .readHighest id | .publish id _ | .append id | .readForCompaction id | .writeCompacted id _
  | .finish id | .fail id =>
    match find RecordCall.id id world.calls with
    | none => none
    | some call => stepCall compaction world call action

end QiongQi.EventRecorders
