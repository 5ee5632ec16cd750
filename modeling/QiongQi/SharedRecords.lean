import Mathlib.Data.List.Perm.Basic
import QiongQi.Machines

/-! Calls that read a shared record, work out a new one and write it back whole. A call
settles some of its arguments from the record when it opens, reads it again later, and
writes later still; calls of a queue have the time from read to write to themselves. -/
namespace QiongQi.SharedRecords
open Machines

/-- What a request settles when its call opens, and what the call then makes of the
record it reads: none if it gives up. -/
structure Protocol (Request Op Record : Type) where
  settle : Request → Record → Op
  apply : Op → Record → Option Record
  queued : Request → Bool

inductive Phase (Op Record : Type) where
  | opened (op : Op)
  | holding (op : Op) (snapshot : Record)

structure Call (Request Op Record : Type) where
  id : Nat
  request : Request
  phase : Phase Op Record

/-- A completed request, with the record right before and right after it. -/
structure Completion (Request Record : Type) where
  request : Request
  before : Record
  after : Record

structure World (Request Op Record : Type) where
  record : Record
  calls : List (Call Request Op Record) := []
  completions : List (Completion Request Record) := []

inductive Action (Request : Type) where
  | open (id : Nat) (request : Request)
  | read (id : Nat)
  | write (id : Nat)
  | abandon (id : Nat)

section
variable {Request Op Record : Type}

def Call.held (call : Call Request Op Record) : Bool :=
  match call.phase with
  | .opened _ => false
  | .holding _ _ => true

namespace World

def call (world : World Request Op Record) (id : Nat) : Option (Call Request Op Record) :=
  find Call.id id world.calls

def setPhase (world : World Request Op Record) (call : Call Request Op Record)
    (phase : Phase Op Record) : World Request Op Record :=
  { world with calls := put Call.id { call with phase } world.calls }

/-- The call has answered, and the record is now `after`. -/
def complete (world : World Request Op Record) (call : Call Request Op Record)
    (after : Record) : World Request Op Record :=
  { record := after
    calls := drop Call.id call.id world.calls
    completions := world.completions ++ [⟨call.request, world.record, after⟩] }

def abandon (world : World Request Op Record) (id : Nat) : World Request Op Record :=
  { world with calls := drop Call.id id world.calls }

/-- The queue lets the call read: no other call of the queue is between read and write. -/
def mayRead (protocol : Protocol Request Op Record) (world : World Request Op Record)
    (call : Call Request Op Record) : Bool :=
  !protocol.queued call.request ||
    world.calls.all fun other => !(protocol.queued other.request && other.held)

end World

def step (protocol : Protocol Request Op Record) (world : World Request Op Record) :
    Action Request → Option (World Request Op Record)
  | .open id request =>
    if (world.call id).isSome then none
    else
      let call : Call Request Op Record :=
        ⟨id, request, .opened (protocol.settle request world.record)⟩
      some { world with calls := call :: world.calls }
  | .read id =>
    match world.call id with
    | some ⟨_, request, .opened op⟩ =>
      let call : Call Request Op Record := ⟨id, request, .opened op⟩
      if world.mayRead protocol call then
        match protocol.apply op world.record with
        | none => some (world.complete call world.record)
        | some _ => some (world.setPhase call (.holding op world.record))
      else none
    | _ => none
  | .write id =>
    match world.call id with
    | some ⟨_, request, .holding op snapshot⟩ =>
      match protocol.apply op snapshot with
      | none => none
      | some after => some (world.complete ⟨id, request, .holding op snapshot⟩ after)
    | _ => none
  | .abandon id => if (world.call id).isSome then some (world.abandon id) else none

/-- One request with the record to itself. -/
def Protocol.execute (protocol : Protocol Request Op Record) (record : Record) (request : Request) : Record :=
  (protocol.apply (protocol.settle request record) record).getD record

/-- The record is what the completed requests make of the first one in some order. -/
def SomeOrder (protocol : Protocol Request Op Record) (initial : Record)
    (world : World Request Op Record) : Prop :=
  ∃ order : List Request, order.Perm (world.completions.map Completion.request) ∧
    world.record = order.foldl protocol.execute initial

/-- The record is what the completed requests make of the first one in the order in
which they completed, and each of them found what the ones before it left. -/
structure InOrder (protocol : Protocol Request Op Record) (initial : Record)
    (world : World Request Op Record) : Prop where
  record : world.record = (world.completions.map Completion.request).foldl protocol.execute initial
  alone : ∀ completion ∈ world.completions,
    completion.after = protocol.execute completion.before completion.request

theorem InOrder.someOrder (inOrder : InOrder protocol initial world) :
    SomeOrder protocol initial world :=
  ⟨_, List.Perm.refl _, inOrder.record⟩

/-- What the call settled is still what its request would settle, and what it has read
agrees with the record. -/
def UpToDate (protocol : Protocol Request Op Record) (agrees : Op → Record → Record → Prop)
    (record : Record) : Option (Call Request Op Record) → Prop
  | some ⟨_, request, .holding op snapshot⟩ =>
    protocol.settle request record = op ∧ agrees op snapshot record
  | _ => True

/-- A call that writes does what its request would do right now. -/
def Timely (protocol : Protocol Request Op Record) (agrees : Op → Record → Record → Prop)
    (world : World Request Op Record) : Action Request → Prop
  | .write id => UpToDate protocol agrees world.record (world.call id)
  | _ => True

section
variable [DecidableEq Op] (protocol : Protocol Request Op Record)
  (agrees : Op → Record → Record → Prop) [∀ op snapshot stored, Decidable (agrees op snapshot stored)]

instance (record : Record) : ∀ call, Decidable (UpToDate protocol agrees record call)
  | some ⟨_, _, .holding _ _⟩ => inferInstanceAs (Decidable (_ ∧ _))
  | some ⟨_, _, .opened _⟩ | none => .isTrue trivial

instance (world : World Request Op Record) :
    ∀ action, Decidable (Timely protocol agrees world action)
  | .write _ => inferInstanceAs (Decidable (UpToDate _ _ _ _))
  | .open _ _ | .read _ | .abandon _ => .isTrue trivial

end

variable {protocol : Protocol Request Op Record} {agrees : Op → Record → Record → Prop}
  {world next : World Request Op Record}

/-- Each call works with what its request settled from some record. -/
def Settled (protocol : Protocol Request Op Record) (world : World Request Op Record) : Prop :=
  ∀ call ∈ world.calls, ∃ opened, ∀ op, call.phase = .opened op → op = protocol.settle call.request opened

theorem call_mem {id : Nat} (found : world.call id = some call) :
    call ∈ world.calls ∧ call.id = id :=
  find_mem found

theorem inOrder_complete (inOrder : InOrder protocol initial world)
    (does : after = protocol.execute world.record call.request) :
    InOrder protocol initial (world.complete call after) := by
  constructor
  · have more : ((world.complete call after).completions.map Completion.request) =
        world.completions.map Completion.request ++ [call.request] := by
      simp [World.complete]
    rw [more, List.foldl_append, ← inOrder.record]
    exact does
  · intro completion member
    rcases List.mem_append.mp member with earlier | last
    · exact inOrder.alone completion earlier
    · cases List.mem_singleton.mp last
      exact does

theorem settled_step (settled : Settled protocol world)
    (stepped : step protocol world action = some next) : Settled protocol next := by
  cases action with
  | «open» id request =>
    simp only [step] at stepped
    split at stepped
    · cases stepped
    · cases stepped
      intro call member
      rcases List.mem_cons.mp member with rfl | member
      · exact ⟨world.record, fun op same => by cases same; rfl⟩
      · exact settled call member
  | read id =>
    simp only [step] at stepped
    split at stepped
    · split at stepped
      · split at stepped
        · cases stepped
          intro call member
          exact settled call (mem_drop.mp member).1
        · cases stepped
          intro call member
          rcases mem_put.mp member with rfl | ⟨member, -⟩
          · exact ⟨world.record, fun op same => by cases same⟩
          · exact settled call member
      · cases stepped
    · cases stepped
  | write id =>
    simp only [step] at stepped
    split at stepped
    · split at stepped
      · cases stepped
      · cases stepped
        intro call member
        exact settled call (mem_drop.mp member).1
    · cases stepped
  | abandon id =>
    simp only [step] at stepped
    split at stepped
    · cases stepped
      intro call member
      exact settled call (mem_drop.mp member).1
    · cases stepped

/-- What a protocol has to keep so that a timely write is an execution: the result is the
same on two records that agree, and no request gives up for what it settled early. -/
structure Lawful (protocol : Protocol Request Op Record) (agrees : Op → Record → Record → Prop) : Prop where
  agree : ∀ op snapshot stored, agrees op snapshot stored →
    protocol.apply op snapshot = protocol.apply op stored
  giveUp : ∀ request opened record, protocol.apply (protocol.settle request opened) record = none →
    protocol.apply (protocol.settle request record) record = none

theorem inOrder_step (lawful : Lawful protocol agrees) (settled : Settled protocol world)
    (inOrder : InOrder protocol initial world) (timely : Timely protocol agrees world action)
    (stepped : step protocol world action = some next) : InOrder protocol initial next := by
  cases action with
  | «open» id request =>
    simp only [step] at stepped
    split at stepped
    · cases stepped
    · cases stepped
      exact ⟨inOrder.record, inOrder.alone⟩
  | read id =>
    simp only [step] at stepped
    split at stepped
    · rename_i given request op found
      split at stepped
      · split at stepped
        · rename_i gaveUp
          cases stepped
          obtain ⟨member, -⟩ := call_mem found
          obtain ⟨opened, asSettled⟩ := settled _ member
          have early : op = protocol.settle request opened := asSettled op rfl
          rw [early] at gaveUp
          apply inOrder_complete inOrder
          simp [Protocol.execute, lawful.giveUp request opened world.record gaveUp]
        · cases stepped
          exact ⟨inOrder.record, inOrder.alone⟩
      · cases stepped
    · cases stepped
  | write id =>
    simp only [step] at stepped
    split at stepped
    · rename_i given request op snapshot found
      split at stepped
      · cases stepped
      · rename_i after applied
        cases stepped
        obtain ⟨-, named⟩ := call_mem found
        cases named
        simp only [Timely, found, UpToDate] at timely
        obtain ⟨still, agree⟩ := timely
        apply inOrder_complete inOrder
        have now : protocol.apply op world.record = some after := by
          rw [← lawful.agree op snapshot world.record agree]
          exact applied
        simp [Protocol.execute, still, now]
    · cases stepped
  | abandon id =>
    simp only [step] at stepped
    split at stepped
    · cases stepped
      exact ⟨inOrder.record, inOrder.alone⟩
    · cases stepped

/-- Where every write is timely, the completed requests might as well have been executed
one after the other. -/
theorem inOrder_run (lawful : Lawful protocol agrees)
    (timely : Along (step protocol) (Timely protocol agrees) { record := initial } actions)
    (ran : runActions (step protocol) { record := initial } actions = some world) :
    InOrder protocol initial world := by
  have keeps : ∀ world action next, Settled protocol world ∧ InOrder protocol initial world →
      Timely protocol agrees world action → step protocol world action = some next →
      Settled protocol next ∧ InOrder protocol initial next := by
    intro world action next holds fair stepped
    obtain ⟨settled, inOrder⟩ := holds
    exact ⟨settled_step settled stepped, inOrder_step lawful settled inOrder fair stepped⟩
  have start : Settled protocol { record := initial } ∧ InOrder protocol initial { record := initial } :=
    ⟨by simp [Settled], rfl, by simp⟩
  exact (invariant_run keeps actions start timely ran).2

end

end QiongQi.SharedRecords
