import QiongQi.Machines

/-! Calls that read a log that only grows, work out a line from it and append the line
later. Calls of a queue have the time from read to append to themselves. What a log says is
its view: two logs can say the same. -/
namespace QiongQi.AppendedLogs
open Machines

/-- The line that a request adds to a log, if any, and whether its call waits in the queue. -/
structure Protocol (Request Line : Type) where
  line : Request → List Line → Option Line
  queued : Request → Bool

structure Call (Request Line : Type) where
  id : Nat
  request : Request
  snapshot : Option (List Line) := none

/-- A completed request, with the log right before it and the line it added. -/
structure Completion (Request Line : Type) where
  request : Request
  before : List Line
  line : Option Line

structure World (Request Line : Type) where
  log : List Line
  calls : List (Call Request Line) := []
  completions : List (Completion Request Line) := []

inductive Action (Request : Type) where
  | open (id : Nat) (request : Request)
  | read (id : Nat)
  | append (id : Nat)
  | abandon (id : Nat)

section
variable {Request Line View : Type}

namespace World

def call (world : World Request Line) (id : Nat) : Option (Call Request Line) :=
  find Call.id id world.calls

def complete (world : World Request Line) (call : Call Request Line) (line : Option Line) :
    World Request Line :=
  { log := world.log ++ line.toList
    calls := drop Call.id call.id world.calls
    completions := world.completions ++ [⟨call.request, world.log, line⟩] }

/-- The queue lets the call read: no other call of the queue is between read and append. -/
def mayRead (protocol : Protocol Request Line) (world : World Request Line) (request : Request) :
    Bool :=
  !protocol.queued request ||
    world.calls.all fun other => !(protocol.queued other.request && other.snapshot.isSome)

end World

def step (protocol : Protocol Request Line) (world : World Request Line) :
    Action Request → Option (World Request Line)
  | .open id request =>
    if (world.call id).isSome then none
    else some { world with calls := { id, request } :: world.calls }
  | .read id =>
    match world.call id with
    | some ⟨_, request, none⟩ =>
      if world.mayRead protocol request then
        match protocol.line request world.log with
        | none => some (world.complete { id, request } none)
        | some _ =>
          some { world with
            calls := put Call.id { id, request, snapshot := some world.log } world.calls }
      else none
    | _ => none
  | .append id =>
    match world.call id with
    | some ⟨_, request, some snapshot⟩ =>
      match protocol.line request snapshot with
      | none => none
      | some line => some (world.complete { id, request } (some line))
    | _ => none
  | .abandon id =>
    if (world.call id).isSome then some { world with calls := drop Call.id id world.calls }
    else none

/-- One request with the log to itself. -/
def Protocol.execute (protocol : Protocol Request Line) (log : List Line) (request : Request) :
    List Line :=
  log ++ (protocol.line request log).toList

/-- The log says what the completed requests make of the first one in the order in which they
completed, and each of them did what it would have done right then. -/
structure InOrder (protocol : Protocol Request Line) (view : List Line → View)
    (initial : List Line) (world : World Request Line) : Prop where
  log : view world.log = view ((world.completions.map Completion.request).foldl protocol.execute initial)
  alone : ∀ completion ∈ world.completions, view (completion.before ++ completion.line.toList) =
    view (protocol.execute completion.before completion.request)

variable {protocol : Protocol Request Line} {view : List Line → View}
  {agrees : Request → List Line → List Line → Prop} {world next : World Request Line}

/-- What the call has read agrees with the log. -/
def UpToDate (agrees : Request → List Line → List Line → Prop) (log : List Line) :
    Option (Call Request Line) → Prop
  | some ⟨_, request, some snapshot⟩ => agrees request snapshot log
  | _ => True

/-- A call that appends has read what agrees with the log. -/
def Timely (agrees : Request → List Line → List Line → Prop) (world : World Request Line) :
    Action Request → Prop
  | .append id => UpToDate agrees world.log (world.call id)
  | _ => True

section
variable (agrees : Request → List Line → List Line → Prop)
  [∀ request snapshot log, Decidable (agrees request snapshot log)]

instance (log : List Line) : ∀ call, Decidable (UpToDate agrees log call)
  | some ⟨_, _, some _⟩ => inferInstanceAs (Decidable (agrees _ _ _))
  | some ⟨_, _, none⟩ | none => .isTrue trivial

instance (world : World Request Line) : ∀ action, Decidable (Timely agrees world action)
  | .append _ => inferInstanceAs (Decidable (UpToDate _ _ _))
  | .open _ _ | .read _ | .abandon _ => .isTrue trivial

end

/-- What a protocol has to keep so that a timely append is an execution: on two logs that agree
the lines say the same, and what a request makes of a log follows from what the log says. -/
structure Lawful (protocol : Protocol Request Line) (view : List Line → View)
    (agrees : Request → List Line → List Line → Prop) : Prop where
  agree : ∀ request snapshot log line, agrees request snapshot log →
    protocol.line request snapshot = some line →
    view (log ++ [line]) = view (protocol.execute log request)
  follows : ∀ request log other, view log = view other →
    view (protocol.execute log request) = view (protocol.execute other request)

/-- One more completed request, which did what it would have done right then. -/
theorem inOrder_complete (lawful : Lawful protocol view agrees)
    (inOrder : InOrder protocol view initial world)
    (does : view (world.log ++ line.toList) = view (protocol.execute world.log call.request)) :
    InOrder protocol view initial (world.complete call line) := by
  constructor
  · have more : (world.complete call line).completions.map Completion.request =
        world.completions.map Completion.request ++ [call.request] := by
      simp [World.complete]
    rw [more, List.foldl_append, List.foldl_cons, List.foldl_nil]
    exact does.trans (lawful.follows call.request _ _ inOrder.log)
  · intro completion member
    rcases List.mem_append.mp member with earlier | last
    · exact inOrder.alone completion earlier
    · cases List.mem_singleton.mp last
      exact does

theorem inOrder_step (lawful : Lawful protocol view agrees)
    (inOrder : InOrder protocol view initial world) (timely : Timely agrees world action)
    (stepped : step protocol world action = some next) : InOrder protocol view initial next := by
  cases action with
  | «open» id request =>
    simp only [step] at stepped
    split at stepped
    · cases stepped
    · cases stepped
      exact ⟨inOrder.log, inOrder.alone⟩
  | read id =>
    simp only [step] at stepped
    split at stepped
    · split at stepped
      · split at stepped
        · rename_i nothing
          cases stepped
          apply inOrder_complete lawful inOrder
          rw [Protocol.execute, nothing]
        · cases stepped
          exact ⟨inOrder.log, inOrder.alone⟩
      · cases stepped
    · cases stepped
  | append id =>
    simp only [step] at stepped
    split at stepped
    · rename_i request snapshot found
      split at stepped
      · cases stepped
      · rename_i line worked
        cases stepped
        simp only [Timely, found, UpToDate] at timely
        exact inOrder_complete lawful inOrder
          (lawful.agree request snapshot world.log line timely worked)
    · cases stepped
  | abandon id =>
    simp only [step] at stepped
    split at stepped
    · cases stepped
      exact ⟨inOrder.log, inOrder.alone⟩
    · cases stepped

theorem inOrder_start (protocol : Protocol Request Line) (view : List Line → View)
    (initial : List Line) : InOrder protocol view initial { log := initial } :=
  ⟨rfl, by simp⟩

/-- Where every append is timely, the completed requests might as well have been executed
one after the other. -/
theorem inOrder_run (lawful : Lawful protocol view agrees)
    (timely : Along (step protocol) (Timely agrees) { log := initial } actions)
    (ran : runActions (step protocol) { log := initial } actions = some world) :
    InOrder protocol view initial world :=
  invariant_run (fun _ _ _ inOrder fair stepped => inOrder_step lawful inOrder fair stepped)
    actions (inOrder_start protocol view initial) timely ran

end

end QiongQi.AppendedLogs
