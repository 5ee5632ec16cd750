import QiongQi.Machines
import QiongQi.RuntimeContracts

/-! Steering a running turn: texts wait in a queue of the turn until the loop of
`TurnOrchestrator` drains it, and finishing the turn clears it. Calls of `steerTurn`
and `interruptTurn` come at any step of the loop. -/
namespace QiongQi.TurnSteering
open Machines RuntimeContracts

structure SteeringQueue where
  buffers : List (String × List String) := []

namespace SteeringQueue

def buffer (queue : SteeringQueue) (turnId : String) : Option (List String) :=
  (find Prod.fst turnId queue.buffers).map Prod.snd

def set (queue : SteeringQueue) (turnId : String) (texts : List String) : SteeringQueue :=
  { buffers := put Prod.fst (turnId, texts) queue.buffers }

def setTurn (queue : SteeringQueue) (turnId : String) : SteeringQueue :=
  if (queue.buffer turnId).isSome then queue else queue.set turnId []

def enqueue (queue : SteeringQueue) (turnId text : String) : SteeringQueue :=
  let trimmed := jsTrim text
  if trimmed = "" then queue else queue.set turnId ((queue.buffer turnId).getD [] ++ [trimmed])

/-- What waits for the turn, and the queue without it. -/
def drain (queue : SteeringQueue) (turnId : String) : List String × SteeringQueue :=
  match queue.buffer turnId with
  | none | some [] => ([], queue)
  | some (text :: rest) => (text :: rest, queue.set turnId [])

def clear (queue : SteeringQueue) (turnId : String) : SteeringQueue :=
  { buffers := drop Prod.fst turnId queue.buffers }

/-- What waits for the turn. -/
def waiting (queue : SteeringQueue) (turnId : String) : List String :=
  (queue.buffer turnId).getD []

end SteeringQueue

structure UserMessage where
  turnId : String
  text : String
  deriving DecidableEq

inductive TurnStatus where
  | completed | failed | aborted
  deriving DecidableEq

/-- How far the turn has come since `startTurn` stored it. A drain leaves texts still to append, before the loop
or in it, and `ending` is about to call `finishTurn`, from the catch block when
`caught`. -/
inductive TurnPhase where
  | stored
  | created
  | settingUp
  | applying (pending : List String) (inLoop : Bool)
  | looping
  | stepping
  | running
  | ending (status : TurnStatus) (caught : Bool)
  | finishing (status : TurnStatus) (caught : Bool)
  | finished (status : TurnStatus)
  | thrown
  deriving DecidableEq

inductive TurnObservation where
  | accepted (text : String)
  | drained
  | modelStep (visible : List UserMessage)
  | interrupted
  deriving DecidableEq

structure TurnWorld where
  queue : SteeringQueue := {}
  session : List UserMessage := []
  phase : TurnPhase := .stored
  step : Nat := 0
  controller : Bool := false
  aborted : Bool := false
  trace : List TurnObservation := []

/-- What `promptBuilder.build` answers. -/
inductive BuildResult where
  | built | stop | aborted

/-- What the rest of a step answers, once the model has run. -/
inductive StepResult where
  | retry | stop | failed | aborted | continue_

/-- The calls of others and the steps of the loop between its awaits. -/
inductive TurnAction where
  | steer (turnId text : String)
  | interrupt
  | append (message : UserMessage)
  | start
  | run
  | drain
  | apply
  | build (result : BuildResult)
  | evaluate (result : StepResult)
  | throw
  | clear
  | finish

def TurnWorld.observe (world : TurnWorld) (observation : TurnObservation) : TurnWorld :=
  { world with trace := world.trace ++ [observation] }

/-- A text is accepted as long as the stored turn is running. -/
def steerTurn (turnId : String) (world : TurnWorld) (target text : String) : TurnWorld :=
  let steered := { world with queue := world.queue.enqueue target text }
  match world.phase with
  | .finished _ => steered
  | _ => if target = turnId then steered.observe (.accepted text) else steered

def interruptTurn (turnId : String) (world : TurnWorld) : TurnWorld :=
  { world with
    aborted := world.aborted || world.controller
    controller := false
    queue := world.queue.clear turnId }.observe .interrupted

def drainSteering (turnId : String) (world : TurnWorld) (inLoop : Bool) : TurnWorld :=
  let (pending, queue) := world.queue.drain turnId
  { world with queue, phase := .applying pending inLoop }.observe .drained

/-- The top of the loop. -/
def loopStep (turnId : String) (maxSteps : Nat) (world : TurnWorld) : TurnWorld :=
  if world.aborted then { world with phase := .ending .aborted false }
  else if maxSteps ≤ world.step then { world with phase := .ending .failed false }
  else drainSteering turnId world true

def applyPending (turnId : String) (world : TurnWorld) : List String → Bool → TurnWorld
  | text :: rest, inLoop =>
    { world with session := world.session ++ [{ turnId, text }], phase := .applying rest inLoop }
  | [], true => { world with phase := .stepping }
  | [], false => { world with phase := .looping }

/-- The model step sees the messages that the prompt is built from. -/
def buildPrompt (world : TurnWorld) : BuildResult → TurnWorld
  | .built => { world with phase := .running }.observe (.modelStep world.session)
  | .stop => { world with phase := .ending .completed false }
  | .aborted => { world with phase := .ending .aborted false }

def afterStep (world : TurnWorld) : StepResult → TurnWorld
  | .retry => { world with phase := .looping }
  | .stop => { world with phase := .ending .completed false }
  | .failed => { world with phase := .ending .failed false }
  | .aborted => { world with phase := .ending .aborted false }
  | .continue_ => { world with step := world.step + 1, phase := .looping }

/-- An exception fails the turn, and leaves `runTurn` when the catch block throws. -/
def catchError (world : TurnWorld) : Option TurnWorld :=
  match world.phase with
  | .stored | .created | .finished _ | .thrown => none
  | .ending _ true | .finishing _ true => some { world with phase := .thrown }
  | _ => some { world with phase := .ending .failed true }

variable (turnId : String) (maxSteps : Nat)

def stepTurn (world : TurnWorld) : TurnAction → Option TurnWorld
  | .steer target text => some (steerTurn turnId world target text)
  | .interrupt => some (interruptTurn turnId world)
  | .append message =>
    if message.turnId = turnId then none
    else some { world with session := world.session ++ [message] }
  | .start =>
    match world.phase with
    | .stored => some
        { world with controller := true, queue := world.queue.setTurn turnId, phase := .created }
    | _ => none
  | .run =>
    match world.phase with
    | .created =>
      if !world.controller then some { world with phase := .ending .failed true }
      else if world.aborted then some { world with phase := .ending .aborted true }
      else some { world with phase := .settingUp }
    | _ => none
  | .drain =>
    match world.phase with
    | .settingUp => some (drainSteering turnId world false)
    | .looping => some (loopStep turnId maxSteps world)
    | _ => none
  | .apply =>
    match world.phase with
    | .applying pending inLoop => some (applyPending turnId world pending inLoop)
    | _ => none
  | .build result =>
    match world.phase with
    | .stepping => some (buildPrompt world result)
    | _ => none
  | .evaluate result =>
    match world.phase with
    | .running => some (afterStep world result)
    | _ => none
  | .throw => catchError world
  | .clear =>
    match world.phase with
    | .ending status caught => some { world with
        controller := false
        queue := world.queue.clear turnId
        phase := .finishing status caught }
    | _ => none
  | .finish =>
    match world.phase with
    | .finishing status _ => some { world with phase := .finished status }
    | _ => none

/-- The messages of the turn. -/
def messagesOf (messages : List UserMessage) : List String :=
  (messages.filter fun message => message.turnId = turnId).map UserMessage.text

def accepted (trace : List TurnObservation) : List String :=
  trace.filterMap fun
    | .accepted text => some text
    | _ => none

/-- Each accepted text is appended once, in the order of the calls, and a model step
has seen them all. -/
structure SteeringKept (start final : TurnWorld) : Prop where
  appended : messagesOf turnId final.session =
    messagesOf turnId start.session ++ (accepted final.trace).map jsTrim
  seen : accepted final.trace ≠ [] → ∃ visible, .modelStep visible ∈ final.trace ∧
    messagesOf turnId visible = messagesOf turnId start.session ++ (accepted final.trace).map jsTrim

def isModelStep : TurnObservation → Bool
  | .modelStep _ => true
  | _ => false

/-- The queue is drained, and a model step follows. -/
def drainedBeforeStep : List TurnObservation → Bool
  | [] => false
  | .drained :: rest => rest.any isModelStep
  | _ :: rest => drainedBeforeStep rest

/-- No accepted text is blank, and after each the queue is drained before a model step. -/
def SteeredInTime : List TurnObservation → Prop
  | [] => True
  | .accepted text :: rest =>
    (jsTrim text ≠ "" ∧ drainedBeforeStep rest = true) ∧ SteeredInTime rest
  | _ :: rest => SteeredInTime rest

end QiongQi.TurnSteering
