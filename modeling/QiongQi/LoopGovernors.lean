import Mathlib.Data.List.Dedup
import QiongQi.TaskStates

/-! `loop-governor.ts`: what a run's tool observations say about repetition and
progress, and when the run is sent to a checkpoint or ended for it. -/
namespace QiongQi.LoopGovernors
open JsonValues RuntimeContracts TaskStates

structure LoopGovernorState where
  recentCalls : List String := []
  recentResults : List String := []
  recentResources : List String := []
  observationCount : ℚ := 0
  noProgressToolCalls : ℚ := 0
  noProgressModelSteps : ℚ := 0
  checkpointRequested : Bool := false
  checkpointCompleted : Bool := false
  terminated : Option String := none

inductive GovernorAction where
  | allow | checkpoint | terminate

structure LoopGovernorDecision where
  action : GovernorAction
  reason : Option String := none
  state : LoopGovernorState

inductive GovernorStage where
  | model | tool | checkpoint
  deriving DecidableEq

inductive ProgressLevel where
  | strong | weak | none
  deriving DecidableEq

def ProgressLevel.name : ProgressLevel → String
  | .strong => "strong"
  | .weak => "weak"
  | .none => "none"

structure LoopGovernorInput where
  stage : GovernorStage
  observations : List ToolObservation
  level : ProgressLevel
  digest : String

/-- `values.slice(-count)`. -/
def lastOf (count : Nat) (values : List α) : List α :=
  values.drop (values.length - count)

/-- How often the last value is repeated at the end; an empty one counts as none. -/
def repeatedTail (values : List String) : Nat :=
  match values.getLast? with
  | none => 0
  | some last => if last = "" then 0 else (values.reverse.takeWhile fun value => value = last).length

def distinctCount (values : List String) : Nat :=
  values.dedup.length

def occurrencesInWindow (values : List String) (target : String) : Nat :=
  (lastOf 16 values).count target

/-- One fresh observation in the state's windows. -/
def recordObservation (state : LoopGovernorState) (observation : ToolObservation) :
    LoopGovernorState :=
  { state with
    observationCount := state.observationCount + 1
    recentCalls := state.recentCalls ++ [observation.canonicalArgumentsDigest.text]
    recentResults := state.recentResults ++ [observation.resultDigest.text]
    recentResources :=
      if observation.effect = .read then
        state.recentResources ++ [observation.capabilityClass.text ++ ":" ++
          String.intercalate "," (observation.resourceKeys.map NonEmptyString.text)]
      else state.recentResources }

/-- The state once a step's observations and its progress are taken in. -/
def observe (previous : Option LoopGovernorState) (input : LoopGovernorInput) : LoopGovernorState :=
  let fresh := input.observations.filter fun observation => !observation.replayed
  let recorded := fresh.foldl recordObservation (previous.getD {})
  let windowed := { recorded with
    recentCalls := lastOf 32 recorded.recentCalls
    recentResults := lastOf 32 recorded.recentResults
    recentResources := lastOf 32 recorded.recentResources }
  if input.level ≠ .none then
    { windowed with noProgressToolCalls := 0, noProgressModelSteps := 0 }
  else
    { windowed with
      noProgressToolCalls := windowed.noProgressToolCalls + fresh.length
      noProgressModelSteps :=
        if input.stage = .model then windowed.noProgressModelSteps + 1
        else windowed.noProgressModelSteps }

def LoopGovernorState.terminate (state : LoopGovernorState) (reason : String) :
    LoopGovernorDecision where
  action := .terminate
  reason := some reason
  state := { state with terminated := some reason }

def LoopGovernorState.requestCheckpoint (state : LoopGovernorState) (reason : String) :
    LoopGovernorDecision where
  action := .checkpoint
  reason := some reason
  state := { state with checkpointRequested := true }

/-- The latest result has come back four times within the window. -/
def repeatsResult (state : LoopGovernorState) : Bool :=
  match state.recentResults.getLast? with
  | none => false
  | some latest => latest ≠ "" && 4 ≤ occurrencesInWindow state.recentResults latest

/-- `LoopGovernor.evaluate`. -/
def evaluate (previous : Option LoopGovernorState) (input : LoopGovernorInput) :
    LoopGovernorDecision :=
  let state := observe previous input
  if 3 ≤ repeatedTail state.recentCalls then state.terminate "exact_call_repetition"
  else if repeatsResult state then state.terminate "repeated_result_digest"
  else if !state.checkpointRequested && 6 ≤ state.recentResources.length &&
      distinctCount (lastOf 6 state.recentResults) = 6 then
    state.requestCheckpoint "read_resource_churn"
  else if !state.checkpointRequested &&
      (12 ≤ state.noProgressToolCalls || 8 ≤ state.noProgressModelSteps) then
    state.requestCheckpoint "no_progress_window"
  else if state.checkpointCompleted && 2 ≤ state.noProgressModelSteps then
    state.terminate "post_checkpoint_no_progress"
  else { action := .allow, state }

def markCheckpointCompleted (previous : LoopGovernorState) : LoopGovernorState :=
  { previous with checkpointCompleted := true, noProgressModelSteps := 0 }

def strings (values : List String) : Json :=
  .array (values.map Json.string)

def LoopGovernorState.toJson (state : LoopGovernorState) : Json :=
  .object <| [("version", .number 1), ("recentCalls", strings state.recentCalls),
      ("recentResults", strings state.recentResults),
      ("recentResources", strings state.recentResources),
      ("observationCount", .number state.observationCount),
      ("noProgressToolCalls", .number state.noProgressToolCalls),
      ("noProgressModelSteps", .number state.noProgressModelSteps),
      ("checkpointRequested", .bool state.checkpointRequested),
      ("checkpointCompleted", .bool state.checkpointCompleted)] ++
    (state.terminated.map fun reason => ("terminated", Json.string reason)).toList

def stringsOf (items : List Json) : List String :=
  items.filterMap fun
    | .string text => some text
    | _ => none

def optionalStrings : Option Json → List String
  | some (.array items) => stringsOf items
  | _ => []

/-- `Number(value) || 0` of a stored count. -/
def countOf : Option Json → ℚ
  | some (.number value) => value
  | _ => 0

def isTrue : Option Json → Bool
  | some (.bool value) => value
  | _ => false

/-- `readState`. -/
def readState : Option Json → Option LoopGovernorState
  | some (.object fields) =>
    match fields.lookup "version", fields.lookup "recentCalls", fields.lookup "recentResults" with
    | some (.number version), some (.array recentCalls), some (.array recentResults) =>
      if version = 1 then some {
        recentCalls := stringsOf recentCalls
        recentResults := stringsOf recentResults
        recentResources := optionalStrings (fields.lookup "recentResources")
        observationCount := countOf (fields.lookup "observationCount")
        noProgressToolCalls := countOf (fields.lookup "noProgressToolCalls")
        noProgressModelSteps := countOf (fields.lookup "noProgressModelSteps")
        checkpointRequested := isTrue (fields.lookup "checkpointRequested")
        checkpointCompleted := isTrue (fields.lookup "checkpointCompleted")
        terminated := match fields.lookup "terminated" with
          | some (.string reason) => some reason
          | _ => none }
      else none
    | _, _, _ => none
  | _ => none

private theorem stringsOf_strings : stringsOf (values.map Json.string) = values := by
  induction values with
  | nil => rfl
  | cons value rest ih => simp [stringsOf]

theorem readState_toJson (state : LoopGovernorState) : readState (some state.toJson) = some state := by
  obtain ⟨calls, results, resources, observations, toolCalls, modelSteps, requested, completed,
    terminated⟩ := state
  cases terminated <;>
    simp [readState, LoopGovernorState.toJson, strings, List.lookup_cons, stringsOf_strings,
      optionalStrings, countOf, isTrue]

end QiongQi.LoopGovernors
