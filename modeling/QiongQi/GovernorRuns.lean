import QiongQi.IntentResults
import QiongQi.KernelReducers
import QiongQi.RuntimeMiddlewares

/-! The loop governor over the tool steps of a run. The middleware sees a step
after `project-progress`, and after `progress-checkpoint` where it sent the run
there; it always reports the stage `tool`, so the counter of model steps stays at
zero and only repeated calls and results end a run. -/
namespace QiongQi.GovernorRuns
open JsonValues RuntimeContracts MiddlewareCommands ExecutionGraphs RuntimeKernels TaskStates
  LoopGovernors RuntimeMiddlewares KernelRuns KernelReducers

/-- What one tool step came to. -/
structure ToolStep where
  observations : List ToolObservation
  level : ProgressLevel
  digest : String
  evidenceCount : Nat := 0
  artifactCount : Nat := 0

/-- The facts of `project-progress`. -/
def ToolStep.facts (step : ToolStep) : Fields :=
  [("observations", toolObservation.array.write step.observations),
    ("progressLevel", .string step.level.name), ("progressDigest", .string step.digest),
    ("evidenceCount", .number step.evidenceCount), ("artifactCount", .number step.artifactCount)]

def projectProgressNode : RuntimeNode := { id := "project-progress", checkpoint := .both }

def progressCheckpointNode : RuntimeNode := { id := "progress-checkpoint", checkpoint := .both }

/-- A node's `afterNode` hook: the accepted commands, and the state with them applied. -/
def hookAfter (chain : List RuntimeMiddleware) (state : RunStateV3) (node : RuntimeNode)
    (facts : Fields) : Except String (List MiddlewareCommand × RunStateV3) := do
  let commands ← acceptedCommands
    (some (runChain chain { state, hook := .afterNode, node := some node, facts := some facts }))
  let applied ← applyCommands state commands
  return (commands, applied)

/-- A tool step, with the checkpoint it is sent to. -/
def governStep (chain : List RuntimeMiddleware) (state : RunStateV3) (step : ToolStep) :
    Except String (List MiddlewareCommand × RunStateV3) := do
  let (commands, next) ← hookAfter chain state projectProgressNode step.facts
  if (lastJump commands).map Prod.fst = some progressCheckpointNode.id then
    let (_, checkpointed) ← hookAfter chain next progressCheckpointNode
      [("checkpointCompleted", .bool true)]
    return (commands, checkpointed)
  else return (commands, next)

def governorEntry (state : RunStateV3) : Option MiddlewareState :=
  state.middleware.lookup "loop-governor"

/-- The states in which a run's tool steps are governed. Between two steps other
nodes run, and none of them writes the governor's entry. -/
structure GovernedRun (chain : List RuntimeMiddleware) where
  steps : Nat → ToolStep
  states : Nat → RunStateV3
  fresh : governorEntry (states 0) = none
  fed : ∀ n, ∃ commands next, governStep chain (states n) (steps n) = .ok (commands, next) ∧
    governorEntry (states (n + 1)) = governorEntry next

/-- The governor ends the run at its nth tool step. -/
def GovernedRun.Ends {chain : List RuntimeMiddleware} (run : GovernedRun chain) (n : Nat) : Prop :=
  ∃ commands next, governStep chain (run.states n) (run.steps n) = .ok (commands, next) ∧
    (commandOutcome commands).isSome = true

/-- The observations of a step that were not replayed. -/
def ToolStep.freshObservations (step : ToolStep) : List ToolObservation :=
  step.observations.filter fun observation => !observation.replayed

/-- The fresh observations of the first steps of a run. -/
def freshUntil (steps : Nat → ToolStep) : Nat → List ToolObservation
  | 0 => []
  | n + 1 => freshUntil steps n ++ (steps n).freshObservations

def callDigests (observations : List ToolObservation) : List String :=
  observations.map fun observation => observation.canonicalArgumentsDigest.text

def resultDigests (observations : List ToolObservation) : List String :=
  observations.map fun observation => observation.resultDigest.text

/-- The last three calls have the same arguments, or the last result came back
four times among the last sixteen. -/
def Repeats (observations : List ToolObservation) : Prop :=
  (∃ digest, [digest, digest, digest] <:+ callDigests observations) ∨
    ∃ digest, (resultDigests observations).getLast? = some digest ∧
      4 ≤ (lastOf 16 (resultDigests observations)).count digest

/-- No stretch of `bound` steps without progress goes by without an end of the run. -/
def GovernedRun.StopsWithin {chain : List RuntimeMiddleware} (run : GovernedRun chain) (bound : Nat) : Prop :=
  ∀ start, (∀ n, start ≤ n → n < start + bound → (run.steps n).level = .none) →
    ∃ n, start ≤ n ∧ n < start + bound ∧ run.Ends n

/-- No stretch of `bound` steps without progress goes by without such a repetition. -/
def RepeatsWithin (steps : Nat → ToolStep) (bound : Nat) : Prop :=
  ∀ start, (∀ n, start ≤ n → n < start + bound → (steps n).level = .none) →
    ∃ n, start ≤ n ∧ n < start + bound ∧ Repeats (freshUntil steps (n + 1))

theorem lastOf_append :
    lastOf count (lastOf count older ++ newer) = lastOf count (older ++ newer) := by
  simp only [lastOf, List.drop_append, List.drop_drop, List.length_append, List.length_drop]
  congr 2 <;> omega

theorem lastOf_lastOf (within : few ≤ many) :
    lastOf few (lastOf many values) = lastOf few values := by
  simp only [lastOf, List.drop_drop, List.length_drop]
  congr 1
  omega

theorem getLast?_lastOf {count : Nat} (positive : 0 < count) (values : List α) :
    (lastOf count values).getLast? = values.getLast? := by
  unfold lastOf
  rw [List.getLast?_drop]
  split
  · rename_i short
    have empty : values = [] := List.eq_nil_of_length_eq_zero (by omega)
    rw [empty, List.getLast?_nil]
  · rfl

theorem suffix_lastOf (short : tail.length ≤ count) :
    tail <:+ lastOf count values ↔ tail <:+ values := by
  refine ⟨fun ends => ends.trans (List.drop_suffix _ _), fun ends => ?_⟩
  refine List.suffix_of_suffix_length_le ends (List.drop_suffix _ _) ?_
  have bounded := ends.length_le
  rw [lastOf, List.length_drop]
  omega

/-- The last value stands at the end at least three times. -/
theorem three_le_repeatedTail (written : ∀ value ∈ values, value ≠ "") :
    3 ≤ repeatedTail values ↔ ∃ digest, [digest, digest, digest] <:+ values := by
  obtain ⟨latest, rfl⟩ : ∃ latest : List String, values = latest.reverse :=
    ⟨_, (List.reverse_reverse _).symm⟩
  have tails : ∀ digest : String, [digest, digest, digest] <:+ latest.reverse ↔
      [digest, digest, digest] <+: latest := fun digest => by
    rw [← List.reverse_prefix, List.reverse_reverse]
    rfl
  simp only [tails, repeatedTail, List.getLast?_reverse, List.reverse_reverse]
  rcases latest with _ | ⟨first, _ | ⟨second, _ | ⟨third, rest⟩⟩⟩
  · simp
  · have named : first ≠ "" := written first (by simp)
    simp [named]
  · have named : first ≠ "" := written first (by simp)
    by_cases same : second = first <;> simp [named, same]
  · have named : first ≠ "" := written first (by simp)
    obtain rfl | other := eq_or_ne second first
    · obtain rfl | other := eq_or_ne third second
      · simp [named]
      · simp [named, other, other.symm]
    · simp [named, other, other.symm]

variable {observations : List ToolObservation} {state : RunStateV3} {governor : LoopGovernorState}

/-- The governor's own look at its windows finds the repetitions of all observations. -/
theorem repeats_iff {state : LoopGovernorState}
    (calls : state.recentCalls = lastOf 32 (callDigests observations))
    (results : state.recentResults = lastOf 32 (resultDigests observations)) :
    3 ≤ repeatedTail state.recentCalls ∨ repeatsResult state = true ↔ Repeats observations := by
  have written : ∀ value ∈ state.recentCalls, value ≠ "" := by
    rw [calls]
    intro value found
    obtain ⟨observation, -, rfl⟩ := List.mem_map.mp (List.mem_of_mem_drop found)
    exact observation.canonicalArgumentsDigest.nonempty
  refine or_congr ?_ ?_
  · rw [three_le_repeatedTail written, calls]
    exact exists_congr fun digest => suffix_lastOf (by simp)
  · simp only [repeatsResult, occurrencesInWindow, results, getLast?_lastOf (by decide : 0 < 32),
      lastOf_lastOf (by decide : 16 ≤ 32)]
    cases last : (resultDigests observations).getLast? with
    | none => simp
    | some latest =>
      have named : latest ≠ "" := by
        obtain ⟨observation, -, rfl⟩ := List.mem_map.mp (List.mem_of_getLast? last)
        exact observation.resultDigest.nonempty
      simp [named]

private theorem foldl_recordObservation : ∀ state : LoopGovernorState,
      (observations.foldl recordObservation state).recentCalls =
          state.recentCalls ++ callDigests observations ∧
        (observations.foldl recordObservation state).recentResults =
          state.recentResults ++ resultDigests observations ∧
        (observations.foldl recordObservation state).noProgressModelSteps = state.noProgressModelSteps := by
  induction observations with
  | nil => exact fun state => ⟨(List.append_nil _).symm, (List.append_nil _).symm, rfl⟩
  | cons observation rest ih =>
    intro state
    obtain ⟨calls, results, steps⟩ := ih (recordObservation state observation)
    rw [List.foldl_cons, calls, results, steps]
    exact ⟨List.append_assoc _ _ _, List.append_assoc _ _ _, rfl⟩

/-- What the governor remembers of the observations so far. -/
structure Remembers (state : LoopGovernorState) (observations : List ToolObservation) : Prop where
  calls : state.recentCalls = lastOf 32 (callDigests observations)
  results : state.recentResults = lastOf 32 (resultDigests observations)
  modelSteps : state.noProgressModelSteps = 0

/-- What the governor is given for a tool step. -/
def ToolStep.input (step : ToolStep) : LoopGovernorInput where
  stage := .tool
  observations := step.observations
  level := step.level
  digest := step.digest

theorem observe_remembers (remembers : Remembers (previous.getD {}) observations) (step : ToolStep) :
    Remembers (observe previous step.input) (observations ++ step.freshObservations) := by
  obtain ⟨calls, results, steps⟩ :=
    foldl_recordObservation (previous.getD {})
  rw [remembers.calls] at calls
  rw [remembers.results] at results
  rw [remembers.modelSteps] at steps
  have windowCalls : lastOf 32 (step.freshObservations.foldl recordObservation
      (previous.getD {})).recentCalls = lastOf 32 (callDigests (observations ++ step.freshObservations)) := by
    rw [calls, lastOf_append, callDigests, callDigests, callDigests, List.map_append]
  have windowResults : lastOf 32 (step.freshObservations.foldl recordObservation
      (previous.getD {})).recentResults = lastOf 32 (resultDigests (observations ++
        step.freshObservations)) := by
    rw [results, lastOf_append, resultDigests, resultDigests, resultDigests, List.map_append]
  by_cases idle : step.input.level = .none
  · simp only [observe, idle, ne_eq, not_true_eq_false, if_false]
    exact ⟨windowCalls, windowResults, steps⟩
  · simp only [observe, idle, ne_eq, not_false_eq_true, if_true]
    exact ⟨windowCalls, windowResults, rfl⟩

/-- What the governor decides about the state it observed. -/
inductive Decides (state : LoopGovernorState) : LoopGovernorDecision → Prop where
  | ended (reason : String)
      (repeated : 3 ≤ repeatedTail state.recentCalls ∨ repeatsResult state = true) :
      Decides state (state.terminate reason)
  | sent (reason : String) (nonblank : jsTrim reason ≠ "")
      (unrepeated : ¬ (3 ≤ repeatedTail state.recentCalls ∨ repeatsResult state = true)) :
      Decides state (state.requestCheckpoint reason)
  | passed (unrepeated : ¬ (3 ≤ repeatedTail state.recentCalls ∨ repeatsResult state = true)) :
      Decides state { action := .allow, state }

theorem evaluate_decides (still : (observe previous input).noProgressModelSteps = 0) :
    Decides (observe previous input) (evaluate previous input) := by
  unfold evaluate
  dsimp only
  split
  · rename_i calls
    exact .ended _ (.inl calls)
  rename_i calls
  split
  · rename_i results
    exact .ended _ (.inr results)
  rename_i results
  have unrepeated := not_or.mpr ⟨calls, results⟩
  split
  · exact .sent _ (by decide) unrepeated
  split
  · exact .sent _ (by decide) unrepeated
  split
  · rename_i stuck
    -- The middleware reports no model steps, so this branch is out of reach.
    rw [still, Bool.and_eq_true, decide_eq_true_iff] at stuck
    exact absurd stuck.2 (by decide)
  · exact .passed unrepeated

/-- The governor's state as its middleware stores it. -/
def governorMiddlewareState (state : LoopGovernorState) : MiddlewareState where
  version := ⟨1, Nat.one_pos, one_safe⟩
  data := state.toJson

def storeCommand (state : LoopGovernorState) : MiddlewareCommand :=
  .setMiddlewareState ⟨"loop-governor", by decide⟩ (governorMiddlewareState state)

def capped (reason : String) : StoredOutcome :=
  .ofFields .degraded .loopCapped none false (some [("governorReason", .string reason)])

def endCommand (reason : String) : MiddlewareCommand :=
  .terminate (capped reason) nofun

def checkpointCommand (reason : String) (nonblank : jsTrim reason ≠ "") : MiddlewareCommand :=
  .jump ⟨"progress-checkpoint", by decide⟩ ⟨"next", by decide⟩ ⟨reason, nonblank⟩

theorem accepted_written (written : .array raws = (commandsJson commands).toJs) :
    acceptedCommands (some (commanded raws)) = .ok commands := by
  show canonicalizeMiddlewareCommands (.array raws) = .ok commands
  rw [written, canonicalize_commandsJson]

variable {tests : ContextLossTests} {options : BudgetMiddlewareOptions}

/-- Facts without a proposal and a stop class pass everything before the governor. -/
theorem runChain_governed (hook : context.hook = .afterNode)
    (unproposed : factText (context.facts.getD []) "proposalText" = "")
    (unstopped : factText (context.facts.getD []) "stopClass" = "") :
    runChain (kernelV3Middleware tests options) context =
      loopGovernorMiddleware.handle context fun _ => {} := by
  have silent : looksLikeContextLossClarification tests "" = false := rfl
  rw [runChain_handlers hook]
  simp [contextRecoveryMiddleware, safetyTerminationMiddleware, unproposed, unstopped, silent]

theorem facts_read (step : ToolStep) :
    observationFacts step.facts = step.observations ∧ progressLevelFact step.facts = step.level ∧
      progressDigestFact step.facts = step.digest := by
  refine ⟨?_, ?_, rfl⟩
  · show (step.observations.map toolObservation.write).filterMap
      (fun item => toolObservation.safeParse item.toJs) = step.observations
    simp [List.filterMap_map]
  · cases level : step.level <;>
      simp [progressLevelFact, factText, ToolStep.facts, List.lookup_cons, level, ProgressLevel.name]

/-- The accepted commands of a decision, as `governorCommands` writes them. -/
theorem accepted_governed (state : LoopGovernorState) (decides : Decides state decision) :
    ∃ last : List MiddlewareCommand, acceptedCommands (some (commanded (governorCommands decision))) =
          .ok (storeCommand decision.state :: last) ∧
        (∀ current processed, applyCommandList current processed last = .ok current) ∧
        ((commandOutcome last).isSome = true ↔
          (3 ≤ repeatedTail state.recentCalls ∨ repeatsResult state = true)) := by
  cases decides with
  | ended reason repeated =>
    refine ⟨[endCommand reason], accepted_written ?_, fun _ _ => rfl, ?_⟩
    · rfl
    · exact ⟨fun _ => repeated, fun _ => rfl⟩
  | sent reason nonblank unrepeated =>
    refine ⟨[checkpointCommand reason nonblank], accepted_written ?_, fun _ _ => rfl, ?_⟩
    · rfl
    · exact ⟨nofun, fun repeated => absurd repeated unrepeated⟩
  | passed unrepeated =>
    refine ⟨[], accepted_written ?_, fun _ _ => rfl, ?_⟩
    · rfl
    · exact ⟨nofun, fun repeated => absurd repeated unrepeated⟩

/-- A decision changes nothing that the governor remembers. -/
theorem Decides.remembers {state : LoopGovernorState} (decides : Decides state decision)
    (remembers : Remembers state observations) : Remembers decision.state observations := by
  cases decides with
  | ended | sent => exact ⟨remembers.calls, remembers.results, remembers.modelSteps⟩
  | passed => exact remembers

/-- The state with the governor's entry written. -/
def withGovernor (state : RunStateV3) (governor : LoopGovernorState) : RunStateV3 :=
  { state with
    middleware := assign state.middleware "loop-governor" (governorMiddlewareState governor) }

@[simp] theorem governorEntry_withGovernor (state : RunStateV3) (governor : LoopGovernorState) :
    governorEntry (withGovernor state governor) = some (governorMiddlewareState governor) :=
  lookup_assign _ _ _

theorem governorData_of_entry
    (entry : governorEntry state = some (governorMiddlewareState governor)) :
    governorData state = some governor := by
  unfold governorEntry at entry
  rw [governorData, entry]
  exact readState_toJson governor

theorem applyCommands_store
    (idle : ∀ current processed, applyCommandList current processed last = .ok current) :
    applyCommands state (storeCommand governor :: last) = .ok (withGovernor state governor) := by
  rw [applyCommands_eq]
  exact idle _ _

variable (tests options)

theorem hookAfter_progress (state : RunStateV3) (step : ToolStep)
    (still : (observe (governorData state) step.input).noProgressModelSteps = 0) :
    ∃ commands, hookAfter (kernelV3Middleware tests options) state projectProgressNode step.facts =
        .ok (commands, withGovernor state (evaluate (governorData state) step.input).state) ∧
      ((commandOutcome commands).isSome = true ↔
        (3 ≤ repeatedTail (observe (governorData state) step.input).recentCalls ∨
          repeatsResult (observe (governorData state) step.input) = true)) := by
  obtain ⟨last, accepted, idle, ends⟩ := accepted_governed _ (evaluate_decides still)
  obtain ⟨observed, level, digest⟩ := facts_read step
  refine ⟨storeCommand (evaluate (governorData state) step.input).state :: last, ?_, ends⟩
  have answered : runChain (kernelV3Middleware tests options)
      { state, hook := .afterNode, node := some projectProgressNode, facts := some step.facts } =
        commanded (governorCommands (evaluate (governorData state) step.input)) := by
    rw [runChain_governed rfl rfl rfl]
    simp [loopGovernorMiddleware, projectProgressNode, observed, level, digest, ToolStep.input]
  simp only [hookAfter, answered, accepted, bind, Except.bind, applyCommands_store idle]
  rfl

theorem hookAfter_checkpoint (stored : governorData state = some governor) :
    ∃ commands, hookAfter (kernelV3Middleware tests options) state progressCheckpointNode
        [("checkpointCompleted", .bool true)] =
      .ok (commands, withGovernor state (markCheckpointCompleted governor)) := by
  refine ⟨[storeCommand (markCheckpointCompleted governor)], ?_⟩
  have answered : runChain (kernelV3Middleware tests options)
      { state, hook := .afterNode, node := some progressCheckpointNode
        facts := some [("checkpointCompleted", .bool true)] } =
      commanded [setMiddlewareStateCommand "loop-governor"
        (markCheckpointCompleted governor).toJson] := by
    rw [runChain_governed rfl rfl rfl]
    simp [loopGovernorMiddleware, progressCheckpointNode, stored]
  have accepted : acceptedCommands (some (commanded [setMiddlewareStateCommand "loop-governor"
      (markCheckpointCompleted governor).toJson])) =
        .ok [storeCommand (markCheckpointCompleted governor)] := accepted_written rfl
  have idle : ∀ (current : RunStateV3) (processed : Option (List String)),
      applyCommandList current processed [] = .ok current := fun _ _ => rfl
  simp only [hookAfter, answered, accepted, bind, Except.bind, applyCommands_store idle]
  rfl

theorem governStep_governed (remembers : Remembers ((governorData state).getD {}) observations)
    (step : ToolStep) : ∃ commands next governor,
      governStep (kernelV3Middleware tests options) state step = .ok (commands, next) ∧
        governorEntry next = some (governorMiddlewareState governor) ∧
        Remembers governor (observations ++ step.freshObservations) ∧
        ((commandOutcome commands).isSome = true ↔ Repeats (observations ++ step.freshObservations)) := by
  have observed := observe_remembers remembers step
  have kept := (evaluate_decides observed.modelSteps).remembers observed
  obtain ⟨commands, hooked, ends⟩ :=
    hookAfter_progress tests options state step observed.modelSteps
  rw [repeats_iff observed.calls observed.results] at ends
  have stored := governorData_of_entry (governorEntry_withGovernor state
    (evaluate (governorData state) step.input).state)
  generalize (evaluate (governorData state) step.input).state = decided at hooked kept stored
  by_cases sent : (lastJump commands).map Prod.fst = some progressCheckpointNode.id
  · obtain ⟨marks, marked⟩ := hookAfter_checkpoint tests options stored
    refine ⟨commands, withGovernor (withGovernor state decided) (markCheckpointCompleted decided),
      markCheckpointCompleted decided, ?_, governorEntry_withGovernor _ _, ?_, ends⟩
    · simp only [governStep, hooked, bind, Except.bind, if_pos sent, marked]
      rfl
    · exact ⟨kept.calls, kept.results, rfl⟩
  · refine ⟨commands, withGovernor state decided, decided, ?_, governorEntry_withGovernor _ _, kept, ends⟩
    simp only [governStep, hooked, bind, Except.bind, if_neg sent]
    rfl

section Runs
variable {tests options} (run : GovernedRun (kernelV3Middleware tests options))

theorem remembers_all (n : Nat) :
    Remembers ((governorData (run.states n)).getD {}) (freshUntil run.steps n) := by
  induction n with
  | zero =>
    have empty : governorData (run.states 0) = none := by
      have fresh := run.fresh
      unfold governorEntry at fresh
      rw [governorData, fresh]
      rfl
    rw [empty]
    exact ⟨rfl, rfl, rfl⟩
  | succ n ih =>
    obtain ⟨commands, next, fed, entry⟩ := run.fed n
    obtain ⟨_, _, governor, stepped, stored, remembers, -⟩ :=
      governStep_governed tests options ih (run.steps n)
    cases fed.symm.trans stepped
    rw [governorData_of_entry (entry.trans stored)]
    exact remembers

theorem ends_iff (n : Nat) : run.Ends n ↔ Repeats (freshUntil run.steps (n + 1)) := by
  obtain ⟨commands, next, _, stepped, -, -, ends⟩ :=
    governStep_governed tests options (remembers_all run n) (run.steps n)
  constructor
  · rintro ⟨_, _, again, ended⟩
    cases stepped.symm.trans again
    exact ends.mp ended
  · exact fun repeated => ⟨commands, next, stepped, ends.mpr repeated⟩

end Runs

/-! ### A run that is never ended

Every step reads a file that was not read before. The governor asks for its one
checkpoint and never speaks again. -/

/-- The states along the steps when no other node touches the middleware. -/
def statesAlong (chain : List RuntimeMiddleware) (first : RunStateV3) (steps : Nat → ToolStep) :
    Nat → RunStateV3
  | 0 => first
  | n + 1 =>
    match governStep chain (statesAlong chain first steps n) (steps n) with
    | .ok (_, next) => next
    | .error _ => statesAlong chain first steps n

theorem statesAlong_fed (fresh : governorEntry first = none) (steps : Nat → ToolStep) (n : Nat) :
    Remembers ((governorData
          (statesAlong (kernelV3Middleware tests options) first steps n)).getD {})
        (freshUntil steps n) ∧
      ∃ commands, governStep (kernelV3Middleware tests options)
          (statesAlong (kernelV3Middleware tests options) first steps n) (steps n) =
        .ok (commands, statesAlong (kernelV3Middleware tests options) first steps (n + 1)) := by
  have moves : ∀ n, Remembers ((governorData
      (statesAlong (kernelV3Middleware tests options) first steps n)).getD {})
        (freshUntil steps n) →
      ∃ commands governor, governStep (kernelV3Middleware tests options)
          (statesAlong (kernelV3Middleware tests options) first steps n) (steps n) =
        .ok (commands, statesAlong (kernelV3Middleware tests options) first steps (n + 1)) ∧
        governorEntry (statesAlong (kernelV3Middleware tests options) first steps (n + 1)) =
          some (governorMiddlewareState governor) ∧
        Remembers governor (freshUntil steps (n + 1)) := fun n remembers => by
    obtain ⟨commands, next, governor, stepped, stored, remembers, -⟩ :=
      governStep_governed tests options remembers (steps n)
    have reached : statesAlong (kernelV3Middleware tests options) first steps (n + 1) = next := by
      rw [statesAlong, stepped]
    exact ⟨commands, governor, by rw [reached, stepped], by rw [reached, stored], remembers⟩
  have remembers : Remembers ((governorData
      (statesAlong (kernelV3Middleware tests options) first steps n)).getD {})
        (freshUntil steps n) := by
    induction n with
    | zero =>
      unfold governorEntry at fresh
      rw [statesAlong, governorData, fresh]
      exact ⟨rfl, rfl, rfl⟩
    | succ n ih =>
      obtain ⟨_, governor, -, stored, remembers⟩ := moves n ih
      rw [governorData_of_entry stored]
      exact remembers
  obtain ⟨commands, _, stepped, -, -⟩ := moves n remembers
  exact ⟨remembers, commands, stepped⟩

/-- Any steps at all are the steps of a governed run. -/
def GovernedRun.along (first : RunStateV3) (fresh : governorEntry first = none)
    (steps : Nat → ToolStep) : GovernedRun (kernelV3Middleware tests options) where
  steps := steps
  states := statesAlong (kernelV3Middleware tests options) first steps
  fresh := fresh
  fed n := by
    obtain ⟨commands, stepped⟩ := (statesAlong_fed tests options fresh steps n).2
    exact ⟨commands, _, stepped, rfl⟩

/-- A name of its own for each number. -/
def digestOf (n : Nat) : NonEmptyString :=
  .join (named "read") (String.ofList (List.replicate n '+')) (named "end")

theorem digestOf_injective : Function.Injective fun n => (digestOf n).text := by
  intro left right same
  have lengths := congrArg String.length same
  simpa [digestOf, NonEmptyString.join, String.length_append] using lengths

/-- The nth step reads the nth file, and comes to nothing. -/
def newRead (n : Nat) : ToolStep where
  observations := [{
    callId := digestOf n
    toolName := named "read"
    effect := .read
    capabilityClass := named "workspace"
    resourceKeys := [digestOf n]
    canonicalArgumentsDigest := digestOf n
    resultDigest := digestOf n
    resultItemId := digestOf n
    artifactRefs := []
    failed := false
    replayed := false }]
  level := .none
  digest := "none"

theorem freshUntil_newRead :
    callDigests (freshUntil newRead n) = (List.range n).map (fun n => (digestOf n).text) ∧
      resultDigests (freshUntil newRead n) = (List.range n).map fun n => (digestOf n).text := by
  induction n with
  | zero => exact ⟨rfl, rfl⟩
  | succ n ih =>
    simp only [callDigests, resultDigests, freshUntil, List.map_append, List.range_succ] at ih ⊢
    rw [ih.1, ih.2]
    exact ⟨rfl, rfl⟩

theorem not_repeats (calls : (callDigests observations).Nodup)
    (results : (resultDigests observations).Nodup) : ¬ Repeats observations := by
  rintro (⟨digest, ends⟩ | ⟨digest, -, often⟩)
  · have distinct := calls.sublist ends.sublist
    simp at distinct
  · have distinct : (lastOf 16 (resultDigests observations)).Nodup :=
      results.sublist (List.drop_sublist _ _)
    have once := List.nodup_iff_count_le_one.mp distinct digest
    omega

theorem newRead_never_repeats : ¬ Repeats (freshUntil newRead n) := by
  have distinct : ((List.range n).map fun n => (digestOf n).text).Nodup :=
    List.nodup_range.map digestOf_injective
  obtain ⟨calls, results⟩ := freshUntil_newRead
  exact not_repeats (calls ▸ distinct) (results ▸ distinct)

/-- A production run that only reads new files. -/
def newReads : GovernedRun (defaultKernelV3Middleware ⟨fun _ => false, fun _ => false⟩) :=
  .along _ defaultBudgetOptions
    (initialState (KernelNodes.productionKernel IntentResults.plainDeps) sampleIdentity (named "now")) rfl newRead

end QiongQi.GovernorRuns
