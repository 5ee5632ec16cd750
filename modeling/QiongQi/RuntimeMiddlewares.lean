import QiongQi.KernelRuns
import QiongQi.LoopGovernors
import QiongQi.ModelProposals

/-! The middleware of production turns (`middleware-chain.ts`, `middleware/` and
`defaultKernelV3Middleware`): a chain of handlers, each of which answers itself
or passes the context on. None of these declares an anchor, so they run in the
order of their registration. -/
namespace QiongQi.RuntimeMiddlewares
open JsonValues RuntimeContracts MiddlewareCommands ExecutionGraphs RuntimeKernels TaskStates
  ModelProposals LoopGovernors

structure RuntimeMiddleware where
  id : String
  hooks : List RuntimeHook
  handle : MiddlewareContext → (MiddlewareContext → MiddlewareResult) → MiddlewareResult

/-- `dispatch`: past the last handler nothing is commanded. -/
def dispatch : List RuntimeMiddleware → MiddlewareContext → MiddlewareResult
  | [], _ => {}
  | item :: rest, context => item.handle context (dispatch rest)

/-- `MiddlewareChain.run`. -/
def runChain (chain : List RuntimeMiddleware) (context : MiddlewareContext) : MiddlewareResult :=
  dispatch (chain.filter fun item => item.hooks.contains context.hook) context

def terminateCommand (outcome : RunOutcome) : JsValue :=
  .object [("type", .string "terminate"), ("outcome", outcomeToJs outcome)]

def setMiddlewareStateCommand (id : String) (data : Json) : JsValue :=
  .object [("type", .string "set-middleware-state"), ("id", .string id),
    ("state", .object [("version", .number (.finite 1)), ("data", data.toJs)])]

def jumpCommand (nodeId condition reason : String) : JsValue :=
  .object [("type", .string "jump"), ("nodeId", .string nodeId), ("condition", .string condition),
    ("reason", .string reason)]

def retryCommand (reason : String) : JsValue :=
  .object [("type", .string "retry"), ("reason", .string reason)]

def commanded (commands : List JsValue) : MiddlewareResult where
  commands := some (.array commands)

structure BudgetMiddlewareOptions where
  maxSteps : Option ℚ := none
  maxToolCalls : Option ℚ := none
  maxTokens : Option ℚ := none
  maxCostUsd : Option ℚ := none

/-- `used >= (limit ?? Infinity)`. -/
def reached (used : ℚ) : Option ℚ → Bool
  | some limit => limit ≤ used
  | none => false

/-- `used > (limit ?? Infinity)`. -/
def exceeded (used : ℚ) : Option ℚ → Bool
  | some limit => limit < used
  | none => false

/-- A limit among the details of an outcome. -/
def limitValue : Option ℚ → JsValue
  | some limit => .number (.finite limit)
  | none => .undefined

def unledgeredToolCallCount (state : RunStateV3) : Nat :=
  match modelProposal.safeParse (nodeDataAt state "normalize-proposal"),
      taskStateV1.safeParse (nodeDataAt state "restore-task") with
  | some proposal, some task =>
    (proposal.toolIntents.filter fun intent =>
      !(task.toolLedger.map TaskToolLedgerEntry.callId).contains intent.callId).length
  | _, _ => 0

/-- The calls a node is about to add: only `prepare-tools` adds any. -/
def pendingToolCalls (node : Option RuntimeNode) (state : RunStateV3) : Nat :=
  if node.map RuntimeNode.id = some "prepare-tools" then unledgeredToolCallCount state else 0

def stepCapOutcome (options : BudgetMiddlewareOptions) (budget : BudgetState) : RunOutcome where
  status := .degraded
  reason := .stepCapped
  retryable := false
  details := some [("code", .string "step_cap"), ("maxSteps", limitValue options.maxSteps),
    ("stepsUsed", .number (.finite budget.stepsUsed))]

def toolCallCapOutcome (options : BudgetMiddlewareOptions) (budget : BudgetState) (pending : Nat) :
    RunOutcome where
  status := .degraded
  reason := .stepCapped
  retryable := false
  details := some [("code", .string "tool_call_cap"), ("maxToolCalls", limitValue options.maxToolCalls),
    ("toolCallsUsed", .number (.finite budget.toolCallsUsed)),
    ("pendingToolCalls", .number (.finite pending)),
    ("projectedToolCalls", .number (.finite (budget.toolCallsUsed + pending)))]

def tokenCapOutcome (options : BudgetMiddlewareOptions) (totalTokens : ℚ) : RunOutcome where
  status := .degraded
  reason := .tokenCapped
  retryable := false
  details := some [("code", .string "token_cap"), ("maxTokens", limitValue options.maxTokens),
    ("totalTokens", .number (.finite totalTokens))]

def costCapOutcome (options : BudgetMiddlewareOptions) (budget : BudgetState) : RunOutcome where
  status := .degraded
  reason := .costCapped
  retryable := false
  details := some [("code", .string "cost_cap"), ("maxCostUsd", limitValue options.maxCostUsd),
    ("costUsd", .number (.finite budget.costUsd))]

/-- The outcome of the first limit that is used up, if one is. -/
def budgetOutcome (options : BudgetMiddlewareOptions) (node : Option RuntimeNode)
    (state : RunStateV3) : Option RunOutcome :=
  let budget := state.budgets
  let totalTokens := budget.inputTokens + budget.outputTokens
  let pending := pendingToolCalls node state
  if reached budget.stepsUsed options.maxSteps then some (stepCapOutcome options budget)
  else if exceeded (budget.toolCallsUsed + pending) options.maxToolCalls then
    some (toolCallCapOutcome options budget pending)
  else if reached totalTokens options.maxTokens then some (tokenCapOutcome options totalTokens)
  else if reached budget.costUsd options.maxCostUsd then some (costCapOutcome options budget)
  else none

def budgetMiddleware (options : BudgetMiddlewareOptions) : RuntimeMiddleware where
  id := "budget"
  hooks := [.beforeNode]
  handle context next :=
    match budgetOutcome options context.node context.state with
    | some outcome => commanded [terminateCommand outcome]
    | none => next context

/-- The patterns of `context-recovery-guard.ts`: the first on a text without its
blanks, the second on a build context. -/
structure ContextLossTests where
  asksToRestate : String → Bool
  hasRecoverableTaskState : Json → Bool

/-- A text without a visible character asks for nothing. -/
def looksLikeContextLossClarification (tests : ContextLossTests) (text : String) : Bool :=
  let compact := String.ofList (text.toList.filter fun c => !isJsSpace c)
  compact ≠ "" && tests.asksToRestate compact

def factText (facts : Fields) (key : String) : String :=
  match facts.lookup key with
  | some (.string text) => text
  | _ => ""

/-- The facts name a state that can be recovered. -/
def recoverableFacts (tests : ContextLossTests) (facts : Fields) : Bool :=
  isTrue (facts.lookup "recoverable") || isTrue (facts.lookup "hasRecoverableState") ||
    match facts.lookup "buildContext" with
    | some (.object fields) => tests.hasRecoverableTaskState (.object fields)
    | some (.array items) => tests.hasRecoverableTaskState (.array items)
    | _ => false

def contextRecoveryMiddleware (tests : ContextLossTests) : RuntimeMiddleware where
  id := "context-recovery"
  hooks := [.afterNode]
  handle context next :=
    let facts := context.facts.getD []
    if recoverableFacts tests facts &&
        looksLikeContextLossClarification tests (factText facts "proposalText") then
      commanded [retryCommand "recoverable context-loss clarification"]
    else next context

def terminalResponseMiddleware : RuntimeMiddleware where
  id := "terminal-response"
  hooks := [.afterNode]
  handle context next := next context

def safetyOutcome (providerReason : Option Json) : RunOutcome where
  status := .degraded
  reason := .providerSafetyStop
  retryable := false
  details := some [("providerReason", (providerReason.map Json.toJs).getD .undefined)]

def safetyTerminationMiddleware : RuntimeMiddleware where
  id := "safety-termination"
  hooks := [.afterNode]
  handle context next :=
    let facts := context.facts.getD []
    let stopClass := factText facts "stopClass"
    if stopClass = "safety" || stopClass = "refusal" then
      commanded [terminateCommand (safetyOutcome (facts.lookup "providerReason"))]
    else next context

def governorData (state : RunStateV3) : Option LoopGovernorState :=
  readState ((state.middleware.lookup "loop-governor").map MiddlewareState.data)

def governorOutcome (reason : Option String) : RunOutcome where
  status := .degraded
  reason := .loopCapped
  retryable := false
  details := some [("governorReason", (reason.map JsValue.string).getD .undefined)]

/-- `facts.observations`, which a node handler wrote as tool observations. -/
def observationFacts (facts : Fields) : List ToolObservation :=
  match facts.lookup "observations" with
  | some (.array items) => items.filterMap fun item => toolObservation.safeParse item.toJs
  | _ => []

def progressLevelFact (facts : Fields) : ProgressLevel :=
  if factText facts "progressLevel" = "strong" then .strong
  else if factText facts "progressLevel" = "weak" then .weak
  else .none

/-- `String(facts.progressDigest ?? 'none')`. -/
def progressDigestFact (facts : Fields) : String :=
  match facts.lookup "progressDigest" with
  | none | some .null => "none"
  | some digest => describe digest

/-- What the governor commands for its decision. -/
def governorCommands (decision : LoopGovernorDecision) : List JsValue :=
  setMiddlewareStateCommand "loop-governor" decision.state.toJson :: match decision.action with
    | .terminate => [terminateCommand (governorOutcome decision.reason)]
    | .checkpoint =>
      [jumpCommand "progress-checkpoint" "next" (decision.reason.getD "governor checkpoint")]
    | .allow => []

def loopGovernorMiddleware : RuntimeMiddleware where
  id := "loop-governor"
  hooks := [.afterNode]
  handle context next :=
    let facts := context.facts.getD []
    if context.node.map RuntimeNode.id = some "progress-checkpoint" then
      match governorData context.state with
      | some previous =>
        commanded [setMiddlewareStateCommand "loop-governor"
          (markCheckpointCompleted previous).toJson]
      | none => next context
    else if context.node.map RuntimeNode.id = some "project-progress" then
      commanded (governorCommands (evaluate (governorData context.state)
        { stage := .tool
          observations := observationFacts facts
          level := progressLevelFact facts
          digest := progressDigestFact facts }))
    else next context

def kernelV3Middleware (tests : ContextLossTests) (options : BudgetMiddlewareOptions) :
    List RuntimeMiddleware :=
  [budgetMiddleware options, contextRecoveryMiddleware tests, terminalResponseMiddleware,
    safetyTerminationMiddleware, loopGovernorMiddleware]

def defaultBudgetOptions : BudgetMiddlewareOptions where
  maxSteps := some 96
  maxToolCalls := some 256
  maxTokens := some 4000000

def defaultKernelV3Middleware (tests : ContextLossTests) : List RuntimeMiddleware :=
  kernelV3Middleware tests defaultBudgetOptions

/-- The surroundings of a run whose middleware is the chain. -/
def chained {Ext : Type} {ExtAnswer : Ext → Type} (chain : List RuntimeMiddleware)
    (around : KernelRuns.Surroundings ExtAnswer) : KernelRuns.Surroundings ExtAnswer :=
  { around with middleware := fun _ context => .ok (some (runChain chain context)) }

variable {context : MiddlewareContext}

/-- Before a node only a used-up budget has a say. -/
theorem runChain_beforeNode (hook : context.hook = .beforeNode) :
    runChain (kernelV3Middleware tests options) context =
      match budgetOutcome options context.node context.state with
      | some outcome => commanded [terminateCommand outcome]
      | none => {} := by
  simp only [runChain, kernelV3Middleware, hook]
  rfl

/-- Around the run, and on errors, the chain is silent. -/
theorem runChain_around (before : context.hook ≠ .beforeNode) (after : context.hook ≠ .afterNode) :
    runChain (kernelV3Middleware tests options) context = {} := by
  cases hook : context.hook with
  | beforeNode => exact absurd hook before
  | afterNode => exact absurd hook after
  | _ =>
    simp only [runChain, kernelV3Middleware, hook]
    rfl

theorem runChain_handlers (hook : context.hook = .afterNode) :
    runChain (kernelV3Middleware tests options) context =
      (contextRecoveryMiddleware tests).handle context fun context =>
        safetyTerminationMiddleware.handle context fun context =>
          loopGovernorMiddleware.handle context fun _ => {} := by
  simp only [runChain, kernelV3Middleware, hook]
  rfl

/-- What the chain may command after a node. -/
inductive AfterCommands (context : MiddlewareContext) : MiddlewareResult → Prop where
  | nothing : AfterCommands context {}
  | retried (asked : factText (context.facts.getD []) "proposalText" ≠ "") (reason : String) :
      AfterCommands context (commanded [retryCommand reason])
  | ended (outcome : RunOutcome) : AfterCommands context (commanded [terminateCommand outcome])
  | completed (data : Json) :
      AfterCommands context (commanded [setMiddlewareStateCommand "loop-governor" data])
  | governed (node : context.node.map RuntimeNode.id = some "project-progress")
      (decision : LoopGovernorDecision) :
      AfterCommands context (commanded (governorCommands decision))

theorem runChain_afterNode (hook : context.hook = .afterNode) :
    AfterCommands context (runChain (kernelV3Middleware tests options) context) := by
  rw [runChain_handlers hook]
  simp only [contextRecoveryMiddleware]
  split
  · rename_i asked
    refine .retried (fun silent => ?_) _
    rw [silent] at asked
    simp [looksLikeContextLossClarification] at asked
  simp only [safetyTerminationMiddleware]
  split
  · exact .ended _
  simp only [loopGovernorMiddleware]
  split
  · split
    · exact .completed _
    · exact .nothing
  split
  · rename_i node
    exact .governed node _
  · exact .nothing

end QiongQi.RuntimeMiddlewares
