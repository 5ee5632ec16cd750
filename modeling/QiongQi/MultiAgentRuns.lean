import QiongQi.Mailboxes

/-! The multi-agent run and what the evented runtime makes of it: the handoff from one
agent to the next, the end of an agent's task, the walk through the graph, and the
intents of the outbox. -/
namespace QiongQi.MultiAgentRuns
open AgentGraphs Mailboxes Machines RuntimeContracts

inductive AgentRunStatus where
  | queued | running | completed | failed | aborted | suspended
  deriving DecidableEq

structure AgentRun where
  agentId : NonEmptyString
  nodeId : NonEmptyString
  status : AgentRunStatus
  summary : Option String := none
  error : Option String := none
  deriving DecidableEq

inductive MultiAgentEventType where
  | runStarted | nodeStarted | nodeCompleted | handoffRequested | handoffDelivered
  | runCompleted | runFailed
  deriving DecidableEq

structure MultiAgentEvent where
  type : MultiAgentEventType
  nodeId : NonEmptyString
  agentId : Option NonEmptyString := none
  envelopeId : Option String := none
  deriving DecidableEq

inductive OutboxStatus where
  | pending | published
  deriving DecidableEq

inductive OutboxKind where
  | mailboxEnqueue (message : MailboxMessage)
  | mailboxComplete (messageId : String) (mailboxStatus : TaskStatus)
      (claimLease : Option MailboxClaimLease)
  deriving DecidableEq

structure OutboxIntent where
  outboxId : String
  status : OutboxStatus
  kind : OutboxKind
  deriving DecidableEq

inductive RunStatus where
  | created | running | suspended | completed | failed | aborted
  deriving DecidableEq

inductive BranchStatus where
  | queued | running | completed | failed | aborted
  deriving DecidableEq

structure MultiAgentRun where
  runId : NonEmptyString
  status : RunStatus
  graphId : NonEmptyString
  activeNodeId : NonEmptyString
  activeAgentStack : List NonEmptyString := []
  branchStatus : List (NonEmptyString × BranchStatus) := []
  agentRuns : List AgentRun := []
  events : List MultiAgentEvent := []
  outbox : List OutboxIntent := []
  retryCounters : List (NonEmptyString × Nat) := []
  deriving DecidableEq

/-- What the language brings along: `sha256(JSON.stringify(parts))` in hex, and how many
calls of a function fit on the stack. -/
structure Platform where
  sha256Hex : List String → String
  localeCompare : String → String → Ordering
  stackDepth : Nat

/-- The run of the agent at the node, whatever became of it. -/
def AgentRun.isOf (agentId nodeId : NonEmptyString) (agentRun : AgentRun) : Bool :=
  agentRun.agentId = agentId && agentRun.nodeId = nodeId

/-- An agent run that is still to be worked on. -/
def AgentRun.isActive (agentRun : AgentRun) : Bool :=
  agentRun.status = .queued || agentRun.status = .running

def start (graph : AgentGraph) (runId : NonEmptyString) : Except Thrown MultiAgentRun := do
  let startNode ← requireGraphNode graph graph.startNodeId
  match startNode.kind with
  | .agent agentId => return {
      runId
      status := .running
      graphId := graph.graphId
      activeNodeId := startNode.id
      activeAgentStack := [agentId]
      agentRuns := [{ agentId, nodeId := startNode.id, status := .running }]
      events := [{ type := .runStarted, nodeId := startNode.id, agentId := some agentId }] }
  | _ => throw (.error ("AgentGraph start node must be agent: " ++ startNode.id.text))

def enterTerminate (run : MultiAgentRun) (nodeId : NonEmptyString) : MultiAgentRun :=
  { run with
    status := .completed
    activeNodeId := nodeId
    events := if run.events.any fun event => event.type = .runCompleted then run.events
      else run.events ++ [{ type := .runCompleted, nodeId }] }

def enterAgent (run : MultiAgentRun) (nodeId agentId : NonEmptyString) : MultiAgentRun :=
  { run with
    status := .running
    activeNodeId := nodeId
    activeAgentStack := run.activeAgentStack ++ [agentId]
    agentRuns :=
      if run.agentRuns.any fun agentRun => agentRun.isOf agentId nodeId && agentRun.isActive then
        run.agentRuns
      else run.agentRuns ++ [{ agentId, nodeId, status := .queued }] }

/-- The node starts and ends in one step. -/
def passNode (run : MultiAgentRun) (nodeId : NonEmptyString) : MultiAgentRun :=
  { run with
    activeNodeId := nodeId
    events := run.events ++ [{ type := .nodeStarted, nodeId }, { type := .nodeCompleted, nodeId }] }

/-- The run waits at a node that something outside completes. -/
def suspendAt (run : MultiAgentRun) (nodeId : NonEmptyString) : MultiAgentRun :=
  { run with
    status := .suspended
    activeNodeId := nodeId
    events := run.events ++ [{ type := .nodeStarted, nodeId }] }

/-- The node after a join, once the branches that it requires are completed. -/
def joinExit (graph : AgentGraph) (branchStatus : List (NonEmptyString × BranchStatus))
    (nodeId : NonEmptyString) (requiredBranchIds : List NonEmptyString) : Option NonEmptyString :=
  if requiredBranchIds.all fun branchId =>
      (find Prod.fst branchId branchStatus).map Prod.snd = some .completed then
    (nextNodeForCondition graph nodeId "completed").or (nextNodeForCondition graph nodeId "joined")
  else none

def retryAttempts (retryCounters : List (NonEmptyString × Nat)) (nodeId : NonEmptyString) : Nat :=
  ((find Prod.fst nodeId retryCounters).map Prod.snd).getD 0 + 1

/-- The node after a retry node: another attempt, or the way out. -/
def retryExit (graph : AgentGraph) (retryCounters : List (NonEmptyString × Nat))
    (nodeId : NonEmptyString) (maxAttempts : Nat) : Option NonEmptyString :=
  nextNodeForCondition graph nodeId
    (if retryAttempts retryCounters nodeId ≤ maxAttempts then "retry" else "exhausted")

def countAttempt (retryCounters : List (NonEmptyString × Nat)) (nodeId : NonEmptyString) :
    List (NonEmptyString × Nat) :=
  put Prod.fst (nodeId, retryAttempts retryCounters nodeId) retryCounters

def retryNode (run : MultiAgentRun) (nodeId : NonEmptyString) : MultiAgentRun :=
  { passNode run nodeId with retryCounters := countAttempt run.retryCounters nodeId }

/-- `depth` is what is left of the stack. -/
def enterGraphNode (graph : AgentGraph) :
    (depth : Nat) → MultiAgentRun → NonEmptyString → Except Thrown MultiAgentRun
  | 0, _, _ => .error (.error "Maximum call stack size exceeded")
  | depth + 1, run, nodeId => do
    let node ← requireGraphNode graph nodeId
    match node.kind with
    | .terminate => return enterTerminate run node.id
    | .agent agentId => return enterAgent run node.id agentId
    | .join requiredBranchIds =>
      match joinExit graph run.branchStatus node.id requiredBranchIds with
      | some next => enterGraphNode graph depth (passNode run node.id) next
      | none => return suspendAt run node.id
    | .retry maxAttempts =>
      match retryExit graph run.retryCounters node.id maxAttempts with
      | some next => enterGraphNode graph depth (retryNode run node.id) next
      | none => return suspendAt run node.id
    | .handoff _ | .tool _ | .judge _ | .wait _ => return suspendAt run node.id

structure HandoffInput where
  runId : String
  sourceAgentId : String
  targetAgentId : String
  prompt : String

/-- The first half of the digest. -/
def handoffIdempotencyKey (platform : Platform) (run : MultiAgentRun) (input : HandoffInput) :
    String :=
  String.ofList ((platform.sha256Hex [run.graphId.text, run.runId.text, input.sourceAgentId,
    input.targetAgentId, input.prompt]).toList.take 32)

def handoffEnvelopeId (platform : Platform) (run : MultiAgentRun) (input : HandoffInput) : String :=
  "env_" ++ handoffIdempotencyKey platform run input

/-- The schemas of the envelope and of the message trim what they are given. -/
def createHandoffMessage (platform : Platform) (run : MultiAgentRun) (input : HandoffInput)
    (now : String) : Except Thrown MailboxMessage :=
  match NonEmptyString.parse input.sourceAgentId with
  | none => .error (.schema ["sourceAgentId"])
  | some fromAgentId =>
    match NonEmptyString.parse input.targetAgentId with
    | none => .error (.schema ["targetAgentId"])
    | some toAgentId =>
      match NonEmptyString.parse input.prompt with
      | none => .error (.schema ["payload", "prompt"])
      | some prompt => .ok
        { messageId := "msg_" ++ handoffIdempotencyKey platform run input
          envelopeId := handoffEnvelopeId platform run input
          runId := run.runId
          fromAgentId
          toAgentId
          status := .queued
          prompt
          createdAt := now }

def OutboxIntent.enqueuesEnvelope (envelopeId : String) (intent : OutboxIntent) : Bool :=
  match intent.kind with
  | .mailboxEnqueue message => message.envelopeId = envelopeId
  | .mailboxComplete .. => false

def ensureHandoffOutboxIntent (platform : Platform) (run : MultiAgentRun) (input : HandoffInput)
    (now : String) : Except Thrown MultiAgentRun :=
  if run.outbox.any (OutboxIntent.enqueuesEnvelope (handoffEnvelopeId platform run input)) then
    .ok run
  else do
    let message ← createHandoffMessage platform run input now
    return { run with outbox := run.outbox ++ [
      { outboxId := "outbox_" ++ handoffIdempotencyKey platform run input
        status := .pending
        kind := .mailboxEnqueue message }] }

structure HandoffRoute where
  sourceAgentId : NonEmptyString
  handoffNodeId : NonEmptyString
  targetNodeId : NonEmptyString
  targetAgentId : NonEmptyString

/-- The last checks of a handoff, from the handoff node on. -/
def acceptedRoute (graph : AgentGraph) (sourceAgentId : NonEmptyString)
    (handoffNode : AgentGraphNode) (targetAgentId : String) : Except Thrown HandoffRoute :=
  match nextNodeForCondition graph handoffNode.id "accepted" with
  | none => .error (.error ("No accepted edge from handoff node: " ++ handoffNode.id.text))
  | some targetNodeId => do
    let targetNode ← requireGraphNode graph targetNodeId
    match targetNode.kind with
    | .agent agentId =>
      if agentId.text ≠ targetAgentId then
        throw (.error ("Handoff accepted target mismatch: " ++ agentId.text ++ " !== " ++ targetAgentId))
      return {
        sourceAgentId
        handoffNodeId := handoffNode.id
        targetNodeId := targetNode.id
        targetAgentId := agentId }
    | _ => throw (.error ("Handoff target node must be agent: " ++ targetNodeId.text))

/-- The way of a handoff through the graph, with the checks in their order. -/
def handoffRoute (graph : AgentGraph) (run : MultiAgentRun) (activeNode : AgentGraphNode)
    (input : HandoffInput) : Except Thrown HandoffRoute :=
  match activeNode.kind with
  | .agent agentId => do
    if agentId.text ≠ input.sourceAgentId then
      throw (.error ("Handoff source mismatch: " ++ agentId.text ++ " !== " ++ input.sourceAgentId))
    if run.activeAgentStack.getLast?.map NonEmptyString.text ≠ some input.sourceAgentId then
      throw (.error ("Handoff source stack mismatch: " ++
        (run.activeAgentStack.getLast?.map NonEmptyString.text).getD "<empty>" ++ " !== " ++
        input.sourceAgentId))
    match nextNodeForCondition graph activeNode.id "handoff" with
    | none => throw (.error ("No handoff edge from node: " ++ activeNode.id.text))
    | some handoffNodeId =>
      let handoffNode ← requireGraphNode graph handoffNodeId
      match handoffNode.kind with
      | .handoff targetAgentId =>
        if targetAgentId.text ≠ input.targetAgentId then
          throw (.error ("Handoff target mismatch: " ++ targetAgentId.text ++ " !== " ++ input.targetAgentId))
        acceptedRoute graph agentId handoffNode input.targetAgentId
      | _ => throw (.error ("Expected handoff node: " ++ handoffNodeId.text))
  | _ => .error (.error ("Handoff active node must be agent: " ++ activeNode.id.text))

/-- The same handoff was delivered before and its target is active. -/
def alreadyDelivered (run : MultiAgentRun) (activeNode : AgentGraphNode) (targetAgentId : String)
    (envelopeId : String) : Bool :=
  match activeNode.kind with
  | .agent agentId =>
    agentId.text = targetAgentId &&
      run.activeAgentStack.getLast?.map NonEmptyString.text = some targetAgentId &&
      run.events.any fun event => event.type = .handoffDelivered &&
        event.agentId.map NonEmptyString.text = some targetAgentId &&
        event.envelopeId = some envelopeId
  | _ => false

def handoffEvent (type : MultiAgentEventType) (nodeId agentId : NonEmptyString)
    (envelopeId : String) : MultiAgentEvent :=
  { type, nodeId, agentId := some agentId, envelopeId := some envelopeId }

/-- The event joins the log unless it is there. -/
def addEvent (events : List MultiAgentEvent) (event : MultiAgentEvent) : List MultiAgentEvent :=
  if event ∈ events then [] else [event]

/-- An agent run for the target is added only where there is none, in whatever status. -/
def moveToTarget (run : MultiAgentRun) (route : HandoffRoute) (envelopeId : String) :
    MultiAgentRun :=
  { run with
    activeNodeId := route.targetNodeId
    activeAgentStack := run.activeAgentStack ++ [route.targetAgentId]
    agentRuns :=
      if run.agentRuns.any (AgentRun.isOf route.targetAgentId route.targetNodeId) then run.agentRuns
      else run.agentRuns ++
        [{ agentId := route.targetAgentId, nodeId := route.targetNodeId, status := .queued }]
    events := run.events ++ addEvent run.events
        (handoffEvent .handoffRequested route.handoffNodeId route.sourceAgentId envelopeId) ++
      addEvent run.events
        (handoffEvent .handoffDelivered route.targetNodeId route.targetAgentId envelopeId) }

def applyHandoff (platform : Platform) (graph : AgentGraph) (current : MultiAgentRun)
    (input : HandoffInput) (now : String) : Except Thrown MultiAgentRun := do
  if current.graphId ≠ graph.graphId then
    throw (.error ("MultiAgentRun graph mismatch: " ++ current.graphId.text ++ " !== " ++ graph.graphId.text))
  let envelopeId := handoffEnvelopeId platform current input
  let activeNode ← requireGraphNode graph current.activeNodeId
  if alreadyDelivered current activeNode input.targetAgentId envelopeId then
    ensureHandoffOutboxIntent platform current input now
  else
    let route ← handoffRoute graph current activeNode input
    ensureHandoffOutboxIntent platform (moveToTarget current route envelopeId) input now

structure MailboxCompletion where
  messageId : String
  status : TaskStatus
  fence : Option MailboxClaimLease := none

structure AgentTaskCompletion where
  runId : String
  agentId : String
  condition : Option String := none
  status : Option TaskStatus := none
  summary : Option String := none
  error : Option String := none
  mailboxCompletion : Option MailboxCompletion := none

def AgentTaskCompletion.outcome (input : AgentTaskCompletion) : String :=
  input.condition.getD "completed"

def TaskStatus.toAgentRun : TaskStatus → AgentRunStatus
  | .completed => .completed
  | .failed => .failed
  | .aborted => .aborted

def agentRunStatusFromCondition (condition : String) : TaskStatus :=
  if condition = "failed" then .failed
  else if condition = "aborted" then .aborted
  else .completed

/-- The last run of the agent at the node. -/
def latestAgentRunIndex (run : MultiAgentRun) (agentId nodeId : NonEmptyString) :
    Except Thrown Nat :=
  match (List.range run.agentRuns.length).reverse.find? fun index =>
      (run.agentRuns[index]?).any (AgentRun.isOf agentId nodeId) with
  | none => .error (.error ("AgentRun not found for completion: " ++ agentId.text ++ "/" ++ nodeId.text))
  | some index => .ok index

def completeAgentRun (input : AgentTaskCompletion) (agentRun : AgentRun) : AgentRun :=
  { agentRun with
    status := TaskStatus.toAgentRun (input.status.getD (agentRunStatusFromCondition input.outcome))
    summary := input.summary.or agentRun.summary
    error := input.error.or agentRun.error }

/-- The run with the outcome of its active agent. -/
def recordOutcome (run : MultiAgentRun) (input : AgentTaskCompletion) (agentRunIndex : Nat)
    (nodeId agentId : NonEmptyString) : MultiAgentRun :=
  { run with
    agentRuns := run.agentRuns.modify agentRunIndex (completeAgentRun input)
    events := run.events ++ [{ type := .nodeCompleted, nodeId, agentId := some agentId }] }

def OutboxIntent.completesMessage (messageId : String) (intent : OutboxIntent) : Bool :=
  match intent.kind with
  | .mailboxEnqueue _ => false
  | .mailboxComplete known .. => known = messageId

/-- The schema trims the message id and refuses a blank one. -/
def ensureMailboxCompleteOutboxIntent (run : MultiAgentRun) (completion : MailboxCompletion) :
    Except Thrown MultiAgentRun :=
  if run.outbox.any (OutboxIntent.completesMessage completion.messageId) then .ok run
  else
    match NonEmptyString.parse completion.messageId with
    | none => .error (.schema ["outbox", "messageId"])
    | some messageId => .ok { run with outbox := run.outbox ++ [
        { outboxId := jsTrim ("outbox_complete_" ++ completion.messageId)
          status := .pending
          kind := .mailboxComplete messageId.text completion.status completion.fence }] }

/-- What `completeAgentTask` makes of the run that is stored. -/
def completeTask (platform : Platform) (graph : AgentGraph) (current : MultiAgentRun)
    (input : AgentTaskCompletion) : Except Thrown MultiAgentRun := do
  let activeNode ← requireGraphNode graph current.activeNodeId
  match activeNode.kind with
  | .agent agentId =>
    if agentId.text ≠ input.agentId then
      throw (.error ("Agent task completion mismatch: " ++ agentId.text ++ " !== " ++ input.agentId))
    match nextNodeForCondition graph activeNode.id input.outcome with
    | none => throw (.error ("No " ++ input.outcome ++ " edge from node: " ++ activeNode.id.text))
    | some nextNodeId =>
      let agentRunIndex ← latestAgentRunIndex current agentId activeNode.id
      let recorded := recordOutcome current input agentRunIndex activeNode.id agentId
      let advanced ← enterGraphNode graph platform.stackDepth recorded nextNodeId
      match input.mailboxCompletion with
      | none => return advanced
      | some completion => ensureMailboxCompleteOutboxIntent advanced completion
  | _ => throw (.error ("Active node must be agent to complete task: " ++ activeNode.id.text))

structure ExternalCompletion where
  runId : String
  nodeId : String
  condition : String

def recordExternal (run : MultiAgentRun) (nodeId : NonEmptyString) : MultiAgentRun :=
  { run with events := run.events ++ [{ type := .nodeCompleted, nodeId }] }

/-- What `completeExternalNode` makes of the run that is stored. -/
def completeExternal (platform : Platform) (graph : AgentGraph) (current : MultiAgentRun)
    (input : ExternalCompletion) : Except Thrown MultiAgentRun := do
  let activeNode ← requireGraphNode graph current.activeNodeId
  if activeNode.id.text ≠ input.nodeId then
    throw (.error ("External node completion mismatch: " ++ activeNode.id.text ++ " !== " ++ input.nodeId))
  match activeNode.kind with
  | .wait _ | .tool _ | .judge _ =>
    match nextNodeForCondition graph activeNode.id input.condition with
    | none => throw (.error ("No " ++ input.condition ++ " edge from node: " ++ activeNode.id.text))
    | some nextNodeId =>
      enterGraphNode graph platform.stackDepth (recordExternal current activeNode.id) nextNodeId
  | _ => throw (.error ("Active node is not externally completable: " ++ activeNode.id.text))

def publishIntent (outboxId : String) (intent : OutboxIntent) : OutboxIntent :=
  if intent.outboxId = outboxId then { intent with status := .published } else intent

def markOutboxPublished (run : MultiAgentRun) (outboxId : String) : MultiAgentRun :=
  { run with outbox := run.outbox.map (publishIntent outboxId) }

variable {graph : AgentGraph}

/-- What joins and retries on the way leave alone. -/
structure Carries (before after : MultiAgentRun) : Prop where
  runId : after.runId = before.runId
  activeAgentStack : after.activeAgentStack = before.activeAgentStack
  agentRuns : after.agentRuns = before.agentRuns
  outbox : after.outbox = before.outbox

theorem Carries.trans (left : Carries first second) (right : Carries second third) :
    Carries first third where
  runId := right.runId.trans left.runId
  activeAgentStack := right.activeAgentStack.trans left.activeAgentStack
  agentRuns := right.agentRuns.trans left.agentRuns
  outbox := right.outbox.trans left.outbox

inductive Lands (graph : AgentGraph) (run : MultiAgentRun) : MultiAgentRun → Prop where
  | terminate {passed : MultiAgentRun} {node : AgentGraphNode} (carries : Carries run passed)
      (found : requireGraphNode graph node.id = .ok node) (kind : node.kind = .terminate) :
      Lands graph run (enterTerminate passed node.id)
  | agent {passed : MultiAgentRun} {node : AgentGraphNode} {agentId : NonEmptyString}
      (carries : Carries run passed) (found : requireGraphNode graph node.id = .ok node)
      (kind : node.kind = .agent agentId) : Lands graph run (enterAgent passed node.id agentId)
  | suspend {passed : MultiAgentRun} {node : AgentGraphNode} (carries : Carries run passed)
      (found : requireGraphNode graph node.id = .ok node)
      (other : ∀ agentId, node.kind ≠ .agent agentId) : Lands graph run (suspendAt passed node.id)

theorem Lands.of_carries (lands : Lands graph passed after) (carries : Carries before passed) :
    Lands graph before after := by
  cases lands with
  | terminate later found kind => exact .terminate (carries.trans later) found kind
  | agent later found kind => exact .agent (carries.trans later) found kind
  | suspend later found other => exact .suspend (carries.trans later) found other

theorem enterGraphNode_lands : ∀ {run next : MultiAgentRun} {nodeId : NonEmptyString},
      enterGraphNode graph depth run nodeId = .ok next → Lands graph run next := by
  induction depth with
  | zero =>
    intro run next nodeId entered
    cases entered
  | succ depth ih =>
    intro run next nodeId entered
    obtain ⟨node, required, landed⟩ := bind_ok entered
    have found : requireGraphNode graph node.id = .ok node := by
      rw [(requireGraphNode_ok required).2, required]
    have here : Carries run run := ⟨rfl, rfl, rfl, rfl⟩
    cases kind : node.kind with
    | terminate =>
      simp only [kind] at landed
      cases landed
      exact .terminate here found kind
    | agent agentId =>
      simp only [kind] at landed
      cases landed
      exact .agent here found kind
    | join requiredBranchIds | retry maxAttempts =>
      simp only [kind] at landed
      split at landed
      · have walked := ih landed
        exact walked.of_carries ⟨rfl, rfl, rfl, rfl⟩
      · cases landed
        exact .suspend here found (by simp [kind])
    | handoff _ | tool _ | judge _ | wait _ =>
      simp only [kind] at landed
      cases landed
      exact .suspend here found (by simp [kind])

variable {run next current : MultiAgentRun}

theorem Lands.runId (lands : Lands graph run next) : next.runId = run.runId := by
  cases lands with
  | terminate carries => exact carries.runId
  | agent carries => exact carries.runId
  | suspend carries => exact carries.runId

theorem Lands.outbox (lands : Lands graph run next) : next.outbox = run.outbox := by
  cases lands with
  | terminate carries => exact carries.outbox
  | agent carries => exact carries.outbox
  | suspend carries => exact carries.outbox

theorem ensureHandoffOutboxIntent_ok
    (ensured : ensureHandoffOutboxIntent platform run input now = .ok next) :
    (run.outbox.any (OutboxIntent.enqueuesEnvelope (handoffEnvelopeId platform run input)) = true ∧
        next = run) ∨
      run.outbox.any (OutboxIntent.enqueuesEnvelope (handoffEnvelopeId platform run input)) = false ∧
        ∃ message, createHandoffMessage platform run input now = .ok message ∧
          next = { run with outbox := run.outbox ++ [
            { outboxId := "outbox_" ++ handoffIdempotencyKey platform run input
              status := .pending
              kind := .mailboxEnqueue message }] } := by
  unfold ensureHandoffOutboxIntent at ensured
  split at ensured
  · rename_i known
    cases ensured
    exact .inl ⟨known, rfl⟩
  · rename_i unknown
    obtain ⟨message, created, added⟩ := bind_ok ensured
    cases added
    exact .inr ⟨by simpa using unknown, message, created, rfl⟩

theorem createHandoffMessage_ok
    (created : createHandoffMessage platform run input now = .ok message) :
    message.messageId = "msg_" ++ handoffIdempotencyKey platform run input ∧
      message.envelopeId = handoffEnvelopeId platform run input ∧ message.runId = run.runId ∧
      message.status = .queued ∧ NonEmptyString.parse input.targetAgentId = some message.toAgentId := by
  unfold createHandoffMessage at created
  split at created
  · cases created
  · split at created
    · cases created
    · rename_i target
      split at created
      · cases created
      · cases created
        exact ⟨rfl, rfl, rfl, rfl, target⟩

/-- The route of a handoff ends at an agent node of the agent that the caller named. -/
theorem handoffRoute_ok (routed : handoffRoute graph run activeNode input = .ok route) :
    route.targetAgentId.text = input.targetAgentId ∧
      ∃ node, requireGraphNode graph route.targetNodeId = .ok node ∧
        node.kind = .agent route.targetAgentId := by
  unfold handoffRoute at routed
  split at routed
  · rename_i agentId _
    by_cases source : agentId.text = input.sourceAgentId
    · rw [if_neg (not_not.mpr source)] at routed
      by_cases top : run.activeAgentStack.getLast?.map NonEmptyString.text = some input.sourceAgentId
      · rw [if_neg (not_not.mpr top)] at routed
        split at routed
        · cases routed
        · obtain ⟨handoffNode, -, accepted⟩ := bind_ok routed
          split at accepted
          · rename_i targetAgentId _
            by_cases target : targetAgentId.text = input.targetAgentId
            · rw [if_neg (not_not.mpr target)] at accepted
              unfold acceptedRoute at accepted
              split at accepted
              · cases accepted
              · rename_i targetNodeId _
                obtain ⟨targetNode, required, named⟩ := bind_ok accepted
                have found : requireGraphNode graph targetNode.id = .ok targetNode := by
                  rw [(requireGraphNode_ok required).2, required]
                split at named
                · rename_i agentId kind
                  by_cases same : agentId.text = input.targetAgentId
                  · rw [if_neg (not_not.mpr same)] at named
                    cases named
                    exact ⟨same, targetNode, found, kind⟩
                  · rw [if_pos same] at named
                    cases named
                · cases named
            · rw [if_pos target] at accepted
              cases accepted
          · cases accepted
      · rw [if_pos top] at routed
        cases routed
    · rw [if_pos source] at routed
      cases routed
  · cases routed

theorem applyHandoff_ok (applied : applyHandoff platform graph current input now = .ok next) :
    ∃ activeNode moved, requireGraphNode graph current.activeNodeId = .ok activeNode ∧
      ensureHandoffOutboxIntent platform moved input now = .ok next ∧
      (alreadyDelivered current activeNode input.targetAgentId
          (handoffEnvelopeId platform current input) = true ∧ moved = current ∨
        alreadyDelivered current activeNode input.targetAgentId
            (handoffEnvelopeId platform current input) = false ∧
          ∃ route, handoffRoute graph current activeNode input = .ok route ∧
            moved = moveToTarget current route (handoffEnvelopeId platform current input)) := by
  unfold applyHandoff at applied
  by_cases own : current.graphId = graph.graphId
  · rw [if_neg (not_not.mpr own)] at applied
    obtain ⟨activeNode, required, checked⟩ := bind_ok applied
    split at checked
    · rename_i delivered
      exact ⟨activeNode, current, required, checked, .inl ⟨delivered, rfl⟩⟩
    · rename_i moves
      obtain ⟨route, routed, ensured⟩ := bind_ok checked
      exact ⟨activeNode, _, required, ensured, .inr ⟨by simpa using moves, route, routed, rfl⟩⟩
  · rw [if_pos own] at applied
    cases applied

section
variable {completion : MailboxCompletion}
variable (ensured : ensureMailboxCompleteOutboxIntent run completion = .ok next)
include ensured

/-- A completion that is new to the outbox joins it, with what the schema makes of its names. -/
theorem ensureMailboxCompleteOutboxIntent_new :
    next = run ∨ run.outbox.any (OutboxIntent.completesMessage completion.messageId) = false ∧
      ∃ messageId, NonEmptyString.parse completion.messageId = some messageId ∧
        next = { run with outbox := run.outbox ++ [
          { outboxId := jsTrim ("outbox_complete_" ++ completion.messageId)
            status := .pending
            kind := .mailboxComplete messageId.text completion.status completion.fence }] } := by
  unfold ensureMailboxCompleteOutboxIntent at ensured
  split at ensured
  · cases ensured
    exact .inl rfl
  · rename_i unknown
    split at ensured
    · cases ensured
    · rename_i messageId named
      cases ensured
      exact .inr ⟨by simpa using unknown, messageId, named, rfl⟩

theorem ensureMailboxCompleteOutboxIntent_ok :
    next = run ∨ ∃ outboxId messageId, next = { run with outbox := run.outbox ++ [
      { outboxId
        status := .pending
        kind := .mailboxComplete messageId completion.status completion.fence }] } := by
  rcases ensureMailboxCompleteOutboxIntent_new ensured with same | ⟨-, messageId, -, added⟩
  · exact .inl same
  · exact .inr ⟨_, _, added⟩

end

/-- The outcome of the active agent is recorded, the run walks on, and a completion of the
message may join the outbox. -/
theorem completeTask_ok {input : AgentTaskCompletion}
    (completed : completeTask platform graph current input = .ok next) :
    ∃ recorded advanced, recorded.runId = current.runId ∧ recorded.outbox = current.outbox ∧
      Lands graph recorded advanced ∧
      (next = advanced ∨ ∃ completion ∈ input.mailboxCompletion,
        ensureMailboxCompleteOutboxIntent advanced completion = .ok next) := by
  obtain ⟨activeNode, -, checked⟩ := bind_ok completed
  split at checked
  · rename_i agentId _
    by_cases own : agentId.text = input.agentId
    · rw [if_neg (not_not.mpr own)] at checked
      split at checked
      · cases checked
      · obtain ⟨agentRunIndex, -, recorded⟩ := bind_ok checked
        obtain ⟨advanced, entered, ensured⟩ := bind_ok recorded
        have lands := enterGraphNode_lands entered
        refine ⟨_, advanced, ?_, ?_, lands, ?_⟩
        · rfl
        · rfl
        · split at ensured
          · cases ensured
            exact .inl rfl
          · rename_i completion given
            exact .inr ⟨completion, given, ensured⟩
    · rw [if_pos own] at checked
      cases checked
  · cases checked

theorem completeExternal_ok {input : ExternalCompletion}
    (completed : completeExternal platform graph current input = .ok next) :
    ∃ recorded, recorded.runId = current.runId ∧ recorded.outbox = current.outbox ∧
      Lands graph recorded next := by
  obtain ⟨activeNode, -, checked⟩ := bind_ok completed
  by_cases own : activeNode.id.text = input.nodeId
  · rw [if_neg (not_not.mpr own)] at checked
    split at checked <;> first
      | cases checked
      | (split at checked
         · cases checked
         · have lands := enterGraphNode_lands checked
           exact ⟨recordExternal current activeNode.id, rfl, rfl, lands⟩)
  · rw [if_pos own] at checked
    cases checked

end QiongQi.MultiAgentRuns
