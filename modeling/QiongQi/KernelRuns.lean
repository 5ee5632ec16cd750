import QiongQi.RuntimeKernels

/-! `RuntimeKernel.run` as a program, and the host it runs on: the snapshot and
event stores of one run identity, a lease that may lapse, middleware and handler
calls that answer anything, and a process that may end before any operation. -/
namespace QiongQi.KernelRuns
open JsonValues Programs RuntimeContracts MiddlewareCommands ExecutionGraphs RuntimeKernels

variable {Ext : Type} {ExtAnswer : Ext → Type}

def await (op : RuntimeOp Ext) : KernelProgram ExtAnswer (RuntimeAnswer ExtAnswer op) :=
  Program.await op

/-- A computation that throws `Error`s only. -/
def lift (result : Except String α) : KernelProgram ExtAnswer α :=
  Program.lift (result.mapError RuntimeError.error)

/-- A handler's calls, issued by the kernel. -/
def issue : Program Ext ExtAnswer ForeignError α → KernelProgram ExtAnswer α
  | .pure value => .pure value
  | .throw error => .throw (.foreign error)
  | .stop => .stop
  | .call op next => .call (.external op) fun
    | .ok answer => issue (next (.ok answer))
    | .error (.foreign error) => issue (next (.error error))
    | .error error => .throw error

def reachCrashPoint (point : RuntimeKernelCrashPoint) : KernelProgram ExtAnswer Unit :=
  (await (.crashPoint point)).catching fun
    | .foreign error => .throw (.kernelCrash error)
    | error => .throw error

/-- What a lost lease still reports: the outcome of a terminal state. -/
def terminalOutcome (state : RunStateV3) : Option RunOutcome :=
  if isTerminal state then some (outcomeFromTerminalState state) else none

def assertLeaseHealthy (fence : Option LeaseFence) (state : RunStateV3) :
    KernelProgram ExtAnswer Unit := do
  let renewed ← await (.renew fence)
  if renewed then pure () else Program.throw (.leaseLost (terminalOutcome state))

/-- The identity fields in the order they are compared. -/
def identityMismatch (expected actual : RunIdentity) : Option String :=
  if actual.ownerUserId ≠ expected.ownerUserId then some "ownerUserId"
  else if actual.workspaceKey ≠ expected.workspaceKey then some "workspaceKey"
  else if actual.threadId ≠ expected.threadId then some "threadId"
  else if actual.turnId ≠ expected.turnId then some "turnId"
  else if actual.runId ≠ expected.runId then some "runId"
  else none

def assertStateIdentity (identity : RunIdentity) (state : RunStateV3) : Except String Unit :=
  match identityMismatch identity state.identity with
  | some field => .error s!"run state identity mismatch: {field}"
  | none => .ok ()

def assertEventIdentity (identity : RunIdentity) (event : RunEventEnvelope) : Except String Unit :=
  match identityMismatch identity event.identity with
  | some field => .error s!"run event identity mismatch: {field}"
  | none => .ok ()

/-- The sequence number after every stored one. -/
def nextSeq (existing : List RunEventEnvelope) : Nat :=
  existing.foldl (fun highest event => max highest event.seq) 0 + 1

def recordEvent (identity : RunIdentity) (state : RunStateV3) (nodeId eventType : String)
    (payload : JsValue) (fence : Option LeaseFence) : KernelProgram ExtAnswer RunEventEnvelope := do
  let existing ← await (.listAfter 0)
  let now ← await .nowIso
  await (.append
    { seq := nextSeq existing
      identity
      stepId := some nodeId
      nodeAttemptId := some s!"{nodeId}:{state.cursor.attempt}"
      eventType
      payload
      timestamp := now } fence)

/-- The commands of a middleware result, validated. -/
def acceptedCommands (result : Option MiddlewareResult) : Except String (List MiddlewareCommand) :=
  (canonicalizeMiddlewareCommands ((result.bind MiddlewareResult.commands).getD (.array [])))

/-- `canonicalizeJsonObject` of a payload object. -/
def canonicalizeJsonObject : JsValue → JsValue
  | .object fields => .object (fieldsToJs (serializeFields fields))
  | value => value

variable (kernel : RuntimeKernel ExtAnswer) (identity : RunIdentity) (fence : Option LeaseFence)

def commitAfterMiddleware (state : RunStateV3) (pending : PendingAfterMiddleware) :
    KernelProgram ExtAnswer RunStateV3 := do
  assertLeaseHealthy fence state
  let result ← await (.middleware
    { state, hook := .afterNode, node := some pending.node, facts := pending.completed.facts })
  assertLeaseHealthy fence state
  let commands ← lift (acceptedCommands result)
  let _ ← lift (applyCommands state commands)
  reachCrashPoint .afterNodeMiddleware
  let payload : AfterMiddlewarePayload :=
    { nodeId := pending.node.id
      stepIndex := pending.completed.stepIndex
      commands
      outcome := commandOutcome commands }
  let recorded ← recordEvent identity state pending.node.id "node.after_middleware"
    (canonicalizeJsonObject payload.toJs) fence
  let committed ← lift (parseAfterMiddlewarePayload recorded.payload)
  lift (assertAfterMiddlewareMatches pending.completed committed)
  let now ← await .nowIso
  let next ← lift (reduceAfterMiddleware kernel state committed recorded.seq now)
  reachCrashPoint .afterNodeAfterMiddlewareEvent
  pure next

/-- The commit of a completion whose `node.after_middleware` never got stored. -/
def commitPending (state : RunStateV3) : Option PendingAfterMiddleware → KernelProgram ExtAnswer RunStateV3
  | none => pure state
  | some pending => commitAfterMiddleware kernel identity fence state pending

def pendingOf (payload : JsValue) : Except String PendingAfterMiddleware := do
  let completed ← parseCompletedNodePayload payload
  let node ← nodeFor kernel.graph completed.nodeId
  return { node, completed }

/-- A `node.completed` event after the checkpoint. -/
def replayCompleted (state : RunStateV3) (event : RunEventEnvelope) (now : NonEmptyString) :
    Except String (RunStateV3 × PendingAfterMiddleware) := do
  let completed ← parseCompletedNodePayload event.payload
  if completed.nodeId ≠ state.cursor.nodeId then
    throw (s!"run event cursor mismatch: expected {state.cursor.nodeId}, " ++ s!"received {completed.nodeId}")
  else
    let node ← nodeFor kernel.graph completed.nodeId
    let next ← reduceCompletedNode kernel state node completed event.seq now
    return (next, { node, completed })

/-- A `node.after_middleware` event after the checkpoint. -/
def replayAfterMiddleware (state : RunStateV3) (pending : Option PendingAfterMiddleware)
    (event : RunEventEnvelope) (now : NonEmptyString) : Except String RunStateV3 :=
  match pending with
  | none => .error "node.after_middleware has no matching completion"
  | some pending => do
    let after ← parseAfterMiddlewarePayload event.payload
    assertAfterMiddlewareMatches pending.completed after
    reduceAfterMiddleware kernel state after event.seq now

def replayStarted (state : RunStateV3) (event : RunEventEnvelope) : RunStateV3 :=
  { state with
    cursor := { state.cursor with checkpointSeq := max state.cursor.checkpointSeq event.seq }
    updatedAt := event.timestamp }

/-- One event after the checkpoint; what is neither a start, a completion nor an
after-middleware event changes nothing. -/
def replayEvent (state : RunStateV3) (pending : Option PendingAfterMiddleware)
    (event : RunEventEnvelope) (now : NonEmptyString) :
    Except String (RunStateV3 × Option PendingAfterMiddleware) :=
  if event.eventType = "node.started" then .ok (replayStarted state event, pending)
  else if event.eventType = "node.completed" then do
    let (next, pending) ← replayCompleted kernel state event now
    return (next, some pending)
  else if event.eventType = "node.after_middleware" then do
    let next ← replayAfterMiddleware kernel state pending event now
    return (next, none)
  else .ok (state, pending)

/-- The loop of `replayAfterCheckpoint` over the sorted events. -/
def replayLoop (initialCheckpointSeq : Nat) (state : RunStateV3) (pending : Option PendingAfterMiddleware) :
    List RunEventEnvelope → KernelProgram ExtAnswer (RunStateV3 × Option PendingAfterMiddleware)
  | [] => pure (state, pending)
  | event :: rest => do
    lift (assertEventIdentity identity event)
    if event.seq < initialCheckpointSeq then replayLoop initialCheckpointSeq state pending rest
    else if event.seq = initialCheckpointSeq then
      if event.eventType = "node.completed" then do
        let completed ← lift (pendingOf kernel event.payload)
        replayLoop initialCheckpointSeq state (some completed) rest
      else replayLoop initialCheckpointSeq state pending rest
    else do
      let overdue := if event.eventType = "node.after_middleware" then none else pending
      let state ← commitPending kernel identity fence state overdue
      let now ← await .nowIso
      let (state, pending) ← lift (replayEvent kernel state
        (if event.eventType = "node.after_middleware" then pending else none) event now)
      replayLoop initialCheckpointSeq state pending rest

/-- `events.sort((left, right) => left.seq - right.seq)`. -/
def sortEvents (events : List RunEventEnvelope) : List RunEventEnvelope :=
  events.insertionSort fun left right => left.seq ≤ right.seq

/-- `replayAfterCheckpoint` up to the end of its loop. -/
def replayEvents (initial : RunStateV3) :
    KernelProgram ExtAnswer (RunStateV3 × Option PendingAfterMiddleware) := do
  let events ← await (.listAfter (initial.cursor.checkpointSeq - 1))
  replayLoop kernel identity fence initial.cursor.checkpointSeq initial none (sortEvents events)

def replayAfterCheckpoint (initial : RunStateV3) : KernelProgram ExtAnswer RunStateV3 := do
  let (state, pending) ← replayEvents kernel identity fence initial
  commitPending kernel identity fence state pending

/-- A pass of the main loop either goes on with a state or returns an outcome. -/
inductive Pass where
  | goOn (state : RunStateV3)
  | done (outcome : RunOutcome)

def saveIf (condition : Bool) (state : RunStateV3) : KernelProgram ExtAnswer Unit :=
  if condition then await (.save state fence) else pure ()

/-- `afterRun` is best-effort observability and cleanup only. -/
def afterRunIf (condition : Bool) (state : RunStateV3) : KernelProgram ExtAnswer Unit :=
  if condition then do
    let _ ← await (.middleware { state, hook := .afterRun })
    pure ()
  else pure ()

/-- Commands that end the run before a node or before the first node. -/
def endRun (state : RunStateV3) (commands : List MiddlewareCommand) (outcome : RunOutcome) :
    KernelProgram ExtAnswer RunOutcome := do
  let applied ← lift (applyCommands state commands)
  let now ← await .nowIso
  await (.save (withOutcome applied outcome now) fence)
  pure outcome

/-- From the node lookup to the recorded `node.started`. -/
def startNode (state : RunStateV3) (node : RuntimeNode) : KernelProgram ExtAnswer RunStateV3 := do
  assertLeaseHealthy fence state
  saveIf fence (checkpointsBefore node) state
  let started ← recordEvent identity state node.id "node.started"
    (.object [("nodeId", .string node.id), ("stepIndex", .number (.finite state.cursor.stepIndex))]) fence
  let now ← await .nowIso
  pure { state with
    cursor := { state.cursor with checkpointSeq := started.seq }
    updatedAt := now }

/-- `outcome` of a completed node: the handler's, a command's, or that of a
terminal node. -/
def completedOutcome (node : RuntimeNode) (result : Option RuntimeNodeResult)
    (commands : List MiddlewareCommand) : Option RunOutcome :=
  (result.bind RuntimeNodeResult.outcome) <|> commandOutcome commands <|> (if node.terminal then
      some { status := .completed, reason := .normalStop, retryable := false }
    else none)

def completedPayload (state : RunStateV3) (node : RuntimeNode)
    (result : Option RuntimeNodeResult) (commands : List MiddlewareCommand) :
    CompletedNodePayload where
  nodeId := node.id
  stepIndex := state.cursor.stepIndex
  condition := (result.bind RuntimeNodeResult.condition).getD "next"
  commands := commands
  facts := (result.bind RuntimeNodeResult.facts).map serializeFields
  value := result.bind RuntimeNodeResult.value
  outcome := completedOutcome node result commands

/-- The commands before the node followed by the handler's, validated together. -/
def nodeCommands (beforeCommands : List MiddlewareCommand) (result : Option RuntimeNodeResult) :
    Except String (List MiddlewareCommand) :=
  (canonicalizeMiddlewareCommands (.array (beforeCommands.map (fun command => command.toJson.toJs) ++
    (result.bind RuntimeNodeResult.commands).getD [])))

/-- From the handler call to the saved state after the node. -/
def completeNode (state : RunStateV3) (node : RuntimeNode)
    (beforeCommands : List MiddlewareCommand) (handler : RuntimeNodeHandler ExtAnswer) :
    KernelProgram ExtAnswer Pass := do
  await (.enter node.id)
  let result ← issue (handler { state, node, leaseFence := fence })
  await (.leave node.id result)
  assertLeaseHealthy fence state
  let commands ← lift (nodeCommands beforeCommands result)
  let _ ← lift (applyCommands state commands)
  let completed ← recordEvent identity state node.id "node.completed"
    (completedPayload state node result commands).toJs fence
  reachCrashPoint .afterNodeCompleted
  let committed ← lift (parseCompletedNodePayload completed.payload)
  let now ← await .nowIso
  let reduced ← lift (reduceCompletedNode kernel state node committed completed.seq now)
  let state ← commitAfterMiddleware kernel identity fence reduced { node, completed := committed }
  saveIf fence (checkpointsAfter node || isTerminal state) state
  afterRunIf (isTerminal state) state
  pure (if isTerminal state then .done (outcomeFromTerminalState state) else .goOn state)

def runNode (state : RunStateV3) : KernelProgram ExtAnswer Pass := do
  let node ← lift (nodeFor kernel.graph state.cursor.nodeId)
  let state ← startNode identity fence state node
  let before ← await (.middleware { state, hook := .beforeNode, node := some node })
  assertLeaseHealthy fence state
  let beforeCommands ← lift (acceptedCommands before)
  match commandOutcome beforeCommands with
  | some outcome => do
    let outcome ← endRun fence state beforeCommands outcome
    pure (.done outcome)
  | none =>
    match kernel.nodes node.id with
    | none => Program.throw (.error s!"missing runtime node handler: {node.id}")
    | some handler => completeNode kernel identity fence state node beforeCommands handler

/-- `while (true)`, of which an execution sees some number of passes. -/
def runNodes : Nat → RunStateV3 → KernelProgram ExtAnswer RunOutcome
  | 0, _ => .stop
  | passes + 1, state => do
    let pass ← runNode kernel identity fence state
    match pass with
    | .done outcome => pure outcome
    | .goOn next => runNodes passes next

/-- The stored state is terminal: only events after it are looked at again. -/
def rerunTerminal (state : RunStateV3) : KernelProgram ExtAnswer RunOutcome := do
  let replayed ← replayAfterCheckpoint kernel identity fence state
  let moved := replayed.cursor.checkpointSeq > state.cursor.checkpointSeq
  afterRunIf moved replayed
  saveIf fence (upgradable replayed.graphVersion kernel.graph.version || moved)
    (migrateTerminalGraphMetadata kernel replayed)
  pure (outcomeFromTerminalState replayed)

/-- Replay reached a terminal state that no snapshot has yet. -/
def settleReplayed (checkpointSeq : Nat) (state : RunStateV3) :
    KernelProgram ExtAnswer RunOutcome := do
  afterRunIf (state.cursor.checkpointSeq > checkpointSeq) state
  await (.save (migrateTerminalGraphMetadata kernel state) fence)
  pure (outcomeFromTerminalState (migrateTerminalGraphMetadata kernel state))

/-- From the migrated graph version through `beforeRun` into the main loop. -/
def startRun (passes : Nat) (replayed : RunStateV3) : KernelProgram ExtAnswer RunOutcome := do
  let now ← await .nowIso
  let migrated ← lift (migrateGraphState kernel replayed now)
  await (.save migrated fence)
  let now ← await .nowIso
  let state := { migrated with status := RunStatus.running, updatedAt := now }
  await (.save state fence)
  let before ← await (.middleware { state, hook := .beforeRun })
  assertLeaseHealthy fence state
  let commands ← lift (acceptedCommands before)
  match commandOutcome commands with
  | some outcome => endRun fence state commands outcome
  | none => runNodes kernel identity fence passes state

def resumeRun (passes : Nat) (state : RunStateV3) : KernelProgram ExtAnswer RunOutcome :=
  match graphCompatibility kernel state with
  | some outcome => pure outcome
  | none => do
    let replayed ← replayAfterCheckpoint kernel identity fence state
    if isTerminal replayed then settleReplayed kernel fence state.cursor.checkpointSeq replayed
    else startRun kernel identity fence passes replayed

/-- The stored state, or the initial one. -/
def loadState : KernelProgram ExtAnswer RunStateV3 := do
  let stored ← await .load
  match stored with
  | some state => pure state
  | none => do
    let now ← await .nowIso
    pure (initialState kernel identity now)

/-- The `try` block of `run`. -/
def runHeld (passes : Nat) : KernelProgram ExtAnswer RunOutcome := do
  let state ← loadState kernel identity
  lift (assertStateIdentity identity state)
  assertLeaseHealthy fence state
  if isTerminal state then rerunTerminal kernel identity fence state
  else resumeRun kernel identity fence passes state

/-- `/lease fence|active lease fence|stale lease/i`. -/
def isFenceMessage (message : String) : Bool :=
  let text := message.toList.map Char.toLower
  text.tails.any fun rest =>
    "lease fence".toList.isPrefixOf rest || "stale lease".toList.isPrefixOf rest

def isFenceError : RuntimeError → Bool
  | .foreign (.error message) => isFenceMessage message
  | _ => false

/-- `error instanceof Error ? error.message : String(error)`. -/
def RuntimeError.message : RuntimeError → String
  | .foreign (.error message) => message
  | .foreign (.thrown text) => text
  | .kernelCrash _ => "runtime kernel crash injection"
  | .leaseLost _ => "runtime lease unavailable"

def failedOutcome (error : RuntimeError) : RunOutcome :=
  { status := .failed, reason := .runtimeError, retryable := true
    details := some [("message", .string (RuntimeError.message error))] }

/-- The lease is gone: report what the store says. -/
def reportStored : KernelProgram ExtAnswer RunOutcome := do
  let persisted ← await .load
  match persisted with
  | some state =>
    if isTerminal state then pure (outcomeFromTerminalState state)
    else pure leaseUnavailableOutcome
  | none => pure leaseUnavailableOutcome

/-- A failure of the run itself, saved over the stored snapshot. -/
def reportFailure (error : RuntimeError) : KernelProgram ExtAnswer RunOutcome := do
  let stored ← await .load
  match stored with
  | none => pure (failedOutcome error)
  | some state => do
    let _ ← await (.middleware { state, hook := .onError, error := some error })
    if isTerminal state then pure (outcomeFromTerminalState state)
    else do
      let now ← await .nowIso
      (await (.save (withOutcome state (failedOutcome error) now) fence)).catching fun _ => pure ()
      pure (failedOutcome error)

/-- The `catch` block of `run`. -/
def recover (error : RuntimeError) : KernelProgram ExtAnswer RunOutcome :=
  match error with
  | .kernelCrash original => Program.throw (.foreign original)
  | .leaseLost (some outcome) => pure outcome
  | .leaseLost none => reportStored
  | error => do
    let lost ← await .isLost
    if lost || isFenceError error then reportStored else reportFailure fence error

def release : KernelProgram ExtAnswer Unit :=
  (await (.release fence)).catching fun _ => pure ()

def run (passes : Nat) : KernelProgram ExtAnswer RunOutcome := do
  let lease ← await .acquire
  if lease.acquired then
    ((runHeld kernel identity lease.fence passes).catching (recover lease.fence)).finallyDo
      (release lease.fence)
  else pure leaseUnavailableOutcome

/-- What a run's surroundings observe of it, in order. -/
inductive Observation (Ext : Type) where
  | saved (stored : RunStateV3)
  | appended (event : RunEventEnvelope)
  | hooked (context : MiddlewareContext)
  | entered (nodeId : String)
  | left (nodeId : String) (result : Option RuntimeNodeResult)
  | called (call : Ext)
  | returned (outcome : RunOutcome)

/-- The stores of one run identity, and the trace of what happened to it. `lost`
is the lease guard's own flag. -/
structure RunWorld (Ext : Type) where
  snapshot : Option RunStateV3 := none
  events : List RunEventEnvelope := []
  trace : List (Observation Ext) := []
  clock : Nat := 0
  lost : Bool := false

/-- The effect records that handlers add to the event log between kernel events. -/
inductive EffectEventType where
  | prepared | committed

def EffectEventType.name : EffectEventType → String
  | .prepared => "effect.prepared"
  | .committed => "effect.committed"

/-- Everything around a run, by the number of operations performed so far: when
the process ends, what the lease store, the stores, the middleware, the crash
points and the handlers' calls answer, and which effect records a call leaves. -/
structure Surroundings (ExtAnswer : Ext → Type) where
  alive : Nat → Bool
  lease : LeaseGrant
  renewed : Nat → Bool
  lapsed : Nat → Bool
  storeFailure : Nat → Option ForeignError
  middleware : Nat → MiddlewareContext → Except ForeignError (Option MiddlewareResult)
  crashPoint : Nat → RuntimeKernelCrashPoint → Except ForeignError Unit
  nowIso : Nat → NonEmptyString
  external : Nat → (call : Ext) → Except ForeignError (ExtAnswer call)
  effects : Nat → List (EffectEventType × JsValue)

def RunWorld.tick (world : RunWorld Ext) : RunWorld Ext :=
  { world with clock := world.clock + 1 }

def RunWorld.observe (world : RunWorld Ext) (observation : Observation Ext) : RunWorld Ext :=
  { world with trace := world.trace ++ [observation] }

variable (around : Surroundings ExtAnswer)

/-- `RunSnapshotStore.save`. -/
def performSave (world : RunWorld Ext) (state : RunStateV3) :
    Except RuntimeError Unit × RunWorld Ext :=
  match around.storeFailure world.clock with
  | some error => (.error (.foreign error), world)
  | none =>
    match RunStateV3.persist state with
    | none => (.error (.error "invalid run state"), world)
    | some stored => (.ok (), { world with snapshot := some stored }.observe (.saved stored))

/-- `RunEventStore.append`: the caller gets its own event back, readers the line. -/
def performAppend (world : RunWorld Ext) (event : RunEventEnvelope) :
    Except RuntimeError RunEventEnvelope × RunWorld Ext :=
  match around.storeFailure world.clock with
  | some error => (.error (.foreign error), world)
  | none =>
    if world.events.any fun stored => stored.seq = event.seq then
      (.error (.error s!"duplicate run event sequence {event.seq}"), world)
    else
      (.ok event, { world with events := world.events ++ [event.readBack] }.observe
        (.appended event.readBack))

/-- `RunEventStore.listAfter`. -/
def performListAfter (world : RunWorld Ext) (seq : Nat) : Except RuntimeError (List RunEventEnvelope) :=
  match around.storeFailure world.clock with
  | some error => .error (.foreign error)
  | none => .ok (world.events.filter fun event => seq < event.seq)

/-- `EffectCommitCoordinator.append` within a handler's call. -/
def recordEffect (identity : RunIdentity) (now : NonEmptyString) (world : RunWorld Ext)
    (effect : EffectEventType × JsValue) : RunWorld Ext :=
  let event : RunEventEnvelope :=
    { seq := nextSeq world.events, identity, eventType := effect.1.name
      payload := effect.2, timestamp := now }
  { world with events := world.events ++ [event.readBack] }.observe (.appended event.readBack)

def perform (identity : RunIdentity) (world : RunWorld Ext) :
    (op : RuntimeOp Ext) → Except RuntimeError (RuntimeAnswer ExtAnswer op) × RunWorld Ext
  | .acquire => (.ok around.lease, { world.tick with lost := false })
  | .renew _ =>
    let renewed := !world.lost && around.renewed world.clock
    (.ok renewed, { world.tick with lost := !renewed })
  | .isLost => (.ok (world.lost || around.lapsed world.clock), world.tick)
  | .release _ => (.ok (), world.tick)
  | .load => (.ok world.snapshot, world.tick)
  | .save state _ =>
    ((performSave around world state).1, (performSave around world state).2.tick)
  | .listAfter seq => (performListAfter around world seq, world.tick)
  | .append event _ =>
    ((performAppend around world event).1, (performAppend around world event).2.tick)
  | .middleware context =>
    ((around.middleware world.clock context).mapError .foreign, (world.observe (.hooked context)).tick)
  | .crashPoint point => ((around.crashPoint world.clock point).mapError .foreign, world.tick)
  | .nowIso => (.ok (around.nowIso world.clock), world.tick)
  | .enter nodeId => (.ok (), (world.observe (.entered nodeId)).tick)
  | .leave nodeId result => (.ok (), (world.observe (.left nodeId result)).tick)
  | .external call =>
    ((around.external world.clock call).mapError .foreign, ((around.effects world.clock).foldl
        (recordEffect identity (around.nowIso world.clock))
        (world.observe (.called call))).tick)

/-- One process running the kernel. -/
def runHost (identity : RunIdentity) :
    Host (RuntimeOp Ext) (RuntimeAnswer ExtAnswer) RuntimeError (RunWorld Ext) where
  alive world := around.alive world.clock
  perform := perform around identity

/-- One call of `run`: where it lets the pass bound run out the process is still
at work, and nothing later is seen of it. -/
structure RunAttempt (ExtAnswer : Ext → Type) where
  surroundings : Surroundings ExtAnswer
  passes : Nat

/-- A run of the identity, its outcome added to the trace. -/
def attemptRun (world : RunWorld Ext) (attempt : RunAttempt ExtAnswer) : RunWorld Ext :=
  match execute (runHost attempt.surroundings identity) (run kernel identity attempt.passes)
      { world with clock := 0 } with
  | (.returned outcome, after) => after.observe (.returned outcome)
  | (_, after) => after

/-- Runs of the identity one after another against the same stores. -/
def attemptRuns (world : RunWorld Ext) (attempts : List (RunAttempt ExtAnswer)) : RunWorld Ext :=
  attempts.foldl (attemptRun kernel identity) world

/-- Surroundings in which nothing goes wrong, the middleware says nothing and
calls answer as given. -/
def Surroundings.calm (external : (call : Ext) → ExtAnswer call) : Surroundings ExtAnswer where
  alive _ := true
  lease := { acquired := true }
  renewed _ := true
  lapsed _ := false
  storeFailure _ := none
  middleware _ _ := .ok none
  crashPoint _ _ := .ok ()
  nowIso _ := ⟨"2024-01-01T00:00:00.000Z", by decide, by decide⟩
  external _ call := .ok (external call)
  effects _ := []

/-- An identity for concrete runs. -/
def sampleIdentity : RunIdentity where
  ownerUserId := ⟨"owner", by decide, by decide⟩
  threadId := ⟨"thread", by decide, by decide⟩
  turnId := ⟨"turn", by decide, by decide⟩
  runId := ⟨"run", by decide, by decide⟩
  workspaceKey := ⟨"workspace", by decide, by decide⟩

end QiongQi.KernelRuns
