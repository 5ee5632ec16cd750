import QiongQi.MultiAgentRuns

/-! The stored runs and the mailbox under `EventedV2MultiAgentRuntime`. An operation
updates its run first and hands the pending intents of the outbox to the mailbox after,
one by one, each marked in an update of its own. -/
namespace QiongQi.MultiAgentStores
open AgentGraphs Mailboxes MultiAgentRuns Machines RuntimeContracts

/-- A run file with its version file. -/
structure StoredRun where
  run : MultiAgentRun
  version : Nat
  deriving DecidableEq

def StoredRun.runId (stored : StoredRun) : String := stored.run.runId.text

structure World where
  runs : List StoredRun := []
  mailbox : Mailbox := []
  deriving DecidableEq

def World.load (world : World) (runId : String) : Option StoredRun :=
  find StoredRun.runId runId world.runs

def World.save (world : World) (stored : StoredRun) : World :=
  { world with runs := put StoredRun.runId stored world.runs }

/-- `FileMultiAgentRunStore.update`. -/
def update (world : World) (runId : String) (mutate : MultiAgentRun → Except Thrown MultiAgentRun) :
    Except Thrown (MultiAgentRun × World) := do
  let safeRunId ← safeSegment runId "runId"
  match world.load safeRunId with
  | none => throw (.error ("MultiAgentRun not found: " ++ safeRunId))
  | some current =>
    let next ← mutate current.run
    if next.runId.text ≠ safeRunId then
      throw (.error ("MultiAgentRun update cannot change runId: " ++ next.runId.text ++ " !== " ++ safeRunId))
    return (next, world.save { run := next, version := current.version + 1 })

/-- Hands one intent of the outbox to the mailbox. -/
def deliverIntent (mailbox : Mailbox) (kind : OutboxKind) : Except Thrown Mailbox :=
  match kind with
  | .mailboxEnqueue message => enqueue mailbox message
  | .mailboxComplete messageId mailboxStatus claimLease =>
    complete mailbox messageId mailboxStatus claimLease

/-- The intents go out in their order; the first that the mailbox refuses ends the flush. -/
def flushIntents (runId : String) :
    List OutboxIntent → MultiAgentRun → World → World × Except Thrown MultiAgentRun
  | [], latest, world => (world, .ok latest)
  | intent :: rest, _, world =>
    match deliverIntent world.mailbox intent.kind with
    | .error thrown => (world, .error thrown)
    | .ok mailbox =>
      let delivered := { world with mailbox }
      match update delivered runId fun run => .ok (markOutboxPublished run intent.outboxId) with
      | .error thrown => (delivered, .error thrown)
      | .ok (latest, marked) => flushIntents runId rest latest marked

def MultiAgentRun.pendingIntents (run : MultiAgentRun) : List OutboxIntent :=
  run.outbox.filter fun intent => intent.status = .pending

def flushPendingOutboxUnlocked (world : World) (runId : String) :
    World × Except Thrown MultiAgentRun :=
  match world.load runId with
  | none => (world, .error (.error ("MultiAgentRun not found: " ++ runId)))
  | some current => flushIntents runId (MultiAgentRun.pendingIntents current.run) current.run world

/-- `start`: the identifier is a new one. -/
def startRun (graph : AgentGraph) (world : World) (runId : NonEmptyString) :
    World × Except Thrown MultiAgentRun :=
  match start graph runId, safeSegment runId.text "runId" with
  | .error thrown, _ => (world, .error thrown)
  | _, .error thrown => (world, .error thrown)
  | .ok run, .ok _ => (world.save { run, version := 0 }, .ok run)

/-- An operation whose run is leased to another holder until its deadline does not run. -/
def withRunMutationLease (acquired : Bool) (runId : String) (world : World)
    (operation : World × Except Thrown MultiAgentRun) : World × Except Thrown MultiAgentRun :=
  if acquired then operation
  else (world, .error (.error ("MultiAgentRun lease unavailable: " ++ runId)))

def handoffUnlocked (platform : Platform) (graph : AgentGraph) (world : World) (input : HandoffInput)
    (now : String) : World × Except Thrown MultiAgentRun :=
  match update world input.runId fun current => applyHandoff platform graph current input now with
  | .error thrown => (world, .error thrown)
  | .ok (next, saved) => flushPendingOutboxUnlocked saved next.runId.text

def handoff (platform : Platform) (graph : AgentGraph) (world : World) (input : HandoffInput)
    (now : String) (acquired : Bool) : World × Except Thrown MultiAgentRun :=
  withRunMutationLease acquired input.runId world (handoffUnlocked platform graph world input now)

def completeAgentTask (platform : Platform) (graph : AgentGraph) (world : World)
    (input : AgentTaskCompletion) (acquired : Bool) : World × Except Thrown MultiAgentRun :=
  withRunMutationLease acquired input.runId world <|
    match update world input.runId fun current => completeTask platform graph current input with
    | .error thrown => (world, .error thrown)
    | .ok (next, saved) =>
      match input.mailboxCompletion with
      | none => (saved, .ok next)
      | some _ => flushPendingOutboxUnlocked saved next.runId.text

def completeExternalNode (platform : Platform) (graph : AgentGraph) (world : World)
    (input : ExternalCompletion) (acquired : Bool) : World × Except Thrown MultiAgentRun :=
  withRunMutationLease acquired input.runId world <|
    match update world input.runId fun current => completeExternal platform graph current input with
    | .error thrown => (world, .error thrown)
    | .ok (next, saved) => (saved, .ok next)

def flushPendingOutbox (world : World) (runId : String) (acquired : Bool) :
    World × Except Thrown MultiAgentRun :=
  withRunMutationLease acquired runId world (flushPendingOutboxUnlocked world runId)

variable {world : World}

theorem load_mem (loaded : world.load runId = some stored) :
    stored ∈ world.runs ∧ stored.run.runId.text = runId :=
  find_mem loaded

/-- An update that goes through writes what its mutation made, one version on. -/
theorem update_ok (updated : update world runId mutate = .ok (next, saved)) :
    ∃ current, world.load runId = some current ∧ mutate current.run = .ok next ∧
      next.runId.text = runId ∧ safeSegment runId "runId" = .ok runId ∧
      saved = world.save { run := next, version := current.version + 1 } := by
  obtain ⟨safeRunId, safe, found⟩ := bind_ok updated
  have same : safeRunId = runId := by
    unfold safeSegment at safe
    split at safe
    · cases safe
    · cases safe
      rfl
  subst same
  cases loaded : world.load safeRunId with
  | none =>
    simp only [loaded] at found
    cases found
  | some current =>
    simp only [loaded] at found
    obtain ⟨made, mutated, named⟩ := bind_ok found
    by_cases kept : made.runId.text = safeRunId
    · rw [if_neg (not_not.mpr kept)] at named
      cases named
      exact ⟨current, rfl, mutated, kept, safe, rfl⟩
    · rw [if_pos kept] at named
      cases named

theorem update_of_mutate {runId : String} {current : StoredRun} {next : MultiAgentRun}
    {mutate : MultiAgentRun → Except Thrown MultiAgentRun}
    (safe : safeSegment runId "runId" = .ok runId) (loaded : world.load runId = some current)
    (mutated : mutate current.run = .ok next) (kept : next.runId.text = runId) :
    update world runId mutate = .ok (next, world.save { run := next, version := current.version + 1 }) := by
  simp [update, safe, loaded, mutated, kept, bind, Except.bind, pure, Except.pure]

@[simp] theorem load_save_self : (world.save stored).load stored.run.runId.text = some stored :=
  find_put_self StoredRun.runId stored world.runs

@[simp] theorem save_mailbox : (world.save stored).mailbox = world.mailbox := rfl

end QiongQi.MultiAgentStores
