import QiongQi.MultiAgentStores

/-! Everything that can happen to the stored runs and the mailbox, one write at a time:
what a step does, and that the operations of the runtime are such steps. -/
namespace QiongQi.MultiAgentInterleavings
open AgentGraphs Mailboxes MultiAgentRuns MultiAgentStores Machines RuntimeContracts

/-- What happens at one point of time. An operation is an update of its run and then,
intent by intent, a delivery and a mark; a worker claims in between, and a process that
stops leaves the rest undone. -/
inductive Action where
  | start (runId : NonEmptyString)
  | handoff (input : HandoffInput) (now : String)
  | completeTask (input : AgentTaskCompletion)
  | completeExternal (input : ExternalCompletion)
  | deliver (runId : String) (kind : OutboxKind)
  | mark (runId outboxId : String)
  | claimNext (agentId : String) (options : Option MailboxClaimOptions) (now : Int)
      (token : NonEmptyString)

/-- What a step did, if it did not throw. -/
def kept (result : Except Thrown World) : Option World :=
  match result with
  | .ok world => some world
  | .error _ => none

def updated (result : Except Thrown (MultiAgentRun × World)) : Option World :=
  kept (result.map Prod.snd)

def step (platform : Platform) (graph : AgentGraph) (world : World) : Action → Option World
  | .start runId =>
    match world.load runId.text, start graph runId with
    | none, .ok run => some (world.save { run, version := 0 })
    | _, _ => none
  | .handoff input now =>
    updated (update world input.runId fun current => applyHandoff platform graph current input now)
  | .completeTask input =>
    updated (update world input.runId fun current => completeTask platform graph current input)
  | .completeExternal input =>
    updated (update world input.runId fun current => completeExternal platform graph current input)
  | .deliver runId kind =>
    match world.load runId with
    | none => none
    | some stored =>
      if kind ∈ stored.run.outbox.map OutboxIntent.kind then
        kept ((deliverIntent world.mailbox kind).map fun mailbox => { world with mailbox })
      else none
  | .mark runId outboxId =>
    updated (update world runId fun run => .ok (markOutboxPublished run outboxId))
  | .claimNext agentId options now token =>
    kept ((claimNext platform.localeCompare world.mailbox agentId options now token).map
      fun claim => { world with mailbox := claim.2 })

variable {platform : Platform} {graph : AgentGraph}

/-- What an action makes of the run that it is about. -/
inductive Mutates (platform : Platform) (graph : AgentGraph) :
    Action → String → MultiAgentRun → MultiAgentRun → Prop where
  | handoff {input : HandoffInput} {now : String} {current next : MultiAgentRun}
      (applied : applyHandoff platform graph current input now = .ok next) :
      Mutates platform graph (.handoff input now) input.runId current next
  | completeTask {input : AgentTaskCompletion} {current next : MultiAgentRun}
      (completed : MultiAgentRuns.completeTask platform graph current input = .ok next) :
      Mutates platform graph (.completeTask input) input.runId current next
  | completeExternal {input : ExternalCompletion} {current next : MultiAgentRun}
      (completed : MultiAgentRuns.completeExternal platform graph current input = .ok next) :
      Mutates platform graph (.completeExternal input) input.runId current next
  | mark {runId outboxId : String} {current : MultiAgentRun} :
      Mutates platform graph (.mark runId outboxId) runId current
        (markOutboxPublished current outboxId)

inductive Stepped (platform : Platform) (graph : AgentGraph) (world : World) :
    Action → World → Prop where
  | start {runId : NonEmptyString} {run : MultiAgentRun} (fresh : world.load runId.text = none)
      (started : MultiAgentRuns.start graph runId = .ok run) :
      Stepped platform graph world (.start runId) (world.save { run, version := 0 })
  | mutate {action : Action} {runId : String} {current : StoredRun} {next : MultiAgentRun}
      (loaded : world.load runId = some current)
      (mutates : Mutates platform graph action runId current.run next) (same : next.runId.text = runId) :
      Stepped platform graph world action
        (world.save { run := next, version := current.version + 1 })
  | deliver {runId : String} {stored : StoredRun} {kind : OutboxKind} {mailbox : Mailbox}
      (loaded : world.load runId = some stored) (held : kind ∈ stored.run.outbox.map OutboxIntent.kind)
      (delivered : deliverIntent world.mailbox kind = .ok mailbox) :
      Stepped platform graph world (.deliver runId kind) { world with mailbox }
  | claim {agentId : String} {options : Option MailboxClaimOptions} {now : Int}
      {token : NonEmptyString} {claim : Option MailboxMessage} {mailbox : Mailbox}
      (claimed : Mailboxes.claimNext platform.localeCompare world.mailbox agentId options now token =
        .ok (claim, mailbox)) :
      Stepped platform graph world (.claimNext agentId options now token) { world with mailbox }

variable {next world : World}

private theorem updated_some (done : updated result = some next) :
    ∃ run, result = .ok (run, next) := by
  cases result with
  | error thrown => cases done
  | ok made =>
    obtain ⟨run, world⟩ := made
    cases done
    exact ⟨run, rfl⟩

private theorem stepped_update (relation : ∀ current made, mutate current = .ok made →
      Mutates platform graph action runId current made)
    (done : updated (update world runId mutate) = some next) :
    Stepped platform graph world action next := by
  obtain ⟨run, written⟩ := updated_some done
  obtain ⟨current, loaded, mutated, same, -, rfl⟩ := update_ok written
  exact .mutate loaded (relation _ _ mutated) same

theorem stepped_of_step (taken : step platform graph world action = some next) :
    Stepped platform graph world action next := by
  cases action with
  | start runId =>
    simp only [step] at taken
    split at taken
    · rename_i fresh started
      cases taken
      exact .start fresh started
    · cases taken
  | handoff input now => exact stepped_update (fun _ _ applied => .handoff applied) taken
  | completeTask input => exact stepped_update (fun _ _ completed => .completeTask completed) taken
  | completeExternal input =>
    exact stepped_update (fun _ _ completed => .completeExternal completed) taken
  | deliver runId kind =>
    simp only [step] at taken
    cases loaded : world.load runId with
    | none =>
      rw [loaded] at taken
      cases taken
    | some stored =>
      simp only [loaded] at taken
      by_cases held : kind ∈ stored.run.outbox.map OutboxIntent.kind
      · rw [if_pos held] at taken
        cases delivered : deliverIntent world.mailbox kind with
        | error thrown =>
          rw [delivered] at taken
          cases taken
        | ok mailbox =>
          rw [delivered] at taken
          cases taken
          exact .deliver loaded held delivered
      · rw [if_neg held] at taken
        cases taken
  | mark runId outboxId =>
    apply stepped_update _ taken
    intro current made marked
    cases marked
    exact .mark
  | claimNext agentId options now token =>
    simp only [step] at taken
    cases claimed : Mailboxes.claimNext platform.localeCompare world.mailbox agentId options now token with
    | error thrown =>
      rw [claimed] at taken
      cases taken
    | ok claim =>
      rw [claimed] at taken
      cases taken
      exact .claim claimed

/-- A world that runs and workers can make of empty stores. -/
def Reachable (platform : Platform) (graph : AgentGraph) (world : World) : Prop :=
  ∃ actions, runActions (step platform graph) {} actions = some world

section
variable (reached : Reachable platform graph world)
include reached

theorem Reachable.run (ran : runActions (step platform graph) world actions = some final) :
    Reachable platform graph final := by
  obtain ⟨earlier, began⟩ := reached
  exact ⟨earlier ++ actions, by rw [runActions_append, began]; exact ran⟩

theorem Reachable.step (action : Action)
    (taken : MultiAgentInterleavings.step platform graph world action = some next) :
    Reachable platform graph next := by
  have ran : runActions (MultiAgentInterleavings.step platform graph) world [action] = some next := by
    simp [runActions, taken]
  exact reached.run ran

theorem Reachable.claim {claim : Option MailboxMessage}
    (claimed : Mailboxes.claimNext platform.localeCompare world.mailbox agentId options now token =
      .ok (claim, mailbox)) : Reachable platform graph { world with mailbox } := by
  apply reached.step (.claimNext agentId options now token)
  simp [MultiAgentInterleavings.step, claimed, kept, Except.map]

private theorem reachable_update {next : MultiAgentRun} (action : Action)
    (same : MultiAgentInterleavings.step platform graph world action = updated (update world runId mutate))
    (written : update world runId mutate = .ok (next, saved)) : Reachable platform graph saved := by
  apply reached.step action
  rw [same, written]
  rfl

end

theorem publishIntent_kind (outboxId : String) (intent : OutboxIntent) :
    (publishIntent outboxId intent).kind = intent.kind := by
  unfold publishIntent
  split <;> rfl

@[simp] theorem markOutboxPublished_kinds (run : MultiAgentRun) (outboxId : String) :
    (markOutboxPublished run outboxId).outbox.map OutboxIntent.kind = run.outbox.map OutboxIntent.kind := by
  simp [markOutboxPublished, Function.comp_def, publishIntent_kind]

/-- A flush is deliveries and marks, wherever it ends. -/
theorem flushIntents_reachable : ∀ {latest : MultiAgentRun} {world : World} {stored : StoredRun},
      Reachable platform graph world → world.load runId = some stored →
      (∀ intent ∈ intents, intent.kind ∈ stored.run.outbox.map OutboxIntent.kind) →
      Reachable platform graph (flushIntents runId intents latest world).1 := by
  induction intents with
  | nil => exact fun reached _ _ => reached
  | cons intent rest ih =>
    intro latest world stored reached loaded held
    unfold flushIntents
    cases handed : deliverIntent world.mailbox intent.kind with
    | error thrown => exact reached
    | ok mailbox =>
      have delivered : Reachable platform graph { world with mailbox } := by
        apply reached.step (.deliver runId intent.kind)
        simp [step, loaded, held intent (by simp), handed, kept, Except.map]
      simp only
      cases written : update { world with mailbox } runId
          fun run => .ok (markOutboxPublished run intent.outboxId) with
      | error thrown => exact delivered
      | ok result =>
        obtain ⟨next, saved⟩ := result
        have marked := reachable_update delivered (.mark runId intent.outboxId) rfl written
        obtain ⟨current, found, mutated, same, -, rfl⟩ := update_ok written
        have unchanged : current = stored := Option.some.inj (found.symm.trans loaded)
        subst unchanged
        cases mutated
        subst same
        apply ih marked load_save_self
        intro other member
        simpa using held other (List.mem_cons_of_mem _ member)

section
variable (reached : Reachable platform graph world)
include reached

theorem flush_reachable : Reachable platform graph (flushPendingOutboxUnlocked world runId).1 := by
  unfold flushPendingOutboxUnlocked
  cases loaded : world.load runId with
  | none => exact reached
  | some stored =>
    apply flushIntents_reachable reached loaded
    intro intent pending
    exact List.mem_map_of_mem (List.mem_filter.mp pending).1

private theorem leased_reachable (done : Reachable platform graph operation.1) :
    Reachable platform graph (withRunMutationLease acquired runId world operation).1 := by
  unfold withRunMutationLease
  split
  · exact done
  · exact reached

theorem handoff_reachable :
    Reachable platform graph (handoff platform graph world input now acquired).1 := by
  apply leased_reachable reached
  unfold handoffUnlocked
  cases written : update world input.runId fun current => applyHandoff platform graph current input now with
  | error thrown => exact reached
  | ok result =>
    exact flush_reachable (reachable_update reached (.handoff input now) rfl written)

theorem completeAgentTask_reachable {input : AgentTaskCompletion} :
    Reachable platform graph (completeAgentTask platform graph world input acquired).1 := by
  apply leased_reachable reached
  cases written : update world input.runId fun current =>
      MultiAgentRuns.completeTask platform graph current input with
  | error thrown => exact reached
  | ok result =>
    have saved := reachable_update reached (.completeTask input) rfl written
    simp only
    split
    · exact saved
    · exact flush_reachable saved

end

end QiongQi.MultiAgentInterleavings
