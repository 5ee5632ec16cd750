import QiongQi.ActiveAgents

/-! Whether a handoff reaches its target: every message of the mailbox stems from an
intent of its run, and the envelope of a handoff goes out once in the life of the run. -/
namespace QiongQi.HandoffDelivery
open AgentGraphs Mailboxes MultiAgentRuns MultiAgentStores MultiAgentInterleavings ActiveAgents
open List hiding after
open Machines RuntimeContracts

variable {platform : Platform} {graph : AgentGraph}

def kindsOf (run : MultiAgentRun) : List OutboxKind := run.outbox.map OutboxIntent.kind

/-- A message as a handoff writes it to the outbox of its run. -/
structure Draft (run : MultiAgentRun) (message : MailboxMessage) : Prop where
  own : message.runId = run.runId
  queued : message.status = .queued
  named : ∃ key, message.messageId = "msg_" ++ key ∧ message.envelopeId = "env_" ++ key

structure Sound (world : World) : Prop where
  keyed : Keyed StoredRun.runId world.runs
  drafts : ∀ stored ∈ world.runs, ∀ message, .mailboxEnqueue message ∈ kindsOf stored.run →
    Draft stored.run message
  origins : ∀ message ∈ world.mailbox, ∃ stored ∈ world.runs, ∃ draft : MailboxMessage,
    .mailboxEnqueue draft ∈ kindsOf stored.run ∧ draft.file = message.file

/-- An operation adds to the outbox of its run, and drafts are all it has to enqueue. -/
structure Extends (before after : MultiAgentRun) : Prop where
  runId : after.runId = before.runId
  kept : ∀ kind ∈ kindsOf before, kind ∈ kindsOf after
  added : ∀ message, .mailboxEnqueue message ∈ kindsOf after →
    .mailboxEnqueue message ∈ kindsOf before ∨ Draft after message

theorem extends_of_outbox (runId : after.runId = before.runId)
    (outbox : kindsOf after = kindsOf before) : Extends before after where
  runId := runId
  kept := fun kind held => by rwa [outbox]
  added := fun message held => .inl (by rwa [← outbox])

theorem Extends.trans (left : Extends first second) (right : Extends second third) :
    Extends first third where
  runId := right.runId.trans left.runId
  kept := fun kind held => right.kept kind (left.kept kind held)
  added := by
    intro message held
    rcases right.added message held with earlier | draft
    · rcases left.added message earlier with first | ⟨own, queued, named⟩
      · exact .inl first
      · exact .inr ⟨own.trans right.runId.symm, queued, named⟩
    · exact .inr draft

variable {run next current : MultiAgentRun} {input : HandoffInput} {now runId : String}
variable {world : World}

theorem ensureHandoff_extends
    (ensured : ensureHandoffOutboxIntent platform run input now = .ok next) : Extends run next := by
  rcases ensureHandoffOutboxIntent_ok ensured with ⟨-, rfl⟩ | ⟨-, message, created, rfl⟩
  · exact extends_of_outbox rfl rfl
  · obtain ⟨name, envelope, own, queued, -⟩ := createHandoffMessage_ok created
    refine ⟨rfl, fun kind held => ?_, fun other held => ?_⟩
    · unfold kindsOf at held ⊢
      rw [map_append]
      exact mem_append_left _ held
    · unfold kindsOf at held ⊢
      rw [map_append] at held
      rcases mem_append.mp held with earlier | new
      · exact .inl earlier
      · cases mem_singleton.mp new
        exact .inr ⟨own, queued, _, name, envelope⟩

theorem ensureComplete_extends
    (ensured : ensureMailboxCompleteOutboxIntent run completion = .ok next) : Extends run next := by
  rcases ensureMailboxCompleteOutboxIntent_ok ensured with rfl | ⟨outboxId, messageId, rfl⟩
  · exact extends_of_outbox rfl rfl
  · refine ⟨rfl, fun kind held => ?_, fun other held => ?_⟩
    · unfold kindsOf at held ⊢
      rw [map_append]
      exact mem_append_left _ held
    · unfold kindsOf at held ⊢
      rw [map_append] at held
      rcases mem_append.mp held with earlier | new
      · exact .inl earlier
      · cases mem_singleton.mp new

theorem moved_extends (way : alreadyDelivered current node input.targetAgentId
          (handoffEnvelopeId platform current input) = true ∧ moved = current ∨
        alreadyDelivered current node input.targetAgentId
            (handoffEnvelopeId platform current input) = false ∧
          ∃ route, handoffRoute graph current node input = .ok route ∧
            moved = moveToTarget current route (handoffEnvelopeId platform current input)) :
    Extends current moved ∧ moved.graphId = current.graphId ∧ moved.outbox = current.outbox := by
  rcases way with ⟨-, rfl⟩ | ⟨-, route, -, rfl⟩
  all_goals exact ⟨extends_of_outbox rfl rfl, rfl, rfl⟩

theorem mutates_extends (mutates : Mutates platform graph action runId current next) :
    Extends current next := by
  cases mutates with
  | handoff applied =>
    obtain ⟨node, moved, -, ensured, way⟩ := applyHandoff_ok applied
    exact (moved_extends way).1.trans (ensureHandoff_extends ensured)
  | completeTask completed =>
    obtain ⟨recorded, advanced, sameRun, sameOutbox, lands, ends⟩ := completeTask_ok completed
    have walked : Extends current advanced := by
      apply extends_of_outbox
      · rw [lands.runId, sameRun]
      · rw [kindsOf, kindsOf, lands.outbox, sameOutbox]
    rcases ends with rfl | ⟨completion, -, ensured⟩
    · exact walked
    · exact walked.trans (ensureComplete_extends ensured)
  | completeExternal completed =>
    obtain ⟨recorded, sameRun, sameOutbox, lands⟩ := completeExternal_ok completed
    apply extends_of_outbox
    · rw [lands.runId, sameRun]
    · rw [kindsOf, kindsOf, lands.outbox, sameOutbox]
  | mark => exact extends_of_outbox rfl (markOutboxPublished_kinds _ _)

theorem start_kinds {runId : NonEmptyString} (started : start graph runId = .ok run) :
    kindsOf run = [] := by
  obtain ⟨node, -, built⟩ := bind_ok started
  split at built
  · cases built
    rfl
  · cases built

theorem start_runId {runId : NonEmptyString} (started : start graph runId = .ok run) :
    run.runId = runId := by
  obtain ⟨node, -, built⟩ := bind_ok started
  split at built
  · cases built
    rfl
  · cases built

/-- What one delivery makes of the mailbox stems from a message or from a draft of the run. -/
theorem deliver_origin
    (drafts : ∀ message, .mailboxEnqueue message ∈ kindsOf run → Draft run message)
    (held : kind ∈ kindsOf run) (delivered : deliverIntent mailbox kind = .ok after) :
    ∀ message ∈ after, (∃ source ∈ mailbox, source.file = message.file) ∨
      ∃ draft : MailboxMessage, .mailboxEnqueue draft ∈ kindsOf run ∧ draft.file = message.file := by
  intro message member
  cases kind with
  | mailboxEnqueue incoming =>
    rcases enqueue_descends (drafts incoming held).queued delivered message member with
      descends | ⟨rfl, -⟩
    · obtain ⟨source, known, same, -, -⟩ := descends.source
      exact .inl ⟨source, known, same⟩
    · exact .inr ⟨message, held, rfl⟩
  | mailboxComplete messageId status fence =>
    obtain ⟨source, known, same, -, -⟩ := (complete_descends delivered message member).source
    exact .inl ⟨source, known, same⟩

theorem origins_of {runs : List StoredRun} {mailbox : Mailbox}
    (origins : ∀ message ∈ mailbox, ∃ stored ∈ runs, ∃ draft : MailboxMessage,
      .mailboxEnqueue draft ∈ kindsOf stored.run ∧ draft.file = message.file)
    {message : MailboxMessage} (known : ∃ source ∈ mailbox, source.file = message.file) :
    ∃ stored ∈ runs, ∃ draft : MailboxMessage,
      .mailboxEnqueue draft ∈ kindsOf stored.run ∧ draft.file = message.file := by
  obtain ⟨source, held, same⟩ := known
  obtain ⟨stored, member, draft, drafted, file⟩ := origins source held
  exact ⟨stored, member, draft, drafted, file.trans same⟩

theorem step_sound {next : World} {action : Action} (sound : Sound world)
    (taken : step platform graph world action = some next) : Sound next := by
  obtain ⟨keyed, drafts, origins⟩ := sound
  cases stepped_of_step taken with
  | @start runId run fresh started =>
    refine ⟨keyed_put keyed, fun stored held message => ?_, fun message held => ?_⟩
    · rcases mem_put.mp held with rfl | ⟨held, -⟩
      · simp [start_kinds started]
      · exact drafts stored held message
    · obtain ⟨stored, member, draft, drafted, file⟩ := origins message held
      have apart : stored.runId ≠ run.runId.text := by
        rw [start_runId started]
        simpa using find?_eq_none.mp fresh stored member
      exact ⟨stored, mem_put.mpr (.inr ⟨member, apart⟩), draft, drafted, file⟩
  | @mutate _ runId current made loaded mutates same =>
    obtain ⟨kept, own⟩ := load_mem loaded
    have grows := mutates_extends mutates
    refine ⟨keyed_put keyed, fun stored held message drafted => ?_, fun message held => ?_⟩
    · rcases mem_put.mp held with rfl | ⟨held, -⟩
      · rcases grows.added message drafted with earlier | draft
        · obtain ⟨ownRun, queued, named⟩ := drafts current kept message earlier
          exact ⟨ownRun.trans grows.runId.symm, queued, named⟩
        · exact draft
      · exact drafts stored held message drafted
    · obtain ⟨stored, member, draft, drafted, file⟩ := origins message held
      by_cases here : stored.runId = runId
      · have unique : stored = current := keyed stored member current kept (here.trans own.symm)
        subst unique
        exact ⟨_, mem_put.mpr (.inl rfl), draft, grows.kept _ drafted, file⟩
      · have apart : stored.runId ≠ made.runId.text := by rwa [same]
        exact ⟨stored, mem_put.mpr (.inr ⟨member, apart⟩), draft, drafted, file⟩
  | @deliver runId stored kind mailbox loaded held delivered =>
    obtain ⟨kept, -⟩ := load_mem loaded
    refine ⟨keyed, drafts, fun message member => ?_⟩
    rcases deliver_origin (drafts stored kept) held delivered message member with known | new
    · exact origins_of origins known
    · exact ⟨stored, kept, new⟩
  | claim claimed =>
    refine ⟨keyed, drafts, fun message member => ?_⟩
    obtain ⟨source, known, same, -, -⟩ := (claimNext_descends claimed message member).source
    exact origins_of origins ⟨source, known, same⟩

theorem reachable_sound (reached : Reachable platform graph world) : Sound world := by
  obtain ⟨actions, ran⟩ := reached
  have empty : Sound {} := ⟨by simp [Keyed], by simp, by simp⟩
  exact invariant_always (fun _ _ _ sound taken => step_sound sound taken) actions empty ran

/-- The deliveries of a flush on their own. -/
def publish (intents : List OutboxIntent) (mailbox : Mailbox) : Except Thrown Mailbox :=
  intents.foldlM (fun mailbox intent => deliverIntent mailbox intent.kind) mailbox

theorem publish_cons :
    publish (intent :: rest) mailbox = deliverIntent mailbox intent.kind >>= publish rest := by
  rfl

/-- The flush of a stored run is its deliveries: marking an intent never fails. -/
theorem flushIntents_publish (safe : safeSegment runId "runId" = .ok runId)
    (intents : List OutboxIntent) : ∀ (latest : MultiAgentRun) {world : World} {stored : StoredRun},
      world.load runId = some stored →
      match publish intents world.mailbox with
      | .ok mailbox => ∃ run, (flushIntents runId intents latest world).2 = .ok run ∧
          (flushIntents runId intents latest world).1.mailbox = mailbox
      | .error thrown => (flushIntents runId intents latest world).2 = .error thrown := by
  induction intents with
  | nil => exact fun _ _ _ _ => ⟨_, rfl, rfl⟩
  | cons intent rest ih =>
    intro latest world stored loaded
    unfold flushIntents
    rw [publish_cons]
    cases handed : deliverIntent world.mailbox intent.kind with
    | error thrown => rfl
    | ok mailbox =>
      obtain ⟨-, own⟩ := load_mem loaded
      subst own
      let next : StoredRun :=
        { run := markOutboxPublished stored.run intent.outboxId, version := stored.version + 1 }
      have marked : update { world with mailbox } stored.run.runId.text
          (fun run => .ok (markOutboxPublished run intent.outboxId)) =
            .ok (next.run, World.save { world with mailbox } next) :=
        update_of_mutate safe loaded rfl rfl
      simp only [marked]
      have found : (World.save { world with mailbox } next).load stored.run.runId.text = some next :=
        load_save_self
      exact ih _ found

/-- A file that no message has and no intent enqueues is still missing after a flush. -/
theorem publish_misses : ∀ {mailbox after : Mailbox}, (∀ message ∈ mailbox, message.file ≠ file) →
      (∀ intent ∈ intents, ∀ message, intent.kind = .mailboxEnqueue message →
        message.status = .queued ∧ message.file ≠ file) →
      publish intents mailbox = .ok after → ∀ message ∈ after, message.file ≠ file := by
  induction intents with
  | nil =>
    intro mailbox after missing _ published
    cases published
    exact missing
  | cons intent rest ih =>
    intro mailbox after missing others published
    rw [publish_cons] at published
    obtain ⟨middle, delivered, published⟩ := bind_ok published
    apply ih _ (fun other member => others other (mem_cons_of_mem _ member)) published
    intro message member
    cases kind : intent.kind with
    | mailboxEnqueue incoming =>
      obtain ⟨queued, apart⟩ := others intent (by simp) incoming kind
      rw [kind] at delivered
      rcases enqueue_descends queued delivered message member with descends | ⟨rfl, -⟩
      · obtain ⟨source, known, same, -, -⟩ := descends.source
        exact same ▸ missing source known
      · exact apart
    | mailboxComplete messageId status fence =>
      rw [kind] at delivered
      obtain ⟨source, known, same, -, -⟩ := (complete_descends delivered message member).source
      exact same ▸ missing source known

/-- The agent's task of the run that is still to be done. -/
def HasOpenTask (mailbox : Mailbox) (runId agentId : String) : Prop :=
  ∃ message ∈ mailbox, message.runId.text = runId ∧ message.toAgentId.text = agentId ∧ message.IsOpen

instance (mailbox : Mailbox) (runId agentId : String) : Decidable (HasOpenTask mailbox runId agentId) :=
  inferInstanceAs (Decidable (∃ message ∈ mailbox, _ ∧ _ ∧ _))

/-- The outbox of the run has the envelope of this handoff already, in whatever status. -/
def alreadyHandedOver (platform : Platform) (run : MultiAgentRun) (input : HandoffInput) : Bool :=
  run.outbox.any (OutboxIntent.enqueuesEnvelope (handoffEnvelopeId platform run input))

theorem alreadyHandedOver_of_draft (drafted : .mailboxEnqueue draft ∈ kindsOf run)
    (envelope : draft.envelopeId = handoffEnvelopeId platform run input) :
    alreadyHandedOver platform run input = true := by
  obtain ⟨intent, held, kind⟩ := mem_map.mp drafted
  exact any_eq_true.mpr ⟨intent, held, by simp [OutboxIntent.enqueuesEnvelope, kind, envelope]⟩

/-- The target of a handoff that is accepted is an agent of the graph. -/
theorem applyHandoff_target (applied : applyHandoff platform graph current input now = .ok next) :
    ∃ agentId : NonEmptyString, agentId.text = input.targetAgentId := by
  obtain ⟨node, moved, -, -, ⟨delivered, -⟩ | ⟨-, route, routed, -⟩⟩ := applyHandoff_ok applied
  · unfold alreadyDelivered at delivered
    split at delivered
    · rename_i agentId _
      simp only [Bool.and_eq_true, decide_eq_true_eq] at delivered
      exact ⟨agentId, delivered.1.1⟩
    · cases delivered
  · exact ⟨route.targetAgentId, (handoffRoute_ok routed).1⟩

/-- What a handoff adds to the outbox: nothing, or its own message. -/
theorem applyHandoff_outbox (applied : applyHandoff platform graph current input now = .ok next) :
    next.runId = current.runId ∧
      (alreadyHandedOver platform current input = true ∧ next.outbox = current.outbox ∨
        alreadyHandedOver platform current input = false ∧ ∃ intent message,
          next.outbox = current.outbox ++ [intent] ∧ intent.status = .pending ∧
          intent.kind = .mailboxEnqueue message ∧
          message.file = (current.runId, "msg_" ++ handoffIdempotencyKey platform current input) ∧
          message.status = .queued ∧ message.toAgentId.text = input.targetAgentId) := by
  obtain ⟨agentId, target⟩ := applyHandoff_target applied
  obtain ⟨node, moved, -, ensured, way⟩ := applyHandoff_ok applied
  obtain ⟨extended, sameGraph, sameOutbox⟩ := moved_extends way
  have sameKey : handoffIdempotencyKey platform moved input = handoffIdempotencyKey platform current input := by
    rw [handoffIdempotencyKey, handoffIdempotencyKey, sameGraph, extended.runId]
  have sameKnown : moved.outbox.any (OutboxIntent.enqueuesEnvelope (handoffEnvelopeId platform moved input)) =
      alreadyHandedOver platform current input := by
    rw [alreadyHandedOver, handoffEnvelopeId, handoffEnvelopeId, sameKey, sameOutbox]
  rcases ensureHandoffOutboxIntent_ok ensured with ⟨known, rfl⟩ | ⟨unknown, message, created, rfl⟩
  · exact ⟨extended.runId, .inl ⟨sameKnown ▸ known, sameOutbox⟩⟩
  · obtain ⟨name, -, own, queued, named⟩ := createHandoffMessage_ok created
    have toAgent : message.toAgentId = agentId := by
      rw [← target, NonEmptyString.parse_text] at named
      exact (Option.some.inj named).symm
    refine ⟨extended.runId, .inr ⟨sameKnown ▸ unknown, _, message, by rw [sameOutbox], rfl, rfl, ?_, queued, ?_⟩⟩
    · rw [MailboxMessage.file, own, name, extended.runId, sameKey]
    · rw [toAgent, target]

/-- No message of the mailbox has the file of an envelope that is not in the outbox. -/
theorem fresh_file (sound : Sound world) (loaded : world.load runId = some stored)
    (fresh : alreadyHandedOver platform stored.run input = false) : (∀ message ∈ world.mailbox,
        message.file ≠ (stored.run.runId, "msg_" ++ handoffIdempotencyKey platform stored.run input)) ∧
      ∀ intent ∈ stored.run.outbox, ∀ message, intent.kind = .mailboxEnqueue message →
        message.status = .queued ∧
          message.file ≠ (stored.run.runId, "msg_" ++ handoffIdempotencyKey platform stored.run input) := by
  obtain ⟨held, -⟩ := load_mem loaded
  have drafted : ∀ message, .mailboxEnqueue message ∈ kindsOf stored.run →
      message.file ≠ (stored.run.runId, "msg_" ++ handoffIdempotencyKey platform stored.run input) := by
    intro message member same
    obtain ⟨key, name, envelope⟩ := (sound.drafts stored held message member).named
    have sameKey : key = handoffIdempotencyKey platform stored.run input := by
      have names : message.messageId = _ := congrArg Prod.snd same
      rwa [name, String.append_right_inj] at names
    have known : alreadyHandedOver platform stored.run input = true :=
      alreadyHandedOver_of_draft member (envelope.trans (by rw [sameKey, handoffEnvelopeId]))
    rw [fresh] at known
    cases known
  constructor
  · intro message member same
    obtain ⟨other, heldOther, draft, draftKind, file⟩ := sound.origins message member
    have sameRun : other.run.runId = stored.run.runId := by
      have own := (sound.drafts other heldOther draft draftKind).own
      rw [← own]
      exact congrArg Prod.fst (file.trans same)
    have unique : other = stored :=
      sound.keyed other heldOther stored held (congrArg NonEmptyString.text sameRun)
    subst unique
    exact drafted draft draftKind (file.trans same)
  · intro intent member message kind
    have member : .mailboxEnqueue message ∈ kindsOf stored.run :=
      kind ▸ mem_map_of_mem member
    exact ⟨(sound.drafts stored held message member).queued, drafted message member⟩

/-- A handoff that goes through: the run it found, what it made of it, and its flush. -/
theorem handoff_ok (handed : handoff platform graph world input now acquired = (after, .ok final)) :
    ∃ stored next, world.load input.runId = some stored ∧
      applyHandoff platform graph stored.run input now = .ok next ∧
      safeSegment input.runId "runId" = .ok input.runId ∧
      publish (MultiAgentRun.pendingIntents next) world.mailbox = .ok after.mailbox := by
  unfold handoff withRunMutationLease at handed
  split at handed
  · unfold handoffUnlocked at handed
    cases written : update world input.runId
        fun current => applyHandoff platform graph current input now with
    | error thrown =>
      rw [written] at handed
      cases handed
    | ok result =>
      obtain ⟨next, saved⟩ := result
      obtain ⟨stored, loaded, applied, own, safe, rfl⟩ := update_ok written
      simp only [written] at handed
      have found : (world.save { run := next, version := stored.version + 1 }).load next.runId.text =
          some { run := next, version := stored.version + 1 } := load_save_self
      unfold flushPendingOutboxUnlocked at handed
      rw [found] at handed
      have flushed := flushIntents_publish (own ▸ safe) (MultiAgentRun.pendingIntents next)
        next found
      simp only at handed
      rw [handed] at flushed
      refine ⟨stored, next, loaded, applied, safe, ?_⟩
      cases published : publish (MultiAgentRun.pendingIntents next) world.mailbox with
      | error thrown =>
        simp only [save_mailbox, published] at flushed
        cases flushed
      | ok mailbox =>
        simp only [save_mailbox, published] at flushed
        obtain ⟨-, -, same⟩ := flushed
        rw [same]
  · cases handed

/-- After an accepted handoff its target has an open task exactly if the envelope is new to
the outbox, or what was pending before leaves the target an open task. -/
theorem handoff_reaches_target_iff (platform : Platform) (graph : ValidGraph) (world after : World)
    (reached : Reachable platform graph.graph world) (input : HandoffInput) (now : String)
    (acquired : Bool) (stored : StoredRun) (final : MultiAgentRun)
    (loaded : world.load input.runId = some stored)
    (handed : handoff platform graph.graph world input now acquired = (after, .ok final)) :
    HasOpenTask after.mailbox input.runId input.targetAgentId ↔
      alreadyHandedOver platform stored.run input = false ∨
        HasOpenTask (flushPendingOutboxUnlocked world input.runId).1.mailbox input.runId
          input.targetAgentId := by
  obtain ⟨found, next, foundLoaded, applied, safe, published⟩ := handoff_ok handed
  have same : found = stored := Option.some.inj (foundLoaded.symm.trans loaded)
  subst same
  obtain ⟨-, own⟩ := load_mem loaded
  obtain ⟨-, ⟨known, sameOutbox⟩ | ⟨fresh, intent, message, outbox, pending, kind, file, queued, target⟩⟩ :=
    applyHandoff_outbox applied
  · -- the handoff adds nothing, so its flush is the flush that was due anyway
    have samePending : MultiAgentRun.pendingIntents next = MultiAgentRun.pendingIntents found.run := by
      rw [MultiAgentRun.pendingIntents, MultiAgentRun.pendingIntents, sameOutbox]
    have flushed := flushIntents_publish safe (MultiAgentRun.pendingIntents found.run)
      found.run loaded
    rw [samePending] at published
    rw [published] at flushed
    obtain ⟨-, -, sameMailbox⟩ := flushed
    simp only [flushPendingOutboxUnlocked, loaded, known, sameMailbox, Bool.true_eq_false, false_or]
  · -- the intent is the last to go out, and its file is a new one
    constructor
    · exact fun _ => .inl fresh
    · intro _
      have split : MultiAgentRun.pendingIntents next =
          MultiAgentRun.pendingIntents found.run ++ [intent] := by
        simp [MultiAgentRun.pendingIntents, outbox, pending]
      rw [split, publish, foldlM_append] at published
      obtain ⟨middle, earlier, last⟩ := bind_ok published
      obtain ⟨missing, others⟩ := fresh_file (reachable_sound reached) loaded fresh
      have absent := publish_misses missing
        (fun intent member => others intent (mem_filter.mp member).1) earlier
      simp only [foldlM_cons, foldlM_nil, kind] at last
      obtain ⟨mailbox, enqueued, ended⟩ := bind_ok last
      cases ended
      rcases enqueue_ok queued enqueued with ⟨-, written⟩ | ⟨existing, looked, -⟩
      · rw [written]
        refine ⟨message, mem_put.mpr (.inl rfl), ?_, target, .inl queued⟩
        rw [← own]
        exact congrArg (fun file => file.1.text) file
      · obtain ⟨held, sameFile⟩ := find_mem looked
        exact absurd (sameFile.trans file) (absent existing held)

def startedLoop : World :=
  (startRun researchLoop.graph {} (named "mar_1")).1

def researcherToken : NonEmptyString := named "token_1"

theorem startedLoop_reachable : Reachable plainPlatform researchLoop.graph startedLoop :=
  ⟨[.start (named "mar_1")], by decide⟩

theorem handoff_reaches_target_first :
    HasOpenTask (handoff plainPlatform researchLoop.graph startedLoop (handsOver "draft") "t1" true).1.mailbox
      "mar_1" "researcher" := by
  obtain ⟨stored, loaded⟩ := Option.isSome_iff_exists.mp
    (show (startedLoop.load "mar_1").isSome by decide)
  have accepted : (handoff plainPlatform researchLoop.graph startedLoop (handsOver "draft") "t1" true).2.isOk := by
    decide
  have fresh : (startedLoop.load "mar_1").any
      (fun stored => !alreadyHandedOver plainPlatform stored.run (handsOver "draft")) = true := by
    decide
  rw [loaded] at fresh
  cases final : (handoff plainPlatform researchLoop.graph startedLoop (handsOver "draft") "t1" true).2 with
  | error thrown =>
    rw [final] at accepted
    cases accepted
  | ok run =>
    exact (handoff_reaches_target_iff plainPlatform researchLoop startedLoop _ startedLoop_reachable
      (handsOver "draft") "t1" true stored run loaded (Prod.ext rfl final)).mpr
        (.inl (by simpa using fresh))

/-- The researcher has claimed its task, and its completion has come back to the manager. -/
def researchDone : World :=
  let handed := (handoff plainPlatform researchLoop.graph startedLoop (handsOver "draft") "t1" true).1
  let claimed := (step plainPlatform researchLoop.graph handed
    (.claimNext "researcher" none 0 researcherToken)).getD handed
  (completeAgentTask plainPlatform researchLoop.graph claimed
    { runId := "mar_1"
      agentId := "researcher"
      mailboxCompletion := some { messageId := "msg_draft|researcher|manager|mar_1|r", status := .completed } }
    true).1

theorem researchDone_reachable : Reachable plainPlatform researchLoop.graph researchDone := by
  apply completeAgentTask_reachable
  cases taken : step plainPlatform researchLoop.graph
      (handoff plainPlatform researchLoop.graph startedLoop (handsOver "draft") "t1" true).1
      (.claimNext "researcher" none 0 researcherToken) with
  | none => exact handoff_reachable startedLoop_reachable
  | some claimed => exact (handoff_reachable startedLoop_reachable).step _ taken

/-- The manager hands the same work over once more: the run moves to the researcher, and the
mailbox has nothing for it to do. -/
theorem repeated_handoff_lost :
    ∃ world after final, Reachable plainPlatform researchLoop.graph world ∧
      handoff plainPlatform researchLoop.graph world (handsOver "draft") "t2" true = (after, .ok final) ∧
      (world.load "mar_1").map (fun stored => stored.run.activeNodeId.text) = some "manager" ∧
      final.activeNodeId.text = "researcher" ∧ ¬ HasOpenTask after.mailbox "mar_1" "researcher" := by
  have moved : (handoff plainPlatform researchLoop.graph researchDone (handsOver "draft") "t2" true).2.toOption.any
      (fun final => final.activeNodeId.text = "researcher") = true := by
    decide +kernel
  obtain ⟨final, accepted, arrived⟩ := (Option.any_eq_true _ _).mp moved
  refine ⟨researchDone, _, final, researchDone_reachable, Prod.ext rfl ?_, by decide +kernel, by simpa using arrived, ?_⟩
  · cases result : (handoff plainPlatform researchLoop.graph researchDone (handsOver "draft") "t2" true).2 with
    | error thrown =>
      rw [result] at accepted
      cases accepted
    | ok run =>
      rw [result] at accepted
      cases accepted
      rfl
  · decide +kernel

end QiongQi.HandoffDelivery
