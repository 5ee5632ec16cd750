import Mathlib.Data.List.Nodup
import QiongQi.MailboxHistories
import QiongQi.OutboxIntents

/-! The outbox of a run over flushes that may stop after any write: whatever the workers do in
between, a flush that runs to its end leaves every intent that it found published, one
message for each intent that enqueues, and the progress of the workers as it is. -/
namespace QiongQi.OutboxDelivery
open ActiveAgents AgentGraphs Mailboxes MailboxHistories MailboxStores MultiAgentRuns MultiAgentStores
open List hiding after
open MultiAgentInterleavings HandoffDelivery OutboxIntents Machines RuntimeContracts

/-- A flush under way: the intents that it found pending and has not marked yet. -/
structure Flush where
  runId : String
  remaining : List OutboxIntent
  handed : Bool := false
  deriving DecidableEq

structure System where
  world : World := {}
  flushes : List Flush := []

/-- One write at a time. An operation of the runtime updates its run; the flush after it, like
any other flush, begins, hands one intent to the mailbox and marks it, and so on. A process
that stops takes no more of these actions. -/
inductive SystemAction where
  | operate (action : Action)
  | begin (runId : String)
  | hand (flush : Nat)
  | mark (flush : Nat)

variable (platform : Platform) (graph : AgentGraph)

def operate (system : System) (action : Action) : Option System :=
  match action with
  | .deliver .. | .mark .. => none
  | operation => (step platform graph system.world operation).map fun world => { system with world }

def beginFlush (system : System) (runId : String) : Option System :=
  (system.world.load runId).map fun stored =>
    { system with flushes := system.flushes ++
        [{ runId, remaining := MultiAgentRun.pendingIntents stored.run }] }

/-- An intent that the mailbox refuses ends the flush. -/
def hand (system : System) (index : Nat) : Option System :=
  match system.flushes[index]? with
  | some { runId, remaining := intent :: rest, handed := false } =>
    match deliverIntent system.world.mailbox intent.kind with
    | .error _ => none
    | .ok mailbox => some {
        world := { system.world with mailbox }
        flushes := system.flushes.set index { runId, remaining := intent :: rest, handed := true } }
  | _ => none

def mark (system : System) (index : Nat) : Option System :=
  match system.flushes[index]? with
  | some { runId, remaining := intent :: rest, handed := true } =>
    match update system.world runId fun run => .ok (markOutboxPublished run intent.outboxId) with
    | .error _ => none
    | .ok (_, world) => some {
        world
        flushes := system.flushes.set index { runId, remaining := rest } }
  | _ => none

def stepSystem (system : System) : SystemAction → Option System
  | .operate action => operate platform graph system action
  | .begin runId => beginFlush system runId
  | .hand index => hand system index
  | .mark index => mark system index

/-- A worker completes a message that it was given, in the run of the message. -/
def ByWorker (world : World) : SystemAction → Prop
  | .operate (.completeTask input) => ∀ completion ∈ input.mailboxCompletion,
    ∃ message ∈ world.mailbox, message.runId.text = input.runId ∧ message.messageId = completion.messageId
  | _ => True

instance (world : World) : ∀ action, Decidable (ByWorker world action)
  | .operate (.completeTask input) => inferInstanceAs (Decidable (∀ completion ∈ input.mailboxCompletion, _))
  | .operate (.start _) | .operate (.handoff _ _) | .operate (.completeExternal _) => .isTrue trivial
  | .operate (.deliver _ _) | .operate (.mark _ _) | .operate (.claimNext _ _ _ _) => .isTrue trivial
  | .begin _ | .hand _ | .mark _ => .isTrue trivial

def draftsOf (run : MultiAgentRun) : List MailboxMessage :=
  (kindsOf run).filterMap fun
    | .mailboxEnqueue message => some message
    | .mailboxComplete .. => none

/-- The digests of the handoffs of different runs have not collided. -/
def ApartRuns (world : World) : Prop :=
  ∀ stored ∈ world.runs, ∀ other ∈ world.runs, ∀ left ∈ draftsOf stored.run,
    ∀ right ∈ draftsOf other.run, left.messageId = right.messageId → left.runId = right.runId

instance (world : World) : Decidable (ApartRuns world) :=
  inferInstanceAs (Decidable (∀ stored ∈ world.runs, ∀ other ∈ world.runs, _))

def Fair (system : System) (action : SystemAction) : Prop :=
  ByWorker system.world action ∧ ApartRuns system.world

instance (system : System) (action : SystemAction) : Decidable (Fair system action) :=
  inferInstanceAs (Decidable (_ ∧ _))

variable {platform graph}
variable {run : MultiAgentRun} {message : MailboxMessage} {system next : System}
variable {action : SystemAction} {mailbox after : Mailbox} {messageId runId : String}
variable {world : World} {current stored : StoredRun}

theorem mem_draftsOf : message ∈ draftsOf run ↔ .mailboxEnqueue message ∈ kindsOf run := by
  unfold draftsOf
  rw [mem_filterMap]
  constructor
  · rintro ⟨kind, held, same⟩
    cases kind with
    | mailboxEnqueue known =>
      cases same
      exact held
    | mailboxComplete messageId status fence => cases same
  · exact fun held => ⟨_, held, rfl⟩

inductive SystemStep (platform : Platform) (graph : AgentGraph) (system : System) :
    SystemAction → System → Prop where
  | operated {action : Action} {world : World} (operation : IsOperation action)
      (taken : step platform graph system.world action = some world) :
      SystemStep platform graph system (.operate action) { system with world }
  | begun {runId : String} {stored : StoredRun} (loaded : system.world.load runId = some stored) :
      SystemStep platform graph system (.begin runId) { system with flushes := system.flushes ++
        [{ runId, remaining := MultiAgentRun.pendingIntents stored.run }] }
  | handed {index : Nat} {runId : String} {intent : OutboxIntent} {rest : List OutboxIntent}
      {mailbox : Mailbox} (found : system.flushes[index]? =
        some { runId, remaining := intent :: rest, handed := false })
      (delivered : deliverIntent system.world.mailbox intent.kind = .ok mailbox) :
      SystemStep platform graph system (.hand index) {
        world := { system.world with mailbox }
        flushes := system.flushes.set index { runId, remaining := intent :: rest, handed := true } }
  | marked {index : Nat} {runId : String} {intent : OutboxIntent} {rest : List OutboxIntent}
      {current : StoredRun} (found : system.flushes[index]? =
        some { runId, remaining := intent :: rest, handed := true })
      (loaded : system.world.load runId = some current) (safe : safeSegment runId "runId" = .ok runId) :
      SystemStep platform graph system (.mark index) {
        world := system.world.save
          { run := markOutboxPublished current.run intent.outboxId, version := current.version + 1 }
        flushes := system.flushes.set index { runId, remaining := rest } }

theorem systemStep_of_step (taken : stepSystem platform graph system action = some next) :
    SystemStep platform graph system action next := by
  cases action with
  | operate action =>
    simp only [stepSystem, operate] at taken
    split at taken
    · cases taken
    · cases taken
    · rename_i notDeliver notMark
      obtain ⟨world, stepped, rfl⟩ := Option.map_eq_some_iff.mp taken
      refine .operated ?_ stepped
      cases action with
      | deliver runId kind => exact absurd rfl (notDeliver runId kind)
      | mark runId outboxId => exact absurd rfl (notMark runId outboxId)
      | _ => trivial
  | begin runId =>
    obtain ⟨stored, loaded, rfl⟩ := Option.map_eq_some_iff.mp taken
    exact .begun loaded
  | hand index =>
    simp only [stepSystem, hand] at taken
    split at taken
    · rename_i found
      split at taken
      · cases taken
      · rename_i delivered
        cases taken
        exact .handed found delivered
    · cases taken
  | mark index =>
    simp only [stepSystem, mark] at taken
    split at taken
    · rename_i found
      split at taken
      · cases taken
      · rename_i written
        cases taken
        obtain ⟨current, loaded, mutated, same, safe, rfl⟩ := update_ok written
        cases mutated
        exact .marked found loaded safe
    · cases taken

/-- How a message may go on: a worker's claim gives way to another claim only where it had a
lease, a claimed message may end, and one that has ended stays as it is. -/
inductive Progressed : MailboxMessage → MailboxMessage → Prop where
  | kept (message : MailboxMessage) : Progressed message message
  | queued {message later : MailboxMessage} (status : message.status = .queued) : Progressed message later
  | claimed {message later : MailboxMessage} (status : message.status = .delivered)
      (leased : message.claimLease.isSome) (next : later.status = .delivered)
      (lease : later.claimLease.isSome) : Progressed message later
  | completed {message later : MailboxMessage} (status : message.status = .delivered)
      (ended : Ended later.status) : Progressed message later

theorem Progressed.trans (left : Progressed first second) (right : Progressed second third) :
    Progressed first third := by
  cases left with
  | kept => exact right
  | queued status => exact .queued status
  | claimed status leased next lease =>
    cases right with
    | kept => exact .claimed status leased next lease
    | queued queued => simp [next] at queued
    | claimed _ _ last again => exact .claimed status leased last again
    | completed _ ended => exact .completed status ended
  | completed status ended =>
    have apart : second.status ≠ .queued ∧ second.status ≠ .delivered := by
      rcases ended with kind | kind | kind <;> simp [kind]
    cases right with
    | kept => exact .completed status ended
    | queued queued => exact absurd queued apart.1
    | claimed delivered | completed delivered => exact absurd delivered apart.2

/-- Every message is still there, at least as far as it was. -/
def MailKept (before after : Mailbox) : Prop :=
  ∀ message ∈ before, ∃ later ∈ after, later.file = message.file ∧ Progressed message later

theorem MailKept.refl (mailbox : Mailbox) : MailKept mailbox mailbox :=
  fun message held => ⟨message, held, rfl, .kept message⟩

theorem MailKept.trans (left : MailKept first second) (right : MailKept second third) :
    MailKept first third := by
  intro message held
  obtain ⟨middle, heldMiddle, file, progressed⟩ := left message held
  obtain ⟨later, heldLater, fileLater, further⟩ := right middle heldMiddle
  exact ⟨later, heldLater, fileLater.trans file, progressed.trans further⟩

theorem mailKept_put
    (progressed : ∀ message ∈ mailbox, message.file = item.file → Progressed message item) :
    MailKept mailbox (put MailboxMessage.file item mailbox) := by
  intro message held
  by_cases same : message.file = item.file
  · exact ⟨item, mem_put.mpr (.inl rfl), same.symm, progressed message held same⟩
  · exact ⟨message, mem_put.mpr (.inr ⟨held, same⟩), rfl, .kept message⟩

theorem enqueue_kept (keyed : Keyed MailboxMessage.file mailbox) (queued : message.status = .queued)
    (enqueued : enqueue mailbox message = .ok after) :
    MailKept mailbox after ∧ ∃ held ∈ after, held.file = message.file := by
  rcases enqueue_ok queued enqueued with ⟨absent, rfl⟩ | ⟨existing, found, rfl⟩
  · refine ⟨mailKept_put fun other held same => ?_, message, mem_put.mpr (.inl rfl), rfl⟩
    have missing := find?_eq_none.mp absent other held
    simp [same] at missing
  · obtain ⟨held, file⟩ := find_mem found
    refine ⟨mailKept_put fun other heldOther same => ?_, existing, mem_put.mpr (.inl rfl), file⟩
    rw [keyed other heldOther existing held same]
    exact .kept existing

theorem claim_kept (keyed : Keyed MailboxMessage.file mailbox)
    (claimed : claimNext localeCompare mailbox agentId options now token = .ok (claim, after)) :
    MailKept mailbox after := by
  rcases claimNext_ok claimed with ⟨-, rfl⟩ | ⟨queued, delivered, -, held, free, written, rfl⟩
  · exact .refl _
  · obtain ⟨lease, rfl, grows, -⟩ := deliver_ok written
    refine mailKept_put fun other heldOther same => ?_
    rw [keyed other heldOther queued held same]
    by_cases begun : queued.status = .queued
    · exact .queued begun
    · obtain ⟨status, old, leased, -⟩ := claimable_expired begun free
      obtain ⟨new, renewed, -⟩ := grows old leased
      exact .claimed status (by simp [Option.mem_def.mp leased]) rfl (by simp [Option.mem_def.mp renewed])

theorem ended_toMailbox (status : TaskStatus) : Ended status.toMailbox := by
  cases status with
  | completed => exact .inl rfl
  | failed => exact .inr (.inl rfl)
  | aborted => exact .inr (.inr rfl)

theorem open_or_ended : status = .queued ∨ status = .delivered ∨ Ended status := by
  cases status with
  | queued => exact .inl rfl
  | delivered => exact .inr (.inl rfl)
  | completed => exact .inr (.inr (.inl rfl))
  | failed => exact .inr (.inr (.inr (.inl rfl)))
  | aborted => exact .inr (.inr (.inr (.inr rfl)))

/-- A completion ends an open message, where those that have ended carry its status already. -/
theorem complete_kept (keyed : Keyed MailboxMessage.file mailbox)
    (agrees : ∀ message ∈ mailbox, message.messageId = messageId → Ended message.status →
      message.status = status.toMailbox)
    (completed : complete mailbox messageId status fence = .ok after) : MailKept mailbox after := by
  rcases complete_found completed with rfl | ⟨current, held, own, differs, rfl⟩
  · exact .refl _
  · refine mailKept_put fun other heldOther same => ?_
    rw [keyed other heldOther current held same]
    rcases open_or_ended with queued | delivered | ended
    · exact .queued queued
    · exact .completed delivered (ended_toMailbox status)
    · exact absurd (agrees current held own ended) differs

structure Tidy (world : World) : Prop where
  sound : Sound world
  keyed : Keyed MailboxMessage.file world.mailbox
  named : ∀ stored ∈ world.runs, ∀ intent ∈ stored.run.outbox, WellNamed intent
  distinct : ∀ stored ∈ world.runs, (stored.run.outbox.map OutboxIntent.outboxId).Nodup
  own : ∀ stored ∈ world.runs, ∀ messageId status fence,
    .mailboxComplete messageId status fence ∈ kindsOf stored.run →
      ∃ draft : MailboxMessage, .mailboxEnqueue draft ∈ kindsOf stored.run ∧ draft.messageId = messageId
  published : ∀ stored ∈ world.runs, ∀ intent ∈ stored.run.outbox, intent.status = .published →
    ∀ message, intent.kind = .mailboxEnqueue message → ∃ held ∈ world.mailbox, held.file = message.file
  ended : ∀ message ∈ world.mailbox, Ended message.status → ∃ stored ∈ world.runs,
    stored.run.runId = message.runId ∧ ∃ status fence,
      .mailboxComplete message.messageId status fence ∈ kindsOf stored.run ∧
      message.status = status.toMailbox

/-- The intents of a flush are in the outbox of its run, and what it has handed over is in
the mailbox. -/
structure Underway (world : World) (flush : Flush) : Prop where
  listed : ∃ stored, world.load flush.runId = some stored ∧ ∀ intent ∈ flush.remaining,
    ∃ own ∈ stored.run.outbox, own.outboxId = intent.outboxId ∧ own.kind = intent.kind
  delivered : flush.handed = true → ∀ intent ∈ flush.remaining.head?, ∀ message,
    intent.kind = .mailboxEnqueue message → ∃ held ∈ world.mailbox, held.file = message.file

/-- A run's outbox only gains intents and marks. -/
structure RunKept (before after : MultiAgentRun) : Prop where
  intents : ∀ intent ∈ before.outbox, ∃ later ∈ after.outbox, later.outboxId = intent.outboxId ∧
    later.kind = intent.kind ∧ (intent.status = .published → later.status = .published)

structure WorldKept (before after : World) : Prop where
  runs : ∀ runId stored, before.load runId = some stored →
    ∃ later, after.load runId = some later ∧ RunKept stored.run later.run
  mailbox : MailKept before.mailbox after.mailbox

theorem RunKept.refl (run : MultiAgentRun) : RunKept run run :=
  ⟨fun intent held => ⟨intent, held, rfl, rfl, id⟩⟩

theorem RunKept.trans (left : RunKept first second) (right : RunKept second third) :
    RunKept first third := by
  refine ⟨fun intent held => ?_⟩
  obtain ⟨middle, heldMiddle, name, kind, published⟩ := left.intents intent held
  obtain ⟨later, heldLater, nameLater, kindLater, publishedLater⟩ := right.intents middle heldMiddle
  exact ⟨later, heldLater, nameLater.trans name, kindLater.trans kind, fun was => publishedLater (published was)⟩

theorem runKept_growth {before after : MultiAgentRun} (growth : OutboxGrowth before.outbox after.outbox) :
    RunKept before after :=
  ⟨fun intent held => ⟨intent, grown_keeps growth held, rfl, rfl, id⟩⟩

theorem runKept_mark : RunKept run (markOutboxPublished run outboxId) :=
  ⟨fun _ held => ⟨_, mem_map_of_mem held, publishIntent_outboxId _ _, publishIntent_kind _ _,
    fun published => published_publishIntent (.inl published)⟩⟩

theorem WorldKept.refl (world : World) : WorldKept world world :=
  ⟨fun _ stored loaded => ⟨stored, loaded, .refl _⟩, .refl _⟩

theorem WorldKept.trans (left : WorldKept first second) (right : WorldKept second third) :
    WorldKept first third := by
  refine ⟨fun runId stored loaded => ?_, left.mailbox.trans right.mailbox⟩
  obtain ⟨middle, loadedMiddle, kept⟩ := left.runs runId stored loaded
  obtain ⟨later, loadedLater, further⟩ := right.runs runId middle loadedMiddle
  exact ⟨later, loadedLater, kept.trans further⟩

theorem worldKept_save {next : MultiAgentRun} (loaded : world.load runId = some current)
    (same : next.runId.text = runId) (kept : RunKept current.run next) :
    WorldKept world (world.save { run := next, version := current.version + 1 }) := by
  refine ⟨fun other stored found => ?_, .refl _⟩
  by_cases here : other = runId
  · subst here
    cases loaded.symm.trans found
    refine ⟨{ run := next, version := current.version + 1 }, ?_, kept⟩
    rw [← same]
    exact load_save_self
  · refine ⟨stored, ?_, .refl _⟩
    unfold World.load World.save
    rw [find_put_other (by simpa [StoredRun.runId, same] using Ne.symm here)]
    exact found

theorem mem_save :
    stored ∈ (world.save made).runs ↔ stored = made ∨ stored ∈ world.runs ∧ stored.runId ≠ made.runId :=
  mem_put

theorem draft_of_message (sound : Sound world) (held : message ∈ world.mailbox)
    (loaded : world.load runId = some current) (own : message.runId.text = runId) :
    ∃ draft : MailboxMessage, .mailboxEnqueue draft ∈ kindsOf current.run ∧ draft.messageId = message.messageId := by
  obtain ⟨stored, member, draft, drafted, file⟩ := sound.origins message held
  obtain ⟨heldCurrent, name⟩ := load_mem loaded
  have sameRun : draft.runId = message.runId := congrArg Prod.fst file
  have same : stored = current := by
    apply sound.keyed stored member current heldCurrent
    have origin := (sound.drafts stored member draft drafted).own
    rw [StoredRun.runId, StoredRun.runId, name, ← origin, sameRun, own]
  subst same
  exact ⟨draft, drafted, congrArg Prod.snd file⟩

theorem wellNamed_draft (named : ∀ intent ∈ run.outbox, WellNamed intent)
    (drafted : .mailboxEnqueue draft ∈ kindsOf run) :
    ∃ key, IsHex key ∧ draft.messageId = "msg_" ++ key := by
  obtain ⟨intent, held, kind⟩ := mem_map.mp drafted
  obtain ⟨key, hex, names⟩ := named intent held
  rw [kind] at names
  exact ⟨key, hex, names.2.1⟩

/-- An operation leaves the world tidy, and keeps what is in it. -/
theorem tidy_mutate {action : Action} {next : MultiAgentRun} (hex : HexDigest platform) (tidy : Tidy world)
    (soundNext : Sound (world.save { run := next, version := current.version + 1 }))
    (operation : IsOperation action) (loaded : world.load runId = some current)
    (mutates : Mutates platform graph action runId current.run next)
    (same : next.runId.text = runId)
    (worker : ∀ completion ∈ completionOf action, ∃ message ∈ world.mailbox,
      message.runId.text = runId ∧ message.messageId = completion.messageId) :
    Tidy (world.save { run := next, version := current.version + 1 }) ∧ RunKept current.run next := by
  obtain ⟨sound, keyed, named, distinct, own, published, ended⟩ := tidy
  obtain ⟨heldCurrent, name⟩ := load_mem loaded
  have drafts : ∀ completion ∈ completionOf action, ∃ draft : MailboxMessage,
      .mailboxEnqueue draft ∈ kindsOf current.run ∧ draft.messageId = completion.messageId := by
    intro completion given
    obtain ⟨message, held, inRun, sameId⟩ := worker completion given
    obtain ⟨draft, drafted, draftId⟩ := draft_of_message sound held loaded inRun
    exact ⟨draft, drafted, draftId.trans sameId⟩
  have ownNames : ∀ completion ∈ completionOf action,
      ∃ key, IsHex key ∧ completion.messageId = "msg_" ++ key := by
    intro completion given
    obtain ⟨draft, drafted, draftId⟩ := drafts completion given
    rw [← draftId]
    exact wellNamed_draft (named current heldCurrent) drafted
  obtain ⟨growth, completions⟩ := mutates_growth mutates operation hex (named current heldCurrent) ownNames
  have extended := mutates_extends mutates
  refine ⟨⟨soundNext, keyed, fun stored held => ?_, fun stored held => ?_,
    fun stored held messageId status fence kind => ?_, fun stored held intent heldIntent status => ?_,
    fun message held status => ?_⟩, runKept_growth growth⟩
  · rcases mem_save.mp held with rfl | ⟨held, -⟩
    · exact grown_named growth (named current heldCurrent)
    · exact named stored held
  · rcases mem_save.mp held with rfl | ⟨held, -⟩
    · exact grown_distinct growth (distinct current heldCurrent)
    · exact distinct stored held
  · rcases mem_save.mp held with rfl | ⟨held, -⟩
    · rcases completions messageId status fence kind with old | ⟨completion, given, rfl⟩
      · obtain ⟨draft, drafted, draftId⟩ := own current heldCurrent messageId status fence old
        exact ⟨draft, extended.kept _ drafted, draftId⟩
      · obtain ⟨draft, drafted, draftId⟩ := drafts completion given
        exact ⟨draft, extended.kept _ drafted, draftId⟩
    · exact own stored held messageId status fence kind
  · rcases mem_save.mp held with rfl | ⟨held, -⟩
    · exact published current heldCurrent intent (grown_published growth heldIntent status) status
    · exact published stored held intent heldIntent status
  · obtain ⟨stored, member, sameRun, outcome, fence, kind, is⟩ := ended message held status
    by_cases here : stored.runId = runId
    · have unique : stored = current := sound.keyed stored member current heldCurrent (here.trans name.symm)
      subst unique
      exact ⟨_, mem_save.mpr (.inl rfl), extended.runId.trans sameRun, outcome, fence, extended.kept _ kind, is⟩
    · have apart : stored.runId ≠ next.runId.text := by rwa [same]
      exact ⟨stored, mem_save.mpr (.inr ⟨member, apart⟩), sameRun, outcome, fence, kind, is⟩

theorem tidy_start {runId : NonEmptyString} (tidy : Tidy world)
    (soundNext : Sound (world.save { run, version := 0 })) (fresh : world.load runId.text = none)
    (started : start graph runId = .ok run) :
    Tidy (world.save { run, version := 0 }) ∧ WorldKept world (world.save { run, version := 0 }) := by
  obtain ⟨-, keyed, named, distinct, own, published, ended⟩ := tidy
  have empty : run.outbox = [] := map_eq_nil_iff.mp (start_kinds started)
  have name : run.runId.text = runId.text := congrArg NonEmptyString.text (start_runId started)
  refine ⟨⟨soundNext, keyed, fun stored held => ?_, fun stored held => ?_,
    fun stored held messageId status fence kind => ?_, fun stored held intent heldIntent status => ?_,
    fun message held status => ?_⟩, fun other stored found => ?_, .refl _⟩
  · rcases mem_save.mp held with rfl | ⟨held, -⟩
    · simp [empty]
    · exact named stored held
  · rcases mem_save.mp held with rfl | ⟨held, -⟩
    · simp [empty]
    · exact distinct stored held
  · rcases mem_save.mp held with rfl | ⟨held, -⟩
    · simp [kindsOf, empty] at kind
    · exact own stored held messageId status fence kind
  · rcases mem_save.mp held with rfl | ⟨held, -⟩
    · simp [empty] at heldIntent
    · exact published stored held intent heldIntent status
  · obtain ⟨stored, member, sameRun, rest⟩ := ended message held status
    have apart : stored.runId ≠ run.runId.text := by
      rw [name]
      simpa using find?_eq_none.mp fresh stored member
    exact ⟨stored, mem_save.mpr (.inr ⟨member, apart⟩), sameRun, rest⟩
  · have apart : run.runId.text ≠ other := by
      rintro rfl
      rw [name, fresh] at found
      cases found
    refine ⟨stored, ?_, .refl _⟩
    unfold World.load World.save
    rw [find_put_other (by simpa [StoredRun.runId] using apart)]
    exact found

theorem tidy_mailbox (tidy : Tidy world) (soundNext : Sound { world with mailbox })
    (keyed : Keyed MailboxMessage.file mailbox) (kept : MailKept world.mailbox mailbox)
    (ended : ∀ message ∈ mailbox, Ended message.status → message ∈ world.mailbox ∨
      ∃ stored ∈ world.runs, stored.run.runId = message.runId ∧ ∃ status fence,
        .mailboxComplete message.messageId status fence ∈ kindsOf stored.run ∧
        message.status = status.toMailbox) :
    Tidy { world with mailbox } ∧ WorldKept world { world with mailbox } := by
  refine ⟨⟨soundNext, keyed, tidy.named, tidy.distinct, tidy.own,
    fun stored held intent heldIntent status message kind => ?_, fun message held status => ?_⟩,
    fun _ stored loaded => ⟨stored, loaded, .refl _⟩, kept⟩
  · obtain ⟨old, heldOld, file⟩ := tidy.published stored held intent heldIntent status message kind
    obtain ⟨later, heldLater, fileLater, -⟩ := kept old heldOld
    exact ⟨later, heldLater, fileLater.trans file⟩
  · rcases ended message held status with old | new
    · exact tidy.ended message old status
    · exact new

theorem tidy_operate {next : World} {action : Action} (hex : HexDigest platform) (tidy : Tidy world)
    (operation : IsOperation action) (worker : ByWorker world (.operate action))
    (taken : step platform graph world action = some next) : Tidy next ∧ WorldKept world next := by
  have soundNext := step_sound tidy.sound taken
  cases stepped_of_step taken with
  | start fresh started => exact tidy_start tidy soundNext fresh started
  | @mutate _ runId current made loaded mutates same =>
    have completions : ∀ completion ∈ completionOf action, ∃ message ∈ world.mailbox,
        message.runId.text = runId ∧ message.messageId = completion.messageId := by
      cases mutates with
      | completeTask completed => exact worker
      | handoff applied => simp [completionOf]
      | completeExternal completed => simp [completionOf]
      | mark => exact absurd operation id
    obtain ⟨tidyNext, kept⟩ := tidy_mutate hex tidy soundNext operation loaded mutates same completions
    exact ⟨tidyNext, worldKept_save loaded same kept⟩
  | deliver => exact absurd operation id
  | claim claimed =>
    have kept := claim_kept tidy.keyed claimed
    refine tidy_mailbox tidy soundNext ?_ kept fun message held status => ?_
    · rcases claimNext_ok claimed with ⟨-, rfl⟩ | ⟨queued, delivered, -, -, -, -, rfl⟩
      · exact tidy.keyed
      · exact keyed_put tidy.keyed
    · rcases claimNext_ok claimed with ⟨-, rfl⟩ | ⟨queued, delivered, -, -, -, written, rfl⟩
      · exact .inl held
      · obtain ⟨lease, rfl, -, -⟩ := deliver_ok written
        rcases mem_put.mp held with rfl | ⟨old, -⟩
        · rcases status with kind | kind | kind <;> cases kind
        · exact .inl old

/-- In one outbox a message is completed by one intent. -/
theorem completion_unique (named : ∀ intent ∈ run.outbox, WellNamed intent)
    (distinct : (run.outbox.map OutboxIntent.outboxId).Nodup)
    (first : .mailboxComplete messageId left leftFence ∈ kindsOf run)
    (second : .mailboxComplete messageId right rightFence ∈ kindsOf run) : left = right := by
  obtain ⟨leftIntent, heldLeft, leftKind⟩ := mem_map.mp first
  obtain ⟨rightIntent, heldRight, rightKind⟩ := mem_map.mp second
  obtain ⟨leftKey, -, leftNames⟩ := named leftIntent heldLeft
  obtain ⟨rightKey, -, rightNames⟩ := named rightIntent heldRight
  rw [leftKind] at leftNames
  rw [rightKind] at rightNames
  have same : leftIntent = rightIntent :=
    inj_on_of_nodup_map distinct heldLeft heldRight (leftNames.1.trans rightNames.1.symm)
  rw [same, rightKind] at leftKind
  cases leftKind
  rfl

theorem run_of_message (tidy : Tidy world) (apart : ApartRuns world)
    (heldRun : stored ∈ world.runs) (drafted : .mailboxEnqueue draft ∈ kindsOf stored.run)
    (held : message ∈ world.mailbox) (same : message.messageId = draft.messageId) :
    message.runId = stored.run.runId := by
  obtain ⟨other, member, origin, originated, file⟩ := tidy.sound.origins message held
  have sameId : origin.messageId = draft.messageId := (congrArg Prod.snd file).trans same
  have sameRun := apart other member stored heldRun origin (mem_draftsOf.mpr originated) draft
    (mem_draftsOf.mpr drafted) sameId
  have ownRun := (tidy.sound.drafts stored heldRun draft drafted).own
  rw [← ownRun, ← sameRun]
  exact (congrArg Prod.fst file).symm

theorem tidy_deliver (tidy : Tidy world) (apart : ApartRuns world)
    (soundNext : Sound { world with mailbox }) (loaded : world.load runId = some stored)
    (heldKind : kind ∈ kindsOf stored.run)
    (delivered : deliverIntent world.mailbox kind = .ok mailbox) :
    (Tidy { world with mailbox } ∧ WorldKept world { world with mailbox }) ∧
      ∀ message, kind = .mailboxEnqueue message → ∃ held ∈ mailbox, held.file = message.file := by
  obtain ⟨heldRun, -⟩ := load_mem loaded
  cases kind with
  | mailboxEnqueue incoming =>
    have queued := (tidy.sound.drafts stored heldRun incoming heldKind).queued
    obtain ⟨kept, there⟩ := enqueue_kept tidy.keyed queued delivered
    have keyed : Keyed MailboxMessage.file mailbox := by
      rcases enqueue_ok queued delivered with ⟨-, rfl⟩ | ⟨existing, -, rfl⟩
      all_goals exact keyed_put tidy.keyed
    refine ⟨tidy_mailbox tidy soundNext keyed kept fun message held status => .inl ?_, fun message same => ?_⟩
    · rcases enqueue_ok queued delivered with ⟨-, rfl⟩ | ⟨existing, found, rfl⟩
      · rcases mem_put.mp held with rfl | ⟨old, -⟩
        · rw [queued] at status
          rcases status with kind | kind | kind <;> cases kind
        · exact old
      · rcases mem_put.mp held with rfl | ⟨old, -⟩
        · exact (find_mem found).1
        · exact old
    · cases same
      exact there
  | mailboxComplete messageId status fence =>
    obtain ⟨draft, drafted, draftId⟩ := tidy.own stored heldRun messageId status fence heldKind
    -- a message of this identifier that has ended carries the status of this very intent
    have agrees : ∀ message ∈ world.mailbox, message.messageId = messageId → Ended message.status →
        message.status = status.toMailbox := by
      intro message held own ended
      obtain ⟨other, member, sameRun, outcome, otherFence, completes, is⟩ := tidy.ended message held ended
      have inRun := run_of_message tidy apart heldRun drafted held (own.trans draftId.symm)
      have unique : other = stored :=
        tidy.sound.keyed other member stored heldRun (congrArg NonEmptyString.text (sameRun.trans inRun))
      subst unique
      rw [own] at completes
      rw [is, completion_unique (tidy.named other heldRun) (tidy.distinct other heldRun) completes heldKind]
    have kept := complete_kept tidy.keyed agrees delivered
    have keyed : Keyed MailboxMessage.file mailbox := by
      rcases complete_found delivered with rfl | ⟨current, -, -, -, rfl⟩
      · exact tidy.keyed
      · exact keyed_put tidy.keyed
    refine ⟨tidy_mailbox tidy soundNext keyed kept fun message held ended => ?_, by simp⟩
    rcases complete_found delivered with rfl | ⟨current, known, own, -, rfl⟩
    · exact .inl held
    · rcases mem_put.mp held with rfl | ⟨old, -⟩
      · have inRun := run_of_message tidy apart heldRun drafted known (own.trans draftId.symm)
        exact .inr ⟨stored, heldRun, inRun.symm, status, fence, own ▸ heldKind, rfl⟩
      · exact .inl old

theorem tidy_mark (tidy : Tidy world) (soundNext : Sound (world.save
      { run := markOutboxPublished current.run outboxId, version := current.version + 1 }))
    (loaded : world.load runId = some current)
    (taken : ∀ intent ∈ current.run.outbox, intent.outboxId = outboxId → ∀ message,
      intent.kind = .mailboxEnqueue message → ∃ held ∈ world.mailbox, held.file = message.file) :
    Tidy (world.save { run := markOutboxPublished current.run outboxId, version := current.version + 1 }) ∧
      WorldKept world
        (world.save { run := markOutboxPublished current.run outboxId, version := current.version + 1 }) := by
  obtain ⟨heldCurrent, name⟩ := load_mem loaded
  have kinds : kindsOf (markOutboxPublished current.run outboxId) = kindsOf current.run :=
    markOutboxPublished_kinds _ _
  refine ⟨⟨soundNext, tidy.keyed, fun stored held => ?_, fun stored held => ?_,
    fun stored held messageId status fence kind => ?_, fun stored held intent heldIntent status message kind => ?_,
    fun message held status => ?_⟩, worldKept_save loaded name runKept_mark⟩
  · rcases mem_save.mp held with rfl | ⟨held, -⟩
    · exact mark_named outboxId (tidy.named current heldCurrent)
    · exact tidy.named stored held
  · rcases mem_save.mp held with rfl | ⟨held, -⟩
    · exact mark_distinct outboxId (tidy.distinct current heldCurrent)
    · exact tidy.distinct stored held
  · rcases mem_save.mp held with rfl | ⟨held, -⟩
    · simp only [kinds] at kind ⊢
      exact tidy.own current heldCurrent messageId status fence kind
    · exact tidy.own stored held messageId status fence kind
  · rcases mem_save.mp held with rfl | ⟨held, -⟩
    · obtain ⟨source, heldSource, rfl⟩ := mem_map.mp heldIntent
      rw [publishIntent_kind] at kind
      rcases publishIntent_published status with before | own
      · exact tidy.published current heldCurrent source heldSource before message kind
      · exact taken source heldSource own message kind
    · exact tidy.published stored held intent heldIntent status message kind
  · obtain ⟨stored, member, sameRun, outcome, fence, kind, is⟩ := tidy.ended message held status
    by_cases here : stored.runId = current.runId
    · have unique : stored = current := tidy.sound.keyed stored member current heldCurrent here
      subst unique
      exact ⟨_, mem_save.mpr (.inl rfl), sameRun, outcome, fence, by simp only [kinds]; exact kind, is⟩
    · exact ⟨stored, mem_save.mpr (.inr ⟨member, here⟩), sameRun, outcome, fence, kind, is⟩

structure Delivering (system : System) : Prop where
  tidy : Tidy system.world
  underway : ∀ flush ∈ system.flushes, Underway system.world flush

theorem underway_kept {before after : World} (kept : WorldKept before after)
    (underway : Underway before flush) : Underway after flush := by
  obtain ⟨⟨stored, loaded, listed⟩, delivered⟩ := underway
  obtain ⟨later, found, keptRun⟩ := kept.runs _ stored loaded
  refine ⟨⟨later, found, fun intent held => ?_⟩, fun handed intent first message kind => ?_⟩
  · obtain ⟨own, heldOwn, name, kind⟩ := listed intent held
    obtain ⟨next, heldNext, nameNext, kindNext, -⟩ := keptRun.intents own heldOwn
    exact ⟨next, heldNext, nameNext.trans name, kindNext.trans kind⟩
  · obtain ⟨old, heldOld, file⟩ := delivered handed intent first message kind
    obtain ⟨next, heldNext, fileNext, -⟩ := kept.mailbox old heldOld
    exact ⟨next, heldNext, fileNext.trans file⟩

theorem underway_set {flushes : List Flush} (others : ∀ other ∈ flushes, Underway world other)
    (own : Underway world flush) : ∀ other ∈ flushes.set index flush, Underway world other := by
  intro other held
  rcases mem_or_eq_of_mem_set held with old | rfl
  · exact others other old
  · exact own

theorem delivering_step (hex : HexDigest platform) (delivering : Delivering system)
    (fair : Fair system action) (taken : stepSystem platform graph system action = some next) :
    Delivering next ∧ WorldKept system.world next.world := by
  obtain ⟨tidy, underway⟩ := delivering
  obtain ⟨worker, apart⟩ := fair
  cases systemStep_of_step taken with
  | operated operation stepped =>
    obtain ⟨tidyNext, kept⟩ := tidy_operate hex tidy operation worker stepped
    exact ⟨⟨tidyNext, fun flush held => underway_kept kept (underway flush held)⟩, kept⟩
  | @begun runId stored loaded =>
    refine ⟨⟨tidy, fun flush held => ?_⟩, .refl _⟩
    rcases mem_append.mp held with old | new
    · exact underway flush old
    · cases mem_singleton.mp new
      refine ⟨⟨stored, loaded, fun intent pending => ?_⟩, by simp⟩
      exact ⟨intent, (mem_filter.mp pending).1, rfl, rfl⟩
  | @handed index runId intent rest mailbox found delivered =>
    obtain ⟨⟨stored, loaded, listed⟩, -⟩ := underway _ (mem_of_getElem? found)
    obtain ⟨own, heldOwn, -, kind⟩ := listed intent (by simp)
    have heldKind : intent.kind ∈ kindsOf stored.run := kind ▸ mem_map_of_mem heldOwn
    have stepped : step platform graph system.world (.deliver runId intent.kind) =
        some { system.world with mailbox } := by
      unfold kindsOf at heldKind
      simp [step, loaded, heldKind, delivered, MultiAgentInterleavings.kept, Except.map]
    obtain ⟨⟨tidyNext, kept⟩, there⟩ :=
      tidy_deliver tidy apart (step_sound tidy.sound stepped) loaded heldKind delivered
    refine ⟨⟨tidyNext, underway_set (fun flush held => underway_kept kept (underway flush held)) ?_⟩, kept⟩
    refine ⟨(underway_kept kept (underway _ (mem_of_getElem? found))).listed, ?_⟩
    rintro - first ⟨⟩ message enqueues
    exact there message enqueues
  | @marked index runId intent rest current found loaded safe =>
    obtain ⟨⟨stored, known, listed⟩, delivered⟩ := underway _ (mem_of_getElem? found)
    cases loaded.symm.trans known
    obtain ⟨heldCurrent, name⟩ := load_mem loaded
    have stepped : step platform graph system.world (.mark runId intent.outboxId) = some (system.world.save
        { run := markOutboxPublished current.run intent.outboxId, version := current.version + 1 }) := by
      have written := @update_of_mutate _ _ _ _ (fun run => .ok (markOutboxPublished run intent.outboxId))
        safe loaded rfl name
      simp only [step, written]
      rfl
    have taken : ∀ other ∈ current.run.outbox, other.outboxId = intent.outboxId → ∀ message,
        other.kind = .mailboxEnqueue message → ∃ held ∈ system.world.mailbox, held.file = message.file := by
      intro other held same message enqueues
      obtain ⟨own, heldOwn, nameOwn, kind⟩ := listed intent (by simp)
      have unique : other = own :=
        inj_on_of_nodup_map (tidy.distinct current heldCurrent) held heldOwn (same.trans nameOwn.symm)
      rw [unique, kind] at enqueues
      exact delivered rfl intent rfl message enqueues
    obtain ⟨tidyNext, kept⟩ := tidy_mark tidy (step_sound tidy.sound stepped) loaded taken
    refine ⟨⟨tidyNext, underway_set (fun flush held => underway_kept kept (underway flush held)) ?_⟩, kept⟩
    obtain ⟨⟨later, foundLater, listedLater⟩, -⟩ := underway_kept kept (underway _ (mem_of_getElem? found))
    exact ⟨⟨later, foundLater, fun other held => listedLater other (mem_cons_of_mem _ held)⟩, by simp⟩

/-- An intent of the run that is marked, whatever else became of the run. -/
def IsPublished (world : World) (runId : String) (intent : OutboxIntent) : Prop :=
  ∃ stored, world.load runId = some stored ∧ ∃ own ∈ stored.run.outbox,
    own.outboxId = intent.outboxId ∧ own.kind = intent.kind ∧ own.status = .published

theorem isPublished_kept {before after : World} (kept : WorldKept before after)
    (published : IsPublished before runId intent) : IsPublished after runId intent := by
  obtain ⟨stored, loaded, own, held, name, kind, status⟩ := published
  obtain ⟨later, found, keptRun⟩ := kept.runs runId stored loaded
  obtain ⟨next, heldNext, nameNext, kindNext, statusNext⟩ := keptRun.intents own held
  exact ⟨later, found, next, heldNext, nameNext.trans name, kindNext.trans kind, statusNext status⟩

/-- The flush that began with the intents: some of them are published, and the rest remain. -/
structure Tracked (system : System) (index : Nat) (runId : String) (intents : List OutboxIntent) : Prop where
  here : ∃ done flush, system.flushes[index]? = some flush ∧ flush.runId = runId ∧
    intents = done ++ flush.remaining ∧ ∀ intent ∈ done, IsPublished system.world runId intent

theorem tracked_step (delivering : Delivering system)
    (tracked : Tracked system index runId intents) (kept : WorldKept system.world next.world)
    (taken : stepSystem platform graph system action = some next) :
    Tracked next index runId intents := by
  obtain ⟨done, flush, found, own, split, published⟩ := tracked.here
  have still : ∀ intent ∈ done, IsPublished next.world runId intent :=
    fun intent held => isPublished_kept kept (published intent held)
  cases systemStep_of_step taken with
  | operated operation stepped => exact ⟨done, flush, found, own, split, still⟩
  | begun loaded =>
    refine ⟨done, flush, ?_, own, split, still⟩
    rw [List.getElem?_append_left (List.getElem?_eq_some_iff.mp found).1]
    exact found
  | @handed other name intent rest mailbox foundOther delivered =>
    by_cases here : other = index
    · subst here
      rw [foundOther] at found
      cases found
      refine ⟨done, { runId := name, remaining := intent :: rest, handed := true }, ?_, own, split, still⟩
      exact List.getElem?_set_self (List.getElem?_eq_some_iff.mp foundOther).1
    · exact ⟨done, flush, by rw [getElem?_set_ne here]; exact found, own, split, still⟩
  | @marked other name intent rest current foundOther loaded safe =>
    by_cases here : other = index
    · subst here
      rw [foundOther] at found
      cases found
      cases own
      obtain ⟨⟨stored, known, listed⟩, -⟩ := delivering.underway _ (mem_of_getElem? foundOther)
      cases loaded.symm.trans known
      obtain ⟨source, heldSource, sourceName, sourceKind⟩ := listed intent (by simp)
      have marked : IsPublished (system.world.save
          { run := markOutboxPublished current.run intent.outboxId, version := current.version + 1 })
          name intent := by
        obtain ⟨-, runName⟩ := load_mem loaded
        refine ⟨{ run := markOutboxPublished current.run intent.outboxId, version := current.version + 1 },
          ?_, publishIntent intent.outboxId source, mem_map_of_mem heldSource, ?_, ?_, ?_⟩
        · rw [← runName]
          exact load_save_self
        · rw [publishIntent_outboxId, sourceName]
        · rw [publishIntent_kind, sourceKind]
        · exact published_publishIntent (.inr sourceName)
      refine ⟨done ++ [intent], _, List.getElem?_set_self (List.getElem?_eq_some_iff.mp foundOther).1, rfl,
        by simp [split], fun intent held => ?_⟩
      rcases mem_append.mp held with old | new
      · exact still intent old
      · cases mem_singleton.mp new
        exact marked
    · exact ⟨done, flush, by rw [getElem?_set_ne here]; exact found, own, split, still⟩

theorem delivering_run (hex : HexDigest platform) (delivering : Delivering system)
    (fair : Along (stepSystem platform graph) Fair system actions)
    (ran : runActions (stepSystem platform graph) system actions = some final) :
    Delivering final ∧ WorldKept system.world final.world := by
  have kept := @invariant_run _ _ (stepSystem platform graph) Fair
    (fun state => Delivering state ∧ WorldKept system.world state.world)
    (fun state action next holds fair taken => by
      obtain ⟨deliveringNext, keptNext⟩ := delivering_step hex holds.1 fair taken
      exact ⟨deliveringNext, holds.2.trans keptNext⟩) actions system final
    ⟨delivering, .refl _⟩ fair ran
  exact kept

theorem tracked_run (hex : HexDigest platform) (delivering : Delivering system)
    (tracked : Tracked system index runId intents)
    (fair : Along (stepSystem platform graph) Fair system actions)
    (ran : runActions (stepSystem platform graph) system actions = some final) :
    Tracked final index runId intents := by
  have kept := @invariant_run _ _ (stepSystem platform graph) Fair
    (fun state => Delivering state ∧ Tracked state index runId intents)
    (fun state action next holds fair taken => by
      obtain ⟨deliveringNext, keptNext⟩ := delivering_step hex holds.1 fair taken
      exact ⟨deliveringNext, tracked_step holds.1 holds.2 keptNext taken⟩) actions system final
    ⟨delivering, tracked⟩ fair ran
  exact kept.2

theorem delivering_empty : Delivering {} where
  tidy := {
    sound := ⟨by simp [Keyed], by simp, by simp⟩
    keyed := by simp [Keyed]
    named := by simp
    distinct := by simp
    own := by simp
    published := by simp
    ended := by simp }
  underway := by simp

/-- In every state that the system reaches, wherever its flushes have stopped, each message of the
mailbox was drafted by a run and has ended only as a run's own intent says, and the message of a
published intent is there, once. -/
theorem mailbox_backed (platform : Platform) (graph : AgentGraph) (hex : HexDigest platform)
    (actions : List SystemAction) (final : System)
    (fair : Along (stepSystem platform graph) Fair {} actions)
    (ran : runActions (stepSystem platform graph) {} actions = some final) :
    (∀ message ∈ final.world.mailbox, ∃ stored ∈ final.world.runs, stored.run.runId = message.runId ∧
      (∃ draft ∈ draftsOf stored.run, draft.messageId = message.messageId) ∧
        (Ended message.status → ∃ status fence, message.status = status.toMailbox ∧
          .mailboxComplete message.messageId status fence ∈ kindsOf stored.run)) ∧
      ∀ stored ∈ final.world.runs, (stored.run.outbox.map OutboxIntent.outboxId).Nodup ∧
        ∀ intent ∈ stored.run.outbox, intent.status = .published → ∀ message,
          intent.kind = .mailboxEnqueue message →
            ∃! held, held ∈ final.world.mailbox ∧ held.file = message.file := by
  have tidy := (delivering_run hex delivering_empty fair ran).1.tidy
  refine ⟨fun message held => ?_, fun stored member => ⟨tidy.distinct stored member, ?_⟩⟩
  · obtain ⟨stored, member, draft, drafted, file⟩ := tidy.sound.origins message held
    have own := (tidy.sound.drafts stored member draft drafted).own
    have sameRun : stored.run.runId = message.runId := own.symm.trans (congrArg Prod.fst file)
    refine ⟨stored, member, sameRun, ⟨draft, mem_draftsOf.mpr drafted, congrArg Prod.snd file⟩, ?_⟩
    intro ended
    obtain ⟨other, memberOther, otherRun, status, fence, intended, same⟩ := tidy.ended message held ended
    have one : other = stored := by
      apply tidy.sound.keyed other memberOther stored member
      rw [StoredRun.runId, StoredRun.runId, otherRun, sameRun]
    exact ⟨status, fence, same, one ▸ intended⟩
  · intro intent listed published message kind
    obtain ⟨held, inside, file⟩ := tidy.published stored member intent listed published message kind
    refine ⟨held, ⟨inside, file⟩, fun other found => ?_⟩
    exact tidy.keyed other found.1 held inside (found.2.trans file.symm)

/-- A flush begins at any time of any run of the system, and when it has run to its end, every
intent that was pending is published, the mailbox has exactly one message for each intent that
enqueues, and every message is still there, at least as far as the workers had brought it. -/
theorem outbox_delivered (platform : Platform) (graph : AgentGraph) (hex : HexDigest platform)
    (earlier later : List SystemAction) (runId : String) (begun started ended : System)
    (fair : Along (stepSystem platform graph) Fair {} (earlier ++ .begin runId :: later))
    (ranEarlier : runActions (stepSystem platform graph) {} earlier = some begun)
    (begins : stepSystem platform graph begun (.begin runId) = some started)
    (ranLater : runActions (stepSystem platform graph) started later = some ended)
    (finished : ended.flushes[begun.flushes.length]? = some { runId, remaining := [] }) :
    ∃ stored, begun.world.load runId = some stored ∧
      (∀ intent ∈ stored.run.outbox, IsPublished ended.world runId intent) ∧
      (∀ intent ∈ stored.run.outbox, ∀ message, intent.kind = .mailboxEnqueue message →
        ∃! held, held ∈ ended.world.mailbox ∧ held.file = message.file) ∧
      ∀ message ∈ begun.world.mailbox, ∃ held ∈ ended.world.mailbox,
        held.file = message.file ∧ Progressed message held := by
  obtain ⟨fairEarlier, fairBegin⟩ := along_append earlier fair ranEarlier
  obtain ⟨fairHere, fairLater⟩ := fairBegin
  rw [begins] at fairLater
  obtain ⟨deliveringBegun, -⟩ := delivering_run hex delivering_empty fairEarlier ranEarlier
  obtain ⟨deliveringStarted, keptStarted⟩ := delivering_step hex deliveringBegun fairHere begins
  obtain ⟨deliveringEnded, keptLater⟩ := delivering_run hex deliveringStarted fairLater ranLater
  have kept := keptStarted.trans keptLater
  cases systemStep_of_step begins with
  | @begun _ stored loaded =>
    have tracked : Tracked { begun with flushes := begun.flushes ++
        [{ runId, remaining := MultiAgentRun.pendingIntents stored.run }] } begun.flushes.length runId
        (MultiAgentRun.pendingIntents stored.run) :=
      ⟨[], { runId, remaining := MultiAgentRun.pendingIntents stored.run }, by simp, rfl, rfl, by simp⟩
    obtain ⟨done, flush, found, -, split, published⟩ :=
      (tracked_run hex deliveringStarted tracked fairLater ranLater).here
    rw [finished] at found
    cases found
    have allPublished : ∀ intent ∈ stored.run.outbox, IsPublished ended.world runId intent := by
      intro intent held
      by_cases pending : intent.status = .pending
      · have due : intent ∈ MultiAgentRun.pendingIntents stored.run :=
          mem_filter.mpr ⟨held, by simpa using pending⟩
        rw [split, append_nil] at due
        exact published intent due
      · have already : intent.status = .published := by
          cases status : intent.status with
          | pending => exact absurd status pending
          | published => rfl
        exact isPublished_kept kept ⟨stored, loaded, intent, held, rfl, rfl, already⟩
    refine ⟨stored, loaded, allPublished, fun intent held message enqueues => ?_, kept.mailbox⟩
    obtain ⟨final, loadedFinal, own, heldOwn, -, kind, status⟩ := allPublished intent held
    obtain ⟨task, heldTask, file⟩ := deliveringEnded.tidy.published final (load_mem loadedFinal).1 own
      heldOwn status message (kind.trans enqueues)
    refine ⟨task, ⟨heldTask, file⟩, fun other ⟨heldOther, fileOther⟩ => ?_⟩
    exact deliveringEnded.tidy.keyed other heldOther task heldTask (fileOther.trans file.symm)

/-- A platform with one digest. -/
def hexPlatform : Platform where
  sha256Hex := fun _ => "00"
  localeCompare := compare
  stackDepth := 1000

/-- A flush stops after the mailbox has its task, and the researcher claims it. -/
def stoppedFlush : List SystemAction := [ .operate (.start (named "mar_1")),
  .operate (.handoff (handsOver "draft") "t1"),
  .begin "mar_1",
  .hand 0,
  .operate (.claimNext "researcher" none 0 (named "token"))]

theorem mailbox_backed_after_claim : ∃ final,
    runActions (stepSystem hexPlatform researchLoop.graph) {} stoppedFlush = some final ∧
      ∀ message ∈ final.world.mailbox, ∃ stored ∈ final.world.runs,
        ∃ draft ∈ draftsOf stored.run, draft.messageId = message.messageId := by
  obtain ⟨final, ran⟩ := Option.isSome_iff_exists.mp
    (show (runActions (stepSystem hexPlatform researchLoop.graph) {} stoppedFlush).isSome by decide +kernel)
  have hex : HexDigest hexPlatform := fun _ => show IsHex "00" by decide
  refine ⟨final, ran, fun message held => ?_⟩
  have backed := mailbox_backed hexPlatform researchLoop.graph hex stoppedFlush final (by decide +kernel) ran
  obtain ⟨stored, member, -, drafted, -⟩ := backed.1 message held
  exact ⟨stored, member, drafted⟩

theorem outbox_delivered_after_stop :
    ∃ (begun ended : System) (stored : StoredRun), runActions (stepSystem hexPlatform researchLoop.graph) {} stoppedFlush = some begun ∧
      begun.world.load "mar_1" = some stored ∧
      (∀ intent ∈ stored.run.outbox, IsPublished ended.world "mar_1" intent) ∧
      ∀ message ∈ begun.world.mailbox, ∃ held ∈ ended.world.mailbox,
        held.file = message.file ∧ Progressed message held := by
  have hex : HexDigest hexPlatform := by
    have digits : IsHex "00" := by decide
    exact fun _ => digits
  obtain ⟨begun, ranEarlier⟩ := Option.isSome_iff_exists.mp
    (show (runActions (stepSystem hexPlatform researchLoop.graph) {} stoppedFlush).isSome by decide +kernel)
  have whole : ((runActions (stepSystem hexPlatform researchLoop.graph) {} stoppedFlush).bind fun begun =>
      (stepSystem hexPlatform researchLoop.graph begun (.begin "mar_1")).bind fun started =>
        (runActions (stepSystem hexPlatform researchLoop.graph) started [.hand 1, .mark 1]).map fun ended =>
          decide (ended.flushes[begun.flushes.length]? = some { runId := "mar_1", remaining := [] })) =
      some true := by
    decide +kernel
  rw [ranEarlier, Option.bind_some] at whole
  obtain ⟨started, begins, rest⟩ := Option.bind_eq_some_iff.mp whole
  obtain ⟨ended, ranLater, finished⟩ := Option.map_eq_some_iff.mp rest
  obtain ⟨stored, loaded, published, -, progressed⟩ := outbox_delivered hexPlatform researchLoop.graph hex
    stoppedFlush [.hand 1, .mark 1] "mar_1" begun started ended (by decide +kernel) ranEarlier begins ranLater
    (of_decide_eq_true finished)
  exact ⟨begun, ended, stored, ranEarlier, loaded, published, progressed⟩

end QiongQi.OutboxDelivery
