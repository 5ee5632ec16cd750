import Mathlib.Data.List.Nodup
import QiongQi.ActiveAgents

/-! `flushAllPendingOutbox`: the runs with pending intents are flushed one after another, in
the order in which the store lists them, through whatever mailbox the runtime was given. -/
namespace QiongQi.OutboxFlushes
open AgentGraphs Mailboxes MultiAgentRuns MultiAgentStores ActiveAgents Machines RuntimeContracts
open List hiding after head
open MultiAgentInterleavings (markOutboxPublished_kinds)

/-- How the mailbox takes an intent of a run. -/
abbrev Publisher := String → OutboxIntent → Mailbox → Except Thrown Mailbox

/-- The stores, with the intents that the mailbox has taken so far. -/
structure Flushing where
  world : World
  published : List (String × OutboxIntent) := []

def publishToFiles : Publisher := fun _ intent mailbox => deliverIntent mailbox intent.kind

def flushIntentsWith (publish : Publisher) (runId : String) :
    List OutboxIntent → MultiAgentRun → Flushing → Flushing × Except Thrown MultiAgentRun
  | [], latest, flushing => (flushing, .ok latest)
  | intent :: rest, _, flushing =>
    match publish runId intent flushing.world.mailbox with
    | .error thrown => (flushing, .error thrown)
    | .ok mailbox =>
      let delivered : Flushing :=
        { world := { flushing.world with mailbox }
          published := flushing.published ++ [(runId, intent)] }
      match update delivered.world runId fun run => .ok (markOutboxPublished run intent.outboxId) with
      | .error thrown => (delivered, .error thrown)
      | .ok (latest, world) => flushIntentsWith publish runId rest latest { delivered with world }

def flushRunWith (publish : Publisher) (flushing : Flushing) (runId : String) :
    Flushing × Except Thrown MultiAgentRun :=
  match flushing.world.load runId with
  | none => (flushing, .error (.error ("MultiAgentRun not found: " ++ runId)))
  | some current =>
    flushIntentsWith publish runId (MultiAgentRun.pendingIntents current.run) current.run flushing

/-- The first run that throws ends the flush. -/
def flushRuns (publish : Publisher) :
    List String → Flushing → Flushing × Except Thrown (List MultiAgentRun)
  | [], flushing => (flushing, .ok [])
  | runId :: rest, flushing =>
    match flushRunWith publish flushing runId with
    | (after, .error thrown) => (after, .error thrown)
    | (after, .ok run) =>
      match flushRuns publish rest after with
      | (final, .error thrown) => (final, .error thrown)
      | (final, .ok flushed) => (final, .ok (run :: flushed))

def listWithPendingOutbox (world : World) : List StoredRun :=
  world.runs.filter fun stored => stored.run.outbox.any fun intent => intent.status = .pending

/-- `order` sorts the listed runs by the text of their `createdAt`. -/
def flushAllPendingOutbox (publish : Publisher) (order : List StoredRun → List StoredRun)
    (world : World) : Flushing × Except Thrown (List MultiAgentRun) :=
  flushRuns publish ((order (listWithPendingOutbox world)).map StoredRun.runId) { world }

/-- Which intents the mailbox refuses, whatever it holds. -/
structure Refuses (publish : Publisher) (throws : String → OutboxIntent → Bool) : Prop where
  thrown : ∀ runId intent mailbox, throws runId intent = true →
    ∃ thrown, publish runId intent mailbox = .error thrown
  taken : ∀ runId intent mailbox, throws runId intent = false →
    ∃ after, publish runId intent mailbox = .ok after

/-- Every pending intent of the run was taken by the mailbox, and none is pending any more. -/
structure Delivered (before : World) (flushing : Flushing) (runId : String) : Prop where
  taken : ∀ stored, before.load runId = some stored →
    ∀ intent ∈ MultiAgentRun.pendingIntents stored.run, (runId, intent) ∈ flushing.published
  marked : ∀ stored, before.load runId = some stored → ∃ flushed,
    flushing.world.load runId = some flushed ∧ MultiAgentRun.pendingIntents flushed.run = [] ∧
    flushed.run.outbox.map OutboxIntent.kind = stored.run.outbox.map OutboxIntent.kind

/-- No pending intent of the run is refused. -/
def Healthy (throws : String → OutboxIntent → Bool) (world : World) (runId : String) : Prop :=
  ∀ stored, world.load runId = some stored →
    ∀ intent ∈ MultiAgentRun.pendingIntents stored.run, throws runId intent = false

variable {publish : Publisher} {throws : String → OutboxIntent → Bool} {runId : String}
variable {stored : StoredRun} {other : String} {flushing : Flushing}

example : flushIntentsWith publish runId [] latest flushing = (flushing, .ok latest) := by
  unfold flushIntentsWith
  rfl

theorem load_save_other {world : World} (apart : other ≠ stored.run.runId.text) :
    (world.save stored).load other = world.load other := by
  unfold World.load World.save
  exact find_put_other (Ne.symm apart)

theorem flushIntentsWith_other (apart : other ≠ runId) :
    ∀ {latest : MultiAgentRun} {flushing : Flushing},
      (flushIntentsWith publish runId intents latest flushing).1.world.load other =
        flushing.world.load other := by
  induction intents with
  | nil => exact rfl
  | cons intent rest ih =>
    intro latest flushing
    unfold flushIntentsWith
    cases publish runId intent flushing.world.mailbox with
    | error thrown => rfl
    | ok mailbox =>
      simp only
      cases written : update { flushing.world with mailbox } runId
          fun run => .ok (markOutboxPublished run intent.outboxId) with
      | error thrown => rfl
      | ok result =>
        obtain ⟨next, saved⟩ := result
        obtain ⟨current, -, -, named, -, rfl⟩ := update_ok written
        simp only
        rw [ih]
        exact load_save_other (by rw [named]; exact apart)

theorem flushIntentsWith_log :
    ∀ {latest : MultiAgentRun} {flushing : Flushing}, ∀ entry ∈ flushing.published,
      entry ∈ (flushIntentsWith publish runId intents latest flushing).1.published := by
  induction intents with
  | nil => exact fun _ held => held
  | cons intent rest ih =>
    intro latest flushing entry held
    unfold flushIntentsWith
    cases publish runId intent flushing.world.mailbox with
    | error thrown => exact held
    | ok mailbox =>
      simp only
      cases update { flushing.world with mailbox } runId
          fun run => .ok (markOutboxPublished run intent.outboxId) with
      | error thrown => exact mem_append_left _ held
      | ok result => exact ih entry (mem_append_left _ held)

/-- An outbox after a mark: what was pending, less what has the identifier. -/
theorem pendingIntents_mark : MultiAgentRun.pendingIntents (markOutboxPublished run outboxId) =
      (MultiAgentRun.pendingIntents run).filter fun intent => intent.outboxId ≠ outboxId := by
  unfold MultiAgentRun.pendingIntents markOutboxPublished
  induction run.outbox with
  | nil => rfl
  | cons intent rest ih =>
    simp only [map_cons, filter_cons] at ih ⊢
    unfold publishIntent at ih ⊢
    by_cases named : intent.outboxId = outboxId <;> by_cases pending : intent.status = .pending <;>
      simp [named, pending, ih]

section
variable (refuses : Refuses publish throws)
include refuses

theorem flushIntentsWith_taken
    (safe : safeSegment runId "runId" = .ok runId) (intents : List OutboxIntent) :
    ∀ {latest : MultiAgentRun} {flushing : Flushing} {stored : StoredRun},
      (∀ intent ∈ intents, throws runId intent = false) → flushing.world.load runId = some stored →
      (∃ run, (flushIntentsWith publish runId intents latest flushing).2 = .ok run) ∧ (∀ intent ∈ intents,
          (runId, intent) ∈ (flushIntentsWith publish runId intents latest flushing).1.published) ∧
        ∃ flushed, (flushIntentsWith publish runId intents latest flushing).1.world.load runId = some flushed ∧
          MultiAgentRun.pendingIntents flushed.run = (MultiAgentRun.pendingIntents stored.run).filter
            (fun intent => intent.outboxId ∉ intents.map OutboxIntent.outboxId) ∧
          flushed.run.outbox.map OutboxIntent.kind = stored.run.outbox.map OutboxIntent.kind := by
  induction intents with
  | nil => exact fun _ loaded => ⟨⟨_, rfl⟩, by simp, _, loaded, by simp, rfl⟩
  | cons intent rest ih =>
    intro latest flushing stored taken loaded
    obtain ⟨mailbox, handed⟩ := refuses.taken runId intent flushing.world.mailbox (taken intent (by simp))
    obtain ⟨-, own⟩ := load_mem loaded
    let marked : StoredRun :=
      { run := markOutboxPublished stored.run intent.outboxId, version := stored.version + 1 }
    have written : update { flushing.world with mailbox } runId
        (fun run => .ok (markOutboxPublished run intent.outboxId)) =
          .ok (marked.run, World.save { flushing.world with mailbox } marked) :=
      update_of_mutate safe loaded rfl own
    have found : (World.save { flushing.world with mailbox } marked).load runId = some marked := by
      rw [← own]
      exact load_save_self
    simp only [flushIntentsWith, handed, written]
    obtain ⟨finished, logged, flushed, final, pending, kinds⟩ :=
      @ih marked.run
        { world := World.save { flushing.world with mailbox } marked
          published := flushing.published ++ [(runId, intent)] }
        marked (fun other held => taken other (mem_cons_of_mem _ held)) found
    refine ⟨finished, fun other held => ?_, flushed, final, ?_, kinds.trans (markOutboxPublished_kinds _ _)⟩
    · rcases mem_cons.mp held with rfl | held
      · exact flushIntentsWith_log _ (by simp)
      · exact logged other held
    · rw [pending, pendingIntents_mark, filter_filter]
      apply filter_congr
      intro other _
      simp [Bool.and_comm]

theorem flushIntentsWith_thrown (intents : List OutboxIntent) :
    ∀ {latest : MultiAgentRun} {flushing : Flushing}, (∃ intent ∈ intents, throws runId intent = true) →
      ∃ thrown, (flushIntentsWith publish runId intents latest flushing).2 = .error thrown := by
  induction intents with
  | nil => simp
  | cons intent rest ih =>
    rintro latest flushing ⟨bad, held, throwing⟩
    unfold flushIntentsWith
    cases handed : publish runId intent flushing.world.mailbox with
    | error thrown => exact ⟨thrown, rfl⟩
    | ok mailbox =>
      simp only
      cases update { flushing.world with mailbox } runId
          fun run => .ok (markOutboxPublished run intent.outboxId) with
      | error thrown => exact ⟨thrown, rfl⟩
      | ok result =>
        rcases mem_cons.mp held with rfl | held
        · obtain ⟨thrown, refused⟩ := refuses.thrown runId bad flushing.world.mailbox throwing
          rw [refused] at handed
          cases handed
        · exact ih ⟨bad, held, throwing⟩

theorem flushRunWith_healthy (safe : safeSegment runId "runId" = .ok runId)
    (loaded : flushing.world.load runId = some stored)
    (healthy : Healthy throws flushing.world runId) :
    (∃ run, (flushRunWith publish flushing runId).2 = .ok run) ∧
      Delivered flushing.world (flushRunWith publish flushing runId).1 runId := by
  have taken := healthy stored loaded
  obtain ⟨finished, logged, flushed, final, pending, kinds⟩ :=
    @flushIntentsWith_taken publish throws runId refuses safe _ stored.run flushing stored taken loaded
  simp only [flushRunWith, loaded]
  refine ⟨finished, ⟨fun other known => ?_, fun other known => ?_⟩⟩
  · cases loaded.symm.trans known
    exact logged
  · cases loaded.symm.trans known
    refine ⟨flushed, final, ?_, kinds⟩
    rw [pending, filter_eq_nil_iff]
    intro intent held
    simpa using ⟨intent, held, rfl⟩

theorem flushRunWith_unhealthy (unhealthy : ¬ Healthy throws flushing.world runId) :
    ∃ thrown, (flushRunWith publish flushing runId).2 = .error thrown := by
  unfold Healthy at unhealthy
  push Not at unhealthy
  obtain ⟨stored, loaded, bad, held, throwing⟩ := unhealthy
  simp only [flushRunWith, loaded]
  exact flushIntentsWith_thrown refuses _ ⟨bad, held, by simpa using throwing⟩

end

theorem flushRunWith_other (apart : other ≠ runId) :
    (flushRunWith publish flushing runId).1.world.load other = flushing.world.load other := by
  unfold flushRunWith
  split
  · rfl
  · exact flushIntentsWith_other apart

theorem flushRunWith_log : ∀ entry ∈ flushing.published,
    entry ∈ (flushRunWith publish flushing runId).1.published := by
  intro entry held
  unfold flushRunWith
  split
  · exact held
  · exact flushIntentsWith_log entry held

theorem flushRuns_other : ∀ {flushing : Flushing}, other ∉ runs →
      (flushRuns publish runs flushing).1.world.load other = flushing.world.load other := by
  induction runs with
  | nil => exact fun _ => rfl
  | cons runId rest ih =>
    intro flushing absent
    have step : (flushRunWith publish flushing runId).1.world.load other = flushing.world.load other :=
      flushRunWith_other fun same => absent (same ▸ mem_cons_self)
    have later := @ih (flushRunWith publish flushing runId).1 fun held => absent (mem_cons_of_mem _ held)
    unfold flushRuns
    split
    · rename_i ended
      rw [ended] at step
      exact step
    · rename_i flushed
      rw [flushed] at step later
      split
      all_goals
        rename_i ended
        rw [ended] at later
        exact later.trans step

theorem flushRuns_log : ∀ {flushing : Flushing}, ∀ entry ∈ flushing.published,
    entry ∈ (flushRuns publish runs flushing).1.published := by
  induction runs with
  | nil => exact fun _ held => held
  | cons runId rest ih =>
    intro flushing entry held
    have step := @flushRunWith_log publish runId flushing entry held
    have later := @ih (flushRunWith publish flushing runId).1 entry step
    unfold flushRuns
    split
    · rename_i ended
      rwa [ended] at step
    · rename_i flushed
      rw [flushed] at later
      split
      all_goals
        rename_i ended
        rwa [ended] at later

theorem delivered_later (delivered : Delivered before flushing runId)
    (same : later.world.load runId = flushing.world.load runId)
    (logged : ∀ entry ∈ flushing.published, entry ∈ later.published) :
    Delivered before later runId := by
  refine ⟨fun stored loaded intent held => logged _ (delivered.taken stored loaded intent held), ?_⟩
  intro stored loaded
  obtain ⟨flushed, found, marked⟩ := delivered.marked stored loaded
  exact ⟨flushed, same.trans found, marked⟩

theorem healthy_congr (same : after.load runId = before.load runId) :
    Healthy throws after runId ↔ Healthy throws before runId := by
  unfold Healthy
  rw [same]

theorem flushRuns_cons_ok (finished : ∃ run, (flushRunWith publish flushing runId).2 = .ok run) :
    (flushRuns publish (runId :: runs) flushing).1 =
      (flushRuns publish runs (flushRunWith publish flushing runId).1).1 := by
  obtain ⟨run, ok⟩ := finished
  have whole : flushRunWith publish flushing runId = ((flushRunWith publish flushing runId).1, .ok run) :=
    Prod.ext rfl ok
  rw [flushRuns, whole]
  simp only
  split
  all_goals
    rename_i ended
    rw [ended]

theorem flushRuns_cons_error
    (refused : ∃ thrown, (flushRunWith publish flushing runId).2 = .error thrown) :
    (flushRuns publish (runId :: runs) flushing).1 = (flushRunWith publish flushing runId).1 := by
  obtain ⟨thrown, error⟩ := refused
  have whole : flushRunWith publish flushing runId =
      ((flushRunWith publish flushing runId).1, .error thrown) := Prod.ext rfl error
  rw [flushRuns, whole]

/-- The healthy runs before the first that throws are flushed; no other healthy run is touched. -/
theorem flushRuns_reaches (refuses : Refuses publish throws) (runs : List String) :
    ∀ {flushing : Flushing}, runs.Nodup → (∀ runId ∈ runs, safeSegment runId "runId" = .ok runId ∧
        ∃ stored, flushing.world.load runId = some stored) →
      ∀ front runId back, runs = front ++ runId :: back → Healthy throws flushing.world runId →
        ((∀ earlier ∈ front, Healthy throws flushing.world earlier) →
            Delivered flushing.world (flushRuns publish runs flushing).1 runId) ∧
          ((∃ earlier ∈ front, ¬ Healthy throws flushing.world earlier) →
            (flushRuns publish runs flushing).1.world.load runId = flushing.world.load runId) := by
  induction runs with
  | nil =>
    intro flushing _ _ front runId back split
    simp at split
  | cons head rest ih =>
    intro flushing distinct known front runId back split healthy
    obtain ⟨fresh, distinctRest⟩ := nodup_cons.mp distinct
    obtain ⟨safeHead, stored, loaded⟩ := known head (by simp)
    cases front with
    | nil =>
      obtain ⟨rfl, rfl⟩ := List.cons.inj split
      refine ⟨fun _ => ?_, by simp⟩
      obtain ⟨finished, delivered⟩ := flushRunWith_healthy refuses safeHead loaded healthy
      rw [flushRuns_cons_ok finished]
      exact delivered_later delivered (flushRuns_other fresh) flushRuns_log
    | cons first others =>
      obtain ⟨rfl, rest_split⟩ := List.cons.inj split
      have apart : ∀ other ∈ rest, other ≠ head := fun other held same => fresh (same ▸ held)
      have later : runId ∈ rest := by simp [rest_split]
      by_cases healthyHead : Healthy throws flushing.world head
      · obtain ⟨finished, -⟩ := flushRunWith_healthy refuses safeHead loaded healthyHead
        have same : ∀ other ∈ rest, (flushRunWith publish flushing head).1.world.load other =
            flushing.world.load other := fun other held => flushRunWith_other (apart other held)
        have knownRest : ∀ other ∈ rest, safeSegment other "runId" = .ok other ∧
            ∃ stored, (flushRunWith publish flushing head).1.world.load other = some stored := by
          intro other held
          rw [same other held]
          exact known other (mem_cons_of_mem _ held)
        obtain ⟨reached, untouched⟩ := ih distinctRest knownRest others runId back rest_split
          ((healthy_congr (same runId later)).mpr healthy)
        have members : ∀ other ∈ others, other ∈ rest := by
          intro other held
          rw [rest_split]
          exact mem_append_left _ held
        rw [flushRuns_cons_ok finished]
        constructor
        · intro allHealthy
          obtain ⟨taken, marked⟩ := reached fun other held =>
            (healthy_congr (same other (members other held))).mpr
              (allHealthy other (mem_cons_of_mem _ held))
          rw [same runId later] at taken marked
          exact ⟨taken, marked⟩
        · rintro ⟨bad, held, unhealthy⟩
          rcases mem_cons.mp held with rfl | held
          · exact absurd healthyHead unhealthy
          · rw [untouched ⟨bad, held, fun well =>
              unhealthy ((healthy_congr (same bad (members bad held))).mp well)⟩]
            exact same runId later
      · obtain ⟨thrown, refused⟩ := flushRunWith_unhealthy refuses healthyHead
        rw [flushRuns_cons_error ⟨thrown, refused⟩]
        exact ⟨fun allHealthy => absurd (allHealthy head (by simp)) healthyHead,
          fun _ => flushRunWith_other (apart runId later)⟩

/-- One file for each run, under a name that `save` lets through. -/
structure RunFiles (world : World) : Prop where
  distinct : (world.runs.map StoredRun.runId).Nodup
  safe : ∀ stored ∈ world.runs, safeSegment stored.runId "runId" = .ok stored.runId

theorem pairwise_of_splits :
    (∀ front item back, items = front ++ item :: back → ∀ earlier ∈ front, relation earlier item) →
      items.Pairwise relation := by
  induction items with
  | nil => exact fun _ => .nil
  | cons head rest ih =>
    intro splits
    refine .cons (fun item held => ?_) (ih fun front item back split earlier held => ?_)
    · obtain ⟨front, back, split⟩ := append_of_mem held
      exact splits (head :: front) item back (by rw [split]; rfl) head (by simp)
    · exact splits (head :: front) item back (by rw [split]; rfl) earlier (mem_cons_of_mem _ held)

theorem RunFiles.loads (files : RunFiles world) (held : stored ∈ world.runs) :
    world.load stored.runId = some stored :=
  find_keyed (fun _ left _ right same => inj_on_of_nodup_map files.distinct left right same) held

theorem flushed_of_order (refuses : Refuses publish throws) (files : RunFiles world)
    (sorts : (order (listWithPendingOutbox world)).Perm (listWithPendingOutbox world))
    (split : order (listWithPendingOutbox world) = front ++ stored :: back)
    (healthy : Healthy throws world stored.runId) :
    ((∀ earlier ∈ front, Healthy throws world earlier.runId) →
        Delivered world (flushAllPendingOutbox publish order world).1 stored.runId) ∧
      ((∃ earlier ∈ front, ¬ Healthy throws world earlier.runId) →
        (flushAllPendingOutbox publish order world).1.world.load stored.runId = world.load stored.runId) := by
  have listed : ∀ run ∈ order (listWithPendingOutbox world), run ∈ world.runs :=
    fun run held => (mem_filter.mp (sorts.mem_iff.mp held)).1
  have distinct : ((order (listWithPendingOutbox world)).map StoredRun.runId).Nodup := by
    rw [(sorts.map StoredRun.runId).nodup_iff]
    exact files.distinct.sublist (filter_sublist.map _)
  have known : ∀ runId ∈ (order (listWithPendingOutbox world)).map StoredRun.runId,
      safeSegment runId "runId" = .ok runId ∧ ∃ stored, world.load runId = some stored := by
    intro runId held
    obtain ⟨run, member, rfl⟩ := mem_map.mp held
    exact ⟨files.safe run (listed run member), run, files.loads (listed run member)⟩
  have reaches := @flushRuns_reaches publish throws refuses _ { world } distinct known
    (front.map StoredRun.runId) stored.runId (back.map StoredRun.runId) (by simp [split]) healthy
  simpa [flushAllPendingOutbox] using reaches

/-- Every run without a refused intent is flushed exactly if no such run is listed after one
with a refused intent. -/
theorem outboxes_flushed_iff (publish : Publisher) (throws : String → OutboxIntent → Bool)
    (refuses : Refuses publish throws) (order : List StoredRun → List StoredRun) (world : World)
    (files : RunFiles world)
    (sorts : (order (listWithPendingOutbox world)).Perm (listWithPendingOutbox world)) :
    (∀ stored ∈ listWithPendingOutbox world, Healthy throws world stored.runId →
        Delivered world (flushAllPendingOutbox publish order world).1 stored.runId) ↔
      (order (listWithPendingOutbox world)).Pairwise fun earlier later =>
        Healthy throws world later.runId → Healthy throws world earlier.runId := by
  constructor
  · intro flushed
    apply pairwise_of_splits
    intro front stored back split earlier held healthy
    by_contra unhealthy
    have member : stored ∈ order (listWithPendingOutbox world) := by simp [split]
    have pending := sorts.mem_iff.mp member
    have loaded := files.loads (mem_filter.mp pending).1
    obtain ⟨-, marked⟩ := flushed stored pending healthy
    obtain ⟨after, found, empty, -⟩ := marked stored loaded
    rw [(flushed_of_order refuses files sorts split healthy).2 ⟨earlier, held, unhealthy⟩, loaded] at found
    cases found
    -- the run was listed because it has a pending intent, and nothing has touched it
    obtain ⟨intent, heldIntent, status⟩ := any_eq_true.mp (mem_filter.mp pending).2
    have still : intent ∈ MultiAgentRun.pendingIntents stored.run :=
      mem_filter.mpr ⟨heldIntent, status⟩
    simp [empty] at still
  · intro ordered stored pending healthy
    obtain ⟨front, back, split⟩ := append_of_mem (sorts.mem_iff.mpr pending)
    apply (flushed_of_order refuses files sorts split healthy).1
    intro earlier held
    rw [split, pairwise_append] at ordered
    exact ordered.2.2 earlier held stored (by simp) healthy

def outboxRun (runId : NonEmptyString) (intent : OutboxIntent) : StoredRun where
  run :=
    { runId
      status := .running
      graphId := named "research_loop"
      activeNodeId := named "manager"
      outbox := [intent] }
  version := 0

def taskOf (runId : NonEmptyString) : MailboxMessage where
  messageId := "msg_1"
  envelopeId := "env_1"
  runId
  fromAgentId := named "manager"
  toAgentId := named "researcher"
  status := .queued
  prompt := named "draft"
  createdAt := "2026-01-01T00:00:00.000Z"

def claimLease (epoch : Nat) (positive : 0 < epoch := by decide) : MailboxClaimLease where
  holderId := named "worker_a"
  expiresAt := 10
  epoch
  token := named "token"
  positive

def secondRun : StoredRun := outboxRun (named "mar_2") {
  outboxId := "outbox_1"
  status := .pending
  kind := .mailboxEnqueue (taskOf (named "mar_2")) }

/-- The first run completes a message with the fence of a claim that was taken over; the
second has a task to enqueue. -/
def poisoned : World where
  runs := [ outboxRun (named "mar_1") {
      outboxId := "outbox_complete_msg_1"
      status := .pending
      kind := .mailboxComplete "msg_1" .completed (some (claimLease 1)) },
    secondRun]
  mailbox := [{ taskOf (named "mar_1") with status := .delivered, claimLease := some (claimLease 2) }]

/-- The completion is refused, and the task of the other run, which the mailbox would take,
stays pending. -/
theorem second_outbox_starved : (flushAllPendingOutbox publishToFiles id poisoned).2 =
        .error (.error "Mailbox complete rejected by stale mailbox claim") ∧
      deliverIntent poisoned.mailbox (.mailboxEnqueue (taskOf (named "mar_2"))) =
        .ok (taskOf (named "mar_2") :: poisoned.mailbox) ∧
      ¬ Delivered poisoned (flushAllPendingOutbox publishToFiles id poisoned).1 "mar_2" := by
  refine ⟨by decide, by decide, fun delivered => ?_⟩
  obtain ⟨flushed, found, empty, -⟩ := delivered.marked secondRun (by decide)
  have waiting : ((flushAllPendingOutbox publishToFiles id poisoned).1.world.load "mar_2").map
      (fun stored => (MultiAgentRun.pendingIntents stored.run).length) = some 1 := by
    decide
  rw [found] at waiting
  simp [empty] at waiting

/-- A mailbox that refuses completions and takes everything else. -/
def refusesCompletions : Publisher := fun _ intent mailbox =>
  match intent.kind with
  | .mailboxEnqueue message => .ok (message :: mailbox)
  | .mailboxComplete .. => .error (.error "Mailbox complete rejected by stale mailbox claim")

def isCompletion (_ : String) (intent : OutboxIntent) : Bool :=
  match intent.kind with
  | .mailboxEnqueue _ => false
  | .mailboxComplete .. => true

theorem outboxes_flushed_healthy_first :
    Delivered poisoned (flushAllPendingOutbox refusesCompletions List.reverse poisoned).1 "mar_2" := by
  have refuses : Refuses refusesCompletions isCompletion := by
    constructor
    · intro runId intent mailbox throwing
      unfold isCompletion at throwing
      unfold refusesCompletions
      split at throwing
      · cases throwing
      · exact ⟨_, rfl⟩
    · intro runId intent mailbox taken
      unfold isCompletion at taken
      unfold refusesCompletions
      split at taken
      · exact ⟨_, rfl⟩
      · cases taken
  have files : RunFiles poisoned := ⟨by decide, by decide⟩
  have healthy : Healthy isCompletion poisoned "mar_2" := by
    intro stored loaded
    have known : poisoned.load "mar_2" = some secondRun := by decide
    cases known.symm.trans loaded
    decide
  have ordered := (outboxes_flushed_iff refusesCompletions isCompletion refuses List.reverse poisoned
    files (reverse_perm _)).mpr
  refine ordered ?_ secondRun (by decide) healthy
  refine .cons (fun later _ _ => healthy) (.cons (fun later held => ?_) .nil)
  simp at held

end QiongQi.OutboxFlushes
