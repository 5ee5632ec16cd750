import QiongQi.ActiveAgents
import QiongQi.MailboxStores

/-! Sequences of calls of a mailbox: to whom a message is handed, and what stays of it. -/
namespace QiongQi.MailboxHistories
open ActiveAgents AgentGraphs KeyedMaps Mailboxes MailboxStores Machines RuntimeContracts
open List hiding after

/-- The mailboxes of the port; the files also by their locked sections, in any order. -/
inductive MailboxKind where
  | files | fileSections | memory

def MailboxKind.store (localeCompare : String → String → Ordering) : MailboxKind → MailboxStore
  | .files => fileMailboxStore localeCompare
  | .fileSections => fileMailboxSections
  | .memory => inMemoryMailboxStore localeCompare

/-- A claim that was granted, with the message that was given out. -/
structure Claim where
  now : Int
  options : Option MailboxClaimOptions
  message : MailboxMessage

structure History (store : MailboxStore) where
  now : Int
  state : store.State
  claims : List Claim := []

def claimOf (call : TimedCall) (result : Except Thrown (Option MailboxMessage)) : List Claim :=
  match call.request, result with
  | .claimNext _ options _, .ok (some message) => [{ now := call.now, options, message }]
  | _, _ => []

/-- The clock does not run backwards. -/
def stepMailbox (store : MailboxStore) (history : History store) (call : store.Call) :
    Option (History store) :=
  if (store.timed call).now < history.now then none
  else
    let (state, result) := store.call history.state call
    some {
      now := (store.timed call).now
      state
      claims := history.claims ++ claimOf (store.timed call) result }

/-- A claim with options is in force until its lease has expired, and one without, of a
message that had no lease, for good. -/
def OverAt (now : Int) (claim : Claim) : Prop :=
  match claim.options, claim.message.claimLease with
  | some _, some lease => lease.expiresAt ≤ now
  | none, some _ => True
  | _, none => False

/-- Whenever the record of a claim is free again, the lease of the claim has expired. -/
def Secured (store : MailboxStore) (history : History store) (claim : Claim) : Prop :=
  ∃ record, store.record history.state (store.key claim.message) = some record ∧
    record.status ≠ .queued ∧ ∀ now, history.now ≤ now → claimableMailboxMessage record now = true →
      ∃ lease ∈ claim.message.claimLease, lease.expiresAt ≤ now

variable {store : MailboxStore} {history next : History store}
variable {now : Int} {record : MailboxMessage}

theorem claimable_expired (begun : message.status ≠ .queued)
    (free : claimableMailboxMessage message now = true) :
    message.status = .delivered ∧ ∃ lease ∈ message.claimLease, lease.expiresAt ≤ now := by
  unfold claimableMailboxMessage at free
  split at free
  · rename_i queued
    exact absurd queued begun
  · rename_i lease delivered leased
    exact ⟨delivered, lease, leased, of_decide_eq_true free⟩
  · cases free

theorem overAt_of_expired (expired : ∃ lease ∈ claim.message.claimLease, lease.expiresAt ≤ now) :
    OverAt now claim := by
  obtain ⟨lease, leased, expired⟩ := expired
  unfold OverAt
  rw [Option.mem_def.mp leased]
  cases claim.options with
  | none => trivial
  | some options => exact expired

theorem rewritten_begun (rewritten : Rewritten now request (some record) after)
    (begun : record.status ≠ .queued) :
    ∃ later, after = some later ∧ later.status ≠ .queued ∧
      (later = record ∨ later.status ≠ .delivered ∨ claimableMailboxMessage record now = true) := by
  cases rewritten with
  | kept => exact ⟨record, rfl, begun, .inl rfl⟩
  | merged =>
    rename_i incoming same
    refine ⟨_, rfl, ?_⟩
    unfold preserveMailboxProgress
    split
    · exact ⟨begun, .inl rfl⟩
    · rename_i larger
      -- a status that outranks one that was begun is `completed`
      have final : incoming.status = .completed := by
        cases kind : record.status <;> cases other : incoming.status <;>
          simp_all [mailboxStatusRank]
      exact ⟨by simp [final], .inr (.inl (by simp [final]))⟩
  | claimed free handed =>
    refine ⟨_, rfl, ?_, .inr (.inr free)⟩
    rw [handed.written]
    simp
  | completed named differs fenced =>
    rename_i status _
    refine ⟨_, rfl, ?_⟩
    cases status <;> simp [TaskStatus.toMailbox]

theorem secured_step (secured : Secured store history claim)
    (taken : stepMailbox store history call = some next) : Secured store next claim := by
  obtain ⟨record, found, begun, expires⟩ := secured
  unfold stepMailbox at taken
  split at taken
  · cases taken
  · rename_i forward
    cases taken
    have rewritten := store.rewritten history.state call (store.key claim.message)
    rw [found] at rewritten
    obtain ⟨later, written, stillBegun, source⟩ := rewritten_begun rewritten begun
    refine ⟨later, written, stillBegun, fun now clock free => ?_⟩
    rcases source with rfl | ended | freeBefore
    · exact expires now (by simp only at clock; omega) free
    · exact absurd (claimable_expired stillBegun free).1 ended
    · obtain ⟨lease, leased, expired⟩ := expires _ (by omega) freeBefore
      exact ⟨lease, leased, by simp only at clock; omega⟩

/-- What a step adds to the claims: a message that was free, with the lease of its options. -/
theorem claimed_step (taken : stepMailbox store history call = some next) :
    next.claims = history.claims ∨ ∃ claim, next.claims = history.claims ++ [claim] ∧
      history.now ≤ claim.now ∧ Secured store next claim ∧
      (∀ earlier, Secured store history earlier →
        store.key earlier.message = store.key claim.message → OverAt claim.now earlier) ∧
      ∀ options ∈ claim.options, ∃ lease ∈ claim.message.claimLease, claim.now < lease.expiresAt ∧
        NonEmptyString.parse options.holderId = some lease.holderId := by
  unfold stepMailbox at taken
  split at taken
  · cases taken
  · rename_i forward
    cases taken
    cases outcome : (store.call history.state call).2 with
    | error thrown => exact .inl (by simp [claimOf])
    | ok given =>
      cases given with
      | none => exact .inl (by simp [claimOf])
      | some delivered =>
        have grant := store.grants history.state call delivered outcome
        generalize kind : (store.timed call).request = request at grant
        cases grant with
        | @intro current _ agentId options token found free handed written =>
          let claim : Claim := { now := (store.timed call).now, options, message := delivered }
          refine .inr ⟨claim, by simp [claim, claimOf, kind], by simp only [claim]; omega, ?_, ?_, ?_⟩
          · have status : delivered.status = .delivered := by rw [handed.written]
            exact ⟨delivered, written, by simp [status],
              fun now clock free => (claimable_expired (by simp [status]) free).2⟩
          · rintro earlier ⟨record, foundRecord, begun, expires⟩ same
            rw [same, found] at foundRecord
            cases foundRecord
            exact overAt_of_expired (expires _ (by simp only [claim]; omega) free)
          · intro chosen member
            obtain ⟨lease, leased, expiry, holder⟩ := handed.leased chosen member
            refine ⟨lease, leased, ?_, holder⟩
            simp only [claim]
            omega

/-! A message that was handed to one claimer goes to another only when that claim is over,
and every claim with options records a lease of its holder that lies in the future. -/

structure Exclusive (store : MailboxStore) (history : History store) : Prop where
  secured : ∀ claim ∈ history.claims, Secured store history claim
  apart : history.claims.Pairwise fun earlier later =>
    store.key earlier.message = store.key later.message → OverAt later.now earlier
  leased : ∀ claim ∈ history.claims, ∀ options ∈ claim.options,
    ∃ lease ∈ claim.message.claimLease, claim.now < lease.expiresAt ∧
      NonEmptyString.parse options.holderId = some lease.holderId

theorem exclusive_step (exclusive : Exclusive store history)
    (taken : stepMailbox store history call = some next) : Exclusive store next := by
  obtain ⟨secured, apart, leased⟩ := exclusive
  have kept : ∀ claim ∈ history.claims, Secured store next claim :=
    fun claim held => secured_step (secured claim held) taken
  rcases claimed_step taken with same | ⟨claim, added, later, own, expired, future⟩
  · exact ⟨same ▸ kept, same ▸ apart, same ▸ leased⟩
  · rw [← concat_eq_append] at added
    refine ⟨fun other held => ?_, ?_, fun other held => ?_⟩
    · rw [added, concat_eq_append] at held
      rcases mem_append.mp held with old | new
      · exact kept other old
      · cases mem_singleton.mp new
        exact own
    · rw [added, concat_eq_append, pairwise_append]
      refine ⟨apart, pairwise_singleton _ _, fun earlier held new member same => ?_⟩
      cases mem_singleton.mp member
      exact expired earlier (secured earlier held) same
    · rw [added, concat_eq_append] at held
      rcases mem_append.mp held with old | new
      · exact leased other old
      · cases mem_singleton.mp new
        exact future

theorem exclusive_run
    (ran : runActions (stepMailbox store) { now := began, state := store.initial } calls = some final) :
    Exclusive store final :=
  invariant_always (fun _ _ _ exclusive taken => exclusive_step exclusive taken) calls
    ⟨by simp, by simp, by simp⟩ ran

/-- In every history a message goes to another claimer only when the claim before is over, and
a claim with options records a lease that lies in the future, also where it takes over. -/
theorem claims_exclusive (localeCompare : String → String → Ordering) (kind : MailboxKind)
    (began : Int) (calls : List (kind.store localeCompare).Call)
    (final : History (kind.store localeCompare))
    (ran : runActions (stepMailbox (kind.store localeCompare))
      { now := began, state := (kind.store localeCompare).initial } calls = some final) :
    (final.claims.Pairwise fun earlier later =>
      (kind.store localeCompare).key earlier.message = (kind.store localeCompare).key later.message →
        OverAt later.now earlier) ∧
      ∀ claim ∈ final.claims, ∀ options ∈ claim.options, ∃ lease ∈ claim.message.claimLease,
        claim.now < lease.expiresAt ∧ NonEmptyString.parse options.holderId = some lease.holderId := by
  have exclusive := exclusive_run ran
  exact ⟨exclusive.apart, exclusive.leased⟩

def researchTask : MailboxMessage where
  messageId := "msg_1"
  envelopeId := "env_1"
  runId := named "mar_1"
  fromAgentId := named "manager"
  toAgentId := named "researcher"
  status := .queued
  prompt := named "draft"
  createdAt := "2026-01-01T00:00:00.000Z"

def workerOptions (holderId : String) : MailboxClaimOptions := { holderId, ttlMs := 10 }

def claimAt (now : Int) (options : Option MailboxClaimOptions) : TimedCall :=
  { now, request := .claimNext "researcher" options (named "token") }

def takeOver : List TimedCall :=
  [{ now := 0, request := .enqueue researchTask }, claimAt 0 (some (workerOptions "worker_a")),
    claimAt 10 (some (workerOptions "worker_b"))]

theorem claims_exclusive_take_over :
    ∃ final, runActions (stepMailbox (MailboxKind.files.store compare))
        { now := 0, state := (MailboxKind.files.store compare).initial } takeOver = some final ∧
      final.claims.length = 2 ∧ final.claims.Pairwise fun earlier later =>
        earlier.message.file = later.message.file → OverAt later.now earlier := by
  refine ⟨_, rfl, by decide +kernel, ?_⟩
  exact (claims_exclusive compare .files 0 takeOver _ rfl).1

/-- A claim without options is granted and records no lease at all. -/
theorem bare_claim_without_lease :
    ∃ (calls : List TimedCall) (final : History (MailboxKind.files.store compare)),
      runActions (stepMailbox (MailboxKind.files.store compare))
        { now := 0, state := (MailboxKind.files.store compare).initial } calls = some final ∧
      ¬ ∀ claim ∈ final.claims, ∃ lease ∈ claim.message.claimLease, claim.now < lease.expiresAt := by
  refine ⟨[{ now := 0, request := .enqueue researchTask }, claimAt 0 none], _, rfl, ?_⟩
  decide +kernel

/-- A call that may still rewrite the record of a message that has ended: a message of its
identifier with a status of a higher rank, or a completion with another status that no fence
holds back. A record has no lease after a completion. -/
def Overwrites (record : MailboxMessage) : MailboxCall → Prop
  | .enqueue incoming => incoming.messageId = record.messageId ∧
    mailboxStatusRank record.status < mailboxStatusRank incoming.status
  | .complete messageId status fence => messageId = record.messageId ∧
    status.toMailbox ≠ record.status ∧ (fence = none ∨ record.claimLease.isSome)
  | .claimNext .. => False

instance (record : MailboxMessage) : ∀ request, Decidable (Overwrites record request)
  | .enqueue _ => inferInstanceAs (Decidable (_ ∧ _))
  | .complete .. => inferInstanceAs (Decidable (_ ∧ _ ∧ _))
  | .claimNext .. => .isFalse id

/-- No worker has anything left to do. -/
def Ended (status : MailboxStatus) : Prop :=
  status = .completed ∨ status = .failed ∨ status = .aborted

instance (status : MailboxStatus) : Decidable (Ended status) :=
  inferInstanceAs (Decidable (_ ∨ _))

def runCalls (store : MailboxStore) (state : store.State) (calls : List store.Call) : store.State :=
  calls.foldl (fun state call => (store.call state call).1) state

theorem ended_not_claimable (ended : Ended record.status) :
    claimableMailboxMessage record now = false := by
  unfold claimableMailboxMessage
  rcases ended with status | status | status <;> simp [status]

theorem fence_held (passed : assertMailboxFence record fence = .ok ()) :
    fence = none ∨ record.claimLease.isSome := by
  cases fence with
  | none => exact .inl rfl
  | some fence =>
    right
    unfold assertMailboxFence at passed
    cases lease : record.claimLease with
    | none => simp [lease] at passed
    | some current => rfl

theorem rewritten_ended (rewritten : Rewritten now request (some record) after)
    (ended : Ended record.status) (harmless : ¬ Overwrites record request) :
    after = some record := by
  cases rewritten with
  | kept => rfl
  | merged =>
    rename_i incoming same
    unfold preserveMailboxProgress
    split
    · rfl
    · rename_i larger
      exact absurd ⟨same.symm, by omega⟩ harmless
  | claimed free handed =>
    rw [ended_not_claimable ended] at free
    cases free
  | completed named differs fenced =>
    exact absurd ⟨named.symm, Ne.symm differs, fence_held fenced⟩ harmless

theorem begun_run :
    ∀ {state : store.State} {record : MailboxMessage}, store.record state name = some record →
      record.status ≠ .queued →
      ∃ later, store.record (runCalls store state calls) name = some later ∧ later.status ≠ .queued := by
  induction calls with
  | nil => exact fun found begun => ⟨_, found, begun⟩
  | cons call rest ih =>
    intro state record found begun
    have rewritten := store.rewritten state call name
    rw [found] at rewritten
    obtain ⟨later, written, stillBegun, -⟩ := rewritten_begun rewritten begun
    exact ih written stillBegun

theorem ended_run :
    ∀ {state : store.State} {record : MailboxMessage}, store.record state name = some record →
      Ended record.status → (∀ call ∈ calls, ¬ Overwrites record (store.timed call).request) →
      store.record (runCalls store state calls) name = some record := by
  induction calls with
  | nil => exact fun found _ _ => found
  | cons call rest ih =>
    intro state record found ended harmless
    have rewritten := store.rewritten state call name
    rw [found] at rewritten
    have written := rewritten_ended rewritten ended (harmless call (by simp))
    exact ih written ended fun other held => harmless other (mem_cons_of_mem _ held)

/-- From any state, a message that has ended keeps its record under every call that does not
overwrite it, and one that was begun is never queued again. -/
theorem ended_message_kept (localeCompare : String → String → Ordering) (kind : MailboxKind)
    (state : (kind.store localeCompare).State) (calls : List (kind.store localeCompare).Call)
    (name : (kind.store localeCompare).Key) (record : MailboxMessage)
    (found : (kind.store localeCompare).record state name = some record) :
    (Ended record.status →
        (∀ call ∈ calls, ¬ Overwrites record ((kind.store localeCompare).timed call).request) →
        (kind.store localeCompare).record (runCalls (kind.store localeCompare) state calls) name =
          some record) ∧
      (record.status ≠ .queued → ∃ later,
        (kind.store localeCompare).record (runCalls (kind.store localeCompare) state calls) name =
          some later ∧ later.status ≠ .queued) :=
  ⟨ended_run found, begun_run found⟩

def claimed : List TimedCall := [{ now := 0, request := .enqueue researchTask }, claimAt 0 none]

def completeAs (status : TaskStatus) : TimedCall :=
  { now := 1, request := .complete "msg_1" status none }

theorem ended_message_kept_enqueued_again : (MailboxKind.files.store compare).record
        (runCalls (MailboxKind.files.store compare) (MailboxKind.files.store compare).initial
          (claimed ++ [completeAs .failed, { now := 2, request := .enqueue researchTask }]))
        researchTask.file = some { researchTask with status := .failed } :=
  (ended_message_kept compare .files
    (runCalls (MailboxKind.files.store compare) (MailboxKind.files.store compare).initial
      (claimed ++ [completeAs .failed]))
    [{ now := 2, request := .enqueue researchTask }] researchTask.file
    { researchTask with status := .failed } (by decide +kernel)).1 (by decide) (by decide)

/-- A completed message is failed by a completion without a fence. -/
theorem completed_message_failed :
    ¬ ∀ (calls : List TimedCall) (call : TimedCall) (record : MailboxMessage),
      (MailboxKind.files.store compare).record
          (runCalls (MailboxKind.files.store compare) (MailboxKind.files.store compare).initial calls)
          researchTask.file = some record →
      record.status = .completed ∨ record.status = .failed →
      ((MailboxKind.files.store compare).record
          (runCalls (MailboxKind.files.store compare) (MailboxKind.files.store compare).initial
            (calls ++ [call])) researchTask.file).map MailboxMessage.status = some record.status := by
  intro kept
  have failed := kept (claimed ++ [completeAs .completed]) (completeAs .failed)
    { researchTask with status := .completed } (by decide +kernel) (.inl rfl)
  revert failed
  decide +kernel

end QiongQi.MailboxHistories
