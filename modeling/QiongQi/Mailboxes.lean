import Mathlib.Data.List.Basic
import QiongQi.AgentGraphs
import QiongQi.Machines

/-! `FileMailboxStore`: one file for each message of each run, claims with a lease, and
completions with the fence of a claim. Every operation holds its locks from end to end. -/
namespace QiongQi.Mailboxes
open AgentGraphs Machines RuntimeContracts

structure MailboxClaimLease where
  holderId : NonEmptyString
  expiresAt : Int
  epoch : Nat
  token : NonEmptyString
  positive : 0 < epoch

instance : DecidableEq MailboxClaimLease := fun left right =>
  decidable_of_iff (left.holderId = right.holderId ∧ left.expiresAt = right.expiresAt ∧
    left.epoch = right.epoch ∧ left.token = right.token) (by cases left; cases right; simp)

inductive MailboxStatus where
  | queued | delivered | completed | failed | aborted
  deriving DecidableEq

/-- The statuses that end a task. -/
inductive TaskStatus where
  | completed | failed | aborted
  deriving DecidableEq

def TaskStatus.toMailbox : TaskStatus → MailboxStatus
  | .completed => .completed
  | .failed => .failed
  | .aborted => .aborted

structure MailboxMessage where
  messageId : String
  envelopeId : String
  runId : NonEmptyString
  fromAgentId : NonEmptyString
  toAgentId : NonEmptyString
  status : MailboxStatus
  claimLease : Option MailboxClaimLease := none
  prompt : NonEmptyString
  createdAt : String
  deriving DecidableEq

/-- A message that no worker has completed, failed or aborted. -/
def MailboxMessage.IsOpen (message : MailboxMessage) : Prop :=
  message.status = .queued ∨ message.status = .delivered

instance (message : MailboxMessage) : Decidable message.IsOpen :=
  inferInstanceAs (Decidable (_ ∨ _))

/-- The directory and the name of the message's file. -/
def MailboxMessage.file (message : MailboxMessage) : NonEmptyString × String :=
  (message.runId, message.messageId)

abbrev Mailbox := List MailboxMessage

structure MailboxClaimOptions where
  holderId : String
  ttlMs : Int

/-- A value that may name a file. -/
def safeSegment (value label : String) : Except Thrown String :=
  if jsTrim value = "" ∨ jsTrim value = "." ∨ jsTrim value = ".." ∨ jsTrim value ≠ value ∨
      '/' ∈ value.toList ∨ '\\' ∈ value.toList then
    .error (.error ("Invalid " ++ label ++ " path segment"))
  else .ok value

def mailboxStatusRank : MailboxStatus → Nat
  | .queued => 0
  | .delivered => 1
  | .failed => 1
  | .aborted => 1
  | .completed => 2

def preserveMailboxProgress (existing incoming : MailboxMessage) : MailboxMessage :=
  if mailboxStatusRank existing.status ≥ mailboxStatusRank incoming.status then existing
  else incoming

def claimableMailboxMessage (message : MailboxMessage) (now : Int) : Bool :=
  match message.status, message.claimLease with
  | .queued, _ => true
  | .delivered, some lease => lease.expiresAt ≤ now
  | _, _ => false

/-- The lease of the next claim. The schema trims the holder and refuses a blank one. -/
def nextClaimLease (message : MailboxMessage) (options : MailboxClaimOptions) (now : Int)
    (token : NonEmptyString) : Except Thrown MailboxClaimLease :=
  match NonEmptyString.parse options.holderId with
  | none => .error (.schema ["claimLease", "holderId"])
  | some holderId => .ok
    { holderId
      expiresAt := now + max 1 options.ttlMs
      epoch := (message.claimLease.map MailboxClaimLease.epoch).getD 0 + 1
      token
      positive := Nat.succ_pos _ }

def assertMailboxFence (message : MailboxMessage) (fence : Option MailboxClaimLease) :
    Except Thrown Unit :=
  match fence with
  | none => .ok ()
  | some fence =>
    if message.claimLease.any fun current => current.holderId = fence.holderId &&
        current.epoch = fence.epoch && current.token = fence.token then .ok ()
    else .error (.error "Mailbox complete rejected by stale mailbox claim")

def enqueue (mailbox : Mailbox) (message : MailboxMessage) : Except Thrown Mailbox := do
  let _ ← safeSegment message.runId.text "runId"
  let _ ← safeSegment message.messageId "messageId"
  match find MailboxMessage.file message.file mailbox with
  | none => return put MailboxMessage.file message mailbox
  | some existing =>
    return put MailboxMessage.file (preserveMailboxProgress existing message) mailbox

/-- The messages that the agent may claim, the earliest first. -/
def claimable (localeCompare : String → String → Ordering) (mailbox : Mailbox) (agentId : String)
    (now : Int) : List MailboxMessage :=
  (mailbox.filter fun message =>
    message.toAgentId.text = agentId && claimableMailboxMessage message now).mergeSort
      fun left right => localeCompare left.createdAt right.createdAt ≠ .gt

/-- The message as it is written for a claim. Without options it keeps the lease it has. -/
def deliver (message : MailboxMessage) (options : Option MailboxClaimOptions) (now : Int)
    (token : NonEmptyString) : Except Thrown MailboxMessage :=
  match options with
  | none => .ok { message with status := .delivered }
  | some options => do
    let claimLease ← nextClaimLease message options now token
    return { message with status := .delivered, claimLease := some claimLease }

def claimNext (localeCompare : String → String → Ordering) (mailbox : Mailbox) (agentId : String)
    (options : Option MailboxClaimOptions) (now : Int) (token : NonEmptyString) :
    Except Thrown (Option MailboxMessage × Mailbox) :=
  match (claimable localeCompare mailbox agentId now).head? with
  | none => .ok (none, mailbox)
  | some queued => do
    let delivered ← deliver queued options now token
    return (some delivered, put MailboxMessage.file delivered mailbox)

/-- A message that is not there, or that has the status already, is left alone. -/
def complete (mailbox : Mailbox) (messageId : String) (status : TaskStatus)
    (fence : Option MailboxClaimLease) : Except Thrown Mailbox := do
  let _ ← safeSegment messageId "messageId"
  match mailbox.find? fun message => message.messageId = messageId with
  | none => return mailbox
  | some current =>
    if current.status = status.toMailbox then return mailbox
    else
      assertMailboxFence current fence
      return put MailboxMessage.file
        { current with status := status.toMailbox, claimLease := none } mailbox

/-- Where a message of the mailbox comes from after one operation. -/
inductive Descends (mailbox : Mailbox) : MailboxMessage → Prop where
  | kept {message : MailboxMessage} (held : message ∈ mailbox) : Descends mailbox message
  | claimed {message : MailboxMessage} {lease : Option MailboxClaimLease} (held : message ∈ mailbox)
      (isOpen : message.IsOpen)
      (grows : ∀ old ∈ message.claimLease, ∃ new ∈ lease, old.epoch ≤ new.epoch) :
      Descends mailbox { message with status := .delivered, claimLease := lease }
  | completed {message : MailboxMessage} (held : message ∈ mailbox) (status : TaskStatus) :
      Descends mailbox { message with status := status.toMailbox, claimLease := none }

variable {mailbox after : Mailbox}
variable {localeCompare : String → String → Ordering} {agentId : String} {now : Int}
variable {token : NonEmptyString} {options : Option MailboxClaimOptions}

theorem Descends.source (descends : Descends mailbox message) :
    ∃ source ∈ mailbox, source.file = message.file ∧ source.envelopeId = message.envelopeId ∧
      source.toAgentId = message.toAgentId := by
  cases descends with
  | kept held => exact ⟨message, held, rfl, rfl, rfl⟩
  | claimed held isOpen grows | completed held status => exact ⟨_, held, rfl, rfl, rfl⟩

theorem descends_put (descends : Descends mailbox item)
    (held : message ∈ put MailboxMessage.file item mailbox) : Descends mailbox message := by
  rcases mem_put.mp held with rfl | ⟨held, -⟩
  · exact descends
  · exact .kept held

theorem enqueue_ok (queued : message.status = .queued) (enqueued : enqueue mailbox message = .ok after) :
    (find MailboxMessage.file message.file mailbox = none ∧ after = put MailboxMessage.file message mailbox) ∨
      ∃ existing, find MailboxMessage.file message.file mailbox = some existing ∧
        after = put MailboxMessage.file existing mailbox := by
  obtain ⟨-, -, afterRun⟩ := bind_ok enqueued
  obtain ⟨-, -, written⟩ := bind_ok afterRun
  cases looked : find MailboxMessage.file message.file mailbox with
  | none =>
    simp only [looked] at written
    cases written
    exact .inl ⟨rfl, rfl⟩
  | some existing =>
    have kept : preserveMailboxProgress existing message = existing := by
      simp [preserveMailboxProgress, queued, mailboxStatusRank]
    simp only [looked, kept] at written
    cases written
    exact .inr ⟨existing, rfl, rfl⟩

theorem claimable_mem (first : (claimable localeCompare mailbox agentId now).head? = some message) :
    message ∈ mailbox ∧ message.toAgentId.text = agentId ∧ claimableMailboxMessage message now = true := by
  have held := List.mem_of_mem_head? first
  unfold claimable at held
  simpa using held

theorem claimable_open (claimable : claimableMailboxMessage message now = true) :
    message.IsOpen := by
  unfold claimableMailboxMessage at claimable
  split at claimable
  · rename_i queued
    exact .inl queued
  · rename_i delivered _
    exact .inr delivered
  · cases claimable

/-- The epoch of a claim is one past the one before. -/
theorem nextClaimLease_ok {options : MailboxClaimOptions}
    (granted : nextClaimLease message options now token = .ok lease) :
    ∀ old ∈ message.claimLease, old.epoch < lease.epoch := by
  intro old held
  unfold nextClaimLease at granted
  split at granted
  · cases granted
  · cases granted
    simp [Option.mem_def.mp held]

theorem deliver_ok {delivered : MailboxMessage}
    (written : deliver message options now token = .ok delivered) :
    ∃ lease, delivered = { message with status := .delivered, claimLease := lease } ∧
      (∀ old ∈ message.claimLease, ∃ new ∈ lease, old.epoch ≤ new.epoch) ∧
      (options.isSome → ∃ new, lease = some new ∧ ∀ old ∈ message.claimLease, old.epoch < new.epoch) := by
  cases options with
  | none =>
    cases written
    exact ⟨message.claimLease, rfl, fun old held => ⟨old, held, le_refl _⟩, by simp⟩
  | some options =>
    obtain ⟨lease, granted, delivered⟩ := bind_ok written
    cases delivered
    have past := nextClaimLease_ok granted
    exact ⟨some lease, rfl, fun old held => ⟨lease, rfl, Nat.le_of_lt (past old held)⟩,
      fun _ => ⟨lease, rfl, past⟩⟩

section
variable {claim : Option MailboxMessage}
variable (claimed : claimNext localeCompare mailbox agentId options now token = .ok (claim, after))
include claimed

theorem claimNext_ok : (claim = none ∧ after = mailbox) ∨
      ∃ queued delivered, claim = some delivered ∧ queued ∈ mailbox ∧
        claimableMailboxMessage queued now = true ∧
        deliver queued options now token = .ok delivered ∧
        after = put MailboxMessage.file delivered mailbox := by
  unfold claimNext at claimed
  cases first : (claimable localeCompare mailbox agentId now).head? with
  | none =>
    rw [first] at claimed
    cases claimed
    exact .inl ⟨rfl, rfl⟩
  | some queued =>
    rw [first] at claimed
    obtain ⟨held, -, free⟩ := claimable_mem first
    obtain ⟨delivered, written, handed⟩ := bind_ok claimed
    cases handed
    exact .inr ⟨queued, delivered, rfl, held, free, written, rfl⟩

theorem claimNext_descends : ∀ message ∈ after, Descends mailbox message := by
  intro message held
  rcases claimNext_ok claimed with ⟨-, rfl⟩ | ⟨queued, delivered, -, heldQueued, free, written, rfl⟩
  · exact .kept held
  · obtain ⟨lease, rfl, grows, -⟩ := deliver_ok written
    exact descends_put (.claimed heldQueued (claimable_open free) grows) held

end

section
variable {messageId : String}
variable {status : TaskStatus}
variable {fence : Option MailboxClaimLease}
variable (completed : complete mailbox messageId status fence = .ok after)
include completed

/-- What a completion writes: the first message with the identifier, if it has another status. -/
theorem complete_found : after = mailbox ∨ ∃ current ∈ mailbox, current.messageId = messageId ∧
      current.status ≠ status.toMailbox ∧ after = put MailboxMessage.file
        { current with status := status.toMailbox, claimLease := none } mailbox := by
  obtain ⟨-, -, found⟩ := bind_ok completed
  cases looked : mailbox.find? fun message => message.messageId = messageId with
  | none =>
    simp only [looked] at found
    cases found
    exact .inl rfl
  | some current =>
    simp only [looked] at found
    by_cases same : current.status = status.toMailbox
    · rw [if_pos same] at found
      cases found
      exact .inl rfl
    · rw [if_neg same] at found
      obtain ⟨-, -, written⟩ := bind_ok found
      cases written
      exact .inr ⟨current, List.mem_of_find?_eq_some looked, by simpa using List.find?_some looked, same, rfl⟩

theorem complete_descends : ∀ message ∈ after, Descends mailbox message := by
  intro message held
  rcases complete_found completed with rfl | ⟨current, known, -, -, rfl⟩
  · exact .kept held
  · exact descends_put (.completed known status) held

end

theorem enqueue_descends (queued : incoming.status = .queued)
    (enqueued : enqueue mailbox incoming = .ok after) :
    ∀ message ∈ after, Descends mailbox message ∨
      message = incoming ∧ find MailboxMessage.file incoming.file mailbox = none := by
  intro message held
  rcases enqueue_ok queued enqueued with ⟨absent, rfl⟩ | ⟨existing, found, rfl⟩
  · rcases mem_put.mp held with rfl | ⟨held, -⟩
    · exact .inr ⟨rfl, absent⟩
    · exact .inl (.kept held)
  · exact .inl (descends_put (.kept (find_mem found).1) held)

end QiongQi.Mailboxes
