import QiongQi.KeyedMaps
import QiongQi.Mailboxes

/-! `MailboxStore`, the port, with its two stores: what any call of any of them makes of
the record of a message. -/
namespace QiongQi.MailboxStores
open AgentGraphs KeyedMaps Mailboxes Machines RuntimeContracts

/-- The epochs of the claims are kept apart from the messages. -/
structure InMemoryMailbox where
  messages : List MailboxMessage := []
  claimEpochs : List (String × Nat) := []

def InMemoryMailbox.message (store : InMemoryMailbox) (messageId : String) : Option MailboxMessage :=
  find MailboxMessage.messageId messageId store.messages

def InMemoryMailbox.set (store : InMemoryMailbox) (message : MailboxMessage) : InMemoryMailbox :=
  { store with messages := setEntry MailboxMessage.messageId message store.messages }

def InMemoryMailbox.enqueue (store : InMemoryMailbox) (message : MailboxMessage) : InMemoryMailbox :=
  match store.message message.messageId with
  | some existing => store.set (preserveMailboxProgress existing message)
  | none => store.set message

def InMemoryMailbox.nextEpoch (store : InMemoryMailbox) (messageId : String) : Nat :=
  ((find Prod.fst messageId store.claimEpochs).map Prod.snd).getD 0 + 1

/-- The epoch counts also where the schema then refuses the holder. -/
def InMemoryMailbox.deliver (store : InMemoryMailbox) (queued : MailboxMessage)
    (options : Option MailboxClaimOptions) (now : Int) (token : NonEmptyString) :
    InMemoryMailbox × Except Thrown MailboxMessage :=
  match options with
  | none => (store, .ok { queued with status := .delivered })
  | some options =>
    let epoch := store.nextEpoch queued.messageId
    let counted := { store with claimEpochs := setEntry Prod.fst (queued.messageId, epoch) store.claimEpochs }
    match NonEmptyString.parse options.holderId with
    | none => (counted, .error (.schema ["claimLease", "holderId"]))
    | some holderId =>
      let expiresAt := now + max 1 options.ttlMs
      let claimLease := { holderId, expiresAt, epoch, token, positive := Nat.succ_pos _ }
      (counted, .ok { queued with status := .delivered, claimLease := some claimLease })

def InMemoryMailbox.claimNext (localeCompare : String → String → Ordering) (store : InMemoryMailbox)
    (agentId : String) (options : Option MailboxClaimOptions) (now : Int) (token : NonEmptyString) :
    InMemoryMailbox × Except Thrown (Option MailboxMessage) :=
  match (claimable localeCompare store.messages agentId now).head? with
  | none => (store, .ok none)
  | some queued =>
    match store.deliver queued options now token with
    | (counted, .error thrown) => (counted, .error thrown)
    | (counted, .ok delivered) => (counted.set delivered, .ok (some delivered))

def InMemoryMailbox.complete (store : InMemoryMailbox) (messageId : String) (status : TaskStatus)
    (fence : Option MailboxClaimLease) : InMemoryMailbox × Except Thrown Unit :=
  match store.message messageId with
  | none => (store, .ok ())
  | some current =>
    if current.status = status.toMailbox then (store, .ok ())
    else
      match assertMailboxFence current fence with
      | .error thrown => (store, .error thrown)
      | .ok () => (store.set { current with status := status.toMailbox, claimLease := none }, .ok ())

inductive MailboxCall where
  | enqueue (message : MailboxMessage)
  | claimNext (agentId : String) (options : Option MailboxClaimOptions) (token : NonEmptyString)
  | complete (messageId : String) (status : TaskStatus) (fence : Option MailboxClaimLease)

structure TimedCall where
  now : Int
  request : MailboxCall

/-- A call that throws leaves the files as they are. -/
def keepOnThrow {σ α : Type} (state : σ) : Except Thrown (α × σ) → σ × Except Thrown α
  | .ok (answer, next) => (next, .ok answer)
  | .error thrown => (state, .error thrown)

def fileCall (localeCompare : String → String → Ordering) (mailbox : Mailbox) (call : TimedCall) :
    Mailbox × Except Thrown (Option MailboxMessage) :=
  keepOnThrow mailbox <| match call.request with
    | .enqueue message => (Mailboxes.enqueue mailbox message).map fun after => (none, after)
    | .claimNext agentId options token =>
      Mailboxes.claimNext localeCompare mailbox agentId options call.now token
    | .complete messageId status fence =>
      (Mailboxes.complete mailbox messageId status fence).map fun after => (none, after)

def inMemoryCall (localeCompare : String → String → Ordering) (store : InMemoryMailbox)
    (call : TimedCall) : InMemoryMailbox × Except Thrown (Option MailboxMessage) :=
  match call.request with
  | .enqueue message => (store.enqueue message, .ok none)
  | .claimNext agentId options token => store.claimNext localeCompare agentId options call.now token
  | .complete messageId status fence =>
    let (after, result) := store.complete messageId status fence
    (after, result.map fun _ => none)

/-- What a call of `FileMailboxStore` does under the lock of one message. Before it waits for
the lock it has taken the time and, for a claim or a completion, listed the file. -/
structure LockedSection where
  call : TimedCall
  listed : NonEmptyString × String

def claimSection (mailbox : Mailbox) (listed : NonEmptyString × String) (agentId : String)
    (options : Option MailboxClaimOptions) (now : Int) (token : NonEmptyString) :
    Except Thrown (Option MailboxMessage × Mailbox) :=
  match find MailboxMessage.file listed mailbox with
  | none => .error (.error "ENOENT")
  | some current =>
    if current.toAgentId.text ≠ agentId ∨ claimableMailboxMessage current now = false then
      .ok (none, mailbox)
    else do
      let delivered ← deliver current options now token
      return (some delivered, put MailboxMessage.file delivered mailbox)

def completeSection (mailbox : Mailbox) (listed : NonEmptyString × String) (status : TaskStatus)
    (fence : Option MailboxClaimLease) : Except Thrown Mailbox :=
  match find MailboxMessage.file listed mailbox with
  | none => .ok mailbox
  | some latest =>
    if latest.status = status.toMailbox then .ok mailbox
    else do
      assertMailboxFence latest fence
      return put MailboxMessage.file
        { latest with status := status.toMailbox, claimLease := none } mailbox

def runSection (mailbox : Mailbox) (locked : LockedSection) :
    Mailbox × Except Thrown (Option MailboxMessage) :=
  keepOnThrow mailbox <| match locked.call.request with
    | .enqueue message => (Mailboxes.enqueue mailbox message).map fun after => (none, after)
    | .claimNext agentId options token =>
      claimSection mailbox locked.listed agentId options locked.call.now token
    | .complete messageId status fence =>
      (completeSection mailbox (locked.listed.1, messageId) status fence).map fun after => (none, after)

/-- A claim with options writes a lease of its own, and one without keeps what was there. -/
structure Handed (now : Int) (options : Option MailboxClaimOptions)
    (current delivered : MailboxMessage) : Prop where
  written : delivered = { current with status := .delivered, claimLease := delivered.claimLease }
  bare : options = none → delivered.claimLease = current.claimLease
  leased : ∀ chosen ∈ options, ∃ lease ∈ delivered.claimLease,
    lease.expiresAt = now + max 1 chosen.ttlMs ∧ NonEmptyString.parse chosen.holderId = some lease.holderId

inductive Rewritten (now : Int) :
    MailboxCall → Option MailboxMessage → Option MailboxMessage → Prop where
  | kept (call : MailboxCall) (record : Option MailboxMessage) : Rewritten now call record record
  | enqueued (message : MailboxMessage) : Rewritten now (.enqueue message) none (some message)
  | merged {existing message : MailboxMessage} (same : existing.messageId = message.messageId) :
      Rewritten now (.enqueue message) (some existing) (some (preserveMailboxProgress existing message))
  | claimed {current delivered : MailboxMessage} {agentId : String}
      {options : Option MailboxClaimOptions} {token : NonEmptyString}
      (free : claimableMailboxMessage current now = true) (handed : Handed now options current delivered) :
      Rewritten now (.claimNext agentId options token) (some current) (some delivered)
  | completed {current : MailboxMessage} {messageId : String} {status : TaskStatus}
      {fence : Option MailboxClaimLease} (named : current.messageId = messageId)
      (differs : current.status ≠ status.toMailbox)
      (fenced : assertMailboxFence current fence = .ok ()) :
      Rewritten now (.complete messageId status fence) (some current)
        (some { current with status := status.toMailbox, claimLease := none })

/-- A message was free, and it was handed over and written as it is given out. -/
inductive Grant {κ : Type} (now : Int) (before after : κ → Option MailboxMessage) (key : κ) :
    MailboxCall → MailboxMessage → Prop where
  | intro {current delivered : MailboxMessage} {agentId : String}
      {options : Option MailboxClaimOptions} {token : NonEmptyString}
      (found : before key = some current) (free : claimableMailboxMessage current now = true)
      (handed : Handed now options current delivered) (written : after key = some delivered) :
      Grant now before after key (.claimNext agentId options token) delivered

/-- The port as a machine over records: every call rewrites each record in one of the ways
above, and what it gives out is a message that was free. -/
structure MailboxStore where
  State : Type
  Key : Type
  Call : Type
  initial : State
  timed : Call → TimedCall
  call : State → Call → State × Except Thrown (Option MailboxMessage)
  key : MailboxMessage → Key
  record : State → Key → Option MailboxMessage
  rewritten : ∀ state taken name, Rewritten (timed taken).now (timed taken).request
    (record state name) (record (call state taken).1 name)
  grants : ∀ state taken delivered, (call state taken).2 = .ok (some delivered) →
    Grant (timed taken).now (record state) (record (call state taken).1) (key delivered)
      (timed taken).request delivered

variable {message delivered : MailboxMessage} {options : Option MailboxClaimOptions}
variable {token : NonEmptyString} {mailbox : Mailbox} {store : InMemoryMailbox}

theorem deliver_handed (written : deliver message options now token = .ok delivered) :
    Handed now options message delivered := by
  cases options with
  | none =>
    cases written
    exact ⟨rfl, fun _ => rfl, by simp⟩
  | some options =>
    obtain ⟨lease, granted, made⟩ := bind_ok written
    cases made
    refine ⟨rfl, by simp, ?_⟩
    rintro chosen ⟨⟩
    unfold nextClaimLease at granted
    split at granted
    · cases granted
    · rename_i holderId named
      cases granted
      exact ⟨_, rfl, rfl, named⟩

section
variable {now : Int} {current : MailboxMessage} (handed : Handed now options current delivered)
include handed

theorem Handed.file : delivered.file = current.file := by
  rw [handed.written]
  rfl

theorem Handed.messageId : delivered.messageId = current.messageId := by
  rw [handed.written]

end

/-- The call writes the record of one message, or none. -/
inductive Wrote {κ : Type} [DecidableEq κ] (key : MailboxMessage → κ) (now : Int)
    (request : MailboxCall) (before : List MailboxMessage) : List MailboxMessage → Prop where
  | nothing : Wrote key now request before before
  | one {after : List MailboxMessage} {item : MailboxMessage} (keyed : Keyed key after)
      (rewritten : Rewritten now request (find key (key item) before) (some item))
      (own : find key (key item) after = some item)
      (others : ∀ name, key item ≠ name → find key name after = find key name before) :
      Wrote key now request before after

section
variable {κ : Type} [DecidableEq κ] {key : MailboxMessage → κ} {now : Int} {request : MailboxCall}
  {before after : List MailboxMessage}

theorem Wrote.keyed (wrote : Wrote key now request before after) (keyed : Keyed key before) :
    Keyed key after := by
  cases wrote with
  | nothing => exact keyed
  | one keyedAfter => exact keyedAfter

theorem Wrote.rewritten (wrote : Wrote key now request before after) (name : κ) :
    Rewritten now request (find key name before) (find key name after) := by
  cases wrote with
  | nothing => exact .kept _ _
  | @one _ item _ rewritten own others =>
    by_cases here : key item = name
    · subst here
      rw [own]
      exact rewritten
    · rw [others name here]
      exact .kept _ _

section
variable {item : MailboxMessage}
variable (keyed : Keyed key before)
variable (rewritten : Rewritten now request (find key (key item) before) (some item))
include keyed rewritten

theorem wrote_put : Wrote key now request before (put key item before) :=
  .one (keyed_put keyed) rewritten (find_put_self key item before) fun _ apart => find_put_other apart

theorem wrote_setEntry : Wrote key now request before (setEntry key item before) :=
  .one (keyed_setEntry keyed) rewritten (find_setEntry_self item keyed)
    fun _ apart => find_setEntry_other keyed apart

end

end

structure FileMailbox where
  messages : Mailbox := []
  keyed : Keyed MailboxMessage.file messages := by simp [Keyed]

theorem preserve_file (same : existing.file = message.file) :
    (preserveMailboxProgress existing message).file = message.file := by
  unfold preserveMailboxProgress
  split
  · exact same
  · rfl

theorem enqueue_wrote (keyed : Keyed MailboxMessage.file mailbox)
    (enqueued : enqueue mailbox message = .ok after) :
    Wrote MailboxMessage.file now (.enqueue message) mailbox after := by
  obtain ⟨-, -, afterRun⟩ := bind_ok enqueued
  obtain ⟨-, -, written⟩ := bind_ok afterRun
  cases looked : find MailboxMessage.file message.file mailbox with
  | none =>
    simp only [looked] at written
    cases written
    exact wrote_put keyed (looked ▸ .enqueued message)
  | some existing =>
    simp only [looked] at written
    cases written
    apply wrote_put keyed
    rw [preserve_file (find_mem looked).2, looked]
    exact .merged (congrArg Prod.snd (find_mem looked).2)

theorem claimSection_ok
    (claimed : claimSection mailbox listed agentId options now token = .ok (claim, after)) :
    (claim = none ∧ after = mailbox) ∨ ∃ current delivered, claim = some delivered ∧
      find MailboxMessage.file delivered.file mailbox = some current ∧
      claimableMailboxMessage current now = true ∧ Handed now options current delivered ∧
      after = put MailboxMessage.file delivered mailbox := by
  unfold claimSection at claimed
  cases looked : find MailboxMessage.file listed mailbox with
  | none =>
    simp only [looked] at claimed
    cases claimed
  | some current =>
    simp only [looked] at claimed
    split at claimed
    · cases claimed
      exact .inl ⟨rfl, rfl⟩
    · rename_i free
      obtain ⟨delivered, written, handed⟩ := bind_ok claimed
      cases handed
      have given := deliver_handed written
      have named : delivered.file = listed := given.file.trans (find_mem looked).2
      refine .inr ⟨current, delivered, rfl, named ▸ looked, ?_, given, rfl⟩
      simpa using fun taken => free (.inr taken)

section
variable (keyed : Keyed MailboxMessage.file mailbox)
include keyed

/-- A claim from end to end is the section of the message that it picks. -/
theorem claimNext_section
    (claimed : Mailboxes.claimNext localeCompare mailbox agentId options now token = .ok (claim, after)) :
    (claim = none ∧ after = mailbox) ∨ ∃ listed,
      claimSection mailbox listed agentId options now token = .ok (claim, after) := by
  unfold Mailboxes.claimNext at claimed
  cases first : (claimable localeCompare mailbox agentId now).head? with
  | none =>
    rw [first] at claimed
    cases claimed
    exact .inl ⟨rfl, rfl⟩
  | some queued =>
    rw [first] at claimed
    obtain ⟨held, addressed, free⟩ := claimable_mem first
    refine .inr ⟨queued.file, ?_⟩
    have kept : ¬ (queued.toAgentId.text ≠ agentId ∨ claimableMailboxMessage queued now = false) := by
      simp [addressed, free]
    simp only [claimSection, find_keyed keyed held, if_neg kept]
    exact claimed

theorem completeSection_wrote
    (completed : completeSection mailbox (runId, messageId) status fence = .ok after) :
    Wrote MailboxMessage.file now (.complete messageId status fence) mailbox after := by
  unfold completeSection at completed
  cases looked : find MailboxMessage.file (runId, messageId) mailbox with
  | none =>
    simp only [looked] at completed
    cases completed
    exact .nothing
  | some latest =>
    simp only [looked] at completed
    by_cases same : latest.status = status.toMailbox
    · rw [if_pos same] at completed
      cases completed
      exact .nothing
    · rw [if_neg same] at completed
      obtain ⟨⟨⟩, fenced, written⟩ := bind_ok completed
      cases written
      apply wrote_put keyed
      have named : ({ latest with status := status.toMailbox, claimLease := none } : MailboxMessage).file =
          (runId, messageId) := (find_mem looked).2
      rw [named, looked]
      exact .completed (congrArg Prod.snd named) same fenced

theorem complete_section
    (completed : Mailboxes.complete mailbox messageId status fence = .ok after) :
    after = mailbox ∨ ∃ runId, completeSection mailbox (runId, messageId) status fence = .ok after := by
  obtain ⟨-, -, found⟩ := bind_ok completed
  cases looked : mailbox.find? fun message => message.messageId = messageId with
  | none =>
    simp only [looked] at found
    cases found
    exact .inl rfl
  | some current =>
    have held := List.mem_of_find?_eq_some looked
    have named : current.messageId = messageId := by simpa using List.find?_some looked
    have own := find_keyed keyed held
    refine .inr ⟨current.runId, ?_⟩
    simp only [looked] at found
    simp only [completeSection, ← named]
    rw [show find MailboxMessage.file (current.runId, current.messageId) mailbox = some current from own]
    exact found

theorem runSection_wrote (locked : LockedSection) :
    Wrote MailboxMessage.file locked.call.now locked.call.request mailbox (runSection mailbox locked).1 := by
  obtain ⟨⟨now, request⟩, listed⟩ := locked
  cases request with
  | enqueue message =>
    simp only [runSection]
    cases enqueued : enqueue mailbox message with
    | error thrown => exact .nothing
    | ok after => exact enqueue_wrote keyed enqueued
  | claimNext agentId options token =>
    simp only [runSection]
    cases claimed : claimSection mailbox listed agentId options now token with
    | error thrown => exact .nothing
    | ok result =>
      obtain ⟨claim, after⟩ := result
      rcases claimSection_ok claimed with ⟨-, rfl⟩ | ⟨current, delivered, -, looked, free, handed, rfl⟩
      · exact .nothing
      · exact wrote_put keyed (looked ▸ .claimed free handed)
  | complete messageId status fence =>
    simp only [runSection]
    cases completed : completeSection mailbox (listed.1, messageId) status fence with
    | error thrown => exact .nothing
    | ok after => exact completeSection_wrote keyed completed

end

theorem runSection_grants (given : (runSection mailbox locked).2 = .ok (some delivered)) :
    Grant locked.call.now (fun name => find MailboxMessage.file name mailbox)
      (fun name => find MailboxMessage.file name (runSection mailbox locked).1) delivered.file
      locked.call.request delivered := by
  obtain ⟨⟨now, request⟩, listed⟩ := locked
  cases request with
  | enqueue message =>
    simp only [runSection] at given
    cases enqueued : enqueue mailbox message with
    | error thrown | ok after => simp [enqueued, keepOnThrow, Except.map] at given
  | claimNext agentId options token =>
    simp only [runSection] at given ⊢
    cases claimed : claimSection mailbox listed agentId options now token with
    | error thrown =>
      rw [claimed] at given
      cases given
    | ok result =>
      obtain ⟨claim, after⟩ := result
      rw [claimed] at given
      cases given
      rcases claimSection_ok claimed with ⟨none, -⟩ | ⟨current, handedOver, same, looked, free, handed, rfl⟩
      · cases none
      · cases same
        exact .intro looked free handed (find_put_self _ _ _)
  | complete messageId status fence =>
    simp only [runSection] at given
    cases completed : completeSection mailbox (listed.1, messageId) status fence with
    | error thrown | ok after => simp [completed, keepOnThrow, Except.map] at given

section
variable {localeCompare : String → String → Ordering} (keyed : Keyed MailboxMessage.file mailbox)
include keyed

theorem fileCall_section (call : TimedCall) : ((fileCall localeCompare mailbox call).1 = mailbox ∧
        ∀ message, (fileCall localeCompare mailbox call).2 ≠ .ok (some message)) ∨
      ∃ listed, fileCall localeCompare mailbox call = runSection mailbox { call, listed } := by
  obtain ⟨now, request⟩ := call
  cases request with
  | enqueue message => exact .inr ⟨message.file, rfl⟩
  | claimNext agentId options token =>
    cases claimed : Mailboxes.claimNext localeCompare mailbox agentId options now token with
    | error thrown => exact .inl (by simp [fileCall, claimed, keepOnThrow])
    | ok result =>
      obtain ⟨claim, after⟩ := result
      rcases claimNext_section keyed claimed with ⟨rfl, rfl⟩ | ⟨listed, same⟩
      · exact .inl (by simp [fileCall, claimed, keepOnThrow])
      · exact .inr ⟨listed, by simp [fileCall, runSection, claimed, same]⟩
  | complete messageId status fence =>
    cases completed : Mailboxes.complete mailbox messageId status fence with
    | error thrown => exact .inl (by simp [fileCall, completed, keepOnThrow, Except.map])
    | ok after =>
      rcases complete_section keyed completed with rfl | ⟨runId, same⟩
      · exact .inl (by simp [fileCall, completed, keepOnThrow, Except.map])
      · exact .inr ⟨(runId, messageId), by simp [fileCall, runSection, completed, same]⟩

theorem fileCall_wrote (call : TimedCall) :
    Wrote MailboxMessage.file call.now call.request mailbox (fileCall localeCompare mailbox call).1 := by
  rcases fileCall_section keyed call with ⟨same, -⟩ | ⟨listed, same⟩
  · rw [same]
    exact .nothing
  · rw [same]
    exact runSection_wrote keyed { call, listed }

theorem fileCall_grants (given : (fileCall localeCompare mailbox call).2 = .ok (some delivered)) :
    Grant call.now (fun name => find MailboxMessage.file name mailbox)
      (fun name => find MailboxMessage.file name (fileCall localeCompare mailbox call).1)
      delivered.file call.request delivered := by
  rcases @fileCall_section _ localeCompare keyed call with ⟨-, silent⟩ | ⟨listed, same⟩
  · exact absurd given (silent delivered)
  · rw [same] at given ⊢
    exact runSection_grants given

end

theorem preserve_messageId (same : existing.messageId = message.messageId) :
    (preserveMailboxProgress existing message).messageId = message.messageId := by
  unfold preserveMailboxProgress
  split
  · exact same
  · rfl

theorem deliver_memory
    (written : store.deliver queued options now token = (counted, .ok delivered)) :
    counted.messages = store.messages ∧ Handed now options queued delivered := by
  cases options with
  | none =>
    cases written
    exact ⟨rfl, rfl, fun _ => rfl, by simp⟩
  | some options =>
    unfold InMemoryMailbox.deliver at written
    cases named : NonEmptyString.parse options.holderId with
    | none => simp [named] at written
    | some holderId =>
      simp only [named] at written
      cases written
      refine ⟨rfl, rfl, by simp, ?_⟩
      rintro chosen ⟨⟩
      exact ⟨_, rfl, rfl, named⟩

theorem deliver_counts
    (refused : store.deliver queued options now token = (counted, .error thrown)) :
    counted.messages = store.messages := by
  cases options with
  | none => cases refused
  | some options =>
    unfold InMemoryMailbox.deliver at refused
    cases named : NonEmptyString.parse options.holderId with
    | none =>
      simp only [named] at refused
      cases refused
      rfl
    | some holderId => simp [named] at refused

theorem claimNext_memory (keyed : Keyed MailboxMessage.messageId store.messages) :
    ((store.claimNext localeCompare agentId options now token).1.messages = store.messages ∧
        ∀ message, (store.claimNext localeCompare agentId options now token).2 ≠ .ok (some message)) ∨
      ∃ current delivered,
        (store.claimNext localeCompare agentId options now token).2 = .ok (some delivered) ∧
        find MailboxMessage.messageId delivered.messageId store.messages = some current ∧
        claimableMailboxMessage current now = true ∧ Handed now options current delivered ∧
        (store.claimNext localeCompare agentId options now token).1.messages =
          setEntry MailboxMessage.messageId delivered store.messages := by
  unfold InMemoryMailbox.claimNext
  cases first : (claimable localeCompare store.messages agentId now).head? with
  | none => exact .inl (by simp)
  | some queued =>
    obtain ⟨held, -, free⟩ := claimable_mem first
    cases written : store.deliver queued options now token with
    | mk counted result =>
      simp only [written]
      cases result with
      | error thrown => exact .inl ⟨deliver_counts written, by simp⟩
      | ok delivered =>
        obtain ⟨same, handed⟩ := deliver_memory written
        refine .inr ⟨queued, delivered, rfl, ?_, free, handed, by simp [InMemoryMailbox.set, same]⟩
        rw [handed.messageId]
        exact find_keyed keyed held

section
variable (keyed : Keyed MailboxMessage.messageId store.messages)
include keyed

theorem inMemoryCall_wrote (call : TimedCall) :
    Wrote MailboxMessage.messageId call.now call.request store.messages
      (inMemoryCall localeCompare store call).1.messages := by
  obtain ⟨now, request⟩ := call
  cases request with
  | enqueue message =>
    simp only [inMemoryCall, InMemoryMailbox.enqueue]
    cases looked : store.message message.messageId with
    | none =>
      apply wrote_setEntry keyed
      rw [show find MailboxMessage.messageId message.messageId store.messages = none from looked]
      exact .enqueued message
    | some existing =>
      apply wrote_setEntry keyed
      rw [preserve_messageId (find_mem looked).2]
      rw [show find MailboxMessage.messageId message.messageId store.messages = some existing from looked]
      exact .merged (find_mem looked).2
  | claimNext agentId options token =>
    simp only [inMemoryCall]
    rcases claimNext_memory keyed with ⟨same, -⟩ |
      ⟨current, delivered, -, looked, free, handed, same⟩
    · rw [same]
      exact .nothing
    · rw [same]
      exact wrote_setEntry keyed (looked ▸ .claimed free handed)
  | complete messageId status fence =>
    simp only [inMemoryCall, InMemoryMailbox.complete]
    cases looked : store.message messageId with
    | none => exact .nothing
    | some current =>
      by_cases same : current.status = status.toMailbox
      · simp only [if_pos same]
        exact .nothing
      · simp only [if_neg same]
        cases fenced : assertMailboxFence current fence with
        | error thrown => exact .nothing
        | ok done =>
          apply wrote_setEntry keyed
          have named : current.messageId = messageId := (find_mem looked).2
          rw [show find MailboxMessage.messageId _ store.messages = some current by
            rw [← looked, ← named]; rfl]
          exact .completed named same fenced

theorem inMemoryCall_grants
    (given : (inMemoryCall localeCompare store call).2 = .ok (some delivered)) :
    Grant call.now (fun name => find MailboxMessage.messageId name store.messages)
      (fun name => find MailboxMessage.messageId name (inMemoryCall localeCompare store call).1.messages)
      delivered.messageId call.request delivered := by
  obtain ⟨now, request⟩ := call
  cases request with
  | enqueue message => simp [inMemoryCall] at given
  | claimNext agentId options token =>
    simp only [inMemoryCall] at given ⊢
    rcases claimNext_memory keyed with ⟨-, silent⟩ |
      ⟨current, handedOver, same, looked, free, handed, wrote⟩
    · exact absurd given (silent delivered)
    · rw [given] at same
      cases same
      refine .intro looked free handed ?_
      rw [wrote]
      exact find_setEntry_self delivered keyed
  | complete messageId status fence =>
    simp only [inMemoryCall] at given
    cases result : (store.complete messageId status fence).2 with
    | error thrown | ok done =>
      rw [result] at given
      cases given

end

structure MemoryMailbox where
  store : InMemoryMailbox := {}
  keyed : Keyed MailboxMessage.messageId store.messages := by simp [Keyed]

variable (localeCompare : String → String → Ordering)

/-- `FileMailboxStore`, each call from end to end. -/
def fileMailboxStore : MailboxStore where
  State := FileMailbox
  Key := NonEmptyString × String
  Call := TimedCall
  initial := {}
  timed := id
  call mailbox call :=
    ({ messages := (fileCall localeCompare mailbox.messages call).1
       keyed := (fileCall_wrote mailbox.keyed call).keyed mailbox.keyed },
      (fileCall localeCompare mailbox.messages call).2)
  key := MailboxMessage.file
  record mailbox name := find MailboxMessage.file name mailbox.messages
  rewritten mailbox call name := (fileCall_wrote mailbox.keyed call).rewritten name
  grants mailbox _ _ := fileCall_grants mailbox.keyed

/-- `FileMailboxStore`, one locked section at a time. -/
def fileMailboxSections : MailboxStore where
  State := FileMailbox
  Key := NonEmptyString × String
  Call := LockedSection
  initial := {}
  timed := LockedSection.call
  call mailbox locked :=
    ({ messages := (runSection mailbox.messages locked).1
       keyed := (runSection_wrote mailbox.keyed locked).keyed mailbox.keyed },
      (runSection mailbox.messages locked).2)
  key := MailboxMessage.file
  record mailbox name := find MailboxMessage.file name mailbox.messages
  rewritten mailbox locked name := (runSection_wrote mailbox.keyed locked).rewritten name
  grants _ _ _ := runSection_grants

/-- `InMemoryMailboxStore`. -/
def inMemoryMailboxStore : MailboxStore where
  State := MemoryMailbox
  Key := String
  Call := TimedCall
  initial := {}
  timed := id
  call mailbox call :=
    ({ store := (inMemoryCall localeCompare mailbox.store call).1
       keyed := (inMemoryCall_wrote mailbox.keyed call).keyed mailbox.keyed },
      (inMemoryCall localeCompare mailbox.store call).2)
  key := MailboxMessage.messageId
  record mailbox name := find MailboxMessage.messageId name mailbox.store.messages
  rewritten mailbox call name := (inMemoryCall_wrote mailbox.keyed call).rewritten name
  grants mailbox _ _ := inMemoryCall_grants mailbox.keyed

end QiongQi.MailboxStores
