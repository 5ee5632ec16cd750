import QiongQi.EventNumbers

/-! `buildEventStreamResponse`: a client gets the stored events after its starting
point, then what the bus publishes, and reconnects with the id it received last.
Recording, connecting and receiving go on step by step beside each other. -/
namespace QiongQi.EventStreams
open Machines SessionLogs EventRecorders EventNumbers

/-- What a stream carries. -/
inductive StreamMessage where
  | event (recorded : RuntimeEvent)
  | heartbeat (seq : Nat)
  deriving DecidableEq

/-- The `id:` line of a message. -/
def StreamMessage.seq : StreamMessage → Nat
  | .event recorded => recorded.seq
  | .heartbeat seq => seq

/-- `since_seq`, or else `Last-Event-ID`; zero is neither. -/
def sinceSeq (fromQuery fromHeader : Nat) : Nat :=
  if fromQuery = 0 then fromHeader else fromQuery

/-- A connection: its backlog is being read, or is read and not yet enqueued, or it
is subscribed and holds what the client has not received. -/
inductive Connection where
  | loading (sinceSeq : Nat)
  | loaded (backlog : List RuntimeEvent)
  | subscribed (queue : List StreamMessage)
  deriving DecidableEq

structure StreamClient where
  id : Nat
  start : Nat
  received : List StreamMessage := []
  connection : Option Connection := none
  deriving DecidableEq

/-- The id a client reconnects with. -/
def lastId (client : StreamClient) : Nat :=
  ((client.received.getLast?).map StreamMessage.seq).getD client.start

structure StreamWorld where
  recorder : RecorderWorld := {}
  clients : List StreamClient := []

inductive StreamAction where
  | record (action : RecorderAction)
  | connect (id : Nat) (fromQuery fromHeader : Nat)
  | loadBacklog (id : Nat)
  | subscribe (id : Nat)
  | heartbeat (id : Nat)
  | receive (id : Nat)
  | disconnect (id : Nat)

/-- A subscriber enqueues what is published. -/
def enqueue (message : StreamMessage) (client : StreamClient) : StreamClient :=
  match client.connection with
  | some (.subscribed queue) => { client with connection := some (.subscribed (queue ++ [message])) }
  | _ => client

def hangUp (client : StreamClient) : StreamClient :=
  { client with connection := none }

/-- The event that a step of the recorder publishes. -/
def publishedBy (world : RecorderWorld) : RecorderAction → Option RuntimeEvent
  | .publish id nowIso =>
    match find RecordCall.id id world.calls with
    | some call =>
      match call.stage with
      | .looked persistedSeq => some (stampEvent call persistedSeq nowIso)
      | _ => none
    | none => none
  | _ => none

/-- What a step of the recorder does to the clients: publishing reaches the
subscribers, a new process has none. -/
def clientsAfter (world : StreamWorld) (action : RecorderAction) : List StreamClient :=
  match action with
  | .restart => world.clients.map hangUp
  | action =>
    match publishedBy world.recorder action with
    | some event => world.clients.map (enqueue (.event event))
    | none => world.clients

def StreamWorld.update (world : StreamWorld) (client : StreamClient) : StreamWorld :=
  { world with clients := put StreamClient.id client world.clients }

variable (compaction : UsageEventCompaction)

/-- One step of a connected or reconnecting client. -/
def stepClient (world : StreamWorld) (client : StreamClient) : StreamAction → Option StreamWorld
  | .connect _ fromQuery fromHeader =>
    match client.connection with
    | none => some (world.update
        { client with connection := some (.loading (sinceSeq fromQuery fromHeader)) })
    | some _ => none
  | .loadBacklog _ =>
    match client.connection with
    | some (.loading since) => some (world.update
        { client with connection := some (.loaded (loadEventsSince world.recorder.log since)) })
    | _ => none
  | .subscribe _ =>
    match client.connection with
    | some (.loaded backlog) => some (world.update
        { client with connection := some (.subscribed (backlog.map .event)) })
    | _ => none
  | .heartbeat _ =>
    match client.connection with
    | some (.subscribed queue) =>
      let bus := world.recorder.bus
      some ({ world with recorder := { world.recorder with bus := bus.allocateSeq } }.update
        { client with connection := some (.subscribed (queue ++ [StreamMessage.heartbeat bus.nextNumber])) })
    | _ => none
  | .receive _ =>
    match client.connection with
    | some (.subscribed (message :: queue)) => some (world.update
        { client with
          received := client.received ++ [message]
          connection := some (.subscribed queue) })
    | _ => none
  | .disconnect _ => some (world.update (hangUp client))
  | .record _ => none

def stepStream (world : StreamWorld) (action : StreamAction) : Option StreamWorld :=
  match action with
  | .record recording =>
    (stepRecorder compaction world.recorder recording).map fun recorder =>
      { recorder, clients := clientsAfter world recording }
  | .connect id fromQuery fromHeader =>
    match find StreamClient.id id world.clients with
    | none =>
      let start := sinceSeq fromQuery fromHeader
      some (world.update { id, start, connection := some (.loading start) })
    | some client => stepClient world client action
  | .loadBacklog id | .subscribe id | .heartbeat id | .receive id | .disconnect id =>
    match find StreamClient.id id world.clients with
    | none => none
    | some client => stepClient world client action

def eventsOf (messages : List StreamMessage) : List RuntimeEvent :=
  messages.filterMap fun
    | .event event => some event
    | .heartbeat _ => none

/-- What a client is going to receive on its connection. -/
def upcoming (client : StreamClient) : List StreamMessage :=
  match client.connection with
  | some (.subscribed queue) => queue
  | some (.loaded backlog) => backlog.map .event
  | _ => []

/-- Stored events reach the client once and in order: what it has received has no
gap, and a subscribed client has everything in its queue. -/
structure Delivered (log : List RuntimeEvent) (client : StreamClient) : Prop where
  increasing : (eventsOf (client.received ++ upcoming client)).Pairwise fun left right =>
    left.seq < right.seq
  unskipped : ∀ event ∈ log, client.start < event.seq →
    (∃ shown ∈ eventsOf client.received, event.seq ≤ shown.seq) →
    event ∈ eventsOf client.received
  whole : ∀ queue, client.connection = some (.subscribed queue) → ∀ event ∈ log,
    client.start < event.seq → event ∈ eventsOf (client.received ++ queue)

/-- The event a call has published and not yet appended. -/
def publishedEvent (call : RecordCall) : Option RuntimeEvent :=
  match call.stage with
  | .published _ event => some event
  | _ => none

/-- No published event is missing in the log. -/
def NothingPublished (world : RecorderWorld) : Prop :=
  ∀ call ∈ world.calls, publishedEvent call = none

/-- No other call is between its read and its append, or both have numbers of the
counter, in the order of their reads. -/
def InTurn (world : RecorderWorld) (call : RecordCall) : Prop :=
  ∀ other ∈ world.calls, ∀ persistedSeq ∈ lookedSeq other,
    (highestSeq world.log < call.allocatedSeq ∧ persistedSeq < other.allocatedSeq) ∧
      other.allocatedSeq < call.allocatedSeq

/-- No call that began earlier has read the log and not yet published. -/
def FirstToPublish (world : RecorderWorld) (call : RecordCall) : Prop :=
  ∀ other ∈ world.calls, (lookedSeq other).isSome = true → publishedEvent other = none →
    call.allocatedSeq ≤ other.allocatedSeq

/-- No client is between the read of its backlog and its subscription. -/
def NobodyLoaded (clients : List StreamClient) : Prop :=
  ∀ client ∈ clients, ∀ backlog, client.connection ≠ some (.loaded backlog)

/-- The client has received nothing yet, or an event last. -/
def ResumesAtEvent (client : StreamClient) (since : Nat) : Prop :=
  since = lastId client ∧ ∀ last ∈ client.received.getLast?, ∃ event, last = .event event

/-- When a step keeps every stream whole. -/
def Smooth (world : StreamWorld) : StreamAction → Prop
  | .record (.begin draft) => draft.seq = none
  | .record (.readHighest id) =>
    ∀ call ∈ world.recorder.calls, call.id = id → InTurn world.recorder call
  | .record (.publish id _) => NobodyLoaded world.clients ∧
    ∀ call ∈ world.recorder.calls, call.id = id → FirstToPublish world.recorder call
  | .record (.writeCompacted id _) =>
    ∀ call ∈ world.recorder.calls, call.id = id → Settled world.recorder call
  | .record (.fail id) =>
    ∀ call ∈ world.recorder.calls, call.id = id → publishedEvent call = none
  | .record .restart => NothingPublished world.recorder
  | .connect id fromQuery fromHeader =>
    ∀ client ∈ world.clients, client.id = id → ResumesAtEvent client (sinceSeq fromQuery fromHeader)
  | .loadBacklog _ => NothingPublished world.recorder
  | _ => True

instance (world : RecorderWorld) : Decidable (NothingPublished world) :=
  inferInstanceAs (Decidable (∀ call ∈ world.calls, publishedEvent call = none))

instance (world : RecorderWorld) (call : RecordCall) : Decidable (InTurn world call) :=
  inferInstanceAs (Decidable (∀ other ∈ world.calls, ∀ persistedSeq ∈ lookedSeq other,
    (highestSeq world.log < call.allocatedSeq ∧ persistedSeq < other.allocatedSeq) ∧
      other.allocatedSeq < call.allocatedSeq))

instance (world : RecorderWorld) (call : RecordCall) : Decidable (FirstToPublish world call) :=
  inferInstanceAs (Decidable (∀ other ∈ world.calls, (lookedSeq other).isSome = true →
    publishedEvent other = none → call.allocatedSeq ≤ other.allocatedSeq))

private def decidableLoaded : ∀ connection : Option Connection,
    Decidable (∀ backlog, connection ≠ some (.loaded backlog))
  | some (.loaded backlog) => .isFalse fun never => never backlog rfl
  | some (.loading _) | some (.subscribed _) | none => .isTrue fun _ same => by cases same

instance (clients : List StreamClient) : Decidable (NobodyLoaded clients) :=
  have (client : StreamClient) := decidableLoaded client.connection
  inferInstanceAs (Decidable (∀ client ∈ clients, ∀ backlog, client.connection ≠ some (.loaded backlog)))

private def decidableEvent : ∀ message : StreamMessage, Decidable (∃ event, message = .event event)
  | .event event => .isTrue ⟨event, rfl⟩
  | .heartbeat _ => .isFalse fun ⟨_, same⟩ => by cases same

instance (client : StreamClient) (since : Nat) : Decidable (ResumesAtEvent client since) :=
  have := decidableEvent
  inferInstanceAs (Decidable (since = lastId client ∧
    ∀ last ∈ client.received.getLast?, ∃ event, last = .event event))

instance (world : StreamWorld) : ∀ action, Decidable (Smooth world action)
  | .record (.begin draft) => inferInstanceAs (Decidable (draft.seq = none))
  | .record (.readHighest id) => inferInstanceAs (Decidable (∀ call ∈ world.recorder.calls,
      call.id = id → InTurn world.recorder call))
  | .record (.publish id _) => inferInstanceAs (Decidable (NobodyLoaded world.clients ∧
      ∀ call ∈ world.recorder.calls, call.id = id → FirstToPublish world.recorder call))
  | .record (.writeCompacted id _) => inferInstanceAs (Decidable (∀ call ∈ world.recorder.calls,
      call.id = id → Settled world.recorder call))
  | .record (.fail id) => inferInstanceAs (Decidable (∀ call ∈ world.recorder.calls,
      call.id = id → publishedEvent call = none))
  | .record .restart => inferInstanceAs (Decidable (NothingPublished world.recorder))
  | .connect id fromQuery fromHeader => inferInstanceAs (Decidable (∀ client ∈ world.clients,
      client.id = id → ResumesAtEvent client (sinceSeq fromQuery fromHeader)))
  | .loadBacklog _ => inferInstanceAs (Decidable (NothingPublished world.recorder))
  | .record (.append _) | .record (.readForCompaction _) | .record (.finish _)
  | .record .heartbeat | .subscribe _ | .heartbeat _ | .receive _ | .disconnect _ => .isTrue trivial

end QiongQi.EventStreams
