import QiongQi.JsonValues
import QiongQi.NumberedReplays
import QiongQi.TurnItems
import QiongQi.UsageProjections

/-! The runtime event reducer: a projection of a thread from its events, with one branch for
each kind of event. -/
namespace QiongQi.RuntimeReplays
open JsonValues NumberedReplays TurnItems UsageProjections
open List hiding replace take

inductive TurnItemRole
  | user
  | assistant
  | system
  | tool

inductive RuntimeErrorSeverity
  | info
  | warning
  | error

structure UserInputQuestion where
  header : String
  id : String
  question : String
  options : List (String × String)

/-- What an item carries beside its base, by its kind. -/
inductive TurnItemBody
  | userMessage (text : String) (displayText : Option String)
    (attachmentIds : Option (List String))
  | assistantText (text : String)
  | assistantReasoning (text : String) (signature : Option String)
  | toolCall (toolName callId toolKind : String) (arguments : List (String × Json))
    (summary : Option String)
  | toolResult (toolName callId toolKind : String) (output : Json) (isError : Bool)
  | approval (approvalId toolName summary : String)
  | userInput (inputId prompt : String) (questions : List UserInputQuestion)
  | compaction (summary : String) (replacedTokens : Nat) (pinnedConstraints : List String)
    (sourceDigest digestMarker : Option String) (sourceItemIds : Option (List String))
    (taskRevision : Option Nat) (taskSourceDigest : Option String)
  | review (target : Json) (title : String) (reviewText : Option String) (output : Option Json)
  | runtimeProgress (phase summary : String)
    (modelSteps toolCalls evidenceCount artifactCount : Nat) (reason : Option String)
  | error (message : String) (code : Option String) (details : Option Json)
    (severity : Option RuntimeErrorSeverity)

structure TurnItem where
  id : String
  turnId : String
  threadId : String
  role : TurnItemRole
  status : ItemStatus
  createdAt : String
  finishedAt : Option String
  body : TurnItemBody

inductive ChildStatus
  | queued
  | running
  | completed
  | failed
  | aborted

structure EventChild where
  parentThreadId : String
  parentTurnId : String
  childId : String
  childLabel : Option String
  childStatus : ChildStatus
  childSeq : Nat

inductive TurnLifecycle
  | started
  | completed
  | failed
  | aborted
  | steered

/-- Kinds of item events that replace the item. -/
inductive ItemLifecycle
  | itemCreated
  | itemUpdated
  | itemCompleted
  | toolCallStarted
  | toolCallFinished

/-- Kinds of events that a projection only counts. -/
inductive SilentKind
  | toolCallReady
  | toolResultUploadWait
  | toolStormSuppressed
  | pipelineStage
  | heartbeat
  | goalUpdated
  | goalCleared
  | todosUpdated
  | todosCleared

structure ToolCatalog where
  fingerprint : String
  toolCount : Nat
  changeKind : Option String
  toolNames : Option (List String)
  message : Option String

/-- What an event of a kind carries that the reducer reads. -/
inductive EventContent
  | thread (created : Bool) (title status : Option String)
  | turn (kind : TurnLifecycle) (text : Option String)
  | item (kind : ItemLifecycle) (item : TurnItem)
  | delta (reasoning : Bool) (item : TurnItem)
  | approval (resolved : Bool) (approvalId toolName : String) (status : ItemStatus)
    (summary : Option String)
  | userInput (resolved : Bool) (inputId : String) (status : ItemStatus) (prompt : Option String)
    (questions : Option (List UserInputQuestion))
  | compaction (completed : Bool) (summary : Option String) (replacedTokens : Option Nat)
    (pinnedConstraints : Option (List String)) (sourceDigest digestMarker : Option String)
    (sourceItemIds : Option (List String))
  | toolCatalogChanged (catalog : ToolCatalog)
  | usage (usage : UsageSnapshot)
  | error (message : String) (code : Option String) (details : Option Json)
    (severity : Option RuntimeErrorSeverity)
  | silent (kind : SilentKind)

structure RuntimeEvent where
  seq : Nat
  timestamp : String
  threadId : String
  turnId : Option String
  itemId : Option String
  child : Option EventChild
  content : EventContent

inductive EventSourcedTurnStatus
  | unknown
  | running
  | completed
  | failed
  | aborted

structure EventSourcedTurnProjection where
  id : String
  threadId : String
  status : EventSourcedTurnStatus
  startedAt : Option String
  finishedAt : Option String
  steering : List String
  itemIds : List String

structure EventSourcedChildRunProjection where
  childId : String
  parentThreadId : String
  parentTurnId : String
  label : Option String
  status : ChildStatus
  seq : Nat
  updatedAt : String
  text : Option String

structure CompactionProjection where
  itemId : Option String
  turnId : Option String
  summary : Option String
  replacedTokens : Option Nat
  pinnedConstraints : Option (List String)
  sourceDigest : Option String
  digestMarker : Option String
  sourceItemIds : Option (List String)

structure ErrorProjection where
  seq : Nat
  turnId : Option String
  itemId : Option String
  message : String
  code : Option String
  details : Option Json
  severity : Option RuntimeErrorSeverity

structure EventSourcedRuntimeProjection where
  threadId : String
  lastSeq : Nat
  startedAt : Option String
  updatedAt : Option String
  title : Option String
  threadStatus : Option String
  turns : List EventSourcedTurnProjection
  items : List TurnItem
  usage : UsageSnapshot
  childRuns : List EventSourcedChildRunProjection
  compactions : List CompactionProjection
  toolCatalog : Option ToolCatalog
  errors : List ErrorProjection

def createRuntimeEventProjection (threadId : String) : EventSourcedRuntimeProjection where
  threadId := threadId
  lastSeq := 0
  startedAt := none
  updatedAt := none
  title := none
  threadStatus := none
  turns := []
  items := []
  usage := emptyUsageSnapshot
  childRuns := []
  compactions := []
  toolCatalog := none
  errors := []

/-- A text that is there and not empty. -/
def truthy (text : Option String) : Option String :=
  text.filter fun text => text ≠ ""

/-- The first entry that passes the test is replaced, or the entry comes last. -/
def replaceFirst {α : Type} (test : α → Bool) (entry : α) : List α → List α
  | [] => [entry]
  | first :: rest => if test first then entry :: rest else first :: replaceFirst test entry rest

def findTurn (turns : List EventSourcedTurnProjection) (threadId turnId : String) :
    EventSourcedTurnProjection :=
  (turns.find? fun turn => turn.id = turnId).getD ⟨turnId, threadId, .unknown, none, none, [], []⟩

/-- `ensureTurn`, and a change to the turn that it returns. -/
def changeTurn (threadId turnId : String) (change : EventSourcedTurnProjection → EventSourcedTurnProjection)
    (projection : EventSourcedRuntimeProjection) : EventSourcedRuntimeProjection :=
  { projection with
    turns := replaceFirst (fun turn => turn.id = turnId)
      (change (findTurn projection.turns threadId turnId)) projection.turns }

def appendDelta (existing delta : TurnItem) : TurnItem :=
  match existing.body, delta.body with
  | .assistantText text, .assistantText more =>
    { existing with
      body := .assistantText (text ++ more)
      status := delta.status
      finishedAt := delta.finishedAt.or existing.finishedAt }
  | .assistantReasoning text signature, .assistantReasoning more added =>
    { existing with
      body := .assistantReasoning (text ++ more) ((truthy added).or signature)
      status := delta.status
      finishedAt := delta.finishedAt.or existing.finishedAt }
  | _, _ => delta

inductive UpsertMode
  | replace
  | appendDelta
  deriving DecidableEq

def upsertItem (item : TurnItem) (mode : UpsertMode)
    (projection : EventSourcedRuntimeProjection) : EventSourcedRuntimeProjection :=
  let nextItem :=
    match projection.items.find? fun candidate => candidate.id = item.id with
    | none => item
    | some existing =>
      if mode = .appendDelta then RuntimeReplays.appendDelta existing item else item
  changeTurn item.threadId item.turnId (fun turn =>
      if item.id ∈ turn.itemIds then turn else { turn with itemIds := turn.itemIds ++ [item.id] })
    { projection with
      items := replaceFirst (fun candidate => candidate.id = item.id) nextItem projection.items }

def upsertChildRun (event : RuntimeEvent) (child : EventChild) (text : Option String)
    (projection : EventSourcedRuntimeProjection) : EventSourcedRuntimeProjection :=
  { projection with
    childRuns := replaceFirst (fun run => run.childId = child.childId)
      { childId := child.childId
        parentThreadId := child.parentThreadId
        parentTurnId := child.parentTurnId
        label := truthy child.childLabel
        status := child.childStatus
        seq := child.childSeq
        updatedAt := event.timestamp
        text := truthy text } projection.childRuns }

def applyTurnEvent (event : RuntimeEvent) (kind : TurnLifecycle) (text : Option String)
    (projection : EventSourcedRuntimeProjection) : EventSourcedRuntimeProjection :=
  match event.child, truthy event.turnId with
  | some child, _ => upsertChildRun event child text projection
  | none, none => projection
  | none, some turnId =>
    changeTurn event.threadId turnId (fun turn =>
        match kind with
        | .started =>
          { turn with
            status := .running
            startedAt := turn.startedAt.or (some event.timestamp) }
        | .completed => { turn with status := .completed, finishedAt := some event.timestamp }
        | .failed => { turn with status := .failed, finishedAt := some event.timestamp }
        | .aborted => { turn with status := .aborted, finishedAt := some event.timestamp }
        | .steered => { turn with steering := turn.steering ++ (truthy text).toList })
      projection

def applyCompactionEvent (event : RuntimeEvent) (completed : Bool)
    (compaction : CompactionProjection) (projection : EventSourcedRuntimeProjection) : EventSourcedRuntimeProjection :=
  let listed := { projection with
    compactions := projection.compactions ++ [{ compaction with
          itemId := truthy event.itemId
          turnId := truthy event.turnId
          summary := truthy compaction.summary
          sourceDigest := truthy compaction.sourceDigest
          digestMarker := truthy compaction.digestMarker }] }
  match truthy event.itemId, truthy event.turnId, compaction.replacedTokens with
  | some itemId, some turnId, some (tokens + 1) =>
    if completed then
      upsertItem
        { id := itemId
          turnId := turnId
          threadId := event.threadId
          role := .system
          status := .completed
          createdAt := event.timestamp
          finishedAt := some event.timestamp
          body := .compaction (compaction.summary.getD "") (tokens + 1)
            (compaction.pinnedConstraints.getD []) (truthy compaction.sourceDigest)
            (truthy compaction.digestMarker) compaction.sourceItemIds none none } .replace listed
    else
      listed
  | _, _, _ => listed

/-- A request of the user that is asked and answered: the first item that `isItem` is found by,
or a new one. -/
def upsertRequest (event : RuntimeEvent) (isItem : TurnItemBody → Bool) (id : String)
    (body : TurnItemBody) (status : ItemStatus) (projection : EventSourcedRuntimeProjection) :
    EventSourcedRuntimeProjection :=
  match truthy event.turnId with
  | none => projection
  | some turnId =>
    let finished := if status = .pending then none else some event.timestamp
    let item : TurnItem :=
      match projection.items.find? fun item => isItem item.body with
      | some existing =>
        { existing with
          status := status
          finishedAt := finished.or existing.finishedAt }
      | none =>
        { id := event.itemId.getD ("item_" ++ id)
          turnId := turnId
          threadId := event.threadId
          role := .tool
          createdAt := event.timestamp
          body := body
          status := status
          finishedAt := finished }
    upsertItem item .replace projection

def upsertApprovalFromEvent (event : RuntimeEvent) (approvalId toolName : String)
    (status : ItemStatus) (summary : Option String) :
    EventSourcedRuntimeProjection → EventSourcedRuntimeProjection :=
  upsertRequest event (fun body => match body with
      | .approval id _ _ => id = approvalId
      | _ => false)
    approvalId (.approval approvalId toolName (summary.getD "")) status

def upsertUserInputFromEvent (event : RuntimeEvent) (inputId : String) (status : ItemStatus)
    (prompt : Option String) (questions : Option (List UserInputQuestion)) :
    EventSourcedRuntimeProjection → EventSourcedRuntimeProjection :=
  upsertRequest event (fun body => match body with
      | .userInput id _ _ => id = inputId
      | _ => false)
    inputId (.userInput inputId (prompt.getD "") (questions.getD [])) status

def applyErrorEvent (event : RuntimeEvent) (message : String) (code : Option String)
    (details : Option Json) (severity : Option RuntimeErrorSeverity)
    (projection : EventSourcedRuntimeProjection) : EventSourcedRuntimeProjection :=
  let listed := { projection with
    errors := projection.errors ++
      [⟨event.seq, truthy event.turnId, truthy event.itemId, message, truthy code, details, severity⟩] }
  match truthy event.itemId, truthy event.turnId with
  | some itemId, some turnId =>
    upsertItem
      { id := itemId
        turnId := turnId
        threadId := event.threadId
        role := .system
        status := .failed
        createdAt := event.timestamp
        finishedAt := some event.timestamp
        body := .error message (truthy code) details severity } .replace listed
  | _, _ => listed

/-- The `switch` of `applyRuntimeEvent`. -/
def applyContent (event : RuntimeEvent) (projection : EventSourcedRuntimeProjection) :
    EventSourcedRuntimeProjection :=
  match event.content with
  | .thread created title status =>
    { projection with
      title := (truthy title).or projection.title
      threadStatus := (truthy status).or projection.threadStatus
      startedAt := if created then projection.startedAt.or (some event.timestamp)
        else projection.startedAt }
  | .turn kind text => applyTurnEvent event kind text projection
  | .item _ item => upsertItem item .replace projection
  | .delta _ item => upsertItem item .appendDelta projection
  | .approval _ approvalId toolName status summary =>
    upsertApprovalFromEvent event approvalId toolName status summary projection
  | .userInput _ inputId status prompt questions =>
    upsertUserInputFromEvent event inputId status prompt questions projection
  | .compaction completed summary replacedTokens pinnedConstraints sourceDigest digestMarker
      sourceItemIds =>
    applyCompactionEvent event completed
      ⟨none, none, summary, replacedTokens, pinnedConstraints, sourceDigest, digestMarker,
        sourceItemIds⟩ projection
  | .toolCatalogChanged catalog =>
    { projection with toolCatalog := some { catalog with
      changeKind := truthy catalog.changeKind
      message := truthy catalog.message } }
  | .usage usage => { projection with usage := addUsage projection.usage usage }
  | .error message code details severity =>
    applyErrorEvent event message code details severity projection
  | .silent _ => projection

/-- What an event of every kind leaves in a projection. -/
def stamp (event : RuntimeEvent) (projection : EventSourcedRuntimeProjection) :
    EventSourcedRuntimeProjection :=
  { projection with
    threadId := if projection.threadId = "" then event.threadId else projection.threadId
    lastSeq := event.seq
    updatedAt := some event.timestamp }

def applyRuntimeEvent (projection : EventSourcedRuntimeProjection) (event : RuntimeEvent) :
    EventSourcedRuntimeProjection :=
  if event.seq ≤ projection.lastSeq then
    projection
  else
    applyContent event (stamp event projection)

/-- The projection that a replay starts from where it is given none. -/
def initialProjection (events : List RuntimeEvent) : EventSourcedRuntimeProjection :=
  createRuntimeEventProjection ((events.head?.map RuntimeEvent.threadId).getD "")

def replayFrom (initial : EventSourcedRuntimeProjection) (events : List RuntimeEvent) :
    EventSourcedRuntimeProjection :=
  (events.insertionSort fun left right => left.seq ≤ right.seq).foldl applyRuntimeEvent initial

def replayRuntimeEvents (events : List RuntimeEvent) : EventSourcedRuntimeProjection :=
  replayFrom (initialProjection events) events

section
variable (event : RuntimeEvent) (projection : EventSourcedRuntimeProjection)

theorem upsertItem_lastSeq : (upsertItem item mode projection).lastSeq = projection.lastSeq := rfl

theorem applyTurnEvent_lastSeq :
    (applyTurnEvent event kind text projection).lastSeq = projection.lastSeq := by
  unfold applyTurnEvent
  split <;> rfl

theorem applyCompactionEvent_lastSeq :
    (applyCompactionEvent event completed compaction projection).lastSeq = projection.lastSeq := by
  unfold applyCompactionEvent
  dsimp only
  split
  · split
    · exact upsertItem_lastSeq _
    · rfl
  · rfl

theorem upsertRequest_lastSeq (isItem : TurnItemBody → Bool) (id : String) :
    (upsertRequest event isItem id body status projection).lastSeq = projection.lastSeq := by
  unfold upsertRequest
  split
  · rfl
  · exact upsertItem_lastSeq _

theorem applyErrorEvent_lastSeq :
    (applyErrorEvent event message code details severity projection).lastSeq = projection.lastSeq := by
  unfold applyErrorEvent
  dsimp only
  split
  · exact upsertItem_lastSeq _
  · rfl

theorem applyContent_lastSeq : (applyContent event projection).lastSeq = projection.lastSeq := by
  unfold applyContent
  split
  case h_1 => rfl
  case h_2 => exact applyTurnEvent_lastSeq _ _
  case h_3 => exact upsertItem_lastSeq _
  case h_4 => exact upsertItem_lastSeq _
  case h_5 => exact upsertRequest_lastSeq event projection _ _
  case h_6 => exact upsertRequest_lastSeq event projection _ _
  case h_7 => exact applyCompactionEvent_lastSeq _ _
  case h_8 => rfl
  case h_9 => rfl
  case h_10 => exact applyErrorEvent_lastSeq _ _
  case h_11 => rfl

end

/-- The reducer takes in numbered items. -/
def reducer : Replayer EventSourcedRuntimeProjection RuntimeEvent where
  seq := RuntimeEvent.seq
  last := EventSourcedRuntimeProjection.lastSeq
  take := applyRuntimeEvent
  skips projection event old := if_pos old
  advances projection event new := by
    rw [applyRuntimeEvent, if_neg (Nat.not_le_of_lt new), applyContent_lastSeq]
    rfl

theorem replayFrom_eq : replayFrom initial events = reducer.replay initial events := rfl

/-- The thread of the first event. -/
def firstThread (events : List RuntimeEvent) : Option String :=
  events.head?.map RuntimeEvent.threadId

/-- A replay of all the events from an empty projection knows their thread: none of them is
numbered 0, or the first one that is not is of the same thread. -/
def Anchored (events : List RuntimeEvent) : Prop :=
  match events with
  | [] => True
  | [first] => 0 < first.seq
  | first :: second :: _ => 0 < first.seq ∨ second.threadId = first.threadId

/-- The first event that counts names the thread. -/
theorem apply_unnamed (counts : 0 < event.seq) :
    applyRuntimeEvent (createRuntimeEventProjection "") event =
      applyRuntimeEvent (createRuntimeEventProjection event.threadId) event := by
  have stamped : stamp event (createRuntimeEventProjection "") =
      stamp event (createRuntimeEventProjection event.threadId) := by
    unfold stamp createRuntimeEventProjection
    congr 1
    exact (ite_self event.threadId).symm
  have new : ∀ threadId, ¬ event.seq ≤ (createRuntimeEventProjection threadId).lastSeq :=
    fun _ => Nat.not_le_of_lt counts
  rw [applyRuntimeEvent, applyRuntimeEvent, if_neg (new _), if_neg (new _), stamped]

theorem distinct_of_nodup (distinct : (events.map RuntimeEvent.seq).Nodup) :
    reducer.Distinct events :=
  fun _ heldLeft _ heldRight same => inj_on_of_nodup_map distinct heldLeft heldRight same

/-- From an empty projection, anchored events in order come to what they come to alone. -/
theorem replay_unnamed (ordered : reducer.InOrder events)
    (distinct : (events.map RuntimeEvent.seq).Nodup) (anchored : Anchored events) :
    replayFrom (createRuntimeEventProjection "") events = replayRuntimeEvents events := by
  unfold replayRuntimeEvents
  rw [replayFrom_eq, replayFrom_eq]
  unfold Replayer.replay
  rw [Replayer.sorted_of_inOrder ordered]
  cases events with
  | nil => rfl
  | cons first rest =>
    show rest.foldl applyRuntimeEvent (applyRuntimeEvent (createRuntimeEventProjection "") first) =
      rest.foldl applyRuntimeEvent
        (applyRuntimeEvent (createRuntimeEventProjection first.threadId) first)
    by_cases counts : 0 < first.seq
    · rw [apply_unnamed counts]
    · have zero : first.seq = 0 := Nat.eq_zero_of_not_pos counts
      have skipped : ∀ threadId, applyRuntimeEvent (createRuntimeEventProjection threadId) first =
          createRuntimeEventProjection threadId := fun threadId => if_pos (le_of_eq zero)
      rw [skipped, skipped]
      cases rest with
      | nil => exact absurd anchored counts
      | cons second rest =>
        have thread := anchored.resolve_left counts
        have later : 0 < second.seq := by
          rw [map_cons, map_cons, nodup_cons] at distinct
          have apart : first.seq ≠ second.seq :=
            fun same => distinct.1 (same ▸ mem_cons_self)
          omega
        rw [foldl_cons, foldl_cons, apply_unnamed later, thread]

/-- Events with distinct numbers give one projection in any order and repetition that begins
with an event of the same thread, and a replay in order can be taken up again where it
stopped. -/
theorem replay_laws (events : List RuntimeEvent) (distinct : (events.map RuntimeEvent.seq).Nodup) :
    (∀ others : List RuntimeEvent, (∀ event, event ∈ others ↔ event ∈ events) →
        firstThread others = firstThread events →
        replayRuntimeEvents others = replayRuntimeEvents events) ∧
      ∀ front back, reducer.sorted events = front ++ back → (front = [] → Anchored back) →
        replayFrom (replayRuntimeEvents front) back = replayRuntimeEvents (front ++ back) := by
  refine ⟨fun others same thread => ?_, fun front back split anchored => ?_⟩
  · have initial : initialProjection others = initialProjection events :=
      congrArg (fun thread => createRuntimeEventProjection (Option.getD thread "")) thread
    unfold replayRuntimeEvents
    rw [initial, replayFrom_eq, replayFrom_eq]
    exact (Replayer.replay_congr (fun event => (same event).symm) (distinct_of_nodup distinct)
      _).symm
  · have ordered : reducer.InOrder (front ++ back) := split ▸ Replayer.inOrder_sorted events
    have numbers : ((front ++ back).map RuntimeEvent.seq).Nodup := by
      rw [← split]
      exact ((perm_insertionSort _ events).map _).nodup_iff.mpr distinct
    cases front with
    | nil =>
      exact replay_unnamed ordered numbers (anchored rfl)
    | cons first rest =>
      unfold replayRuntimeEvents
      rw [replayFrom_eq, replayFrom_eq, replayFrom_eq]
      exact Replayer.replay_append ordered _

section Example

private def heartbeat (seq : Nat) (threadId : String) : RuntimeEvent :=
  ⟨seq, "2026-01-01T00:00:00Z", threadId, none, none, none, .silent .heartbeat⟩

theorem replay_laws_two : replayRuntimeEvents [heartbeat 2 "a", heartbeat 1 "a", heartbeat 2 "a"] =
        replayRuntimeEvents [heartbeat 1 "a", heartbeat 2 "a"] ∧
      replayFrom (replayRuntimeEvents [heartbeat 1 "a"]) [heartbeat 2 "a"] =
        replayRuntimeEvents [heartbeat 1 "a", heartbeat 2 "a"] := by
  have laws := replay_laws [heartbeat 1 "a", heartbeat 2 "a"] (by decide)
  refine ⟨laws.1 _ (fun event => ?_) rfl, laws.2 [_] [_] rfl fun none => (by cases none)⟩
  simp only [mem_cons, not_mem_nil, or_false]
  tauto

/-- Events of two threads come to the thread of whichever is first in the list, and an event
that is numbered 0 names a thread only where the replay begins with it. -/
theorem replay_depends_on_first : replayRuntimeEvents [heartbeat 1 "a", heartbeat 2 "b"] ≠
        replayRuntimeEvents [heartbeat 2 "b", heartbeat 1 "a"] ∧
      replayFrom (replayRuntimeEvents []) [heartbeat 0 "a"] ≠
        replayRuntimeEvents ([] ++ [heartbeat 0 "a"]) := by
  refine ⟨fun same => ?_, fun same => ?_⟩
  all_goals exact absurd (congrArg EventSourcedRuntimeProjection.threadId same) (by decide)

end Example

end QiongQi.RuntimeReplays
