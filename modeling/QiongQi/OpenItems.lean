import QiongQi.ThreadOperations
import QiongQi.ThreadStores

/-! Turns of a thread in `HybridThreadStore` and `FileSessionStore`. Finishing a turn
closes the open items of the record that is about to lose its items; the item log,
which a later read takes them from, keeps them open. -/
namespace QiongQi.OpenItems
open TurnItems ItemLogs RewrittenLogs ThreadRecords ThreadStores ThreadOperations
open List hiding get

inductive TurnCall where
  | startTurn (request : StartTurnRequest) (createdAt startedAt now : String)
  | applyItem (item : TurnItem) (now : String)
  | updateItem (itemId : String) (patch : TurnItem → TurnItem) (now : String)
  | steerTurn (turnId text : String)
  | interruptTurn (turnId : String) (discard : Bool) (finishedAt now : String)
  | finishTurn (turnId : String) (status : FinalStatus) (error : Option String)
      (finishedAt now : String)

section
variable (toLowerCase : String → String) (localeCompare : String → String → Ordering)

/-- `upsertThread` with the change of an operation. -/
def upsertThread (files : ThreadFiles) (operation : ThreadOperation) : ThreadFiles :=
  match get localeCompare files with
  | none => files
  | some current => ((apply toLowerCase operation current).map (upsert files)).getD files

def appendToLog (files : ThreadFiles) (item : TurnItem) : ThreadFiles :=
  { files with messages := files.messages ++ [item] }

/-- `appendItem`: the log first, then the thread. -/
def appendItem (files : ThreadFiles) (item : TurnItem) (now : String) : ThreadFiles :=
  upsertThread toLowerCase localeCompare (appendToLog files item) (.plain (.projectItem item now))

def startTurn (files : ThreadFiles) (request : StartTurnRequest)
    (createdAt startedAt now : String) : ThreadFiles :=
  match get localeCompare files with
  | none => files
  | some thread =>
    let operation := settle (.startTurn request createdAt startedAt now) thread
    appendToLog (upsertThread toLowerCase localeCompare files operation) (userItem request createdAt)

def updateLog (files : ThreadFiles) (itemId : String) (patch : TurnItem → TurnItem) : ThreadFiles :=
  match (loadItems files.messages).find? (·.id = itemId) with
  | none => files
  | some current => appendToLog files (patch current)

def replaceTurnItem (itemId : String) (patch : TurnItem → TurnItem) (turn : Turn) : Turn :=
  { turn with items := turn.items.map fun item => if item.id = itemId then patch item else item }

def updateItem (files : ThreadFiles) (itemId : String) (patch : TurnItem → TurnItem)
    (now : String) : ThreadFiles :=
  let logged := updateLog files itemId patch
  match get localeCompare logged with
  | none => logged
  | some current =>
    upsert logged (touchThread
      { current with turns := current.turns.map (replaceTurnItem itemId patch) } now)

/-- `discardTurnItems`: the log is rewritten without the turn, its user messages apart. -/
def discardTurnItems (files : ThreadFiles) (turnId : String) : ThreadFiles :=
  { files with messages := (loadItems files.messages).filter fun item =>
      item.turnId ≠ turnId || TurnItem.isUserMessage item }

def interruptTurn (files : ThreadFiles) (turnId : String) (discard : Bool)
    (finishedAt now : String) : ThreadFiles :=
  let kept := if discard then discardTurnItems files turnId else files
  upsertThread toLowerCase localeCompare kept (.plain (.interruptTurn turnId discard finishedAt now))

def finishTurn (files : ThreadFiles) (turnId : String) (status : FinalStatus)
    (error : Option String) (finishedAt now : String) : ThreadFiles :=
  let finished := upsertThread toLowerCase localeCompare files
    (.plain (.finishTurn turnId status error finishedAt now))
  match truthy error with
  | none => finished
  | some message =>
    appendItem toLowerCase localeCompare finished (makeErrorItem turnId message finishedAt) now

def call (files : ThreadFiles) : TurnCall → ThreadFiles
  | .startTurn request createdAt startedAt now =>
    startTurn toLowerCase localeCompare files request createdAt startedAt now
  | .applyItem item now => appendItem toLowerCase localeCompare files item now
  | .updateItem itemId patch now => updateItem localeCompare files itemId patch now
  | .steerTurn _ _ => files
  | .interruptTurn turnId discard finishedAt now =>
    interruptTurn toLowerCase localeCompare files turnId discard finishedAt now
  | .finishTurn turnId status error finishedAt now =>
    finishTurn toLowerCase localeCompare files turnId status error finishedAt now

/-- The turn that the call ends. -/
def TurnCall.ends : TurnCall → Option String
  | .interruptTurn turnId _ _ _ | .finishTurn turnId _ _ _ _ => some turnId
  | _ => none

/-- Neither the thread nor the items that are loaded have an open item of the turn. -/
def NoOpenItems (files : ThreadFiles) (turnId : String) : Prop :=
  (∀ thread ∈ get localeCompare files, ∀ turn ∈ thread.turns, turn.id = turnId →
    ∀ item ∈ turn.items, item.isOpen = false) ∧
  ∀ item ∈ loadItems files.messages, item.turnId = turnId → item.isOpen = false

end

/-- An item that the call takes out of the log or replaces there: what a discarding
interrupt drops, and an item with the id of the error item of a failing turn. -/
def TurnCall.replaces : TurnCall → TurnItem → Bool
  | .interruptTurn _ discard _ _, item => discard && !TurnItem.isUserMessage item
  | .finishTurn turnId _ error _ _, item =>
    (truthy error).isSome && item.id = s!"item_{turnId}_error"
  | _, _ => false

/-- The log has no open item of the turn that the call would leave there. -/
def LogClosed (files : ThreadFiles) (ending : TurnCall) (turnId : String) : Prop :=
  ∀ item ∈ loadItems files.messages, item.turnId = turnId → ending.replaces item = false → item.isOpen = false

variable {toLowerCase : String → String} {localeCompare : String → String → Ordering}
  {files : ThreadFiles} {turnId : String}

@[simp] theorem upsertThread_messages (operation : ThreadOperation) :
    (upsertThread toLowerCase localeCompare files operation).messages = files.messages := by
  unfold upsertThread
  split
  · rfl
  · cases apply toLowerCase operation _ with
    | none => rfl
    | some next => rfl

theorem noOpenItems_iff : NoOpenItems localeCompare files turnId ↔
    ∀ item ∈ loadItems files.messages, item.turnId = turnId → item.isOpen = false := by
  constructor
  · exact fun closed => closed.2
  · intro closed
    refine ⟨?_, closed⟩
    intro thread loaded turn read same item held
    obtain ⟨stored, -, rfl⟩ := Option.map_eq_some_iff.mp loaded
    rw [hydrated_items read] at held
    obtain ⟨logged, ofTurn⟩ := mem_filter.mp held
    apply closed item (mem_loadHybridItems.mp logged)
    exact (of_decide_eq_true ofTurn).trans same

theorem mem_loadItems_append :
    item ∈ loadItems (raw ++ [last]) ↔ item = last ∨ item ∈ loadItems raw ∧ item.id ≠ last.id := by
  rw [mem_loadItems, latest_append, mem_loadItems]
  by_cases same : last.id = item.id
  · rw [if_pos same]
    constructor
    · intro found
      cases found
      exact .inl rfl
    · rintro (rfl | ⟨-, apart⟩)
      · rfl
      · exact absurd same.symm apart
  · rw [if_neg same]
    constructor
    · exact fun found => .inr ⟨found, fun equal => same equal.symm⟩
    · rintro (rfl | ⟨found, -⟩)
      · exact absurd rfl same
      · exact found

theorem ids_of_loadItems : (loadItems raw).map TurnItem.id = byFirst (raw.map TurnItem.id) := by
  rw [loadItems_eq, keys_of_latest fun _ found => mem_byFirst.mp found]

theorem mem_loadItems_of_nodup (once : (raw.map TurnItem.id).Nodup) :
    item ∈ loadItems raw ↔ item ∈ raw := by
  rw [mem_loadItems]
  constructor
  · intro found
    exact mem_reverse.mp (mem_of_find?_eq_some found)
  · intro held
    have known : (latest TurnItem.id raw item.id).isSome = true :=
      latest_isSome (mem_map.mpr ⟨item, held, rfl⟩)
    obtain ⟨line, found⟩ := Option.isSome_iff_exists.mp known
    have listed : line ∈ raw := mem_reverse.mp (mem_of_find?_eq_some found)
    have same : line = item := inj_on_of_nodup_map once listed held (latest_key found)
    rw [found, same]

theorem mem_loadItems_discarded : item ∈ loadItems (discardTurnItems files turnId).messages ↔
      item ∈ loadItems files.messages ∧ (item.turnId ≠ turnId ∨ TurnItem.isUserMessage item = true) := by
  have once : ((discardTurnItems files turnId).messages.map TurnItem.id).Nodup := by
    have all : ((loadItems files.messages).map TurnItem.id).Nodup := by
      rw [ids_of_loadItems]
      exact nodup_byFirst _
    exact all.sublist (filter_sublist.map _)
  rw [mem_loadItems_of_nodup once]
  simp [discardTurnItems]

theorem interruptTurn_closed_iff (discard : Bool) : NoOpenItems localeCompare
        (interruptTurn toLowerCase localeCompare files turnId discard finishedAt now) turnId ↔
      LogClosed files (.interruptTurn turnId discard finishedAt now) turnId := by
  rw [noOpenItems_iff]
  unfold interruptTurn LogClosed
  rw [upsertThread_messages]
  cases discard with
  | false => simp [TurnCall.replaces]
  | true =>
    simp only [if_true, mem_loadItems_discarded, TurnCall.replaces, Bool.true_and, Bool.not_eq_false']
    constructor
    · intro closed item logged ofTurn user
      exact closed item ⟨logged, .inr user⟩ ofTurn
    · intro closed item logged ofTurn
      obtain ⟨held, apart | user⟩ := logged
      · exact absurd ofTurn apart
      · exact closed item held ofTurn user

theorem finishTurn_closed_iff : NoOpenItems localeCompare
        (finishTurn toLowerCase localeCompare files turnId status error finishedAt now) turnId ↔
      LogClosed files (.finishTurn turnId status error finishedAt now) turnId := by
  rw [noOpenItems_iff]
  unfold finishTurn LogClosed
  cases failed : truthy error with
  | none => simp [TurnCall.replaces, failed]
  | some message =>
    have closedError : (makeErrorItem turnId message finishedAt).isOpen = false := rfl
    simp only [appendItem, upsertThread_messages, appendToLog, mem_loadItems_append,
      TurnCall.replaces, failed, Option.isSome_some, Bool.true_and, decide_eq_false_iff_not]
    constructor
    · intro closed item logged ofTurn apart
      exact closed item (.inr ⟨logged, apart⟩) ofTurn
    · intro closed item logged ofTurn
      rcases logged with rfl | ⟨held, apart⟩
      · exact closedError
      · exact closed item held ofTurn apart

/-- After any calls on the files of a thread, a call that ends a turn leaves no open item
of it exactly when the item log had none that the call leaves alone. -/
theorem no_open_items_iff_log_closed (toLowerCase : String → String)
    (localeCompare : String → String → Ordering) (start : ThreadFiles) (calls : List TurnCall)
    (ending : TurnCall) (turnId : String) (ends : ending.ends = some turnId) :
    let files := calls.foldl (call toLowerCase localeCompare) start
    NoOpenItems localeCompare (call toLowerCase localeCompare files ending) turnId ↔
      LogClosed files ending turnId := by
  intro files
  cases ending with
  | interruptTurn named discard finishedAt now =>
    cases ends
    exact interruptTurn_closed_iff discard
  | finishTurn named status error finishedAt now =>
    cases ends
    exact finishTurn_closed_iff
  | _ => cases ends

private def createdThread : ThreadFiles :=
  upsert {} { id := "thr_1", title := "New chat", workspace := "/work", model := "m"
              createdAt := "t0", updatedAt := "t0" }

private def runningCall : TurnItem :=
  { id := "item_call", turnId := "turn_1", status := .running, createdAt := "t2"
    body := .toolCall "bash" "call_1" "\x7b\x7d" none }

private def callStarted : List TurnCall :=
  [.startTurn { turnId := "turn_1", prompt := "List the files" } "t1" "t1" "t1", .applyItem runningCall "t2"]

private def callFinished : List TurnCall :=
  callStarted ++ [.updateItem "item_call" (fun item => { item with status := .completed }) "t3"]

private def turnFinished : TurnCall :=
  .finishTurn "turn_1" .completed none "t4" "t4"

/-- A turn whose call was closed before the turn ended. -/
theorem no_open_items_after_closed_call : turnFinished.ends = some "turn_1" ∧ NoOpenItems compare
        (call String.toLower compare (callFinished.foldl (call String.toLower compare) createdThread)
          turnFinished) "turn_1" :=
  ⟨rfl, (no_open_items_iff_log_closed String.toLower compare createdThread callFinished turnFinished
    "turn_1" rfl).mpr (by unfold LogClosed; decide)⟩

/-- The turn is finished while its call runs, and the call is still running in the log. -/
theorem call_open_after_turn_finished : ¬ NoOpenItems compare
      (call String.toLower compare (callStarted.foldl (call String.toLower compare) createdThread)
        turnFinished) "turn_1" := by
  intro closed
  have allClosed := closed.2
  revert allClosed
  decide

end QiongQi.OpenItems
