import QiongQi.ItemLogs
import QiongQi.ThreadRecords

/-! The files of a thread in `HybridThreadStore`: metadata lines without item bodies, and
the item log that a read puts back into the turns. -/
namespace QiongQi.ThreadStores
open RuntimeContracts RewrittenLogs TurnItems ItemLogs ThreadRecords
open List hiding get

/-- `metadata.jsonl` and `messages.jsonl` of one thread. -/
structure ThreadFiles where
  metadata : List ThreadRecord := []
  messages : List TurnItem := []

def stripTurn (turn : Turn) : Turn :=
  { turn with prompt := "", items := [] }

def stripThreadItemBodies (thread : ThreadRecord) : ThreadRecord :=
  { thread with turns := thread.turns.map stripTurn }

/-- The values of a `Set` that the trimmed texts were added to. -/
def trimmedSet (values : List String) : List String :=
  byFirst ((values.map jsTrim).filter (· ≠ ""))

def mergeStringArrays (first second : List String) : List String :=
  trimmedSet (first ++ second)

structure RecoveredTurnMetadata where
  attachmentIds : List String := []
  model : Option String := none
  mode : Option ThreadMode := none
  guiPlan : Option GuiPlanContext := none

def RecoveredTurnMetadata.add (current : RecoveredTurnMetadata) (turn : Turn) :
    RecoveredTurnMetadata :=
  { attachmentIds := mergeStringArrays current.attachmentIds turn.attachmentIds
    model := (truthy turn.model).or current.model
    mode := turn.mode.or current.mode
    guiPlan := turn.guiPlan.or current.guiPlan }

/-- What the lines of the thread say about a turn, if one of them has it. -/
def collectTurnMetadata (entries : List ThreadRecord) (turnId : String) :
    Option RecoveredTurnMetadata :=
  match (entries.flatMap (·.turns)).filter (·.id = turnId) with
  | [] => none
  | turns => some (turns.foldl RecoveredTurnMetadata.add {})

def mergeTurnItems (previous next : List TurnItem) : List TurnItem :=
  if previous.isEmpty then next
  else if next.isEmpty then previous
  else loadItems (previous ++ next)

/-- A later record of a turn over an earlier one. -/
def mergeTurnMetadata (previous next : Turn) : Turn :=
  { next with
    model := next.model.or previous.model
    reasoningEffort := next.reasoningEffort.or previous.reasoningEffort
    startedAt := next.startedAt.or previous.startedAt
    finishedAt := next.finishedAt.or previous.finishedAt
    workModeId := next.workModeId.or previous.workModeId
    skillInjectionBytes := next.skillInjectionBytes.or previous.skillInjectionBytes
    toolCatalogFingerprint := next.toolCatalogFingerprint.or previous.toolCatalogFingerprint
    toolCatalogToolCount := next.toolCatalogToolCount.or previous.toolCatalogToolCount
    toolCatalogDrift := next.toolCatalogDrift.or previous.toolCatalogDrift
    guiPlan := next.guiPlan.or previous.guiPlan
    mode := next.mode.or previous.mode
    error := next.error.or previous.error
    prompt := if next.prompt = "" then previous.prompt else next.prompt
    attachmentIds := mergeStringArrays previous.attachmentIds next.attachmentIds
    activeSkillIds := mergeStringArrays previous.activeSkillIds next.activeSkillIds
    injectedMemoryIds := mergeStringArrays previous.injectedMemoryIds next.injectedMemoryIds
    items := mergeTurnItems previous.items next.items }

def applyRecoveredTurnMetadata (recovered : Option RecoveredTurnMetadata) (turn : Turn) : Turn :=
  match recovered with
  | none => turn
  | some recovered =>
    { turn with
      attachmentIds := if turn.attachmentIds.isEmpty then recovered.attachmentIds else turn.attachmentIds
      model := if (truthy turn.model).isSome then turn.model else (truthy recovered.model).or turn.model
      mode := turn.mode.or recovered.mode
      guiPlan := turn.guiPlan.or recovered.guiPlan }

/-- The turns with one id, merged. -/
def mergedTurn (turns : List Turn) (turnId : String) : Option Turn :=
  match turns.filter (·.id = turnId) with
  | [] => none
  | first :: rest => some (rest.foldl mergeTurnMetadata first)

def normalizeThreadMetadata (entries : List ThreadRecord) (thread : ThreadRecord) : ThreadRecord :=
  { thread with
    turns := ((byFirst (thread.turns.map (·.id))).filterMap (mergedTurn thread.turns)).map
      fun turn => applyRecoveredTurnMetadata (collectTurnMetadata entries turn.id) turn }

def readLatestMetadata (files : ThreadFiles) : Option ThreadRecord :=
  files.metadata.getLast?.map (normalizeThreadMetadata files.metadata)

def promptFromItems (items : List TurnItem) : String :=
  (items.findSome? fun item =>
    match item.body with
    | .userMessage text _ => some text
    | _ => none).getD ""

def attachmentIdsFromItems (items : List TurnItem) : List String :=
  trimmedSet (items.flatMap fun item =>
    match item.body with
    | .userMessage _ attachmentIds => attachmentIds
    | _ => [])

def turnFromItems (threadId turnId : String) (items : List TurnItem) (fallbackTime : String) : Turn :=
  let hasOpenItem := items.any TurnItem.isOpen
  let hasFailedItem := items.any fun item => item.status = .failed || item.status = .aborted
  let prompt := promptFromItems items
  { id := turnId
    threadId
    status := if hasOpenItem then .running else if hasFailedItem then .failed else .completed
    prompt := if prompt = "" then s!"Turn {turnId}" else prompt
    attachmentIds := attachmentIdsFromItems items
    createdAt := (items.head?.map (·.createdAt)).getD fallbackTime
    finishedAt :=
      if hasOpenItem then none
      else some ((items.getLast?.bind (·.finishedAt)).getD fallbackTime)
    items }

def hydrateTurn (items : List TurnItem) (turn : Turn) : Turn :=
  let turnItems := items.filter (·.turnId = turn.id)
  let prompt := promptFromItems turnItems
  { turn with
    prompt := if prompt = "" then turn.prompt else prompt
    attachmentIds :=
      if turn.attachmentIds.isEmpty then attachmentIdsFromItems turnItems else turn.attachmentIds
    items := turnItems }

/-- The turns of items that the record has no turn for. -/
def unknownTurns (thread : ThreadRecord) (items : List TurnItem) : List Turn :=
  ((byFirst (items.map (·.turnId))).filter fun turnId => thread.turns.all (·.id ≠ turnId)).map
    fun turnId =>
      turnFromItems thread.id turnId (items.filter (·.turnId = turnId)) thread.updatedAt

section
variable (localeCompare : String → String → Ordering)

def hydrateThreadItems (thread : ThreadRecord) (items : List TurnItem) : ThreadRecord :=
  if items.isEmpty then stripThreadItemBodies thread
  else
    { thread with
      turns := (thread.turns.map (hydrateTurn items) ++ unknownTurns thread items).mergeSort
        fun left right => localeCompare left.createdAt right.createdAt ≠ .gt }

/-- `HybridThreadStore.get`, for a thread that the store itself has written. -/
def get (files : ThreadFiles) : Option ThreadRecord :=
  (readLatestMetadata files).map fun thread =>
    hydrateThreadItems localeCompare thread (loadHybridItems files.messages)

end

def upsert (files : ThreadFiles) (thread : ThreadRecord) : ThreadFiles :=
  { files with metadata := files.metadata ++ [stripThreadItemBodies thread] }

theorem mem_loadItems : item ∈ loadItems raw ↔ latest TurnItem.id raw item.id = some item := by
  rw [loadItems_eq, mem_filterMap]
  constructor
  · rintro ⟨id, -, found⟩
    rwa [latest_key found]
  · intro found
    refine ⟨item.id, ?_, found⟩
    exact mem_byFirst.mpr (mem_map.mpr ⟨item, mem_reverse.mp (mem_of_find?_eq_some found), rfl⟩)

theorem mem_loadHybridItems : item ∈ loadHybridItems raw ↔ item ∈ loadItems raw := by
  rw [mem_loadItems, loadHybridItems_eq, mem_filterMap]
  constructor
  · rintro ⟨id, -, found⟩
    rwa [latest_key found]
  · intro found
    refine ⟨item.id, ?_, found⟩
    exact mem_byLast.mpr (mem_map.mpr ⟨item, mem_reverse.mp (mem_of_find?_eq_some found), rfl⟩)

theorem hydrated_items (read : turn ∈ (hydrateThreadItems localeCompare thread items).turns) :
    turn.items = items.filter (·.turnId = turn.id) := by
  unfold hydrateThreadItems at read
  by_cases empty : items.isEmpty = true
  · rw [if_pos empty] at read
    obtain ⟨stored, -, rfl⟩ := mem_map.mp read
    simp [stripTurn, isEmpty_iff.mp empty]
  · rw [if_neg empty] at read
    rcases mem_append.mp (mem_mergeSort.mp read) with known | unknown
    · obtain ⟨stored, -, rfl⟩ := mem_map.mp known
      rfl
    · obtain ⟨turnId, -, rfl⟩ := mem_map.mp unknown
      rfl

end QiongQi.ThreadStores
