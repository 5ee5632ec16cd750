import Mathlib.Data.List.Infix
import QiongQi.ThreadStores

/-! The two listings of `HybridThreadStore`: a query of the SQLite index, and the scan of
the thread directories that stands in for it. -/
namespace QiongQi.ThreadListings
open Machines RuntimeContracts ThreadRecords ThreadStores

/-- What the language brings along: lower case, dates and the comparison of texts. -/
structure Platform where
  toLowerCase : String → String
  isoToMillis : String → Int
  localeCompare : String → String → Ordering
  compare_swap : ∀ left right, localeCompare right left = (localeCompare left right).swap
  compare_trans : ∀ first second third, localeCompare first second ≠ .gt →
    localeCompare second third ≠ .gt → localeCompare first third ≠ .gt

/-- A platform for plain texts whose dates are all the epoch. -/
def epochPlatform : Platform where
  toLowerCase := String.toLower
  isoToMillis _ := 0
  localeCompare := compare
  compare_swap _ _ := Std.OrientedOrd.eq_swap
  compare_trans _ _ _ below above := Ordering.isLE_iff_ne_gt.mp
    (Std.TransOrd.isLE_trans (Ordering.isLE_iff_ne_gt.mpr below) (Ordering.isLE_iff_ne_gt.mpr above))

structure ThreadListOptions where
  limit : Option ℚ := none
  search : Option String := none
  includeArchived : Bool := false
  archivedOnly : Bool := false
  includeSide : Bool := false

structure ThreadSummary where
  id : String
  ownerUserId : Option String
  title : String
  workspace : String
  model : String
  mode : ThreadMode
  workModeId : String
  workModeModuleId : Option String
  status : ThreadStatus
  costBudgetUsd : Option ℚ
  costBudgetWarningSent : Option Bool
  relation : ThreadRelation
  parentThreadId : Option String
  forkedFromThreadId : Option String
  forkedFromTitle : Option String
  forkedAt : Option String
  forkedFromMessageCount : Option Nat
  forkedFromTurnCount : Option Nat
  goal : Option ThreadGoal
  todos : Option ThreadTodoList
  createdAt : String
  updatedAt : String
  deriving DecidableEq

def toThreadSummary (thread : ThreadRecord) : ThreadSummary :=
  { id := thread.id
    ownerUserId := truthy thread.ownerUserId
    title := thread.title
    workspace := thread.workspace
    model := thread.model
    mode := thread.mode
    workModeId := thread.workModeId
    workModeModuleId := truthy thread.workModeModuleId
    status := thread.status
    costBudgetUsd := thread.costBudgetUsd
    costBudgetWarningSent := thread.costBudgetWarningSent
    relation := thread.relation
    parentThreadId := truthy thread.parentThreadId
    forkedFromThreadId := truthy thread.forkedFromThreadId
    forkedFromTitle := truthy thread.forkedFromTitle
    forkedAt := truthy thread.forkedAt
    forkedFromMessageCount := thread.forkedFromMessageCount
    forkedFromTurnCount := thread.forkedFromTurnCount
    goal := thread.goal
    todos := thread.todos
    createdAt := thread.createdAt
    updatedAt := thread.updatedAt }

def modeText : ThreadMode → String
  | .agent => "agent"
  | .plan => "plan"

section
variable (platform : Platform)

def searchText (id title workspace model : String) (mode : ThreadMode)
    (forkedFromTitle forkedFromThreadId : Option String) (todos : Option ThreadTodoList) : String :=
  let parts := [id, title, workspace, model, modeText mode] ++ forkedFromTitle.toList ++
    forkedFromThreadId.toList ++ ((todos.map (·.items)).getD []).map (·.content)
  platform.toLowerCase ("\n".intercalate (parts.filter (· ≠ "")))

def searchTextForThread (thread : ThreadRecord) : String :=
  searchText platform thread.id thread.title thread.workspace thread.model thread.mode
    thread.forkedFromTitle thread.forkedFromThreadId thread.todos

def searchTextForSummary (thread : ThreadSummary) : String :=
  searchText platform thread.id thread.title thread.workspace thread.model thread.mode
    thread.forkedFromTitle thread.forkedFromThreadId thread.todos

/-- `options.search?.trim().toLowerCase()`, if there is anything to search for. -/
def searchQuery (options : ThreadListOptions) : Option String :=
  truthy (options.search.map fun search => platform.toLowerCase (jsTrim search))

end

/-- The filters by status and relation. -/
def passesFlags (options : ThreadListOptions) (status : ThreadStatus) (relation : ThreadRelation) :
    Bool :=
  (if options.archivedOnly then status = .archived
    else options.includeArchived || (status ≠ .archived && status ≠ .deleted)) &&
  (options.includeSide || relation ≠ .side)

/-- `items.slice(0, limit)` has so many of `length` items. -/
def sliceCount (limit : ℚ) (length : Nat) : Nat :=
  let stop : Int := if 0 ≤ limit then limit.floor else limit.ceil
  if 0 ≤ stop then stop.toNat else (length + stop).toNat

def takeUpTo {α : Type} (count : Option Nat) (items : List α) : List α :=
  match count with
  | none => items
  | some count => items.take count

def newestFirst (platform : Platform) (left right : String) : Bool :=
  platform.localeCompare right left ≠ .gt

def matchesScan (platform : Platform) (options : ThreadListOptions) (thread : ThreadSummary) : Bool :=
  passesFlags options thread.status thread.relation &&
    (searchQuery platform options).all fun query =>
      query.toList <:+: (searchTextForSummary platform thread).toList

def filterThreadSummaries (platform : Platform) (summaries : List ThreadSummary)
    (options : ThreadListOptions) : List ThreadSummary :=
  let out := summaries.filter (matchesScan platform options)
  takeUpTo (options.limit.map fun limit => sliceCount limit out.length) out

/-- A row, as far as the listing reads it; the JSON columns are kept as what they hold. -/
structure ThreadRow where
  id : String
  title : String
  workspace : String
  model : String
  mode : ThreadMode
  workModeId : String
  status : ThreadStatus
  costBudgetUsd : Option ℚ
  costBudgetWarningSent : Option Bool
  relation : ThreadRelation
  parentThreadId : Option String
  forkedFromThreadId : Option String
  forkedFromTitle : Option String
  forkedAt : Option String
  forkedFromMessageCount : Option Nat
  forkedFromTurnCount : Option Nat
  goal : Option ThreadGoal
  todos : Option ThreadTodoList
  createdAt : String
  updatedAt : String
  updatedAtMs : Int
  searchText : String

def rowFromIndexRecord (platform : Platform) (thread : ThreadRecord) : ThreadRow :=
  { id := thread.id
    title := thread.title
    workspace := thread.workspace
    model := thread.model
    mode := thread.mode
    workModeId := thread.workModeId
    status := thread.status
    costBudgetUsd := thread.costBudgetUsd
    costBudgetWarningSent := thread.costBudgetWarningSent
    relation := thread.relation
    parentThreadId := thread.parentThreadId
    forkedFromThreadId := thread.forkedFromThreadId
    forkedFromTitle := thread.forkedFromTitle
    forkedAt := thread.forkedAt
    forkedFromMessageCount := thread.forkedFromMessageCount
    forkedFromTurnCount := thread.forkedFromTurnCount
    goal := thread.goal
    todos := thread.todos
    createdAt := thread.createdAt
    updatedAt := thread.updatedAt
    updatedAtMs := platform.isoToMillis thread.updatedAt
    searchText := searchTextForThread platform thread }

/-- The row has no column for the owner and the module of the work mode. -/
def summaryFromRow (row : ThreadRow) : ThreadSummary :=
  { id := row.id
    ownerUserId := none
    title := row.title
    workspace := row.workspace
    model := row.model
    mode := row.mode
    workModeId := if row.workModeId = "task" || row.workModeId = "" then "office" else row.workModeId
    workModeModuleId := none
    status := row.status
    costBudgetUsd := row.costBudgetUsd
    costBudgetWarningSent := row.costBudgetWarningSent
    relation := row.relation
    parentThreadId := truthy row.parentThreadId
    forkedFromThreadId := truthy row.forkedFromThreadId
    forkedFromTitle := truthy row.forkedFromTitle
    forkedAt := truthy row.forkedAt
    forkedFromMessageCount := row.forkedFromMessageCount
    forkedFromTurnCount := row.forkedFromTurnCount
    goal := row.goal
    todos := row.todos
    createdAt := row.createdAt
    updatedAt := row.updatedAt }

inductive LikeToken where
  | anyText
  | anyChar
  | literal (c : Char)

/-- The tokens of a pattern; none if it ends in the middle of an escape. -/
def likeTokens : List Char → Option (List LikeToken)
  | [] => some []
  | '\\' :: c :: rest => (likeTokens rest).map (.literal c :: ·)
  | ['\\'] => none
  | '%' :: rest => (likeTokens rest).map (.anyText :: ·)
  | '_' :: rest => (likeTokens rest).map (.anyChar :: ·)
  | c :: rest => (likeTokens rest).map (.literal c :: ·)

/-- Letters of ASCII match in either case. -/
def likeMatches : List LikeToken → List Char → Bool
  | [], text => text.isEmpty
  | .anyText :: rest, text => text.tails.any (likeMatches rest)
  | .anyChar :: rest, _ :: text => likeMatches rest text
  | .literal c :: rest, d :: text => c.toLower = d.toLower && likeMatches rest text
  | _ :: _, [] => false

def like (pattern text : String) : Bool :=
  (likeTokens pattern.toList).any fun tokens => likeMatches tokens text.toList

def escapeChars : List Char → List Char
  | [] => []
  | c :: rest => if c = '%' || c = '_' then '\\' :: c :: escapeChars rest else c :: escapeChars rest

def escapeLike (value : String) : String :=
  String.ofList (escapeChars value.toList)

def matchesQuery (platform : Platform) (options : ThreadListOptions) (row : ThreadRow) : Bool :=
  passesFlags options row.status row.relation &&
    (searchQuery platform options).all fun query => like ("%" ++ escapeLike query ++ "%") row.searchText

/-- `ORDER BY updated_at_ms DESC, id DESC`. -/
def orderBy (left right : ThreadRow) : Bool :=
  right.updatedAtMs < left.updatedAtMs ||
    (right.updatedAtMs = left.updatedAtMs && right.id ≤ left.id)

def rowLimit (limit : ℚ) : Nat :=
  (max 1 limit.floor).toNat

def queryThreadRows (platform : Platform) (rows : List ThreadRow) (options : ThreadListOptions) :
    List ThreadRow :=
  takeUpTo (options.limit.map rowLimit)
    ((rows.filter (matchesQuery platform options)).mergeSort orderBy)

structure HybridStore where
  dirs : List (String × ThreadFiles) := []
  rows : List ThreadRow := []

def HybridStore.files (store : HybridStore) (threadId : String) : Option ThreadFiles :=
  (find Prod.fst threadId store.dirs).map Prod.snd

inductive StoreCall where
  | upsert (thread : ThreadRecord)
  | delete (threadId : String)

def storeCall (platform : Platform) (store : HybridStore) : StoreCall → HybridStore
  | .upsert thread =>
    { dirs := put Prod.fst
        (thread.id, ThreadStores.upsert ((store.files thread.id).getD {}) thread) store.dirs
      rows := put ThreadRow.id (rowFromIndexRecord platform thread) store.rows }
  | .delete threadId =>
    { dirs := drop Prod.fst threadId store.dirs
      rows := drop ThreadRow.id threadId store.rows }

def rowHasReadableJsonl (store : HybridStore) (row : ThreadRow) : Bool :=
  (store.files row.id).any fun files => !files.metadata.isEmpty

def listFromIndex (platform : Platform) (store : HybridStore) (options : ThreadListOptions) :
    List ThreadSummary :=
  ((queryThreadRows platform store.rows options).filter (rowHasReadableJsonl store)).map summaryFromRow

/-- `readdir` is the order in which the directories are listed. -/
def listFromFilesystem (platform : Platform) (store : HybridStore) (readdir : List String) :
    List ThreadSummary :=
  let threads := readdir.filterMap fun threadId =>
    (store.files threadId).bind (get platform.localeCompare)
  (threads.map toThreadSummary).mergeSort fun left right =>
    newestFirst platform left.updatedAt right.updatedAt

def listFromScan (platform : Platform) (store : HybridStore) (readdir : List String)
    (options : ThreadListOptions) : List ThreadSummary :=
  filterThreadSummaries platform (listFromFilesystem platform store readdir) options

end QiongQi.ThreadListings
