import QiongQi.ThreadRecords

/-! The todo list of a thread: how `setTodos` turns the requested items into stored ones,
finding for each the existing item that it continues. -/
namespace QiongQi.ThreadTodos
open RuntimeContracts ThreadRecords

structure RawTodo where
  id : Option String := none
  content : String
  status : ThreadTodoStatus
  source : Option ThreadTodoSource := none
  deriving DecidableEq

def normalizeTodoContent (value : String) : String :=
  String.ofList (trimChars (collapseSpaces value.toList))

/-- `text.replace(/\/+/g, '/')`. -/
def collapseSlashes : List Char → List Char
  | '/' :: '/' :: rest => collapseSlashes ('/' :: rest)
  | c :: rest => c :: collapseSlashes rest
  | [] => []

def dropDotSlash : List Char → List Char
  | '.' :: '/' :: rest => rest
  | chars => chars

def normalizePlanRelativePath (relativePath : String) : String :=
  String.ofList (dropDotSlash (collapseSlashes
    (relativePath.toList.map fun c => if c = '\\' then '/' else c)))

def guiPlanAcceptedRelativeDirs : List String :=
  [".qiongqisdd/plan", ".deepseekgui/plan"]

section
variable (toLowerCase : String → String)

def isGuiPlanRelativePath (value : String) : Bool :=
  let normalized := (toLowerCase (normalizePlanRelativePath value)).toList
  if !".md".toList.isSuffixOf normalized then false
  else
    match guiPlanAcceptedRelativeDirs.find? fun dir => (dir ++ "/").toList.isPrefixOf normalized with
    | none => false
    | some dir =>
      let rest := normalized.drop (dir.length + 1)
      !rest.isEmpty && !rest.contains '/' && rest ≠ "..".toList

def normalizeTodoSource (source : ThreadTodoSource) : Except String ThreadTodoSource :=
  let relativePath := normalizePlanRelativePath source.relativePath
  if isGuiPlanRelativePath toLowerCase relativePath then .ok { source with relativePath }
  else .error s!"invalid GUI plan relative path: {source.relativePath}"

/-- The number whose base 36 text is the hash. -/
def todoContentHash (value : String) : UInt32 :=
  let normalized := toLowerCase (normalizeTodoContent value)
  (normalized.toList.flatMap codeUnits).foldl
    (fun hash unit => (hash ^^^ unit.toUInt32) * 0x01000193) 0x811c9dc5

def findExistingTodoForRaw (existingItems : List ThreadTodoItem) (usedIds : List String)
    (content : String) (source : Option ThreadTodoSource) : Option ThreadTodoItem :=
  let candidates := existingItems.filter fun item => item.id ∉ usedIds
  match source with
  | some raw =>
    (candidates.find? fun item => item.source = some raw) <|>
    (candidates.find? fun item => item.source.any fun source =>
      source.planId = raw.planId && source.relativePath = raw.relativePath &&
        source.contentHash = raw.contentHash) <|>
    (candidates.find? fun item => item.source.any fun source =>
      source.planId = raw.planId && source.relativePath = raw.relativePath &&
        source.ordinal = raw.ordinal)
  | none =>
    let hash := todoContentHash toLowerCase content
    candidates.find? fun item => item.source.isNone && todoContentHash toLowerCase item.content = hash

/-- The requested id if it is free, else the first free one of the generated `ids`, with
the ids that remain. A call is described with all the ids it draws. -/
def uniqueTodoId (requested : String) (usedIds : List String) : List String → Option (String × List String)
  | ids =>
    let candidate := jsTrim requested
    if candidate ≠ "" && candidate ∉ usedIds then some (candidate, ids)
    else
      match ids.dropWhile fun id => id = "" || id ∈ usedIds with
      | [] => none
      | id :: rest => some (id, rest)

structure TodoProgress where
  usedIds : List String := []
  inProgressSeen : Bool := false
  ids : List String

def normalizeTodoItem (existingItems : List ThreadTodoItem) (now : String)
    (progress : TodoProgress) (raw : RawTodo) : Except String (ThreadTodoItem × TodoProgress) := do
  let content := normalizeTodoContent raw.content
  if content = "" then throw "todo content is required"
  if raw.status = .inProgress && progress.inProgressSeen then
    throw "at most one todo can be in_progress"
  let source ← raw.source.mapM (normalizeTodoSource toLowerCase)
  let requestedId := truthy (raw.id.map jsTrim)
  let existing :=
    (requestedId.bind fun id => existingItems.reverse.find? (·.id = id)) <|>
      findExistingTodoForRaw toLowerCase existingItems progress.usedIds content source
  let named := requestedId <|> truthy (existing.map (·.id))
  -- without a name of its own the item takes the next generated id as its request
  let (requested, ids) :=
    match named, progress.ids with
    | some name, ids => (name, ids)
    | none, id :: ids => (id, ids)
    | none, [] => ("", [])
  let some (id, rest) := uniqueTodoId requested progress.usedIds ids
    | throw "the id generator was not asked for enough ids"
  let unchanged := existing.filter fun item =>
    item.content = content && item.status = raw.status && item.source = source
  return ({ id, content, status := raw.status, source
            createdAt := (existing.map (·.createdAt)).getD now
            updatedAt := (unchanged.map (·.updatedAt)).getD now },
    { usedIds := id :: progress.usedIds
      inProgressSeen := progress.inProgressSeen || raw.status = .inProgress
      ids := rest })

def normalizeTodosFrom (existingItems : List ThreadTodoItem) (now : String) :
    TodoProgress → List RawTodo → Except String (List ThreadTodoItem)
  | _, [] => .ok []
  | progress, raw :: rest => do
    let (item, progress) ← normalizeTodoItem toLowerCase existingItems now progress raw
    let items ← normalizeTodosFrom existingItems now progress rest
    return item :: items

/-- The stored items of a request; `ids` are the ids that the call draws. -/
def normalizeTodoItems (rawItems : List RawTodo) (existingItems : List ThreadTodoItem)
    (now : String) (ids : List String) : Except String (List ThreadTodoItem) :=
  normalizeTodosFrom toLowerCase existingItems now { ids } rawItems

end

end QiongQi.ThreadTodos
