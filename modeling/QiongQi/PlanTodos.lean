import QiongQi.TextLines
import QiongQi.ThreadTodos

/-! `todos.ts`: the task lines of a plan as todos, and a thread's todo list brought up to
a plan. A line's content is known by its hash, and its todo is found again by the hash
or by its place among the task lines. -/
namespace QiongQi.PlanTodos
open TextLines RuntimeContracts ThreadRecords ThreadTodos

/-- What `.` does not match. -/
def isLineTerminator (c : Char) : Bool :=
  c = '\n' || c = '\r' || c = '\u2028' || c = '\u2029'

def isBullet (c : Char) : Bool := c = '-' || c = '*' || c = '+'

def isMarker (c : Char) : Bool := c = ' ' || c = 'x' || c = 'X'

/-- The groups of `TASK_LINE_RE`, and the blanks that it matches after them. -/
structure TaskLine where
  lead : List Char
  marker : Char
  gap : List Char
  text : List Char
  trailing : List Char
  deriving DecidableEq

/-- The end of a task line whose text is blank: the repetition of blanks gives back
characters from its end until one of them can be the text. -/
def blankText : List Char → Option (List Char × List Char × List Char)
  | [] => none
  | first :: others =>
    match others.reverse.dropWhile isLineTerminator with
    | [] => none
    | c :: before =>
      some (first :: before.reverse, [c], (others.reverse.takeWhile isLineTerminator).reverse)

/-- What follows the bracket: the blanks of group 3, the text of group 4 and the rest. -/
def taskText (rest : List Char) : Option (List Char × List Char × List Char) :=
  let gap := rest.takeWhile isJsSpace
  let body := rest.dropWhile isJsSpace
  if body = [] then blankText gap
  else if gap = [] || (trimEndChars body).any isLineTerminator then none
  else some (gap, trimEndChars body, body.drop (trimEndChars body).length)

/-- What follows the blanks after the bullet. -/
def taskBox (lead : List Char) : List Char → Option TaskLine
  | '[' :: marker :: ']' :: rest =>
    if isMarker marker then
      (taskText rest).map fun (gap, text, trailing) =>
        { lead := lead ++ ['['], marker, gap := ']' :: gap, text, trailing }
    else none
  | _ => none

/-- `TASK_LINE_RE.exec(line)`. -/
def taskLine (line : List Char) : Option TaskLine :=
  match line.dropWhile isJsSpace with
  | bullet :: rest =>
    let blanks := rest.takeWhile isJsSpace
    if isBullet bullet && blanks ≠ [] then
      taskBox (line.takeWhile isJsSpace ++ bullet :: blanks) (rest.dropWhile isJsSpace)
    else none
  | [] => none

def taskMarkerToStatus (marker : Char) : ThreadTodoStatus :=
  if marker = 'x' || marker = 'X' then .completed else .pending

def base36Digit (digit : Nat) : Char :=
  if digit < 10 then Char.ofNat (48 + digit) else Char.ofNat (87 + digit)

/-- The digits of a number that has at most so many. -/
def base36Digits : Nat → Nat → List Char → List Char
  | 0, _, digits => digits
  | more + 1, number, digits =>
    let digits := base36Digit (number % 36) :: digits
    if number / 36 = 0 then digits else base36Digits more (number / 36) digits

section
variable (toLowerCase : String → String)

/-- `todoContentHash` as the text it returns. -/
def contentHashOf (value : String) : String :=
  String.ofList (base36Digits 7 (todoContentHash toLowerCase value).toNat [])

def makePlanTodoId (source : ThreadTodoSource) : String :=
  "todo_plan_" ++ contentHashOf toLowerCase (source.planId ++ ":" ++ source.relativePath ++ ":" ++
    toString source.ordinal ++ ":" ++ source.contentHash)

structure ExtractedPlanTodo where
  id : String
  content : String
  status : ThreadTodoStatus
  source : ThreadTodoSource
  createdAt : String
  updatedAt : String
  deriving DecidableEq

/-- Where a plan is and when it is read. -/
structure PlanPlace where
  planId : String
  relativePath : String
  now : String

def TaskLine.content (task : TaskLine) : String :=
  normalizeTodoContent (String.ofList task.text)

/-- The todo of a task line at its place among those with a content. -/
def planTodo (place : PlanPlace) (ordinal : Nat) (task : TaskLine) : ExtractedPlanTodo :=
  let source : ThreadTodoSource := {
    planId := place.planId
    relativePath := normalizePlanRelativePath place.relativePath
    ordinal
    contentHash := contentHashOf toLowerCase task.content }
  { id := makePlanTodoId toLowerCase source
    content := task.content
    status := taskMarkerToStatus task.marker
    source
    createdAt := place.now
    updatedAt := place.now }

def extractFrom (place : PlanPlace) : Nat → List (List Char) → List ExtractedPlanTodo
  | _, [] => []
  | ordinal, line :: rest =>
    match taskLine line with
    | none => extractFrom place ordinal rest
    | some task =>
      if task.content = "" then extractFrom place ordinal rest
      else planTodo toLowerCase place ordinal task :: extractFrom place (ordinal + 1) rest

def extractPlanTodos (place : PlanPlace) (markdown : String) : List ExtractedPlanTodo :=
  extractFrom toLowerCase place 0 (splitLines markdown.toList)

/-- The stored todo that a plan line continues: by plan and content, by path and content,
by content alone, by its place in the plan. -/
def findExistingPlanTodo (existingItems : List ThreadTodoItem) (usedExistingIds : List String)
    (planItem : ExtractedPlanTodo) : Option ThreadTodoItem :=
  let candidates := existingItems.filter fun item => item.id ∉ usedExistingIds
  (candidates.find? fun item => item.source.any fun source =>
    source.planId = planItem.source.planId && source.relativePath = planItem.source.relativePath &&
      source.contentHash = planItem.source.contentHash) <|>
  (candidates.find? fun item => item.source.any fun source =>
    source.relativePath = planItem.source.relativePath &&
      source.contentHash = planItem.source.contentHash) <|>
  (candidates.find? fun item =>
    contentHashOf toLowerCase item.content = planItem.source.contentHash) <|>
  (candidates.find? fun item => item.source.any fun source =>
    source.planId = planItem.source.planId && source.relativePath = planItem.source.relativePath &&
      source.ordinal = planItem.source.ordinal)

structure MergePlanTodosOptions where
  threadId : String
  existing : Option ThreadTodoList
  planItems : List ExtractedPlanTodo
  now : String
  preserveCompleted : Option Bool := none

def MergePlanTodosOptions.existingItems (options : MergePlanTodosOptions) : List ThreadTodoItem :=
  (options.existing.map ThreadTodoList.items).getD []

/-- A status is kept with and without `preserveCompleted`. -/
def mergedStatus (preserveCompleted : Option Bool) (existing : Option ThreadTodoItem)
    (planItem : ExtractedPlanTodo) : ThreadTodoStatus :=
  match existing with
  | some existing =>
    if preserveCompleted.getD false && existing.status = .completed then existing.status
    else existing.status
  | none => planItem.status

/-- The entry of a plan line. -/
def mergedItem (options : MergePlanTodosOptions) (planItem : ExtractedPlanTodo)
    (existing : Option ThreadTodoItem) : ThreadTodoItem :=
  let status := mergedStatus options.preserveCompleted existing planItem
  { id := (existing.map ThreadTodoItem.id).getD planItem.id
    content := planItem.content
    status
    source := some planItem.source
    createdAt := (existing.map ThreadTodoItem.createdAt).getD planItem.createdAt
    updatedAt :=
      match existing with
      | some existing =>
        if existing.content = planItem.content && existing.status = status then existing.updatedAt
        else options.now
      | none => options.now }

/-- The ids that are used once a line has its entry. -/
def usedAfter (existing : Option ThreadTodoItem) (usedExistingIds : List String) : List String :=
  (existing.map ThreadTodoItem.id).toList ++ usedExistingIds

/-- The entries of the plan's lines, and the ids of the existing todos that they continue. -/
def mergeLines (options : MergePlanTodosOptions) :
    List String → List ExtractedPlanTodo → List ThreadTodoItem × List String
  | usedExistingIds, [] => ([], usedExistingIds)
  | usedExistingIds, planItem :: rest =>
    let existing :=
      findExistingPlanTodo toLowerCase options.existingItems usedExistingIds planItem
    let (items, used) := mergeLines options (usedAfter existing usedExistingIds) rest
    (mergedItem options planItem existing :: items, used)

/-- A todo without a line loses its source; one that has none stays as it is. -/
def detached (now : String) (item : ThreadTodoItem) : ThreadTodoItem :=
  if item.source.isSome then { item with source := none, updatedAt := now } else item

def mergePlanTodos (options : MergePlanTodosOptions) : ThreadTodoList :=
  let (items, usedExistingIds) := mergeLines toLowerCase options [] options.planItems
  let left := options.existingItems.filter fun item => item.id ∉ usedExistingIds
  { threadId := options.threadId
    items := items ++ left.map (detached options.now)
    updatedAt := options.now }

/-- The task lines with their places among all lines. -/
def taskLines (lines : List (List Char)) : List (Nat × TaskLine) :=
  lines.zipIdx.filterMap fun (line, index) => (taskLine line).map fun task => (index, task)

def TaskLine.hash (task : TaskLine) : String :=
  contentHashOf toLowerCase (String.ofList task.text)

/-- The task line that a todo's source names: at its place with its content, else the
first with its content, else the one at its place. -/
def patchTarget (tasks : List (Nat × TaskLine)) (source : ThreadTodoSource) :
    Option (Nat × TaskLine) :=
  ((tasks.zipIdx.find? fun (task, ordinal) =>
      ordinal = source.ordinal && task.2.hash toLowerCase = source.contentHash).map Prod.fst) <|>
    (tasks.find? fun task => task.2.hash toLowerCase = source.contentHash) <|>
    ((tasks.zipIdx.find? fun (_, ordinal) => ordinal = source.ordinal).map Prod.fst)

def markerFor (status : ThreadTodoStatus) : Char :=
  if status = .completed then 'x' else ' '

/-- `line.replace(TASK_LINE_RE, '$1m$3$4')`: what is matched after the text is dropped. -/
def TaskLine.patched (task : TaskLine) (marker : Char) : List Char :=
  task.lead ++ marker :: (task.gap ++ task.text)

def TaskLine.marked (task : TaskLine) (marker : Char) : Bool :=
  (if task.marker = 'X' then 'x' else task.marker) = marker

def lineEnding (markdown : List Char) : List Char :=
  if hasReturnBreak markdown then ['\r', '\n'] else ['\n']

structure PatchResult where
  markdown : String
  changed : Bool

def patchPlanTodoStatus (markdown : String) (item : ThreadTodoItem) : PatchResult :=
  match item.source with
  | none => { markdown, changed := false }
  | some source =>
    let lines := splitLines markdown.toList
    match patchTarget toLowerCase (taskLines lines) source with
    | none => { markdown, changed := false }
    | some (index, task) =>
      let marker := markerFor item.status
      if task.marked marker then { markdown, changed := false }
      else
        { markdown := String.ofList (joinLines (lineEnding markdown.toList)
            (lines.set index (task.patched marker)))
          changed := true }

end

end QiongQi.PlanTodos
