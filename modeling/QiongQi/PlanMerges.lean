import QiongQi.Machines
import QiongQi.PlanTodos

/-! Merging a plan into a todo list. The lines are matched one after another, each with
what the lines before it have left, so a line that takes a todo by its content alone or
by its place may take it from a line that it belongs to. -/
namespace QiongQi.PlanMerges
open ThreadRecords ThreadTodos PlanTodos List

section
variable {toLowerCase : String → String} {options : MergePlanTodosOptions}

/-- An existing plan todo has the line's path and content hash. -/
def StandsFor (item : ThreadTodoItem) (planItem : ExtractedPlanTodo) : Prop :=
  ∃ source, item.source = some source ∧ source.relativePath = planItem.source.relativePath ∧
    source.contentHash = planItem.source.contentHash

theorem standsFor_iff : StandsFor item planItem ↔ item.source.any (fun source =>
      source.relativePath = planItem.source.relativePath &&
        source.contentHash = planItem.source.contentHash) = true := by
  cases held : item.source with
  | none | some source => simp [StandsFor, held]

theorem of_orElse (found : (first <|> second) = some value) :
    first = some value ∨ second = some value := by
  cases first with
  | none => exact .inr found
  | some _ => exact .inl found

variable {planItem : ExtractedPlanTodo}

theorem find_left
    (found : findExistingPlanTodo toLowerCase existingItems used planItem = some item) :
    item ∈ existingItems ∧ item.id ∉ used := by
  have left : item ∈ existingItems.filter fun item => item.id ∉ used := by
    rcases of_orElse found with byPlan | found
    · exact mem_of_find?_eq_some byPlan
    rcases of_orElse found with byPath | found
    · exact mem_of_find?_eq_some byPath
    rcases of_orElse found with byContent | byPlace
    · exact mem_of_find?_eq_some byContent
    · exact mem_of_find?_eq_some byPlace
  simpa using left

theorem find_standing (held : item ∈ existingItems) (unused : item.id ∉ used)
    (stands : StandsFor item planItem) :
    ∃ found, findExistingPlanTodo toLowerCase existingItems used planItem = some found ∧
      StandsFor found planItem := by
  have left : item ∈ existingItems.filter fun item => item.id ∉ used :=
    mem_filter.mpr ⟨held, by simpa using unused⟩
  unfold findExistingPlanTodo
  dsimp only
  generalize existingItems.filter (fun item => decide (item.id ∉ used)) = candidates at left
  cases byPlan : candidates.find? fun item => item.source.any fun source =>
      source.planId = planItem.source.planId &&
        source.relativePath = planItem.source.relativePath &&
        source.contentHash = planItem.source.contentHash with
  | some found =>
    refine ⟨found, rfl, standsFor_iff.mpr ?_⟩
    have same := find?_some byPlan
    cases source : found.source with
    | none => simp [source] at same
    | some own =>
      simp only [source, Option.any_some, Bool.and_eq_true] at same ⊢
      exact ⟨same.1.2, same.2⟩
  | none =>
    cases byPath : candidates.find? fun item => item.source.any fun source =>
        source.relativePath = planItem.source.relativePath &&
          source.contentHash = planItem.source.contentHash with
    | some found =>
      have same := find?_some byPath
      exact ⟨found, rfl, standsFor_iff.mpr same⟩
    | none =>
      have missing := find?_eq_none.mp byPath item left
      exact absurd (standsFor_iff.mp stands) missing

/-- The ids that the lines take, each line of what is left for it. -/
def taken (toLowerCase : String → String) (existingItems : List ThreadTodoItem) :
    List String → List ExtractedPlanTodo → List String
  | used, [] => used
  | used, planItem :: rest =>
    taken toLowerCase existingItems
      (usedAfter (findExistingPlanTodo toLowerCase existingItems used planItem) used) rest

theorem mergeLines_get :
    ∀ (used : List String) (k : Nat), (mergeLines toLowerCase options used planItems).1[k]? =
      planItems[k]?.map fun planItem => mergedItem options planItem
        (findExistingPlanTodo toLowerCase options.existingItems
          (taken toLowerCase options.existingItems used (planItems.take k)) planItem) := by
  induction planItems with
  | nil => exact fun _ _ => rfl
  | cons planItem rest ih =>
    intro used k
    cases k with
    | zero => rfl
    | succ k => exact ih _ k

theorem mergeLines_length :
    ∀ used, (mergeLines toLowerCase options used planItems).1.length = planItems.length := by
  induction planItems with
  | nil => exact fun _ => rfl
  | cons planItem rest ih => exact fun used => congrArg (· + 1) (ih _)

theorem mergePlanTodos_get (line : options.planItems[k]? = some planItem) :
    (mergePlanTodos toLowerCase options).items[k]? = some (mergedItem options planItem
      (findExistingPlanTodo toLowerCase options.existingItems
        (taken toLowerCase options.existingItems [] (options.planItems.take k)) planItem)) := by
  have within : k < (mergeLines toLowerCase options [] options.planItems).1.length := by
    rw [mergeLines_length]
    exact (List.getElem?_eq_some_iff.mp line).1
  show ((mergeLines toLowerCase options [] options.planItems).1 ++ _)[k]? = _
  rw [getElem?_append_left within, mergeLines_get, line]
  rfl

/-- An entry has the id, the status and the creation time of a todo. -/
def Continues (entry item : ThreadTodoItem) : Prop :=
  entry.id = item.id ∧ entry.status = item.status ∧ entry.createdAt = item.createdAt

/-- Each line that an existing plan todo stands for continues such a todo. -/
def IdentityKept (toLowerCase : String → String) (options : MergePlanTodosOptions) : Prop :=
  ∀ (k : Nat) (planItem : ExtractedPlanTodo), options.planItems[k]? = some planItem →
    (∃ item ∈ options.existingItems, StandsFor item planItem) →
    ∃ entry, (mergePlanTodos toLowerCase options).items[k]? = some entry ∧
      ∃ item ∈ options.existingItems, StandsFor item planItem ∧ Continues entry item

/-- A line finds nothing, and its new entry is no different from a todo that stands for it. -/
def RenewedAlike (toLowerCase : String → String) (existingItems : List ThreadTodoItem)
    (used : List String) (planItem : ExtractedPlanTodo) : Prop :=
  findExistingPlanTodo toLowerCase existingItems used planItem = none ∧
    ∃ item ∈ existingItems, StandsFor item planItem ∧ planItem.id = item.id ∧
      planItem.status = item.status ∧ planItem.createdAt = item.createdAt

/-- When the turn of such a line comes, the lines before it have left one of its todos. -/
def LeftInTurn (toLowerCase : String → String) (options : MergePlanTodosOptions) : Prop :=
  ∀ (k : Nat) (planItem : ExtractedPlanTodo), options.planItems[k]? = some planItem →
    (∃ item ∈ options.existingItems, StandsFor item planItem) →
    let used := taken toLowerCase options.existingItems [] (options.planItems.take k)
    (∃ item ∈ options.existingItems, StandsFor item planItem ∧ item.id ∉ used) ∨
      RenewedAlike toLowerCase options.existingItems used planItem

theorem mergedItem_continues : Continues (mergedItem options planItem (some item)) item := by
  refine ⟨rfl, ?_, rfl⟩
  show (if _ then item.status else item.status) = item.status
  exact ite_self _

/-- What a line's entry continues, by what is left in its turn. -/
theorem continues_iff : (∃ item ∈ options.existingItems, StandsFor item planItem ∧
        Continues (mergedItem options planItem
          (findExistingPlanTodo toLowerCase options.existingItems used planItem)) item) ↔
      (∃ item ∈ options.existingItems, StandsFor item planItem ∧ item.id ∉ used) ∨
        RenewedAlike toLowerCase options.existingItems used planItem := by
  constructor
  · rintro ⟨item, held, stands, same⟩
    cases found : findExistingPlanTodo toLowerCase options.existingItems used planItem with
    | none =>
      rw [found] at same
      exact .inr ⟨found, item, held, stands, same⟩
    | some other =>
      rw [found] at same
      refine .inl ⟨item, held, stands, ?_⟩
      rw [← same.1]
      exact (find_left found).2
  · rintro (⟨item, held, stands, unused⟩ | ⟨missing, item, held, stands, same⟩)
    · obtain ⟨found, took, standing⟩ : ∃ found,
          findExistingPlanTodo toLowerCase options.existingItems used planItem = some found ∧
            StandsFor found planItem := find_standing held unused stands
      rw [took]
      exact ⟨found, (find_left took).1, standing, mergedItem_continues⟩
    · rw [missing]
      exact ⟨item, held, stands, same⟩

end

/-- The todos of unchanged lines are continued exactly where no line has lost its todos to
the lines before it. -/
theorem identity_kept_iff (toLowerCase : String → String) (options : MergePlanTodosOptions) :
    IdentityKept toLowerCase options ↔ LeftInTurn toLowerCase options := by
  refine forall_congr' fun k => forall_congr' fun planItem => imp_congr_right fun line =>
    imp_congr_right fun _ => ?_
  rw [mergePlanTodos_get line]
  simp only [Option.some.injEq, exists_eq_left']
  exact continues_iff

/-- The plan's only line, done since Monday. -/
def shipped : ThreadTodoItem where
  id := "todo-7"
  content := "ship it"
  status := .completed
  source := some {
    planId := "p1"
    relativePath := "plan.md"
    ordinal := 0
    contentHash := contentHashOf id "ship it" }
  createdAt := "monday"
  updatedAt := "tuesday"

/-- A line is put in front of it. -/
def afterInsertion : MergePlanTodosOptions where
  threadId := "thread-1"
  existing := some { threadId := "thread-1", items := [shipped], updatedAt := "tuesday" }
  planItems := extractPlanTodos id { planId := "p1", relativePath := "plan.md", now := "friday" }
    "- [ ] test it\n- [x] ship it"
  now := "friday"
  preserveCompleted := some true

/-- The inserted line takes the todo by its place, and the old line begins anew. -/
theorem inserted_line_takes_todo :
    (afterInsertion.planItems.map fun planItem => planItem.source.contentHash).Nodup ∧
      ¬ IdentityKept id afterInsertion := by
  have distinct : (afterInsertion.planItems.map fun planItem =>
      planItem.source.contentHash).Nodup := by decide
  refine ⟨distinct, fun kept => ?_⟩
  have entered : ((mergePlanTodos id afterInsertion).items[1]?.map ThreadTodoItem.id) ≠
      some shipped.id := by decide
  have line : ∃ planItem, afterInsertion.planItems[1]? = some planItem ∧ StandsFor shipped planItem := by
    refine ⟨(afterInsertion.planItems[1]?).get (by decide), Option.some_get _ |>.symm, ?_⟩
    exact standsFor_iff.mpr (by decide)
  obtain ⟨planItem, found, stands⟩ := line
  obtain ⟨entry, held, item, existing, -, same⟩ :=
    kept 1 planItem found ⟨shipped, mem_singleton_self _, stands⟩
  refine entered ?_
  rw [held, Option.map_some, same.1, mem_singleton.mp existing]

end QiongQi.PlanMerges
