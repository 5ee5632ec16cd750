import Mathlib.Data.List.Induction
import Mathlib.Data.List.Nodup
import QiongQi.PlanMerges
import QiongQi.TodoIds

/-! A thread's todo list over merges and edits. A merge keeps the id of every existing
todo, and gives the lines that find none the ids of their places in the plan; these may
be ids of todos that came from the same place and were edited since. -/
namespace QiongQi.TodoHistories
open RuntimeContracts ThreadRecords ThreadTodos PlanTodos PlanMerges TodoIds List

/-- A list whose todos have different ids. -/
structure TodoListing where
  items : List ThreadTodoItem
  distinct : (items.map ThreadTodoItem.id).Nodup

/-- A plan as it is merged. -/
structure PlanMerge where
  threadId : String
  place : PlanPlace
  markdown : String
  preserveCompleted : Option Bool

/-- What changes a todo list; `set` edits texts and statuses, detaches todos from their
plan, adds and removes them. -/
inductive TodoAction where
  | merge (plan : PlanMerge)
  | set (todos : List RawTodo) (ids : List String) (now : String)
  | clear

section
variable (toLowerCase : String → String)

def PlanMerge.planItems (plan : PlanMerge) : List ExtractedPlanTodo :=
  extractPlanTodos toLowerCase plan.place plan.markdown

def PlanMerge.options (plan : PlanMerge) (existing : List ThreadTodoItem) :
    MergePlanTodosOptions where
  threadId := plan.threadId
  existing := some { threadId := plan.threadId, items := existing, updatedAt := plan.place.now }
  planItems := plan.planItems toLowerCase
  now := plan.place.now
  preserveCompleted := plan.preserveCompleted

/-- A request that is refused changes nothing. -/
def todoStep (existing : List ThreadTodoItem) : TodoAction → List ThreadTodoItem
  | .merge plan => (mergePlanTodos toLowerCase (plan.options toLowerCase existing)).items
  | .set todos ids now =>
    match normalizeTodoItems toLowerCase todos existing now ids with
    | .ok items => items
    | .error _ => existing
  | .clear => []

def todosAfter (existing : List ThreadTodoItem) (actions : List TodoAction) : List ThreadTodoItem :=
  actions.foldl (todoStep toLowerCase) existing

/-- The todo belongs to the plan that is merged. -/
def OfPlan (plan : PlanMerge) (item : ThreadTodoItem) : Prop :=
  ∃ source, item.source = some source ∧ source.planId = plan.place.planId ∧
    source.relativePath = normalizePlanRelativePath plan.place.relativePath

/-- The ids are different, the entries with a source are those of the lines, and every
todo outside the plan is there once. -/
structure MergeSound (plan : PlanMerge) (existing merged : List ThreadTodoItem) : Prop where
  distinct : (merged.map ThreadTodoItem.id).Nodup
  lines : merged.filterMap ThreadTodoItem.source = (plan.planItems toLowerCase).map ExtractedPlanTodo.source
  kept : ∀ item ∈ existing, ¬ OfPlan plan item → (merged.map ThreadTodoItem.id).count item.id = 1

/-- The ids of the lines that find no existing todo in their turn. -/
def newIds (existing : List ThreadTodoItem) : List String → List ExtractedPlanTodo → List String
  | _, [] => []
  | used, planItem :: rest =>
    let found := findExistingPlanTodo toLowerCase existing used planItem
    (if found.isSome then [] else [planItem.id]) ++ newIds existing (usedAfter found used) rest

/-- The new ids are different, and none of them is the id of an existing todo. -/
def FreshIds (existing : List ThreadTodoItem) (plan : PlanMerge) : Prop :=
  (newIds toLowerCase existing [] (plan.planItems toLowerCase)).Nodup ∧
    ∀ id ∈ newIds toLowerCase existing [] (plan.planItems toLowerCase), id ∉ existing.map ThreadTodoItem.id

end

section

/-- The entries have the ids of the todos they continue and the new ids; the ids that are
used grow by the former, each once. -/
theorem mergeLines_ids (toLowerCase : String → String) (options : MergePlanTodosOptions)
    (planItems : List ExtractedPlanTodo) :
    ∀ used, ∃ continued : List String,
      ((mergeLines toLowerCase options used planItems).1.map ThreadTodoItem.id).Perm
        (continued ++ newIds toLowerCase options.existingItems used planItems) ∧
      (∀ id, id ∈ (mergeLines toLowerCase options used planItems).2 ↔ id ∈ continued ∨ id ∈ used) ∧
      continued.Nodup ∧ (∀ id ∈ continued, id ∉ used) ∧
      ∀ id ∈ continued, id ∈ options.existingItems.map ThreadTodoItem.id := by
  induction planItems with
  | nil =>
    intro used
    exact ⟨[], List.Perm.refl _, fun id => by simp [mergeLines], nodup_nil, nofun, nofun⟩
  | cons planItem rest ih =>
    intro used
    cases found : findExistingPlanTodo toLowerCase options.existingItems used planItem with
    | none =>
      obtain ⟨continued, ids, grown, distinct, unused, stored⟩ := ih used
      refine ⟨continued, ?_, ?_, distinct, unused, stored⟩
      · simp only [mergeLines, newIds, found, usedAfter]
        exact (ids.cons planItem.id).trans perm_middle.symm
      · intro id
        simp only [mergeLines, found]
        exact grown id
    | some item =>
      obtain ⟨held, fresh⟩ := find_left found
      obtain ⟨continued, ids, grown, distinct, unused, stored⟩ := ih (item.id :: used)
      refine ⟨item.id :: continued, ?_, fun id => ?_, ?_, ?_, ?_⟩
      · simp only [mergeLines, newIds, found, usedAfter]
        exact ids.cons item.id
      · simp only [mergeLines, found, usedAfter]
        refine (grown id).trans ?_
        rw [mem_cons, mem_cons, or_assoc]
        exact or_left_comm
      · exact nodup_cons.mpr ⟨fun again => unused item.id again mem_cons_self, distinct⟩
      · intro id member
        rcases mem_cons.mp member with rfl | member
        · exact fresh
        · exact fun before => unused id member (mem_cons_of_mem _ before)
      · intro id member
        rcases mem_cons.mp member with rfl | member
        · exact mem_map_of_mem held
        · exact stored id member

@[simp] theorem detached_id (now : String) (item : ThreadTodoItem) :
    (detached now item).id = item.id := by
  unfold detached
  split <;> rfl

@[simp] theorem detached_source (now : String) (item : ThreadTodoItem) :
    (detached now item).source = none := by
  unfold detached
  split
  · rfl
  · rename_i plain
    exact Option.not_isSome_iff_eq_none.mp plain

/-- A merge keeps every id, and adds the new ones. -/
theorem mergePlanTodos_ids (toLowerCase : String → String) (options : MergePlanTodosOptions)
    (distinct : (options.existingItems.map ThreadTodoItem.id).Nodup) :
    ((mergePlanTodos toLowerCase options).items.map ThreadTodoItem.id).Perm
      (options.existingItems.map ThreadTodoItem.id ++
        newIds toLowerCase options.existingItems [] options.planItems) := by
  obtain ⟨continued, ids, grown, apart, -, stored⟩ :=
    mergeLines_ids toLowerCase options options.planItems []
  have whole : (continued ++ (options.existingItems.filter fun item =>
      item.id ∉ (mergeLines toLowerCase options [] options.planItems).2).map
        ThreadTodoItem.id).Perm (options.existingItems.map ThreadTodoItem.id) := by
    have leftDistinct := distinct.sublist (filter_sublist (p := fun item =>
      decide (item.id ∉ (mergeLines toLowerCase options [] options.planItems).2)) |>.map
        ThreadTodoItem.id)
    rw [perm_ext_iff_of_nodup _ distinct]
    · intro id
      simp only [mem_append, mem_map, mem_filter, decide_eq_true_eq, grown]
      constructor
      · rintro (member | ⟨item, ⟨held, -⟩, rfl⟩)
        · simpa using stored id member
        · exact ⟨item, held, rfl⟩
      · rintro ⟨item, held, rfl⟩
        by_cases member : item.id ∈ continued
        · exact .inl member
        · exact .inr ⟨item, ⟨held, by simp [member]⟩, rfl⟩
    · refine nodup_append.mpr ⟨apart, leftDistinct, ?_⟩
      rintro left member right found rfl
      obtain ⟨item, kept, same⟩ := mem_map.mp found
      have unused := of_decide_eq_true (mem_filter.mp kept).2
      exact unused ((grown item.id).mpr (.inl (same ▸ member)))
  show (((mergeLines toLowerCase options [] options.planItems).1 ++
    (options.existingItems.filter _).map (detached options.now)).map ThreadTodoItem.id).Perm _
  rw [map_append, map_map]
  have names : ThreadTodoItem.id ∘ detached options.now = ThreadTodoItem.id :=
    funext fun item => detached_id options.now item
  rw [names]
  refine (ids.append_right _).trans ?_
  rw [append_assoc]
  refine (perm_append_comm.append_left _).trans ?_
  rw [← append_assoc]
  exact whole.append_right _

/-- The entries with a source are those of the plan's lines, in their order. -/
theorem mergePlanTodos_sources :
    (mergePlanTodos toLowerCase options).items.filterMap ThreadTodoItem.source =
      options.planItems.map ExtractedPlanTodo.source := by
  have lines : ∀ (planItems : List ExtractedPlanTodo) used,
      (mergeLines toLowerCase options used planItems).1.filterMap ThreadTodoItem.source =
        planItems.map ExtractedPlanTodo.source := by
    intro planItems
    induction planItems with
    | nil => exact fun _ => rfl
    | cons planItem rest ih =>
      intro used
      simp only [mergeLines, map_cons]
      have first : (mergedItem options planItem (findExistingPlanTodo toLowerCase
          options.existingItems used planItem)).source = some planItem.source := rfl
      rw [filterMap_cons_some first, ih]
  show ((mergeLines toLowerCase options [] options.planItems).1 ++
    (options.existingItems.filter _).map (detached options.now)).filterMap _ = _
  rw [filterMap_append, lines, filterMap_map]
  have none_ : ∀ item : ThreadTodoItem, (ThreadTodoItem.source ∘ detached options.now) item = none :=
    fun item => detached_source options.now item
  simp

/-- A merge into a list of different ids is sound exactly where its new ids are fresh. -/
theorem merge_sound_iff (distinct : (existing.map ThreadTodoItem.id).Nodup) (plan : PlanMerge) :
    MergeSound toLowerCase plan existing (todoStep toLowerCase existing (.merge plan)) ↔
      FreshIds toLowerCase existing plan := by
  have ids := mergePlanTodos_ids toLowerCase (plan.options toLowerCase existing) distinct
  have fresh : ((todoStep toLowerCase existing (.merge plan)).map ThreadTodoItem.id).Nodup ↔
      FreshIds toLowerCase existing plan := by
    rw [todoStep, ids.nodup_iff, nodup_append]
    constructor
    · rintro ⟨-, apart, unlike⟩
      exact ⟨apart, fun id member held => unlike id held id member rfl⟩
    · rintro ⟨apart, unlike⟩
      refine ⟨distinct, apart, ?_⟩
      rintro id held other member rfl
      exact unlike id member held
  constructor
  · exact fun sound => fresh.mp sound.distinct
  · intro holds
    have merged := fresh.mpr holds
    refine ⟨merged, mergePlanTodos_sources, fun item held _ => ?_⟩
    refine count_eq_one_of_mem merged (ids.mem_iff.mpr ?_)
    exact mem_append_left _ (mem_map_of_mem held)

theorem todosAfter_append : todosAfter toLowerCase existing (first ++ second) =
      todosAfter toLowerCase (todosAfter toLowerCase existing first) second :=
  foldl_append

theorem set_distinct (distinct : (existing.map ThreadTodoItem.id).Nodup) :
    ((todoStep toLowerCase existing (.set todos ids now)).map ThreadTodoItem.id).Nodup := by
  simp only [todoStep]
  split
  · rename_i items done
    exact (normalizeTodosFrom_distinct done).1
  · exact distinct

/-- The ids stay different as long as the merges keep them so. -/
theorem distinct_after (start : TodoListing)
    (keeps : ∀ front plan back, actions = front ++ TodoAction.merge plan :: back →
      ((todosAfter toLowerCase start.items front).map ThreadTodoItem.id).Nodup →
      ((todoStep toLowerCase (todosAfter toLowerCase start.items front)
        (.merge plan)).map ThreadTodoItem.id).Nodup) :
    ((todosAfter toLowerCase start.items actions).map ThreadTodoItem.id).Nodup := by
  induction actions using List.reverseRecOn with
  | nil => exact start.distinct
  | append_singleton front action ih =>
    have before := ih fun first plan back same kept =>
      keeps first plan (back ++ [action]) (by rw [same]; simp) kept
    rw [todosAfter_append]
    cases action with
    | merge plan => exact keeps front plan [] rfl before
    | set todos ids now => exact set_distinct before
    | clear => exact nodup_nil

end

/-- In every history all merges are sound exactly where all of them have fresh ids. -/
theorem merges_sound_iff (toLowerCase : String → String) (start : TodoListing) (actions : List TodoAction) :
    (∀ front plan back, actions = front ++ TodoAction.merge plan :: back →
        MergeSound toLowerCase plan (todosAfter toLowerCase start.items front)
          (todosAfter toLowerCase start.items (front ++ [.merge plan]))) ↔
      ∀ front plan back, actions = front ++ TodoAction.merge plan :: back →
        FreshIds toLowerCase (todosAfter toLowerCase start.items front) plan := by
  have merged : ∀ front plan, todosAfter toLowerCase start.items (front ++ [.merge plan]) =
      todoStep toLowerCase (todosAfter toLowerCase start.items front) (.merge plan) :=
    fun front plan => todosAfter_append
  simp only [merged]
  constructor
  · intro sound front plan back same
    refine (merge_sound_iff ?_ plan).mp (sound front plan back same)
    refine distinct_after start fun first earlier later split _ => ?_
    exact (sound first earlier (later ++ .merge plan :: back) (by rw [same, split]; simp)).distinct
  · intro fresh front plan back same
    refine (merge_sound_iff ?_ plan).mpr (fresh front plan back same)
    refine distinct_after start fun first earlier later split before => ?_
    exact ((merge_sound_iff before earlier).mpr
      (fresh first earlier (later ++ .merge plan :: back) (by rw [same, split]; simp))).distinct

def shipPlan : PlanMerge where
  threadId := "thread-1"
  place := { planId := "p1", relativePath := "plan.md", now := "friday" }
  markdown := "- [ ] ship it"
  preserveCompleted := some true

/-- The todo of the plan's line is reworded and detached from the plan, under its id. -/
def detachedEdit : TodoAction :=
  .set (((shipPlan.planItems id).map fun planItem =>
    { id := some planItem.id, content := "deploy it", status := .pending })) [] "saturday"

/-- The same plan is merged before the edit and after it. -/
theorem merged_again_collides : ¬ ∀ front plan back,
      [.merge shipPlan, detachedEdit, .merge shipPlan] = front ++ TodoAction.merge plan :: back →
        MergeSound id plan (todosAfter id [] front)
          (todosAfter id [] (front ++ [.merge plan])) := by
  intro sound
  have distinct := (sound [.merge shipPlan, detachedEdit] shipPlan [] rfl).distinct
  exact absurd distinct (by decide)

end QiongQi.TodoHistories
