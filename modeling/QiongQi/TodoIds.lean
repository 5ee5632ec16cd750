import QiongQi.ThreadTodos

/-! The ids of a normalised todo list. An item without an id continues an existing todo
or draws a new id; it may so come to an id that a later item asks for by name, which
then gets another one. -/
namespace QiongQi.TodoIds
open RuntimeContracts ThreadRecords ThreadTodos

section
variable {toLowerCase : String → String} {existingItems : List ThreadTodoItem} {now : String}

def requestedId (raw : RawTodo) : Option String := truthy (raw.id.map jsTrim)

/-- The existing todo that an item continues by its source or its content. -/
def continuedTodo (toLowerCase : String → String) (existingItems : List ThreadTodoItem)
    (progress : TodoProgress) (raw : RawTodo) (source : Option ThreadTodoSource) :
    Option ThreadTodoItem :=
  findExistingTodoForRaw toLowerCase existingItems progress.usedIds
    (normalizeTodoContent raw.content) source

/-- A trimmed name that is neither blank nor used. -/
def freeName (used : List String) (name : String) : Option String :=
  if jsTrim name ≠ "" && jsTrim name ∉ used then some (jsTrim name) else none

theorem freeName_blank : freeName used "" = none := rfl

/-- The first generated id that is neither blank nor used. -/
def freshId (used ids : List String) : Option String :=
  (ids.dropWhile fun id => id = "" || id ∈ used).head?

variable {id : String} {used : List String}

section
variable {requested : String}
variable {ids rest : List String}
variable (unique : uniqueTodoId requested used ids = some (id, rest))
include unique

theorem uniqueTodoId_eq : (freeName used requested <|> freshId used ids) = some id := by
  unfold uniqueTodoId at unique
  unfold freeName freshId
  dsimp only at unique
  split at unique
  · rename_i free
    cases unique
    rw [if_pos free]
    rfl
  · rename_i taken
    rw [if_neg taken]
    split at unique
    · cases unique
    · rename_i first rest drawn
      cases unique
      rw [drawn]
      rfl

theorem uniqueTodoId_unused : id ∉ used := by
  unfold uniqueTodoId at unique
  dsimp only at unique
  split at unique
  · rename_i free
    cases unique
    simpa using (Bool.and_eq_true_iff.mp free).2
  · split at unique
    · cases unique
    · rename_i first rest drawn
      cases unique
      have stops := List.head?_dropWhile_not (fun id => id = "" || id ∈ used) ids
      rw [drawn] at stops
      simp at stops
      exact stops.2

end

/-- The id that an item without a free name draws. -/
def drawnId (progress : TodoProgress) : Option String → Option String
  | some name =>
    if (freeName progress.usedIds name).isSome then none else freshId progress.usedIds progress.ids
  | none =>
    match progress.ids with
    | [] => none
    | first :: rest => freeName progress.usedIds first <|> freshId progress.usedIds rest

/-- The name of an item: the id that it asks for, else that of the todo it continues. -/
def nameOf (toLowerCase : String → String) (existingItems : List ThreadTodoItem)
    (progress : TodoProgress) (raw : RawTodo) (source : Option ThreadTodoSource) :
    Option String :=
  requestedId raw <|>
    truthy ((continuedTodo toLowerCase existingItems progress raw source).map ThreadTodoItem.id)

/-- What a step comes to: the item's content, and its id by its name or drawn. -/
structure Stepped (toLowerCase : String → String) (existingItems : List ThreadTodoItem)
    (progress : TodoProgress) (raw : RawTodo) (item : ThreadTodoItem) (next : TodoProgress) :
    Prop where
  content : item.content = normalizeTodoContent raw.content
  used : next.usedIds = item.id :: progress.usedIds
  unused : item.id ∉ progress.usedIds
  origin : ∃ source, raw.source.mapM (normalizeTodoSource toLowerCase) = .ok source ∧
    ((nameOf toLowerCase existingItems progress raw source).bind (freeName progress.usedIds) <|>
      drawnId progress (nameOf toLowerCase existingItems progress raw source)) = some item.id

theorem normalizeTodoItem_stepped
    (done : normalizeTodoItem toLowerCase existingItems now progress raw = .ok (item, next)) :
    Stepped toLowerCase existingItems progress raw item next := by
  unfold normalizeTodoItem at done
  simp only [bind, Except.bind, throw, throwThe, MonadExceptOf.throw, pure, Except.pure] at done
  split at done
  · cases done
  split at done
  · cases done
  split at done
  · cases done
  rename_i source normalized
  have named : (truthy (raw.id.map jsTrim) <|> truthy (Option.map (·.id)
      (((truthy (raw.id.map jsTrim)).bind fun id => existingItems.reverse.find? (·.id = id)) <|>
        findExistingTodoForRaw toLowerCase existingItems progress.usedIds
          (normalizeTodoContent raw.content) source))) =
      nameOf toLowerCase existingItems progress raw source := by
    unfold nameOf requestedId continuedTodo
    cases truthy (raw.id.map jsTrim) <;> rfl
  rw [named] at done
  split at done
  · rename_i id rest unique
    cases done
    refine ⟨rfl, rfl, uniqueTodoId_unused unique, source, normalized, ?_⟩
    have chosen := uniqueTodoId_eq unique
    generalize nameOf toLowerCase existingItems progress raw source = name at chosen
    cases name with
    | some name =>
      cases free : freeName progress.usedIds name with
      | some own => simpa [free] using chosen
      | none => simpa [free, drawnId] using chosen
    | none =>
      cases ids : progress.ids with
      | cons first others => simpa [ids, drawnId] using chosen
      | nil => simp [ids, freeName_blank, freshId] at chosen
  · cases done

/-- The item asks for an existing todo by its id. -/
def NamesExisting (existingItems : List ThreadTodoItem) (raw : RawTodo) (id : String) : Prop :=
  requestedId raw = some id ∧ ∃ item ∈ existingItems, item.id = id

/-- An item comes to no id by which a later item asks for an existing todo. -/
structure Spares (toLowerCase : String → String) (existingItems : List ThreadTodoItem)
    (progress : TodoProgress) (raw : RawTodo) (later : List RawTodo) : Prop where
  asked : ∀ id, NamesExisting existingItems raw id → ∀ other ∈ later, ¬ NamesExisting existingItems other id
  continued : requestedId raw = none →
    ∀ source item, raw.source.mapM (normalizeTodoSource toLowerCase) = .ok source →
      continuedTodo toLowerCase existingItems progress raw source = some item →
      ∀ other ∈ later, ¬ NamesExisting existingItems other (jsTrim item.id)
  drawn : ∀ source id, raw.source.mapM (normalizeTodoSource toLowerCase) = .ok source →
    drawnId progress (nameOf toLowerCase existingItems progress raw source) = some id →
    ∀ other ∈ later, ¬ NamesExisting existingItems other id

/-- Every item, in its turn, spares the later ones. -/
def AllSpare (toLowerCase : String → String) (existingItems : List ThreadTodoItem) (now : String) :
    TodoProgress → List RawTodo → Prop
  | _, [] => True
  | progress, raw :: later =>
    Spares toLowerCase existingItems progress raw later ∧
      ∀ item next, normalizeTodoItem toLowerCase existingItems now progress raw = .ok (item, next) →
        AllSpare toLowerCase existingItems now next later

theorem requestedId_trimmed (requested : requestedId raw = some id) : jsTrim id = id ∧ id ≠ "" := by
  unfold requestedId truthy at requested
  obtain ⟨held, nonblank⟩ := Option.filter_eq_some_iff.mp requested
  obtain ⟨text, -, rfl⟩ := Option.map_eq_some_iff.mp held
  exact ⟨jsTrim_idem text, by simpa using nonblank⟩

theorem freeName_trimmed (nonblank : jsTrim name ≠ "") (unused : jsTrim name ∉ used) :
    freeName used name = some (jsTrim name) :=
  if_pos (by simp [nonblank, unused])

theorem freeName_eq (free : freeName used name = some id) : jsTrim name = id := by
  unfold freeName at free
  split at free
  · exact Option.some.inj free
  · cases free

section Steps
variable {progress next : TodoProgress} {raw : RawTodo} {item : ThreadTodoItem}

section
variable (stepped : Stepped toLowerCase existingItems progress raw item next)
include stepped

theorem Stepped.requested (asks : requestedId raw = some id) (unused : id ∉ progress.usedIds) :
    item.id = id := by
  obtain ⟨trimmed, nonblank⟩ := requestedId_trimmed asks
  obtain ⟨source, -, given⟩ := stepped.origin
  have named : nameOf toLowerCase existingItems progress raw source = some id := by
    rw [nameOf, asks]
    rfl
  rw [named, Option.bind_some, freeName_trimmed (by rwa [trimmed]) (by rwa [trimmed]), trimmed]
    at given
  exact (Option.some.inj given).symm

theorem Stepped.continues (silent : requestedId raw = none)
    (normalized : raw.source.mapM (normalizeTodoSource toLowerCase) = .ok source)
    (finds : continuedTodo toLowerCase existingItems progress raw source = some found)
    (nonblank : jsTrim found.id ≠ "") (unused : jsTrim found.id ∉ progress.usedIds) :
    item.id = jsTrim found.id := by
  obtain ⟨other, same, given⟩ := stepped.origin
  cases normalized.symm.trans same
  have present : found.id ≠ "" := fun empty => nonblank (by rw [empty]; rfl)
  have named : nameOf toLowerCase existingItems progress raw source = some found.id := by
    rw [nameOf, silent, finds]
    simp [truthy, present]
  rw [named, Option.bind_some, freeName_trimmed nonblank unused] at given
  exact (Option.some.inj given).symm

theorem Stepped.draws (normalized : raw.source.mapM (normalizeTodoSource toLowerCase) = .ok source)
    (drawn : drawnId progress (nameOf toLowerCase existingItems progress raw source) = some id) :
    item.id = id := by
  obtain ⟨other, same, given⟩ := stepped.origin
  cases normalized.symm.trans same
  have unnamed : (nameOf toLowerCase existingItems progress raw source).bind
      (freeName progress.usedIds) = none := by
    cases called : nameOf toLowerCase existingItems progress raw source with
    | none => rfl
    | some name =>
      rw [called] at drawn
      unfold drawnId at drawn
      cases free : freeName progress.usedIds name with
      | none => exact free
      | some own => simp [free] at drawn
  rw [unnamed, drawn] at given
  exact (Option.some.inj given).symm

/-- Where an item spares the later ones, none of them asks for the id it gets. -/
theorem Spares.apart (spares : Spares toLowerCase existingItems progress raw later)
    (held : other ∈ later) : ¬ NamesExisting existingItems other item.id := by
  intro names
  obtain ⟨source, normalized, given⟩ := stepped.origin
  cases drawn : drawnId progress (nameOf toLowerCase existingItems progress raw source) with
  | some id =>
    have same := stepped.draws normalized drawn
    rw [same] at names
    exact spares.drawn source id normalized drawn other held names
  | none =>
    rw [drawn] at given
    obtain ⟨name, called, free⟩ : ∃ name, nameOf toLowerCase existingItems progress raw source = some name ∧
          freeName progress.usedIds name = some item.id := by
      cases called : nameOf toLowerCase existingItems progress raw source with
      | none =>
        rw [called] at given
        cases given
      | some name =>
        rw [called, Option.bind_some] at given
        cases free : freeName progress.usedIds name with
        | none =>
          rw [free] at given
          cases given
        | some own =>
          rw [free] at given
          exact ⟨name, rfl, free.trans given⟩
    have trimmed := freeName_eq free
    cases asks : requestedId raw with
    | some id =>
      have same : id = name := by
        rw [nameOf, asks] at called
        exact Option.some.inj called
      have own : id = item.id := by
        rw [← trimmed, ← same]
        exact (requestedId_trimmed asks).1.symm
      exact spares.asked id ⟨asks, own ▸ names.2⟩ other held (own ▸ names)
    | none =>
      rw [nameOf, asks] at called
      obtain ⟨present, -⟩ := Option.filter_eq_some_iff.mp called
      obtain ⟨found, finds, rfl⟩ := Option.map_eq_some_iff.mp present
      exact spares.continued asks source found normalized finds other held (trimmed ▸ names)

end

end Steps

theorem normalizeTodosFrom_cons
    (done : normalizeTodosFrom toLowerCase existingItems now progress (raw :: rest) = .ok items) :
    ∃ item next others, items = item :: others ∧
      normalizeTodoItem toLowerCase existingItems now progress raw = .ok (item, next) ∧
      normalizeTodosFrom toLowerCase existingItems now next rest = .ok others := by
  unfold normalizeTodosFrom at done
  cases first : normalizeTodoItem toLowerCase existingItems now progress raw with
  | error message =>
    rw [first] at done
    cases done
  | ok stepped =>
    obtain ⟨item, next⟩ := stepped
    rw [first] at done
    cases others : normalizeTodosFrom toLowerCase existingItems now next rest with
    | error message =>
      simp only [bind, Except.bind, others] at done
      cases done
    | ok others' =>
      simp only [bind, Except.bind, others] at done
      cases done
      exact ⟨item, next, others', rfl, rfl, others⟩

/-- The ids are distinct and new, and the items come in the order in which they are given. -/
theorem normalizeTodosFrom_distinct : ∀ {progress : TodoProgress} {items : List ThreadTodoItem},
      normalizeTodosFrom toLowerCase existingItems now progress rawItems = .ok items →
      (items.map ThreadTodoItem.id).Nodup ∧ (∀ item ∈ items, item.id ∉ progress.usedIds) ∧
        items.map ThreadTodoItem.content = rawItems.map fun raw => normalizeTodoContent raw.content := by
  induction rawItems with
  | nil =>
    intro progress items done
    cases done
    exact ⟨List.nodup_nil, fun item found => absurd found List.not_mem_nil, rfl⟩
  | cons raw rest ih =>
    intro progress items done
    obtain ⟨item, next, others, rfl, first, remaining⟩ := normalizeTodosFrom_cons done
    have stepped := normalizeTodoItem_stepped first
    obtain ⟨distinct, new, contents⟩ := ih remaining
    rw [stepped.used] at new
    refine ⟨?_, ?_, ?_⟩
    · rw [List.map_cons, List.nodup_cons]
      refine ⟨fun held => ?_, distinct⟩
      obtain ⟨other, found, same⟩ := List.mem_map.mp held
      exact new other found (same ▸ List.mem_cons_self)
    · intro other found
      rcases List.mem_cons.mp found with rfl | found
      · exact stepped.unused
      · exact fun used => new other found (List.mem_cons_of_mem _ used)
    · rw [List.map_cons, List.map_cons, stepped.content, contents]

/-- Every item that asks for an existing todo got its id. -/
def NamesKept (existingItems : List ThreadTodoItem) (rawItems : List RawTodo)
    (items : List ThreadTodoItem) : Prop :=
  ∀ (i : Nat) (raw : RawTodo) (item : ThreadTodoItem) (id : String),
    rawItems[i]? = some raw → items[i]? = some item → NamesExisting existingItems raw id → item.id = id

theorem namesKept_iff : ∀ {progress : TodoProgress} {items : List ThreadTodoItem},
      normalizeTodosFrom toLowerCase existingItems now progress rawItems = .ok items →
      (NamesKept existingItems rawItems items ↔
        (∀ raw ∈ rawItems, ∀ id, NamesExisting existingItems raw id → id ∉ progress.usedIds) ∧
          AllSpare toLowerCase existingItems now progress rawItems) := by
  induction rawItems with
  | nil =>
    intro progress items _
    refine iff_of_true (fun i raw item id found => ?_) ⟨fun raw found => ?_, trivial⟩
    · cases found
    · cases found
  | cons raw rest ih =>
    intro progress items done
    obtain ⟨item, next, others, rfl, first, remaining⟩ := normalizeTodosFrom_cons done
    have stepped := normalizeTodoItem_stepped first
    have tail := ih remaining
    rw [stepped.used] at tail
    constructor
    · intro kept
      obtain ⟨later, spared⟩ := tail.mp fun i other entry id => kept (i + 1) other entry id
      have apart : ∀ other ∈ rest, ∀ id, NamesExisting existingItems other id →
          id ≠ item.id ∧ id ∉ progress.usedIds := by
        intro other held id names
        simpa using later other held id names
      refine ⟨?_, ⟨?_, ?_, ?_⟩, ?_⟩
      · rintro other found id names used
        rcases List.mem_cons.mp found with rfl | found
        · rw [← kept 0 other item id rfl rfl names] at used
          exact stepped.unused used
        · exact (apart other found id names).2 used
      · intro id names other held again
        exact (apart other held id again).1 (kept 0 raw item id rfl rfl names).symm
      · intro silent source found normalized finds other held names
        have nonblank := requestedId_trimmed names.1
        exact (apart other held _ names).1 (stepped.continues silent normalized finds
          nonblank.2 (apart other held _ names).2).symm
      · intro source id normalized drawn other held names
        exact (apart other held id names).1 (stepped.draws normalized drawn).symm
      · intro other after again
        cases first.symm.trans again
        exact spared
    · rintro ⟨clear, spares, spared⟩
      have kept := tail.mpr ⟨fun other held id names => by
        rw [List.mem_cons, not_or]
        refine ⟨fun same => ?_, clear other (List.mem_cons_of_mem _ held) id names⟩
        exact spares.apart stepped held (same ▸ names), spared item next first⟩
      intro i other entry id found place names
      cases i with
      | zero =>
        cases found
        cases place
        exact stepped.requested names.1 (clear raw List.mem_cons_self id names)
      | succ i => exact kept i other entry id found place names

end

/-- Explicit ids are respected: they are kept, no other item has them, all ids are
distinct, and the items are the given ones in their order. -/
structure IdsRespected (existingItems : List ThreadTodoItem) (rawItems : List RawTodo)
    (items : List ThreadTodoItem) : Prop where
  named : ∀ (i : Nat) (raw : RawTodo) (id : String), rawItems[i]? = some raw →
    NamesExisting existingItems raw id → ∃ item, items[i]? = some item ∧ item.id = id ∧
      ∀ (j : Nat) (other : ThreadTodoItem), items[j]? = some other → other.id = id → j = i
  distinct : (items.map ThreadTodoItem.id).Nodup
  aligned : items.map ThreadTodoItem.content = rawItems.map fun raw => normalizeTodoContent raw.content

/-- Explicit ids are respected exactly where every item, in its turn, comes to no id by
which a later one asks for an existing todo. -/
theorem ids_respected_iff (toLowerCase : String → String) (now : String) (ids : List String)
    {rawItems : List RawTodo} {existingItems items : List ThreadTodoItem}
    (done : normalizeTodoItems toLowerCase rawItems existingItems now ids = .ok items) :
    IdsRespected existingItems rawItems items ↔ AllSpare toLowerCase existingItems now { ids } rawItems := by
  obtain ⟨distinct, -, aligned⟩ := normalizeTodosFrom_distinct done
  have lengths : items.length = rawItems.length := by
    simpa using congrArg List.length aligned
  have kept := namesKept_iff done
  rw [and_iff_right (fun _ _ _ _ => List.not_mem_nil)] at kept
  rw [← kept]
  constructor
  · intro respected i raw item id found place names
    obtain ⟨own, here, same, -⟩ := respected.named i raw id found names
    cases place.symm.trans here
    exact same
  · intro names
    refine ⟨fun i raw id found asks => ?_, distinct, aligned⟩
    have within : i < items.length := by
      rw [lengths]
      exact (List.getElem?_eq_some_iff.mp found).1
    have place := List.getElem?_eq_getElem within
    refine ⟨items[i], place, names i raw _ id found place asks, ?_⟩
    intro j other there same
    have first : (items.map ThreadTodoItem.id)[i]? = some id := by
      rw [List.getElem?_map, place, Option.map_some, names i raw _ id found place asks]
    have second : (items.map ThreadTodoItem.id)[j]? = some id := by
      rw [List.getElem?_map, there, Option.map_some, same]
    have bound : j < (items.map ThreadTodoItem.id).length :=
      (List.getElem?_eq_some_iff.mp second).1
    exact (List.getElem?_inj bound distinct).mp (second.trans first.symm)

def writeTests : ThreadTodoItem where
  id := "todo-1"
  content := "write tests"
  status := .pending
  createdAt := "monday"
  updatedAt := "monday"

/-- A reworded todo that is sent with its id. -/
def reworded : RawTodo where
  id := some "todo-1"
  content := "write more tests"
  status := .pending

theorem reworded_respected : IdsRespected [writeTests] [reworded]
    [{ writeTests with content := "write more tests", updatedAt := "friday" }] :=
  (ids_respected_iff id "friday" [] (by decide)).mpr
    ⟨⟨fun _ _ _ found => absurd found List.not_mem_nil,
      fun _ _ _ _ _ _ found => absurd found List.not_mem_nil,
      fun _ _ _ _ _ found => absurd found List.not_mem_nil⟩, fun _ _ _ => trivial⟩

/-- The old text as a new todo before it. -/
def sameTextFirst : List RawTodo :=
  [{ content := "write tests", status := .pending }, reworded]

theorem earlier_item_takes_id :
    ∃ items, normalizeTodoItems id sameTextFirst [writeTests] "friday" ["todo-2"] = .ok items ∧
      ¬ IdsRespected [writeTests] sameTextFirst items := by
  refine ⟨[writeTests, { writeTests with
    id := "todo-2", content := "write more tests", updatedAt := "friday" }], by decide, ?_⟩
  intro respected
  obtain ⟨item, second, same, -⟩ := respected.named 1 reworded "todo-1" rfl
    ⟨rfl, writeTests, List.mem_singleton_self _, rfl⟩
  cases second
  exact absurd same (by decide)

end QiongQi.TodoIds
