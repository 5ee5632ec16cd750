import Mathlib.Data.List.Induction
import QiongQi.Machines
import QiongQi.RewrittenLogs
import QiongQi.TurnItems

/-! The two readers of `messages.jsonl`. Both keep the last content of an item;
`FileSessionStore` lists the items by their first lines, `HybridThreadStore` by their
last. -/
namespace QiongQi.ItemLogs
open Machines RewrittenLogs TurnItems List

/-- `latestById` and `order`. -/
structure ItemFold where
  latestById : List TurnItem := []
  order : List String := []

def ItemFold.read (fold : ItemFold) (item : TurnItem) : ItemFold where
  order := if (find TurnItem.id item.id fold.latestById).isSome then fold.order
    else fold.order ++ [item.id]
  latestById := put TurnItem.id item fold.latestById

def loadItems (raw : List TurnItem) : List TurnItem :=
  let fold := raw.foldl ItemFold.read {}
  fold.order.filterMap fun id => find TurnItem.id id fold.latestById

def latestById (raw : List TurnItem) : List TurnItem :=
  raw.foldl (fun items item => put TurnItem.id item items) []

/-- The backward walk, with the ids it has passed. -/
structure ItemWalk where
  seen : List String := []
  ordered : List TurnItem := []

def ItemWalk.read (table : List TurnItem) (walk : ItemWalk) (item : TurnItem) : ItemWalk :=
  if walk.seen.contains item.id then walk
  else
    { seen := item.id :: walk.seen
      ordered := (find TurnItem.id item.id table).toList ++ walk.ordered }

def loadHybridItems (raw : List TurnItem) : List TurnItem :=
  (raw.reverse.foldl (ItemWalk.read (latestById raw)) {}).ordered

private theorem find_latestById (id : String) :
    find TurnItem.id id (latestById raw) = latest TurnItem.id raw id := by
  induction raw using List.reverseRecOn with
  | nil => rfl
  | append_singleton before item ih =>
    rw [latest_append, latestById, foldl_append, foldl_cons, foldl_nil]
    by_cases same : item.id = id
    · rw [if_pos same, ← same]
      exact find_put_self TurnItem.id item _
    · rw [if_neg same, find_put_other same]
      exact ih

private theorem fold_read (raw : List TurnItem) :
    (raw.foldl ItemFold.read {}).latestById = latestById raw ∧
      (raw.foldl ItemFold.read {}).order = byFirst (raw.map TurnItem.id) := by
  induction raw using List.reverseRecOn with
  | nil => exact ⟨rfl, rfl⟩
  | append_singleton before item ih =>
    obtain ⟨table, order⟩ := ih
    have known : (find TurnItem.id item.id (latestById before)).isSome = true ↔
        item.id ∈ before.map TurnItem.id := by
      rw [find_latestById]
      exact latest_isSome_iff
    rw [foldl_append, foldl_cons, foldl_nil]
    refine ⟨?_, ?_⟩
    · simp only [ItemFold.read, table, latestById, foldl_append, foldl_cons, foldl_nil]
    · rw [map_append, map_singleton, byFirst_append]
      simp only [ItemFold.read, table, order, known]

theorem loadItems_eq (raw : List TurnItem) :
    loadItems raw = (byFirst (raw.map TurnItem.id)).filterMap (latest TurnItem.id raw) := by
  obtain ⟨table, order⟩ := fold_read raw
  unfold loadItems
  simp only [table, order, find_latestById]

private theorem walk_read (lines : List TurnItem) :
    (lines.reverse.foldl (ItemWalk.read table) {}).seen = byLast (lines.map TurnItem.id) ∧
      (lines.reverse.foldl (ItemWalk.read table) {}).ordered =
        (byLast (lines.map TurnItem.id)).filterMap fun id => find TurnItem.id id table := by
  induction lines with
  | nil => exact ⟨rfl, rfl⟩
  | cons item rest ih =>
    obtain ⟨seen, ordered⟩ := ih
    rw [reverse_cons, foldl_append, foldl_cons, foldl_nil, map_cons]
    generalize rest.reverse.foldl (ItemWalk.read table) {} = walk at seen ordered ⊢
    by_cases known : item.id ∈ rest.map TurnItem.id
    · have passed : walk.seen.contains item.id = true := by
        rw [seen]
        simpa using known
      have same : byLast (item.id :: rest.map TurnItem.id) = byLast (rest.map TurnItem.id) :=
        List.dedup_cons_of_mem known
      rw [same, ItemWalk.read, if_pos passed]
      exact ⟨seen, ordered⟩
    · have fresh : ¬ walk.seen.contains item.id = true := by
        rw [seen]
        simpa using known
      have longer : byLast (item.id :: rest.map TurnItem.id) =
          item.id :: byLast (rest.map TurnItem.id) := List.dedup_cons_of_notMem known
      rw [longer, ItemWalk.read, if_neg fresh]
      refine ⟨by rw [seen], ?_⟩
      cases found : find TurnItem.id item.id table with
      | none | some line => simp [found, ordered]

theorem loadHybridItems_eq (raw : List TurnItem) :
    loadHybridItems raw = (byLast (raw.map TurnItem.id)).filterMap (latest TurnItem.id raw) := by
  obtain ⟨-, ordered⟩ := walk_read raw
  unfold loadHybridItems
  rw [ordered]
  simp only [find_latestById]

/-- The readers agree on a log exactly when its items are rewritten in the order in
which they were created. -/
theorem readers_agree_iff (raw : List TurnItem) :
    loadHybridItems raw = loadItems raw ↔ LinesInOrder (raw.map TurnItem.id) := by
  rw [loadHybridItems_eq, loadItems_eq, ← byFirst_eq_byLast_iff]
  constructor
  · intro same
    have ids := congrArg (List.map TurnItem.id) same
    rw [keys_of_latest fun _ found => mem_byLast.mp found,
      keys_of_latest fun _ found => mem_byFirst.mp found] at ids
    exact ids.symm
  · intro same
    rw [same]

/-- A tool call that is updated after the next item was written. -/
def updatedCallLog : List TurnItem :=
  [{ id := "call", turnId := "turn", status := .running
     body := .toolCall "bash" "call_1" "\x7b\x7d" none },
   { id := "text", turnId := "turn", status := .completed, body := .assistantText "done" },
   { id := "call", turnId := "turn", status := .completed
     body := .toolCall "bash" "call_1" "\x7b\x7d" none }]

/-- One reader has the call first and the other last. -/
theorem readers_differ_on_updated_call : loadHybridItems updatedCallLog ≠ loadItems updatedCallLog := by
  intro same
  have ids := congrArg (List.map TurnItem.id) same
  revert ids
  decide

end QiongQi.ItemLogs
