import Mathlib.Data.Finmap
import Mathlib.Data.List.Induction
import Mathlib.Data.List.Permutation
import QiongQi.AppendedLogs
import QiongQi.RewrittenLogs

/-! Concurrent changes to the items of one thread in `FileSessionStore`. `appendItemOnce` and
`updateItemOnce` wait in the thread's queue; `updateItem` does not, so it can append a copy
of an item that another call has changed since. -/
namespace QiongQi.ItemUpdates
open Machines KeyedMaps RewrittenLogs AppendedLogs
open List hiding set

/-- A line of `messages.jsonl`: the fields of an item, each with the JSON text of its value. -/
abbrev ItemLine := Finmap fun _ : String => String

def ItemLine.id (item : ItemLine) : Option String := item.lookup "id"

/-- `Partial<TurnItem>`. A field that is `undefined` is not written. -/
abbrev ItemPatch := List (String × Option String)

def setField (item : ItemLine) : String × Option String → ItemLine
  | (field, some text) => item.insert field text
  | (field, none) => item.erase field

/-- `{ ...current, ...patch }`. A field that is set again keeps its place, so `JSON.stringify`
tells two of these apart by their fields. -/
def overlay (current : ItemLine) (patch : ItemPatch) : ItemLine := patch.foldl setField current

/-- `latestById` and `order`. -/
structure ItemFold where
  latestById : List ItemLine := []
  order : List (Option String) := []

def ItemFold.read (fold : ItemFold) (item : ItemLine) : ItemFold where
  order := if (find ItemLine.id item.id fold.latestById).isSome then fold.order
    else fold.order ++ [item.id]
  latestById := put ItemLine.id item fold.latestById

def loadItems (raw : List ItemLine) : List ItemLine :=
  let fold := raw.foldl ItemFold.read {}
  fold.order.filterMap fun id => find ItemLine.id id fold.latestById

structure CreatedItem where
  item : ItemLine
  created : Bool

structure UpdatedItem where
  item : ItemLine
  updated : Bool

/-- What each call answers for the lines that it reads. -/
def appendItemOnce (raw : List ItemLine) (item : ItemLine) : CreatedItem :=
  match raw.reverse.find? fun existing => existing.id = item.id with
  | some canonical => ⟨canonical, false⟩
  | none => ⟨item, true⟩

def updateItem (raw : List ItemLine) (itemId : String) (patch : ItemPatch) : Option ItemLine :=
  ((loadItems raw).find? fun item => item.id = some itemId).map fun current => overlay current patch

def updateItemOnce (raw : List ItemLine) (itemId : String) (patch : ItemPatch) :
    Option UpdatedItem :=
  (raw.reverse.find? fun item => item.id = some itemId).map fun current =>
    let desired := overlay current patch
    if current = desired then ⟨current, false⟩ else ⟨desired, true⟩

inductive ItemRequest where
  | appendItemOnce (item : ItemLine)
  | updateItem (itemId : String) (patch : ItemPatch)
  | updateItemOnce (itemId : String) (patch : ItemPatch)

/-- The line that a call appends. -/
def appendedLine : ItemRequest → List ItemLine → Option ItemLine
  | .appendItemOnce item, raw =>
    let answer := appendItemOnce raw item
    if answer.created then some answer.item else none
  | .updateItem itemId patch, raw => updateItem raw itemId patch
  | .updateItemOnce itemId patch, raw =>
    (updateItemOnce raw itemId patch).bind fun answer =>
      if answer.updated then some answer.item else none

def usesQueue : ItemRequest → Bool
  | .appendItemOnce _ | .updateItemOnce _ _ => true
  | .updateItem _ _ => false

def itemProtocol : Protocol ItemRequest ItemLine where
  line := appendedLine
  queued := usesQueue

/-- The fields that the patch leaves as they are. -/
def remaining (item : ItemLine) (patch : ItemPatch) : ItemLine :=
  patch.foldl (fun item entry => item.erase entry.1) item

/-- A creation finds the item present or absent in both logs; an update finds it in both with
the same content, up to what it sets. -/
def Agrees : ItemRequest → List ItemLine → List ItemLine → Prop
  | .appendItemOnce item, snapshot, log =>
    (latest ItemLine.id snapshot item.id).isSome = (latest ItemLine.id log item.id).isSome
  | .updateItem itemId patch, snapshot, log | .updateItemOnce itemId patch, snapshot, log =>
    (latest ItemLine.id snapshot (some itemId)).map (remaining · patch) =
      (latest ItemLine.id log (some itemId)).map (remaining · patch)

instance : ∀ request snapshot log, Decidable (Agrees request snapshot log)
  | .appendItemOnce _, _, _ => inferInstanceAs (Decidable (_ = _))
  | .updateItem _ _, _, _ | .updateItemOnce _ _, _, _ => inferInstanceAs (Decidable (_ = _))

theorem lookup_remaining : (remaining item patch).lookup field =
      if field ∈ patch.map Prod.fst then none else item.lookup field := by
  induction patch generalizing item with
  | nil => rfl
  | cons entry rest ih =>
    have step : remaining item (entry :: rest) = remaining (item.erase entry.1) rest := rfl
    rw [step, ih]
    by_cases later : field ∈ rest.map Prod.fst
    · simp [later]
    · by_cases here : field = entry.1
      · subst here
        simp
      · rw [if_neg later, if_neg (by simpa [here] using later), Finmap.lookup_erase_ne here]

variable {patch : ItemPatch}

theorem lookup_overlay_unset (unset : field ∉ patch.map Prod.fst) :
    (overlay item patch).lookup field = item.lookup field := by
  induction patch generalizing item with
  | nil => rfl
  | cons entry rest ih =>
    obtain ⟨apart, unset⟩ : field ≠ entry.1 ∧ field ∉ rest.map Prod.fst := by simpa using unset
    have step : overlay item (entry :: rest) = overlay (setField item entry) rest := rfl
    rw [step, ih unset]
    obtain ⟨name, _ | text⟩ := entry
    · exact Finmap.lookup_erase_ne apart
    · exact Finmap.lookup_insert_of_ne item apart

theorem lookup_overlay_set (set : field ∈ patch.map Prod.fst) (item other : ItemLine) :
    (overlay item patch).lookup field = (overlay other patch).lookup field := by
  induction patch generalizing item other with
  | nil => cases set
  | cons entry rest ih =>
    have step : ∀ item : ItemLine, overlay item (entry :: rest) = overlay (setField item entry) rest :=
      fun _ => rfl
    rw [step, step]
    by_cases later : field ∈ rest.map Prod.fst
    · exact ih later _ _
    · rw [lookup_overlay_unset later, lookup_overlay_unset later]
      have here : field = entry.1 := by
        rcases mem_cons.mp set with here | found
        · exact here
        · exact absurd found later
      obtain ⟨name, _ | text⟩ := entry
      all_goals
        subst here
        simp [setField]

theorem overlay_eq_iff :
    overlay item patch = overlay other patch ↔ remaining item patch = remaining other patch := by
  constructor
  · intro same
    apply Finmap.ext_lookup
    intro field
    rw [lookup_remaining, lookup_remaining]
    by_cases set : field ∈ patch.map Prod.fst
    · simp [set]
    · have kept := congrArg (Finmap.lookup field) same
      rw [lookup_overlay_unset set, lookup_overlay_unset set] at kept
      rw [kept]
  · intro same
    apply Finmap.ext_lookup
    intro field
    by_cases set : field ∈ patch.map Prod.fst
    · exact lookup_overlay_set set item other
    · have kept := congrArg (Finmap.lookup field) same
      rw [lookup_remaining, lookup_remaining, if_neg set, if_neg set] at kept
      rw [lookup_overlay_unset set, lookup_overlay_unset set, kept]

private theorem fold_read (raw : List ItemLine) :
    (∀ id, find ItemLine.id id (raw.foldl ItemFold.read {}).latestById = latest ItemLine.id raw id) ∧
      (raw.foldl ItemFold.read {}).order = byFirst (raw.map ItemLine.id) := by
  induction raw using List.reverseRecOn with
  | nil => exact ⟨fun _ => rfl, rfl⟩
  | append_singleton before item ih =>
    obtain ⟨table, order⟩ := ih
    rw [foldl_append, foldl_cons, foldl_nil]
    constructor
    · intro id
      rw [latest_append]
      by_cases same : item.id = id
      · rw [if_pos same, ← same]
        exact find_put_self ItemLine.id item _
      · rw [if_neg same, ← table]
        exact find_put_other same
    · rw [map_append, map_singleton, byFirst_append]
      have known := @latest_isSome_iff _ _ _ item.id before ItemLine.id
      by_cases listed : item.id ∈ before.map ItemLine.id
      · simp only [ItemFold.read, table, order, known.mpr listed, listed, if_true]
      · have fresh := eq_false_of_ne_true (mt known.mp listed)
        simp only [ItemFold.read, table, order, fresh, listed, Bool.false_eq_true, if_false]

theorem loadItems_eq (raw : List ItemLine) : loadItems raw = contents ItemLine.id raw := by
  obtain ⟨table, order⟩ := fold_read raw
  simp only [loadItems, table, order, contents]

theorem find_loadItems (id : Option String) :
    find ItemLine.id id (loadItems raw) = latest ItemLine.id raw id := by
  rw [loadItems_eq]
  exact find_contents raw id

theorem loadItems_append (raw : List ItemLine) (line : ItemLine) :
    loadItems (raw ++ [line]) = setEntry ItemLine.id line (loadItems raw) := by
  rw [loadItems_eq, loadItems_eq]
  exact contents_append raw line

theorem updateItem_eq : updateItem raw itemId patch =
      (latest ItemLine.id raw (some itemId)).map fun current => overlay current patch := by
  rw [← find_loadItems]
  rfl

/-- An update adds the same line to two logs exactly when they agree on what it leaves. -/
theorem updateItem_agrees_iff : updateItem snapshot itemId patch = updateItem log itemId patch ↔
      Agrees (.updateItem itemId patch) snapshot log := by
  rw [updateItem_eq, updateItem_eq, Agrees]
  cases latest ItemLine.id snapshot (some itemId) with
  | none => cases latest ItemLine.id log (some itemId) <;> simp
  | some item =>
    cases latest ItemLine.id log (some itemId) with
    | none => simp
    | some other => simpa using overlay_eq_iff

theorem appendedLine_updateItemOnce : appendedLine (.updateItemOnce itemId patch) raw =
      (latest ItemLine.id raw (some itemId)).bind fun current =>
        if current = overlay current patch then none else some (overlay current patch) := by
  have read : updateItemOnce raw itemId patch = (latest ItemLine.id raw (some itemId)).map fun current =>
        if current = overlay current patch then ⟨current, false⟩ else ⟨overlay current patch, true⟩ := rfl
  rw [appendedLine, read]
  cases latest ItemLine.id raw (some itemId) with
  | none => rfl
  | some current =>
    by_cases same : current = overlay current patch
    · simp only [Option.map_some, Option.bind_some, if_pos same]
      rfl
    · simp only [Option.map_some, Option.bind_some, if_neg same]
      rfl

theorem appendedLine_appendItemOnce : appendedLine (.appendItemOnce item) raw =
      if (latest ItemLine.id raw item.id).isSome then none else some item := by
  have read : appendItemOnce raw item = match latest ItemLine.id raw item.id with
      | some canonical => ⟨canonical, false⟩
      | none => ⟨item, true⟩ := rfl
  rw [appendedLine, read]
  cases latest ItemLine.id raw item.id with
  | none => rfl
  | some canonical => rfl

theorem loadItems_rewritten {id : Option String} (found : latest ItemLine.id log id = some current) :
    loadItems (log ++ [current]) = loadItems log := by
  rw [loadItems_append]
  apply setEntry_held
  · rw [loadItems_eq]
    exact keyed_contents log
  · rw [← find_loadItems] at found
    exact (find_mem found).1

/-- An update once is an update: where it appends nothing, the update would change nothing. -/
theorem loadItems_updateItemOnce :
    loadItems (itemProtocol.execute log (.updateItemOnce itemId patch)) =
      loadItems (itemProtocol.execute log (.updateItem itemId patch)) := by
  show loadItems (log ++ (appendedLine (.updateItemOnce itemId patch) log).toList) =
    loadItems (log ++ (updateItem log itemId patch).toList)
  rw [appendedLine_updateItemOnce, updateItem_eq]
  cases found : latest ItemLine.id log (some itemId) with
  | none => rfl
  | some current =>
    by_cases same : current = overlay current patch
    · simp only [Option.bind_some, Option.map_some, if_pos same]
      rw [← same]
      simpa using (loadItems_rewritten found).symm
    · simp only [Option.bind_some, Option.map_some, if_neg same]

/-- What a call makes of the items depends on the items alone. -/
theorem loadItems_execute (same : loadItems log = loadItems other) :
    loadItems (itemProtocol.execute log request) = loadItems (itemProtocol.execute other request) := by
  have sameLatest : ∀ id, latest ItemLine.id log id = latest ItemLine.id other id := by
    intro id
    rw [← find_loadItems, ← find_loadItems, same]
  have sameLine : appendedLine request log = appendedLine request other := by
    cases request with
    | appendItemOnce item =>
      rw [appendedLine_appendItemOnce, appendedLine_appendItemOnce, sameLatest]
    | updateItem itemId patch =>
      show updateItem log itemId patch = updateItem other itemId patch
      rw [updateItem_eq, updateItem_eq, sameLatest]
    | updateItemOnce itemId patch =>
      rw [appendedLine_updateItemOnce, appendedLine_updateItemOnce, sameLatest]
  show loadItems (log ++ (appendedLine request log).toList) =
    loadItems (other ++ (appendedLine request other).toList)
  rw [sameLine]
  cases appendedLine request other with
  | none => simpa using same
  | some line =>
    show loadItems (log ++ [line]) = loadItems (other ++ [line])
    rw [loadItems_append, loadItems_append, same]

theorem itemProtocol_lawful : Lawful itemProtocol loadItems Agrees := by
  constructor
  · intro request snapshot log line agree appended
    have written : appendedLine request snapshot = some line := appended
    have again : ∀ itemId patch, Agrees (.updateItem itemId patch) snapshot log →
        updateItem snapshot itemId patch = some line →
        loadItems (log ++ [line]) = loadItems (itemProtocol.execute log (.updateItem itemId patch)) := by
      intro itemId patch agree worked
      have same := updateItem_agrees_iff.mpr agree
      show _ = loadItems (log ++ (updateItem log itemId patch).toList)
      rw [← same, worked]
      rfl
    cases request with
    | appendItemOnce item =>
      have present : (latest ItemLine.id snapshot item.id).isSome =
          (latest ItemLine.id log item.id).isSome := agree
      show _ = loadItems (log ++ (appendedLine (.appendItemOnce item) log).toList)
      rw [appendedLine_appendItemOnce] at written ⊢
      rw [← present, written]
      rfl
    | updateItem itemId patch => exact again itemId patch agree written
    | updateItemOnce itemId patch =>
      rw [loadItems_updateItemOnce]
      apply again itemId patch agree
      rw [appendedLine_updateItemOnce] at written
      rw [updateItem_eq]
      cases found : latest ItemLine.id snapshot (some itemId) with
      | none =>
        rw [found] at written
        cases written
      | some current =>
        rw [found, Option.bind_some] at written
        split at written
        · cases written
        · exact written
  · intro request log other same
    exact loadItems_execute same

/-- The items that the log ends with are those of the completed calls, one after the other in
some order. -/
def SomeOrder (initial : List ItemLine) (world : World ItemRequest ItemLine) : Prop :=
  ∃ order : List ItemRequest, order.Perm (world.completions.map Completion.request) ∧
    loadItems world.log = loadItems (order.foldl itemProtocol.execute initial)

/-- The item and the patch of an update. -/
def ItemRequest.update? : ItemRequest → Option (String × ItemPatch)
  | .appendItemOnce _ => none
  | .updateItem itemId patch | .updateItemOnce itemId patch => some (itemId, patch)

/-- A field of an item as it is loaded. -/
def loadedField (log : List ItemLine) (itemId field : String) : Option String :=
  (find ItemLine.id (some itemId) (loadItems log)).bind fun item => item.lookup field

/-- No completed update has changed a field of its item that its patch does not set. -/
def NothingOverwritten (world : World ItemRequest ItemLine) : Prop :=
  ∀ completion ∈ world.completions, ∀ itemId patch,
    completion.request.update? = some (itemId, patch) → "id" ∉ patch.map Prod.fst →
    ∀ field, field ∉ patch.map Prod.fst →
      loadedField (completion.before ++ completion.line.toList) itemId field =
        loadedField completion.before itemId field

theorem InOrder.someOrder (inOrder : InOrder itemProtocol loadItems initial world) :
    SomeOrder initial world :=
  ⟨_, List.Perm.refl _, inOrder.log⟩

theorem execute_frame (updates : request.update? = some (itemId, patch))
    (named : "id" ∉ patch.map Prod.fst) (unset : field ∉ patch.map Prod.fst) (log : List ItemLine) :
    loadedField (itemProtocol.execute log request) itemId field = loadedField log itemId field := by
  have updated : loadedField (itemProtocol.execute log (.updateItem itemId patch)) itemId field =
      loadedField log itemId field := by
    unfold loadedField
    rw [find_loadItems, find_loadItems]
    show (latest ItemLine.id (log ++ (updateItem log itemId patch).toList) (some itemId)).bind _ = _
    rw [updateItem_eq]
    cases found : latest ItemLine.id log (some itemId) with
    | none => simp [found]
    | some current =>
      have sameId : (overlay current patch).id = some itemId := by
        rw [ItemLine.id, lookup_overlay_unset named]
        exact latest_key found
      rw [Option.map_some, Option.toList_some, latest_append, if_pos sameId]
      exact lookup_overlay_unset unset
  cases request with
  | appendItemOnce item => cases updates
  | updateItem id given =>
    cases updates
    exact updated
  | updateItemOnce id given =>
    cases updates
    rw [← updated, loadedField, loadedField, loadItems_updateItemOnce]

theorem InOrder.nothingOverwritten (inOrder : InOrder itemProtocol loadItems initial world) :
    NothingOverwritten world := by
  intro completion member itemId patch updates named field unset
  rw [loadedField, inOrder.alone completion member]
  exact execute_frame updates named unset completion.before

/-- In a run in which every call that appends finds the item as it has read it, up to the
fields that it sets, no update is lost. -/
theorem item_updates_kept (initial : List ItemLine) (actions : List (Action ItemRequest))
    (world : World ItemRequest ItemLine)
    (timely : Along (step itemProtocol) (Timely Agrees) { log := initial } actions)
    (ran : runActions (step itemProtocol) { log := initial } actions = some world) :
    SomeOrder initial world ∧ NothingOverwritten world := by
  have inOrder := inOrder_run itemProtocol_lawful timely ran
  exact ⟨InOrder.someOrder inOrder, InOrder.nothingOverwritten inOrder⟩

private def progressItem : ItemLine :=
  ((Finmap.singleton "id" "item_1").insert "status" "running").insert "summary" "started"

private def settleStatus : ItemRequest := .updateItem "item_1" [("status", some "completed")]

private def settleSummary : ItemRequest := .updateItem "item_1" [("summary", some "done")]

/-- The second update reads the item after the first one has appended it. -/
theorem item_updates_kept_in_turn :
    ∃ world, runActions (step itemProtocol) { log := [progressItem] }
        [.open 1 settleStatus, .open 2 settleSummary, .read 1, .append 1, .read 2, .append 2] = some world ∧
      loadedField world.log "item_1" "status" = some "completed" ∧
      loadedField world.log "item_1" "summary" = some "done" ∧
      SomeOrder [progressItem] world ∧ NothingOverwritten world :=
  ⟨_, rfl, by decide, by decide, item_updates_kept [progressItem]
      [.open 1 settleStatus, .open 2 settleSummary, .read 1, .append 1, .read 2, .append 2] _
      (by decide) rfl⟩

/-- Both updates read the item before either has appended it, and the item is running again. -/
theorem status_lost_to_summary : ∃ world, runActions (step itemProtocol) { log := [progressItem] }
        [.open 1 settleStatus, .open 2 settleSummary, .read 1, .read 2, .append 1, .append 2] = some world ∧
      world.calls.length = 0 ∧ loadedField world.log "item_1" "status" = some "running" ∧
      ¬ SomeOrder [progressItem] world ∧ ¬ NothingOverwritten world := by
  refine ⟨_, rfl, rfl, by decide, ?_, ?_⟩
  · rintro ⟨order, perm, ends⟩
    have status := congrArg (fun items => (find ItemLine.id (some "item_1") items).bind
      fun item => item.lookup "status") ends
    rcases perm_pair.mp perm with rfl | rfl
    all_goals exact absurd status (by decide)
  · intro kept
    have overwritten := kept _ (mem_cons_of_mem _ mem_cons_self) "item_1"
      [("summary", some "done")] rfl (by decide) "status" (by decide)
    exact absurd overwritten (by decide)

end QiongQi.ItemUpdates
