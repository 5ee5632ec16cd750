import QiongQi.ThreadStores

/-! What `HybridThreadStore.get` makes of a thread that was stored again and again beside its
session log: a read puts the items of the log into the last record, and fills in what the turns of
that record lack and an earlier record had. -/
namespace QiongQi.ThreadRoundTrips
open RuntimeContracts RewrittenLogs TurnItems ItemLogs ThreadRecords ThreadStores List

inductive Step where
  | append (item : TurnItem)
  | upsert (thread : ThreadRecord)

def Step.perform (files : ThreadFiles) : Step → ThreadFiles
  | .append item => { files with messages := files.messages ++ [item] }
  | .upsert thread => ThreadStores.upsert files thread

def stored (steps : List Step) : ThreadFiles := steps.foldl Step.perform {}

def appended (steps : List Step) : List TurnItem :=
  steps.filterMap fun | .append item => some item | .upsert _ => none

def upserted (steps : List Step) : List ThreadRecord :=
  steps.filterMap fun | .append _ => none | .upsert thread => some thread

/-- The lines that no later line of the same item replaces. -/
def lastLines : List TurnItem → List TurnItem
  | [] => []
  | item :: rest => if item.id ∈ rest.map TurnItem.id then lastLines rest else item :: lastLines rest

/-- What the log has of a turn in the end. -/
def logged (steps : List Step) (turnId : String) : List TurnItem :=
  (lastLines (appended steps)).filter (·.turnId = turnId)

/-- The turn in all the records, in their order. -/
def versions (steps : List Step) (turnId : String) : List Turn :=
  ((upserted steps).flatMap (·.turns)).filter (·.id = turnId)

/-- What a record has last, if one has it. -/
def lastOf (steps : List Step) (turnId : String) (field : Turn → Option α) : Option α :=
  (versions steps turnId).reverse.findSome? field

def orElse (ids others : List String) : List String := if ids.isEmpty then others else ids

theorem orElse_assoc (first second third : List String) :
    orElse (orElse first second) third = orElse first (orElse second third) := by
  unfold orElse
  by_cases empty : first.isEmpty = true
  · rw [if_pos empty, if_pos empty]
  · rw [if_neg empty, if_neg empty, if_neg empty]

/-- A turn as it is read back. Nothing is said about its prompt where no user message has a text. -/
structure Returned (steps : List Step) (turn read : Turn) : Prop where
  items : read.items = logged steps turn.id
  same : turn.items.Nodup → (∀ item, item ∈ turn.items ↔ item ∈ logged steps turn.id) →
    read.items ~ turn.items
  prompt : promptFromItems read.items ≠ "" → read.prompt = promptFromItems read.items
  attachmentIds : read.attachmentIds = orElse turn.attachmentIds
    (orElse (trimmedSet ((versions steps turn.id).flatMap (·.attachmentIds)))
      (attachmentIdsFromItems read.items))
  model : truthy read.model = (truthy turn.model).or (lastOf steps turn.id (truthy ·.model))
  mode : read.mode = turn.mode.or (lastOf steps turn.id (·.mode))
  guiPlan : read.guiPlan = turn.guiPlan.or (lastOf steps turn.id (·.guiPlan))
  others : { turn with
    items := read.items, prompt := read.prompt, attachmentIds := read.attachmentIds
    model := read.model, mode := read.mode, guiPlan := read.guiPlan } = read

theorem stored_eq (steps : List Step) :
    stored steps = ⟨(upserted steps).map stripThreadItemBodies, appended steps⟩ := by
  induction steps using List.reverseRecOn with
  | nil => rfl
  | append_singleton front step ih =>
    rw [stored, foldl_append, ← stored, ih]
    cases step <;> simp [Step.perform, upserted, appended, ThreadStores.upsert]

theorem loadHybridItems_lastLines (raw : List TurnItem) : loadHybridItems raw = lastLines raw := by
  rw [loadHybridItems_eq]
  induction raw with
  | nil => rfl
  | cons item rest ih =>
    have later : ∀ id ∈ byLast (rest.map TurnItem.id),
        latest TurnItem.id (item :: rest) id = latest TurnItem.id rest id := by
      intro id known
      obtain ⟨line, found⟩ := Option.isSome_iff_exists.mp (latest_isSome (mem_byLast.mp known))
      rw [← singleton_append, latest_append_list, found]
      rfl
    unfold lastLines
    split
    · rename_i known
      rw [map_cons, byLast, dedup_cons_of_mem known, ← byLast, filterMap_congr later, ih]
    · rename_i fresh
      have own : latest TurnItem.id (item :: rest) item.id = some item := by
        have missing : latest TurnItem.id rest item.id = none :=
          Option.not_isSome_iff_eq_none.mp (mt latest_isSome_iff.mp fresh)
        rw [← singleton_append, latest_append_list, missing]
        simp [latest]
      rw [map_cons, byLast, dedup_cons_of_notMem fresh, ← byLast, filterMap_cons_some own,
        filterMap_congr later, ih]

theorem lastLines_subset : lastLines raw ⊆ raw := by
  induction raw with
  | nil => exact nil_subset _
  | cons item rest ih =>
    unfold lastLines
    split
    · exact fun _ held => mem_cons_of_mem _ (ih held)
    · exact cons_subset_cons item ih

theorem lastLines_nodup : (lastLines raw).Nodup := by
  induction raw with
  | nil => exact nodup_nil
  | cons item rest ih =>
    unfold lastLines
    split
    · exact ih
    · rename_i fresh
      exact nodup_cons.mpr ⟨fun held => fresh (mem_map_of_mem (lastLines_subset held)), ih⟩

theorem byFirst_distinct [DecidableEq κ] {keys : List κ} (distinct : keys.Nodup) :
    byFirst keys = keys := by
  rw [byFirst, dedup_eq_self.mpr (nodup_reverse.mpr distinct), reverse_reverse]

theorem byFirst_byFirst [DecidableEq κ] (keys more : List κ) :
    byFirst (byFirst keys ++ more) = byFirst (keys ++ more) := by
  induction more using List.reverseRecOn with
  | nil => simpa using byFirst_distinct (nodup_byFirst keys)
  | append_singleton front name ih =>
    rw [← append_assoc, ← append_assoc, byFirst_append, byFirst_append, ih]
    simp only [mem_append, mem_byFirst]

theorem trimmedSet_append (first second : List String) :
    trimmedSet (trimmedSet first ++ second) = trimmedSet (first ++ second) := by
  have solid : ∀ text ∈ trimmedSet first, jsTrim text = text ∧ text ≠ "" := by
    intro text held
    obtain ⟨trimmed, full⟩ := mem_filter.mp (mem_byFirst.mp held)
    obtain ⟨source, -, rfl⟩ := mem_map.mp trimmed
    exact ⟨jsTrim_idem source, by simpa using full⟩
  have again : ((trimmedSet first).map jsTrim).filter (· ≠ "") = trimmedSet first := by
    rw [map_congr_left fun text held => (solid text held).1, map_id']
    exact filter_eq_self.mpr fun text held => by simpa using (solid text held).2
  unfold trimmedSet at again ⊢
  rw [map_append, filter_append, again, map_append, filter_append]
  exact byFirst_byFirst _ _

theorem foldl_attachmentIds (turns : List Turn) :
    (turns.foldl RecoveredTurnMetadata.add {}).attachmentIds =
      trimmedSet (turns.flatMap (·.attachmentIds)) := by
  induction turns using List.reverseRecOn with
  | nil => rfl
  | append_singleton front turn ih =>
    rw [foldl_append, flatMap_append]
    simp only [foldl_cons, foldl_nil, RecoveredTurnMetadata.add, mergeStringArrays, ih,
      trimmedSet_append, flatMap_singleton]

/-- What the records had last is what is recovered. -/
theorem foldl_last (recovered : RecoveredTurnMetadata → Option α) (field : Turn → Option α)
    (start : recovered {} = none)
    (added : ∀ current turn, recovered (current.add turn) = (field turn).or (recovered current))
    (turns : List Turn) :
    recovered (turns.foldl RecoveredTurnMetadata.add {}) = turns.reverse.findSome? field := by
  induction turns using List.reverseRecOn with
  | nil => exact start
  | append_singleton front turn ih =>
    rw [foldl_append, foldl_cons, foldl_nil, added, ih, reverse_append]
    cases found : field turn <;> simp [found]

theorem collect_stripped (steps : List Step) (turnId : String) (known : versions steps turnId ≠ []) :
    collectTurnMetadata ((upserted steps).map stripThreadItemBodies) turnId =
      some ((versions steps turnId).foldl RecoveredTurnMetadata.add {}) := by
  have stripped : (((upserted steps).map stripThreadItemBodies).flatMap (·.turns)).filter
      (·.id = turnId) = (versions steps turnId).map stripTurn := by
    have turns : ((upserted steps).map stripThreadItemBodies).flatMap (·.turns) =
        ((upserted steps).flatMap (·.turns)).map stripTurn := by
      rw [flatMap_map, map_flatMap]
      rfl
    rw [turns, filter_map]
    rfl
  unfold collectTurnMetadata
  rw [stripped]
  obtain ⟨first, rest, listed⟩ := exists_cons_of_ne_nil known
  rw [listed, map_cons]
  exact congrArg some (foldl_map (l := first :: rest))

theorem mergedTurn_single {turns : List Turn} (distinct : (turns.map (·.id)).Nodup)
    (held : turn ∈ turns) : mergedTurn turns turn.id = some turn := by
  have alone : turns.filter (·.id = turn.id) = [turn] := by
    refine perm_singleton.mp ?_
    refine (perm_ext_iff_of_nodup (distinct.of_map.filter _) (nodup_singleton _)).mpr fun other => ?_
    rw [mem_filter, mem_singleton, decide_eq_true_eq]
    constructor
    · exact fun ⟨inside, same⟩ => inj_on_of_nodup_map distinct inside held same
    · rintro rfl
      exact ⟨held, rfl⟩
  rw [mergedTurn, alone]
  rfl

theorem normalize_distinct {thread : ThreadRecord} (distinct : (thread.turns.map (·.id)).Nodup)
    (entries : List ThreadRecord) : normalizeThreadMetadata entries thread =
      { thread with turns := thread.turns.map fun turn =>
          applyRecoveredTurnMetadata (collectTurnMetadata entries turn.id) turn } := by
  rw [normalizeThreadMetadata, byFirst_distinct distinct, filterMap_map]
  congr 2
  exact (filterMap_congr fun turn held => mergedTurn_single distinct held).trans filterMap_some

/-- A turn of the last record with what the earlier records had of it. -/
def recovered (steps : List Step) (turn : Turn) : Turn :=
  applyRecoveredTurnMetadata
    (collectTurnMetadata ((upserted steps).map stripThreadItemBodies) turn.id) (stripTurn turn)

/-- What `get` makes of a turn of the last record. -/
def readTurn (steps : List Step) (turn : Turn) : Turn :=
  hydrateTurn (lastLines (appended steps)) (recovered steps turn)

theorem returned_readTurn (known : versions steps turn.id ≠ []) :
    Returned steps turn (readTurn steps turn) := by
  have collected := collect_stripped steps turn.id known
  have ids := foldl_attachmentIds (versions steps turn.id)
  have model := foldl_last RecoveredTurnMetadata.model (fun turn => truthy turn.model) rfl
    (fun _ _ => rfl) (versions steps turn.id)
  have mode := foldl_last RecoveredTurnMetadata.mode Turn.mode rfl (fun _ _ => rfl)
    (versions steps turn.id)
  have guiPlan := foldl_last RecoveredTurnMetadata.guiPlan Turn.guiPlan rfl (fun _ _ => rfl)
    (versions steps turn.id)
  generalize (versions steps turn.id).foldl RecoveredTurnMetadata.add {} = found
    at collected ids model mode guiPlan
  have read : readTurn steps turn = hydrateTurn (lastLines (appended steps))
      (applyRecoveredTurnMetadata (some found) (stripTurn turn)) := by
    rw [readTurn, recovered, collected]
  have items : (readTurn steps turn).items = logged steps turn.id := by
    rw [read]
    rfl
  refine ⟨items, ?_, ?_, ?_, ?_, ?_, ?_, ?_⟩
  · intro once whole
    rw [items]
    exact (perm_ext_iff_of_nodup (lastLines_nodup.filter _) once).mpr fun item => (whole item).symm
  · intro text
    rw [read] at text ⊢
    exact if_neg text
  · rw [items, read, ← ids]
    exact orElse_assoc turn.attachmentIds found.attachmentIds _
  · rw [read]
    change truthy (if (truthy turn.model).isSome then turn.model
      else (truthy found.model).or turn.model) = (truthy turn.model).or _
    rw [lastOf, ← model]
    have full : truthy found.model = found.model := by
      cases text : found.model with
      | none => rfl
      | some text =>
        rw [text] at model
        obtain ⟨version, -, named⟩ := exists_of_findSome?_eq_some model.symm
        rw [← named]
        exact Option.filter_filter.trans (by simp [truthy])
    rw [full]
    cases own : truthy turn.model with
    | some text => exact own
    | none =>
      cases before : found.model with
      | none => exact own
      | some text =>
        rw [before] at full
        exact full
  · rw [read]
    simp only [hydrateTurn, applyRecoveredTurnMetadata, stripTurn, lastOf]
    rw [← mode]
  · rw [read]
    simp only [hydrateTurn, applyRecoveredTurnMetadata, stripTurn, lastOf]
    rw [← guiPlan]
  · rw [read]
    rfl

theorem normalize_stripped (distinct : (last.turns.map (·.id)).Nodup) :
    normalizeThreadMetadata ((upserted steps).map stripThreadItemBodies) (stripThreadItemBodies last) =
      { last with turns := last.turns.map (recovered steps) } := by
  have kept : ((stripThreadItemBodies last).turns.map (·.id)).Nodup := by
    rw [stripThreadItemBodies, map_map]
    exact distinct
  rw [normalize_distinct kept, stripThreadItemBodies, map_map]
  rfl

theorem recovered_id (steps : List Step) (turn : Turn) : (recovered steps turn).id = turn.id := by
  unfold recovered
  cases collectTurnMetadata _ turn.id <;> rfl

theorem stripTurn_recovered (steps : List Step) (turn : Turn) :
    stripTurn (recovered steps turn) = hydrateTurn [] (recovered steps turn) := by
  have prompt : (recovered steps turn).prompt = "" := by
    unfold recovered
    cases collectTurnMetadata _ turn.id <;> rfl
  generalize recovered steps turn = read at prompt
  have ids : (if read.attachmentIds.isEmpty then attachmentIdsFromItems [] else
      read.attachmentIds) = read.attachmentIds := by
    split
    · rename_i empty
      exact (isEmpty_iff.mp empty).symm
    · rfl
  rw [hydrateTurn, filter_nil, ids, stripTurn, prompt]
  rfl

theorem unknownTurns_congr (ids : turns.map (·.id) = last.turns.map (·.id)) :
    unknownTurns { last with turns } items = unknownTurns last items := by
  have known : ∀ turnId, (turns.all (·.id ≠ turnId)) = last.turns.all (·.id ≠ turnId) := by
    intro turnId
    have same := congrArg (fun ids => ids.all (· ≠ turnId)) ids
    rwa [all_map, all_map] at same
  unfold unknownTurns
  simp only [known]

theorem versions_ne_nil (latest : (upserted steps).getLast? = some last) (held : turn ∈ last.turns) :
    versions steps turn.id ≠ [] := by
  refine ne_nil_of_mem (mem_filter.mpr ⟨mem_flatMap.mpr ⟨last, ?_, held⟩, by simp⟩)
  exact mem_of_getLast? latest

/-- A stored model that is taken away comes back. -/
def remodelled (model : Option String) : ThreadRecord :=
  { id := "thread", title := "", workspace := "", model := "", createdAt := "1", updatedAt := "1"
    turns := [{ id := "turn", threadId := "thread", status := .completed, prompt := "", model,
                createdAt := "1" }] }

end QiongQi.ThreadRoundTrips
