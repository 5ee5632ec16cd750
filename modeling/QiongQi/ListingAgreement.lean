import QiongQi.RankedLists
import QiongQi.ThreadListings

/-! When the index and the scan list the same summaries. The index has no column for the
owner and the work mode's module, and the two differ in work modes, searches, limits and
in the order of threads with one date. -/
namespace QiongQi.ListingAgreement
open Machines RankedLists ThreadRecords ThreadStores ThreadListings

variable {platform : Platform} {store : HybridStore}

def lastRecord (dir : String × ThreadFiles) : Option ThreadRecord :=
  dir.2.metadata.getLast?

/-- The last record of each thread. -/
def threads (store : HybridStore) : List ThreadRecord :=
  store.dirs.filterMap lastRecord

/-- Each directory has a record of its name. -/
def Named (dirs : List (String × ThreadFiles)) : Prop :=
  ∀ dir ∈ dirs, ∃ thread, lastRecord dir = some thread ∧ thread.id = dir.1

/-- The rows are those of the last records of the threads. -/
structure Synced (platform : Platform) (store : HybridStore) : Prop where
  named : Named store.dirs
  once : (store.dirs.map Prod.fst).Nodup
  rows : store.rows = (threads store).map (rowFromIndexRecord platform)

theorem row_stripped :
    rowFromIndexRecord platform (stripThreadItemBodies thread) = rowFromIndexRecord platform thread :=
  rfl

theorem named_ids (named : Named dirs) :
    (dirs.filterMap lastRecord).map ThreadRecord.id = dirs.map Prod.fst := by
  induction dirs with
  | nil => rfl
  | cons dir rest ih =>
    obtain ⟨thread, last, same⟩ := named dir List.mem_cons_self
    rw [List.filterMap_cons_some last, List.map_cons, List.map_cons, same,
      ih fun other held => named other (List.mem_cons_of_mem _ held)]

private theorem threads_drop (named : Named dirs) :
    (drop Prod.fst threadId dirs).filterMap lastRecord =
      drop ThreadRecord.id threadId (dirs.filterMap lastRecord) := by
  unfold drop
  induction dirs with
  | nil => rfl
  | cons dir rest ih =>
    obtain ⟨thread, last, same⟩ := named dir List.mem_cons_self
    have others := ih fun other held => named other (List.mem_cons_of_mem _ held)
    rw [List.filterMap_cons_some last]
    by_cases apart : dir.1 = threadId
    · rw [List.filter_cons_of_neg (by simpa using apart),
        List.filter_cons_of_neg (by simpa using same.trans apart)]
      exact others
    · rw [List.filter_cons_of_pos (by simpa using apart),
        List.filter_cons_of_pos (by simpa [same] using apart), List.filterMap_cons_some last]
      exact congrArg (thread :: ·) others

private theorem rows_drop : drop ThreadRow.id threadId (records.map (rowFromIndexRecord platform)) =
      (drop ThreadRecord.id threadId records).map (rowFromIndexRecord platform) := by
  unfold drop
  rw [List.filter_map]
  rfl

theorem synced_call (call : StoreCall) (synced : Synced platform store) :
    Synced platform (storeCall platform store call) := by
  obtain ⟨named, once, rows⟩ := synced
  cases call with
  | upsert thread =>
    let files := ThreadStores.upsert ((store.files thread.id).getD {}) thread
    have last : lastRecord (thread.id, files) = some (stripThreadItemBodies thread) := by
      simp [lastRecord, files, ThreadStores.upsert]
    refine ⟨?_, ?_, ?_⟩
    · intro dir held
      rcases List.mem_cons.mp held with rfl | held
      · exact ⟨_, last, rfl⟩
      · exact named dir (List.mem_filter.mp held).1
    · refine List.nodup_cons.mpr ⟨?_, once.sublist (List.filter_sublist.map _)⟩
      intro again
      obtain ⟨dir, held, same⟩ := List.mem_map.mp again
      have apart := (List.mem_filter.mp held).2
      simp [same] at apart
    · have shown : threads (storeCall platform store (.upsert thread)) =
          stripThreadItemBodies thread :: drop ThreadRecord.id thread.id (threads store) := by
        unfold threads
        rw [← threads_drop named]
        exact List.filterMap_cons_some last
      rw [shown, List.map_cons, row_stripped, ← rows_drop, ← rows]
      rfl
  | delete threadId =>
    refine ⟨fun dir held => named dir (mem_drop.mp held).1, once.sublist (List.filter_sublist.map _), ?_⟩
    have shown : threads (storeCall platform store (.delete threadId)) =
        drop ThreadRecord.id threadId (threads store) := threads_drop named
    rw [shown, ← rows_drop, ← rows]
    rfl

theorem synced_calls (platform : Platform) (calls : List StoreCall) :
    Synced platform (calls.foldl (storeCall platform) {}) := by
  have start : Synced platform {} := ⟨by simp [Named], List.nodup_nil, rfl⟩
  revert start
  generalize ({} : HybridStore) = store
  induction calls generalizing store with
  | nil => exact id
  | cons call rest ih => exact fun synced => ih _ (synced_call call synced)

theorem nodup_ids (synced : Synced platform store) :
    ((threads store).map ThreadRecord.id).Nodup := by
  rw [threads, named_ids synced.named]
  exact synced.once

def indexSelected (platform : Platform) (options : ThreadListOptions) (thread : ThreadRecord) : Bool :=
  matchesQuery platform options (rowFromIndexRecord platform thread)

def scanSelected (platform : Platform) (options : ThreadListOptions) (thread : ThreadRecord) : Bool :=
  matchesScan platform options (toThreadSummary thread)

/-- Later by the date, or of one date and greater by the id. -/
def IndexBefore (platform : Platform) (left right : ThreadRecord) : Prop :=
  platform.isoToMillis right.updatedAt < platform.isoToMillis left.updatedAt ∨
    (platform.isoToMillis right.updatedAt = platform.isoToMillis left.updatedAt ∧ right.id < left.id)

/-- Later by the text of the date, or of texts that compare equal and earlier in the directory. -/
def ScanBefore (platform : Platform) (readdir : List String) (left right : ThreadRecord) : Prop :=
  newestFirst platform left.updatedAt right.updatedAt = true ∧
    (newestFirst platform right.updatedAt left.updatedAt = true →
      readdir.idxOf left.id < readdir.idxOf right.id)

instance (platform : Platform) : DecidableRel (IndexBefore platform) :=
  fun _ _ => inferInstanceAs (Decidable (_ ∨ _))

instance (platform : Platform) (readdir : List String) : DecidableRel (ScanBefore platform readdir) :=
  fun _ _ => inferInstanceAs (Decidable (_ ∧ _))

/-- The index lists the thread: the query matches, and fewer matching threads than the
limit come before it. -/
def IndexLists (platform : Platform) (options : ThreadListOptions) (store : HybridStore)
    (thread : ThreadRecord) : Prop :=
  indexSelected platform options thread = true ∧ ∀ limit ∈ options.limit,
    ((threads store).filter (indexSelected platform options)).countP
      (IndexBefore platform · thread) < rowLimit limit

/-- The scan lists the thread: the filters pass it, and it comes before the cut. -/
def ScanLists (platform : Platform) (options : ThreadListOptions) (store : HybridStore)
    (readdir : List String) (thread : ThreadRecord) : Prop :=
  scanSelected platform options thread = true ∧ ∀ limit ∈ options.limit,
    ((threads store).filter (scanSelected platform options)).countP
        (ScanBefore platform readdir · thread) <
      sliceCount limit ((threads store).filter (scanSelected platform options)).length

instance (platform : Platform) (options : ThreadListOptions) (store : HybridStore)
    (thread : ThreadRecord) : Decidable (IndexLists platform options store thread) :=
  inferInstanceAs (Decidable (_ ∧ ∀ limit ∈ options.limit, _))

instance (platform : Platform) (options : ThreadListOptions) (store : HybridStore)
    (readdir : List String) (thread : ThreadRecord) :
    Decidable (ScanLists platform options store readdir thread) :=
  inferInstanceAs (Decidable (_ ∧ ∀ limit ∈ options.limit, _))

/-- The row has everything that the summary of the record has. -/
def RowKeeps (thread : ThreadRecord) : Prop :=
  truthy thread.ownerUserId = none ∧ truthy thread.workModeModuleId = none ∧
    thread.workModeId ≠ "task" ∧ thread.workModeId ≠ ""

instance (thread : ThreadRecord) : Decidable (RowKeeps thread) :=
  inferInstanceAs (Decidable (_ ∧ _ ∧ _ ∧ _))

/-- Each thread is listed by both or by neither, listed threads are in one order, and
their rows keep everything. -/
structure ListingsAgree (platform : Platform) (options : ThreadListOptions) (store : HybridStore)
    (readdir : List String) : Prop where
  same : ∀ thread ∈ threads store,
    IndexLists platform options store thread ↔ ScanLists platform options store readdir thread
  order : ∀ left ∈ threads store, ∀ right ∈ threads store,
    ScanLists platform options store readdir left → ScanLists platform options store readdir right →
      (IndexBefore platform left right ↔ ScanBefore platform readdir left right)
  kept : ∀ thread ∈ threads store, ScanLists platform options store readdir thread → RowKeeps thread

theorem summaryFromRow_eq_iff :
    summaryFromRow (rowFromIndexRecord platform thread) = toThreadSummary thread ↔ RowKeeps thread := by
  simp only [summaryFromRow, rowFromIndexRecord, toThreadSummary, RowKeeps, ThreadSummary.mk.injEq,
    true_and, and_true]
  by_cases task : thread.workModeId = "task"
  · simp [task]
  · by_cases blank : thread.workModeId = ""
    · simp [blank]
    · simp [task, blank, eq_comm]

theorem takeUpTo_map : takeUpTo count (items.map change) = (takeUpTo count items).map change := by
  cases count with
  | none => rfl
  | some count => exact List.map_take.symm

private theorem takeUpTo_sublist : (takeUpTo count items).Sublist items := by
  cases count with
  | none => exact List.Sublist.refl items
  | some count => exact List.take_sublist count items

private theorem mem_takeUpTo_iff [DecidableRel before] (ordered : items.Pairwise before)
    (oneWay : OneWay before items) :
    item ∈ takeUpTo count items ↔ item ∈ items ∧ ∀ limit ∈ count, items.countP (before · item) < limit := by
  cases count with
  | none => simp [takeUpTo]
  | some count => simpa [takeUpTo] using mem_take_iff ordered oneWay count

def indexed (platform : Platform) (options : ThreadListOptions) (store : HybridStore) :
    List ThreadRecord :=
  takeUpTo (options.limit.map rowLimit)
    (((threads store).filter (indexSelected platform options)).mergeSort fun left right =>
      orderBy (rowFromIndexRecord platform left) (rowFromIndexRecord platform right))

section
variable (synced : Synced platform store)
include synced

private theorem dir_found (held : dir ∈ store.dirs) : find Prod.fst dir.1 store.dirs = some dir :=
  find_keyed (fun _ heldLeft _ heldRight same =>
    List.inj_on_of_nodup_map synced.once heldLeft heldRight same) held

private theorem files_of_thread (held : thread ∈ threads store) :
    ∃ files, store.files thread.id = some files ∧ files.metadata.getLast? = some thread := by
  obtain ⟨dir, listed, last⟩ := List.mem_filterMap.mp held
  obtain ⟨named, sameLast, sameName⟩ := synced.named dir listed
  rw [last] at sameLast
  cases sameLast
  refine ⟨dir.2, ?_, last⟩
  have found : find Prod.fst thread.id store.dirs = some dir := by
    rw [sameName]
    exact dir_found synced listed
  rw [HybridStore.files, found]
  rfl

theorem listFromIndex_eq (options : ThreadListOptions) : listFromIndex platform store options =
      (indexed platform options store).map fun thread =>
        summaryFromRow (rowFromIndexRecord platform thread) := by
  have rows : queryThreadRows platform store.rows options =
      (indexed platform options store).map (rowFromIndexRecord platform) := by
    unfold queryThreadRows indexed
    rw [synced.rows, List.filter_map, ← takeUpTo_map,
      List.map_mergeSort (f := rowFromIndexRecord platform) (s := orderBy) fun _ _ _ _ => rfl]
    rfl
  have readable : ∀ row ∈ (indexed platform options store).map (rowFromIndexRecord platform),
      rowHasReadableJsonl store row = true := by
    intro row held
    obtain ⟨thread, listed, rfl⟩ := List.mem_map.mp held
    have stored : thread ∈ threads store :=
      List.mem_of_mem_filter (List.mem_mergeSort.mp (takeUpTo_sublist.subset listed))
    obtain ⟨files, found, last⟩ := files_of_thread synced stored
    have named : (rowFromIndexRecord platform thread).id = thread.id := rfl
    rw [rowHasReadableJsonl, named, found]
    cases lines : files.metadata with
    | nil => simp [lines] at last
    | cons line rest => simp [lines]
  unfold listFromIndex
  rw [rows, List.filter_eq_self.mpr readable, List.map_map]
  rfl

end

theorem orderBy_iff (apart : left.id ≠ right.id) :
    orderBy (rowFromIndexRecord platform left) (rowFromIndexRecord platform right) = true ↔
      IndexBefore platform left right := by
  have strict : right.id ≤ left.id ↔ right.id < left.id := by
    constructor
    · intro below
      by_contra notLess
      exact apart (String.le_antisymm (String.not_lt.mp notLess) below)
    · intro less
      exact String.not_lt.mp (String.lt_asymm less)
  unfold orderBy IndexBefore
  simp only [Bool.or_eq_true, Bool.and_eq_true, decide_eq_true_eq]
  exact or_congr Iff.rfl (and_congr Iff.rfl strict)

theorem indexBefore_oneWay (platform : Platform) (records : List ThreadRecord) :
    OneWay (IndexBefore platform) records := by
  intro left _ right _ first second
  rcases first with later | ⟨same, greater⟩
  · rcases second with earlier | ⟨same, -⟩ <;> omega
  · rcases second with earlier | ⟨-, less⟩
    · omega
    · exact String.lt_asymm greater less

private theorem orderBy_trans (first second third : ThreadRow)
    (before : orderBy first second = true) (after : orderBy second third = true) :
    orderBy first third = true := by
  simp only [orderBy, Bool.or_eq_true, Bool.and_eq_true, decide_eq_true_eq] at *
  rcases before with less | ⟨same, below⟩
  · rcases after with lessToo | ⟨sameToo, -⟩
    all_goals exact .inl (by omega)
  · rcases after with lessToo | ⟨sameToo, belowToo⟩
    · exact .inl (by omega)
    · exact .inr ⟨by omega, String.le_trans belowToo below⟩

private theorem orderBy_total : (orderBy left right || orderBy right left) = true := by
  simp only [orderBy, Bool.or_eq_true, Bool.and_eq_true, decide_eq_true_eq]
  rcases String.le_total left.id right.id with below | above
  · rcases Int.lt_trichotomy left.updatedAtMs right.updatedAtMs with less | same | greater
    · exact .inr (.inl less)
    · exact .inr (.inr ⟨same, below⟩)
    · exact .inl (.inl greater)
  · rcases Int.lt_trichotomy left.updatedAtMs right.updatedAtMs with less | same | greater
    · exact .inr (.inl less)
    · exact .inl (.inr ⟨same.symm, above⟩)
    · exact .inl (.inl greater)

theorem indexed_ordered (synced : Synced platform store) (options : ThreadListOptions) :
    ((((threads store).filter (indexSelected platform options)).mergeSort fun left right =>
      orderBy (rowFromIndexRecord platform left) (rowFromIndexRecord platform right)).Pairwise
        (IndexBefore platform)) := by
  let le (left right : ThreadRecord) : Bool :=
    orderBy (rowFromIndexRecord platform left) (rowFromIndexRecord platform right)
  let selected := (threads store).filter (indexSelected platform options)
  have sorted : (selected.mergeSort le).Pairwise fun left right => le left right = true :=
    List.pairwise_mergeSort
      (fun first second third => orderBy_trans (rowFromIndexRecord platform first)
        (rowFromIndexRecord platform second) (rowFromIndexRecord platform third))
      (fun left right => orderBy_total) selected
  have ids : ((selected.mergeSort le).map ThreadRecord.id).Nodup := by
    have perm := ((List.mergeSort_perm selected le).map ThreadRecord.id).nodup_iff
    exact perm.mpr ((nodup_ids synced).sublist (List.filter_sublist.map _))
  have apart : (selected.mergeSort le).Pairwise fun left right => left.id ≠ right.id :=
    List.pairwise_map.mp ids
  exact (sorted.and apart).imp fun both => (orderBy_iff both.2).mp both.1

theorem mem_indexed (synced : Synced platform store) (options : ThreadListOptions) (thread : ThreadRecord) :
    thread ∈ indexed platform options store ↔
      thread ∈ threads store ∧ IndexLists platform options store thread := by
  unfold indexed IndexLists
  rw [mem_takeUpTo_iff (indexed_ordered synced options) (indexBefore_oneWay platform _)]
  rw [List.mem_mergeSort, List.mem_filter, (List.mergeSort_perm _ _).countP_eq]
  simp [and_assoc]

/-- The records in the order in which their directories are listed. -/
def inDirectory (store : HybridStore) (readdir : List String) : List ThreadRecord :=
  readdir.filterMap fun threadId => (store.files threadId).bind fun files => files.metadata.getLast?

theorem summary_of_hydrated (entries : List ThreadRecord) (thread : ThreadRecord)
    (items : List TurnItems.TurnItem) :
    toThreadSummary (hydrateThreadItems platform.localeCompare
      (normalizeThreadMetadata entries thread) items) = toThreadSummary thread := by
  unfold hydrateThreadItems
  split <;> rfl

theorem listFromFilesystem_eq (store : HybridStore) (readdir : List String) :
    listFromFilesystem platform store readdir = ((inDirectory store readdir).mergeSort fun left right =>
        newestFirst platform left.updatedAt right.updatedAt).map toThreadSummary := by
  have read : (readdir.filterMap fun threadId =>
        (store.files threadId).bind (ThreadStores.get platform.localeCompare)).map toThreadSummary =
      (inDirectory store readdir).map toThreadSummary := by
    unfold inDirectory
    rw [List.map_filterMap, List.map_filterMap]
    congr 1
    funext threadId
    cases store.files threadId with
    | none => rfl
    | some files =>
      simp only [Option.bind_some, ThreadStores.get, readLatestMetadata]
      cases files.metadata.getLast? with
      | none => rfl
      | some thread => exact congrArg some (summary_of_hydrated _ _ _)
  unfold listFromFilesystem
  dsimp only
  rw [read]
  exact (List.map_mergeSort (f := toThreadSummary) fun _ _ _ _ => rfl).symm

def passed (platform : Platform) (options : ThreadListOptions) (store : HybridStore)
    (readdir : List String) : List ThreadRecord :=
  ((inDirectory store readdir).mergeSort fun left right =>
    newestFirst platform left.updatedAt right.updatedAt).filter (scanSelected platform options)

def scanned (platform : Platform) (options : ThreadListOptions) (store : HybridStore)
    (readdir : List String) : List ThreadRecord :=
  takeUpTo (options.limit.map fun limit => sliceCount limit (passed platform options store readdir).length)
    (passed platform options store readdir)

theorem listFromScan_eq (store : HybridStore) (readdir : List String) (options : ThreadListOptions) :
    listFromScan platform store readdir options =
      (scanned platform options store readdir).map toThreadSummary := by
  unfold listFromScan filterThreadSummaries scanned passed
  rw [listFromFilesystem_eq, List.filter_map, ← takeUpTo_map]
  simp only [List.length_map]
  rfl

variable {readdir : List String}

section
variable (synced : Synced platform store) (perm : readdir.Perm (store.dirs.map Prod.fst))
include synced perm

theorem inDirectory_perm : (inDirectory store readdir).Perm (threads store) := by
  have found : ∀ dir ∈ store.dirs,
      ((store.files dir.1).bind fun files => files.metadata.getLast?) = lastRecord dir := by
    intro dir held
    have listed : find Prod.fst dir.1 store.dirs = some dir := dir_found synced held
    rw [HybridStore.files, listed]
    rfl
  have all : (store.dirs.map Prod.fst).filterMap
      (fun threadId => (store.files threadId).bind fun files => files.metadata.getLast?) = threads store := by
    rw [List.filterMap_map]
    exact List.filterMap_congr found
  rw [← all]
  exact perm.filterMap _

private theorem inDirectory_ids : (inDirectory store readdir).map ThreadRecord.id = readdir := by
  have each : ∀ threadId ∈ readdir,
      (((store.files threadId).bind fun files => files.metadata.getLast?).map ThreadRecord.id) =
        some threadId := by
    intro threadId listed
    obtain ⟨dir, held, rfl⟩ := List.mem_map.mp (perm.mem_iff.mp listed)
    obtain ⟨thread, last, same⟩ := synced.named dir held
    rw [HybridStore.files, dir_found synced held]
    simp only [Option.map_some, Option.bind_some]
    rw [show dir.2.metadata.getLast? = some thread from last]
    exact congrArg some same
  unfold inDirectory
  rw [List.map_filterMap, List.filterMap_congr each]
  exact List.filterMap_some

end

private theorem idxOf_id {records : List ThreadRecord}
    (once : (records.map ThreadRecord.id).Nodup) (held : thread ∈ records) :
    (records.map ThreadRecord.id).idxOf thread.id = records.idxOf thread := by
  obtain ⟨place, bound, rfl⟩ := List.getElem_of_mem held
  have mapped : place < (records.map ThreadRecord.id).length := by simpa using bound
  have shown : (records.map ThreadRecord.id)[place] = records[place].id := by simp
  rw [← shown, once.idxOf_getElem place mapped, (once.of_map _).idxOf_getElem place bound]

theorem newestFirst_trans (first second third : String) (before : newestFirst platform first second = true)
    (after : newestFirst platform second third = true) :
    newestFirst platform first third = true := by
  simp only [newestFirst, decide_eq_true_eq] at *
  exact platform.compare_trans third second first after before

private theorem newestFirst_total :
    (newestFirst platform left right || newestFirst platform right left) = true := by
  simp only [newestFirst, Bool.or_eq_true, decide_eq_true_eq]
  rw [platform.compare_swap right left]
  cases platform.localeCompare right left <;> simp

theorem scanBefore_oneWay (platform : Platform) (readdir : List String)
    (records : List ThreadRecord) : OneWay (ScanBefore platform readdir) records := by
  intro left _ right _ first second
  have earlier := first.2 second.1
  have later := second.2 first.1
  omega

section
variable (synced : Synced platform store) (perm : readdir.Perm (store.dirs.map Prod.fst))
include synced perm

/-- The scan has the records in its order, all of them before it filters. -/
theorem scan_ordered : ((inDirectory store readdir).mergeSort fun left right =>
      newestFirst platform left.updatedAt right.updatedAt).Pairwise (ScanBefore platform readdir) := by
  let le (left right : ThreadRecord) : Bool := newestFirst platform left.updatedAt right.updatedAt
  have ids := inDirectory_ids synced perm
  have once : ((inDirectory store readdir).map ThreadRecord.id).Nodup := by
    rw [ids]
    exact perm.nodup_iff.mpr synced.once
  have sorted : ((inDirectory store readdir).mergeSort le).Pairwise
      (StableBefore le (inDirectory store readdir)) :=
    mergeSort_ordered (fun first second third => newestFirst_trans first.updatedAt second.updatedAt
      third.updatedAt) (fun left right => newestFirst_total)
      (once.of_map _)
  refine sorted.imp_of_mem fun {left right} heldLeft heldRight first => ⟨first.1, fun back => ?_⟩
  have earlier := first.2 back
  rw [← idxOf_id once (List.mem_mergeSort.mp heldLeft),
    ← idxOf_id once (List.mem_mergeSort.mp heldRight), ids] at earlier
  exact earlier

private theorem passed_ordered (options : ThreadListOptions) :
    (passed platform options store readdir).Pairwise (ScanBefore platform readdir) :=
  (scan_ordered synced perm).sublist List.filter_sublist

theorem passed_perm (options : ThreadListOptions) : (passed platform options store readdir).Perm
      ((threads store).filter (scanSelected platform options)) :=
  ((List.mergeSort_perm _ _).trans (inDirectory_perm synced perm)).filter _

theorem mem_scanned (options : ThreadListOptions) (thread : ThreadRecord) :
    thread ∈ scanned platform options store readdir ↔
      thread ∈ threads store ∧ ScanLists platform options store readdir thread := by
  have same := passed_perm synced perm options
  unfold scanned ScanLists
  rw [mem_takeUpTo_iff (passed_ordered synced perm options) (scanBefore_oneWay platform readdir _),
    same.mem_iff, same.countP_eq, same.length_eq, List.mem_filter]
  simp [and_assoc]

end

/-- Lists of stored records are read off the ids. -/
theorem lookup_ids (synced : Synced platform store) (stored : records ⊆ threads store) :
    (records.map ThreadRecord.id).filterMap (fun id => find ThreadRecord.id id (threads store)) =
      records := by
  have found : ∀ thread ∈ records,
      find ThreadRecord.id thread.id (threads store) = some thread := fun thread held =>
    find_keyed (fun _ heldLeft _ heldRight same =>
      List.inj_on_of_nodup_map (nodup_ids synced) heldLeft heldRight same) (stored held)
  rw [List.filterMap_map]
  exact (List.filterMap_congr found).trans List.filterMap_some

private theorem summaries_eq_iff (synced : Synced platform store)
    (storedLeft : left ⊆ threads store) (storedRight : right ⊆ threads store) :
    (left.map fun thread => summaryFromRow (rowFromIndexRecord platform thread)) = right.map toThreadSummary ↔
      left = right ∧ ∀ thread ∈ right, RowKeeps thread := by
  constructor
  · intro same
    have ids : left.map ThreadRecord.id = right.map ThreadRecord.id := by
      have shown := congrArg (List.map ThreadSummary.id) same
      rw [List.map_map, List.map_map] at shown
      exact shown
    have equal : left = right := by
      rw [← lookup_ids synced storedLeft, ids, lookup_ids synced storedRight]
    refine ⟨equal, fun thread held => ?_⟩
    rw [equal] at same
    exact summaryFromRow_eq_iff.mp (List.map_inj_left.mp same thread held)
  · rintro ⟨rfl, kept⟩
    exact List.map_inj_left.mpr fun thread held => summaryFromRow_eq_iff.mpr (kept thread held)

private def epochThread (owner : Option String) : ThreadRecord :=
  { id := "thr_1", ownerUserId := owner, title := "New chat", workspace := "/work", model := "m"
    createdAt := "1970-01-01T00:00:00.000Z", updatedAt := "1970-01-01T00:00:00.000Z" }

private def storeOf (owner : Option String) : HybridStore :=
  [StoreCall.upsert (epochThread owner)].foldl (storeCall epochPlatform) {}

end QiongQi.ListingAgreement
