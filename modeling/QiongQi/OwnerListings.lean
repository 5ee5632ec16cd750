import QiongQi.ListingAgreement

/-! `ThreadService.list` for one owner, over the two listings of `HybridThreadStore`: the
store cuts its listing off at the limit, and the service filters by the owner afterwards. -/
namespace QiongQi.OwnerListings
open Machines RankedLists ThreadRecords ThreadStores ThreadListings ListingAgreement

variable {platform : Platform} {store : HybridStore}

def matchesThreadSearch (platform : Platform) (thread : ThreadSummary) (query : String) : Bool :=
  ([thread.id, thread.title, thread.workspace, thread.model, modeText thread.mode] ++
    thread.forkedFromTitle.toList ++ thread.forkedFromThreadId.toList).any fun value =>
      query.toList <:+: (platform.toLowerCase value).toList

/-- `ThreadService.list`, with what the store has listed. -/
def list (platform : Platform) (threads : List ThreadSummary) (ownerUserId : Option String)
    (options : ThreadListOptions) : List ThreadSummary :=
  let owned := threads.filter fun thread =>
    (truthy ownerUserId).all fun owner => thread.ownerUserId = some owner
  let shown := owned.filter fun thread => passesFlags options thread.status thread.relation
  let found := shown.filter fun thread =>
    (searchQuery platform options).all (matchesThreadSearch platform thread)
  takeUpTo (options.limit.map fun limit => sliceCount limit found.length) found

/-- Where the store lists from: the SQLite index, or the directories in the order in which
`readdir` has them. -/
inductive Backend
  | index
  | scan (readdir : List String)

namespace Backend

/-- `HybridThreadStore.list` -/
def list (platform : Platform) (store : HybridStore) (options : ThreadListOptions) :
    Backend → List ThreadSummary
  | .index => listFromIndex platform store options
  | .scan readdir => listFromScan platform store readdir options

/-- Whatever it does with them, `readdir` has the directories of the store. -/
def Lists (store : HybridStore) : Backend → Prop
  | .index => True
  | .scan readdir => readdir.Perm (store.dirs.map Prod.fst)

/-- The stored threads in the store's order. -/
def threads (platform : Platform) (store : HybridStore) : Backend → List ThreadRecord
  | .index => (ListingAgreement.threads store).mergeSort fun left right =>
      orderBy (rowFromIndexRecord platform left) (rowFromIndexRecord platform right)
  | .scan readdir => (inDirectory store readdir).mergeSort fun left right =>
      newestFirst platform left.updatedAt right.updatedAt

def Before (platform : Platform) : Backend → ThreadRecord → ThreadRecord → Prop
  | .index => IndexBefore platform
  | .scan readdir => ScanBefore platform readdir

instance (platform : Platform) : ∀ backend : Backend, DecidableRel (backend.Before platform)
  | .index => inferInstanceAs (DecidableRel (IndexBefore platform))
  | .scan readdir => inferInstanceAs (DecidableRel (ScanBefore platform readdir))

def selects (platform : Platform) (options : ThreadListOptions) : Backend → ThreadRecord → Bool
  | .index => indexSelected platform options
  | .scan _ => scanSelected platform options

def summary (platform : Platform) : Backend → ThreadRecord → ThreadSummary
  | .index, thread => summaryFromRow (rowFromIndexRecord platform thread)
  | .scan _, thread => toThreadSummary thread

end Backend

/-- The texts of a thread that a search looks at: those of the service, the todos that the
store's search text has as well, and the preview that it is given. -/
def searched (preview : ThreadRecord → String) (thread : ThreadRecord) : List String :=
  [thread.id, thread.title, thread.workspace, thread.model, modeText thread.mode] ++
    thread.forkedFromTitle.toList ++ thread.forkedFromThreadId.toList ++ [preview thread] ++
    ((thread.todos.map (·.items)).getD []).map (·.content)

/-- The thread belongs to the owner, has a status and a relation that the options let through,
and matches the search. -/
def wanted (platform : Platform) (preview : ThreadRecord → String) (owner : String)
    (options : ThreadListOptions) (thread : ThreadRecord) : Bool :=
  thread.ownerUserId = some owner && passesFlags options thread.status thread.relation &&
    (searchQuery platform options).all fun query => (searched preview thread).any fun value =>
      query.toList <:+: (platform.toLowerCase value).toList

/-- What is listed is the first `limit` threads that are wanted, in the store's order. -/
def Complete (platform : Platform) (preview : ThreadRecord → String) (store : HybridStore)
    (backend : Backend) (owner : String) (options : ThreadListOptions) (limit : Nat) : Prop :=
  list platform (backend.list platform store { options with limit := some limit }) (some owner)
      { options with limit := some limit } =
    (((backend.threads platform store).filter (wanted platform preview owner options)).take
      limit).map (backend.summary platform)

/-- The service can tell from its summary that the thread is wanted. -/
def Recognized (platform : Platform) (backend : Backend) (owner : String)
    (options : ThreadListOptions) (thread : ThreadRecord) : Prop :=
  (backend.summary platform thread).ownerUserId = some owner ∧ ∀ query ∈ searchQuery platform options,
      matchesThreadSearch platform (backend.summary platform thread) query = true

instance (platform : Platform) (backend : Backend) (owner : String) (options : ThreadListOptions) :
    DecidablePred (Recognized platform backend owner options) :=
  fun _ => inferInstanceAs (Decidable (_ ∧ ∀ query ∈ searchQuery platform options, _))

/-- The store lists the thread: it selects it, whoever owns it, and fewer than `limit` threads
that it selects come before it. -/
def StoreLists (platform : Platform) (store : HybridStore) (backend : Backend)
    (options : ThreadListOptions) (limit : Nat) (thread : ThreadRecord) : Prop :=
  Within (backend.Before platform) (backend.threads platform store)
    (backend.selects platform options) limit thread

instance (platform : Platform) (store : HybridStore) (backend : Backend)
    (options : ThreadListOptions) (limit : Nat) :
    DecidablePred (StoreLists platform store backend options limit) :=
  fun _ => inferInstanceAs (Decidable (Within _ _ _ _ _))

/-- Nothing wanted is lost: the service recognizes what the store lists of it, and what the store
does not list of it comes after as many wanted threads as are asked for. -/
structure Unlost (platform : Platform) (preview : ThreadRecord → String) (store : HybridStore)
    (backend : Backend) (owner : String) (options : ThreadListOptions) (limit : Nat) : Prop where
  recognized : ∀ thread ∈ backend.threads platform store,
    StoreLists platform store backend options limit thread →
      wanted platform preview owner options thread = true → Recognized platform backend owner options thread
  behind : ∀ thread ∈ backend.threads platform store, wanted platform preview owner options thread = true →
      ¬ StoreLists platform store backend options limit thread →
        limit ≤ (backend.threads platform store).countP fun other =>
          wanted platform preview owner options other &&
            StoreLists platform store backend options limit other &&
              backend.Before platform other thread

variable {backend : Backend} {options : ThreadListOptions} {thread : ThreadRecord}

theorem threads_ordered (synced : Synced platform store) (lists : backend.Lists store) :
    (backend.threads platform store).Pairwise (backend.Before platform) := by
  cases backend with
  | index =>
    have sorted := indexed_ordered synced { includeArchived := true, includeSide := true }
    have all : (ListingAgreement.threads store).filter
        (indexSelected platform { includeArchived := true, includeSide := true }) =
          ListingAgreement.threads store := by
      apply List.filter_eq_self.mpr
      intro thread _
      rfl
    rw [all] at sorted
    exact sorted
  | scan readdir => exact scan_ordered synced lists

theorem before_oneWay (backend : Backend) : OneWay (backend.Before platform) records := by
  cases backend with
  | index => exact indexBefore_oneWay platform records
  | scan readdir => exact scanBefore_oneWay platform readdir records

theorem before_trans (first second third : ThreadRecord)
    (before : backend.Before platform first second) (after : backend.Before platform second third) :
    backend.Before platform first third := by
  cases backend with
  | index =>
    rcases before with later | ⟨same, greater⟩
    · rcases after with laterToo | ⟨sameToo, -⟩
      all_goals exact .inl (by omega)
    · rcases after with laterToo | ⟨sameToo, greaterToo⟩
      · exact .inl (by omega)
      · exact .inr ⟨by omega, String.lt_trans greaterToo greater⟩
  | scan readdir =>
    refine ⟨newestFirst_trans _ _ _ before.1 after.1, fun back => ?_⟩
    have one := before.2 (newestFirst_trans _ _ _ after.1 back)
    have other := after.2 (newestFirst_trans _ _ _ back before.1)
    omega

theorem floor_natCast (limit : Nat) : (limit : ℚ).floor = limit := Rat.floor_intCast limit

theorem sliceCount_natCast (limit length : Nat) : sliceCount (limit : ℚ) length = limit := by
  simp [sliceCount, floor_natCast]

/-- The service keeps the summary of the thread. -/
def keeps (platform : Platform) (backend : Backend) (owner : String) (options : ThreadListOptions)
    (thread : ThreadRecord) : Bool :=
  (backend.summary platform thread).ownerUserId = some owner &&
    passesFlags options (backend.summary platform thread).status
      (backend.summary platform thread).relation &&
    (searchQuery platform options).all
      (matchesThreadSearch platform (backend.summary platform thread))

theorem list_summaries (records : List ThreadRecord) (named : owner ≠ "") (limit : Nat) :
    list platform (records.map (backend.summary platform)) (some owner)
        { options with limit := some limit } =
      ((records.filter (keeps platform backend owner options)).take limit).map
        (backend.summary platform) := by
  have owned : truthy (some owner) = some owner := by simp [truthy, Option.filter, named]
  unfold list
  simp only [owned, Option.all_some, List.filter_filter, List.filter_map, Option.map_some,
    takeUpTo, sliceCount_natCast, List.map_take]
  congr 2
  apply List.filter_congr
  intro thread _
  simp only [keeps, Function.comp_apply]
  rw [Bool.and_comm, Bool.and_assoc, Bool.and_left_comm, ← Bool.and_assoc]
  rfl

/-- The index sorts after it has selected. -/
theorem indexed_eq (synced : Synced platform store) :
    indexed platform { options with limit := some limit } store =
      ((Backend.index.threads platform store).filter
        (Backend.index.selects platform options)).take (rowLimit limit) := by
  have lists : Backend.index.Lists store := trivial
  have sorted := indexed_ordered synced options
  have also := (threads_ordered synced lists).sublist
    (List.filter_sublist (p := Backend.index.selects platform options))
  unfold indexed
  simp only [Option.map_some, takeUpTo]
  congr 1
  apply (eq_iff_same_order sorted also (before_oneWay .index) (before_oneWay .index)).mpr
  refine ⟨fun thread => ?_, fun _ _ _ _ => Iff.rfl⟩
  simp only [Backend.threads, List.mem_mergeSort, List.mem_filter]
  rfl

theorem store_list (synced : Synced platform store) (limit : Nat) : ∃ count, (count = limit ∨ limit = 0) ∧
        backend.list platform store { options with limit := some limit } =
          (((backend.threads platform store).filter (backend.selects platform options)).take
            count).map (backend.summary platform) := by
  cases backend with
  | index =>
    refine ⟨rowLimit limit, ?_, ?_⟩
    · rw [rowLimit, floor_natCast]
      omega
    · simp only [Backend.list, listFromIndex_eq synced, indexed_eq synced]
      rfl
  | scan readdir =>
    refine ⟨limit, .inl rfl, ?_⟩
    simp only [Backend.list, listFromScan_eq, scanned, Option.map_some, sliceCount_natCast, takeUpTo]
    rfl

theorem take_filter_take (items : List α) (same : count = limit ∨ limit = 0) :
    ((items.take count).filter chosen).take limit = (items.take limit).filter chosen := by
  rcases same with rfl | rfl
  · apply List.take_of_length_le
    exact Nat.le_trans (List.length_filter_le _ _) (List.length_take_le _ _)
  · simp

theorem selects_flags (selected : backend.selects platform options thread = true) :
    passesFlags options thread.status thread.relation = true := by
  cases backend with
  | index | scan readdir => exact (Bool.and_eq_true_iff.mp selected).1

theorem mem_truthy (held : value ∈ (truthy text).toList) : value ∈ text.toList := by
  rw [Option.mem_toList] at held ⊢
  exact (Option.filter_eq_some_iff.mp held).1

/-- The service looks at fewer texts than a search is about. -/
theorem found_searched
    (found : matchesThreadSearch platform (toThreadSummary thread) query = true) :
    ((searched preview thread).any fun value =>
      query.toList <:+: (platform.toLowerCase value).toList) = true := by
  simp only [matchesThreadSearch, List.any_eq_true, toThreadSummary] at found
  obtain ⟨value, held, inside⟩ := found
  apply List.any_eq_true.mpr
  refine ⟨value, ?_, inside⟩
  simp only [searched, List.mem_append] at held ⊢
  rcases held with (plain | title) | forked
  · exact .inl (.inl (.inl (.inl plain)))
  · exact .inl (.inl (.inl (.inr (mem_truthy title))))
  · exact .inl (.inl (.inr (mem_truthy forked)))

theorem keeps_wanted (selected : backend.selects platform options thread = true)
    (kept : keeps platform backend owner options thread = true) :
    wanted platform preview owner options thread = true := by
  simp only [keeps, Bool.and_eq_true, decide_eq_true_eq] at kept
  obtain ⟨⟨owned, -⟩, found⟩ := kept
  cases backend with
  | index => cases owned
  | scan readdir =>
    simp only [wanted, Bool.and_eq_true, decide_eq_true_eq]
    refine ⟨⟨?_, selects_flags selected⟩, ?_⟩
    · exact (Option.filter_eq_some_iff.mp owned).1
    · rw [Option.all_eq_true] at found ⊢
      intro query asked
      exact found_searched (found query asked)

theorem keeps_iff (selected : backend.selects platform options thread = true) :
    keeps platform backend owner options thread = true ↔
      Recognized platform backend owner options thread := by
  have flags := selects_flags selected
  have status : (backend.summary platform thread).status = thread.status := by
    cases backend <;> rfl
  have relation : (backend.summary platform thread).relation = thread.relation := by
    cases backend <;> rfl
  simp only [keeps, status, relation, flags, Bool.and_true, Bool.and_eq_true, decide_eq_true_eq,
    Option.all_eq_true]
  rfl

theorem summaries_inj (synced : Synced platform store) (storedLeft : left ⊆ threads store)
    (storedRight : right ⊆ threads store) :
    left.map (backend.summary platform) = right.map (backend.summary platform) ↔ left = right := by
  constructor
  · intro same
    have ids := congrArg (List.map ThreadSummary.id) same
    have read : (ThreadSummary.id ∘ backend.summary platform) = ThreadRecord.id := by
      funext thread
      cases backend <;> rfl
    rw [List.map_map, List.map_map, read] at ids
    rw [← lookup_ids synced storedLeft, ids, lookup_ids synced storedRight]
  · rintro rfl
    rfl

/-- After any calls, and whichever way the store lists, the service lists an owner's threads
completely exactly when the store's cut and the owner's filter lose nothing. -/
theorem owner_listing_iff (platform : Platform) (preview : ThreadRecord → String)
    (calls : List StoreCall) (backend : Backend)
    (lists : backend.Lists (calls.foldl (storeCall platform) {})) (owner : String)
    (named : owner ≠ "") (options : ThreadListOptions) (limit : Nat) :
    Complete platform preview (calls.foldl (storeCall platform) {}) backend owner options limit ↔
      Unlost platform preview (calls.foldl (storeCall platform) {}) backend owner options
        limit := by
  have synced := synced_calls platform calls
  revert lists synced
  generalize calls.foldl (storeCall platform) {} = store
  intro lists synced
  obtain ⟨count, same, listed⟩ := store_list synced limit
  have ordered := threads_ordered synced lists
  have within : backend.threads platform store ⊆ threads store := by
    intro thread held
    cases backend with
    | index => exact List.mem_mergeSort.mp held
    | scan readdir => exact (inDirectory_perm synced lists).mem_iff.mp (List.mem_mergeSort.mp held)
  have sound : ∀ thread ∈ backend.threads platform store,
      StoreLists platform store backend options limit thread →
        keeps platform backend owner options thread = true →
          wanted platform preview owner options thread = true :=
    fun thread _ selected kept => keeps_wanted selected.1 kept
  have cut := filter_take_eq_iff ordered (before_oneWay backend) before_trans sound
  rw [Complete, listed, list_summaries _ named, take_filter_take _ same, summaries_inj synced, cut]
  · constructor
    · rintro ⟨recognized, behind⟩
      refine ⟨fun thread held listed asked => ?_, behind⟩
      exact (keeps_iff listed.1).mp (recognized thread held listed asked)
    · rintro ⟨recognized, behind⟩
      refine ⟨fun thread held listed asked => ?_, behind⟩
      exact (keeps_iff listed.1).mpr (recognized thread held listed asked)
  · exact fun thread held => within (List.mem_of_mem_filter (List.mem_of_mem_take
      (List.mem_of_mem_filter held)))
  · exact fun thread held => within (List.mem_of_mem_filter (List.mem_of_mem_take held))

private def ownedThread (id owner : String) : ThreadRecord :=
  { id := id, ownerUserId := some owner, title := "New chat", workspace := "/work", model := "m"
    createdAt := "1970-01-01T00:00:00.000Z", updatedAt := "1970-01-01T00:00:00.000Z" }

private def single : HybridStore :=
  [StoreCall.upsert (ownedThread "thr_1" "user_1")].foldl (storeCall epochPlatform) {}

private def shared : HybridStore :=
  [StoreCall.upsert (ownedThread "thr_1" "user_1"),
    StoreCall.upsert (ownedThread "thr_2" "user_2")].foldl (storeCall epochPlatform) {}

theorem owner_listing_iff_single : (Backend.scan ["thr_1"]).Lists single ∧ "user_1" ≠ "" ∧
      Complete epochPlatform (fun _ => "") single (.scan ["thr_1"]) "user_1" {} 1 := by
  have perm : (Backend.scan ["thr_1"]).Lists single := List.Perm.refl ["thr_1"]
  refine ⟨perm, by decide, ?_⟩
  exact (owner_listing_iff epochPlatform (fun _ => "") [.upsert (ownedThread "thr_1" "user_1")]
    (.scan ["thr_1"]) perm "user_1" (by decide) {} 1).mpr ⟨by decide +kernel, by decide +kernel⟩

theorem mergeSort_pair (sorted : le first second = true) :
    [first, second].mergeSort le = [first, second] := by
  apply List.mergeSort_of_pairwise
  simp [sorted]

private theorem shared_threads :
    (inDirectory shared ["thr_2", "thr_1"]).mergeSort (fun left right =>
        newestFirst epochPlatform left.updatedAt right.updatedAt) =
      [ownedThread "thr_2" "user_2", ownedThread "thr_1" "user_1"] := by
  have read : inDirectory shared ["thr_2", "thr_1"] =
      [ownedThread "thr_2" "user_2", ownedThread "thr_1" "user_1"] := by decide
  rw [read]
  apply mergeSort_pair
  decide

/-- The index lists no owner's threads, and a scan for one thread finds that of another owner. -/
theorem owner_cut_off : ¬ Complete epochPlatform (fun _ => "") single .index "user_1" {} 1 ∧
      (Backend.scan ["thr_2", "thr_1"]).Lists shared ∧
        ¬ Complete epochPlatform (fun _ => "") shared (.scan ["thr_2", "thr_1"]) "user_1" {} 1 := by
  refine ⟨?_, List.Perm.refl _, ?_⟩
  · unfold Complete
    decide +kernel
  · simp only [Complete, Backend.list, Backend.threads, listFromScan, listFromFilesystem_eq, shared_threads]
    decide

end QiongQi.OwnerListings
