import QiongQi.ListingAgreement
import QiongQi.UsageCarryovers

/-! The usage of threads over restarts of the process. A new process takes up the totals of the
threads that its store lists, and the listing of the hybrid store leaves out archived threads. -/
namespace QiongQi.UsageRestarts
open Machines ThreadRecords ThreadListings ListingAgreement UsageProjections RunningTotals
open UsageRecords UsageCarryovers

inductive StorageBackend where
  | file | hybrid
  deriving DecidableEq

/-- The query of the index, the scan in its place, or the threads of `index.json`; the last two
with the order in which they read the threads. -/
inductive Listing where
  | index
  | scan (readdir : List String)
  | file (order : List String)

/-- The backend lists so, and reads each thread of the store once. -/
def Listing.Fits (backend : StorageBackend) (store : HybridStore) : Listing → Prop
  | .index => backend = .hybrid
  | .scan readdir => backend = .hybrid ∧ readdir.Perm (store.dirs.map Prod.fst)
  | .file order => backend = .file ∧ order.Perm (store.dirs.map Prod.fst)

instance (backend : StorageBackend) (store : HybridStore) :
    ∀ listing : Listing, Decidable (listing.Fits backend store)
  | .index => inferInstanceAs (Decidable (_ = _))
  | .scan _ => inferInstanceAs (Decidable (_ ∧ _))
  | .file _ => inferInstanceAs (Decidable (_ ∧ _))

section
variable (platform : Platform)

/-- `threadStore.list()`. `FileThreadStore` lists every thread, whatever it is asked for. -/
def listThreads (store : HybridStore) : Listing → List ThreadSummary
  | .index => listFromIndex platform store {}
  | .scan readdir => listFromScan platform store readdir {}
  | .file order => listFromFilesystem platform store order

/-- `threadService.list({ ownerUserId })`. -/
def listOwned (store : HybridStore) (listing : Listing) (ownerUserId : Option String) :
    List ThreadSummary :=
  let listed := listThreads platform store listing
  let owned :=
    match truthy ownerUserId with
    | some owner => listed.filter fun thread : ThreadSummary => thread.ownerUserId = some owner
    | none => listed
  owned.filter fun thread => passesFlags {} thread.status thread.relation

/-- `threadService.get`. -/
def getThread (store : HybridStore) (threadId : String) : Listing → Option ThreadRecord
  | .file _ => (store.files threadId).bind fun files => files.metadata.getLast?
  | _ => (store.files threadId).bind (ThreadStores.get platform.localeCompare)

end

/-- The stores, the counter of the process, and what has been recorded for threads ever. -/
structure Runtime where
  store : HybridStore := {}
  events : List RuntimeEvent := []
  counter : UsageCounter := {}
  recorded : List (String × UsageSnapshot) := []

section
variable (platform : Platform)

def usageThread (store : HybridStore) (listing : Listing) (summary : ThreadSummary) : UsageThread :=
  match getThread platform store summary.id listing with
  | some thread => ⟨thread.id, thread.model, thread.updatedAt, thread.turns⟩
  | none => ⟨summary.id, summary.model, summary.updatedAt, []⟩

def summaryRecords (runtime : Runtime) (listing : Listing) (nowIso : String)
    (summary : ThreadSummary) : List ThreadUsageRecord :=
  let thread := usageThread platform runtime.store listing summary
  threadRecords thread (loadEventsSince runtime.events thread.id 0)
    (runtime.counter.forThread thread.id) nowIso

/-- `usageRecords` of a runtime without a ledger. -/
def usageRecords (runtime : Runtime) (listing : Listing) (ownerUserId : Option String)
    (nowIso : String) : List ThreadUsageRecord :=
  (listOwned platform runtime.store listing ownerUserId).flatMap
    (summaryRecords platform runtime listing nowIso)

/-- The counter of a new process. -/
def seedUsageCarryover (events : List RuntimeEvent) (threadSummaries : List ThreadSummary) :
    UsageCounter :=
  (threadSummaries.map (·.id)).foldl (seedThread events) {}

/-- A write of a thread covers its creation and every change of its status or relation. -/
inductive RuntimeAction where
  | upsert (thread : ThreadRecord)
  | usage (threadId turnId model : String) (usage : UsageSnapshot) (timestamp : String)
      (skipped : Nat) (large : Option String)
  | savings (threadId turnId model : String) (savings : TokenEconomySavings) (timestamp : String)
      (skipped : Nat) (large : Option String)
  | other (threadId kind timestamp : String) (skipped : Nat)
  | restart (listing : Listing)

variable (compaction : SessionLogs.UsageEventCompaction) (backend : StorageBackend)

def step (runtime : Runtime) : RuntimeAction → Option Runtime
  | .upsert thread =>
    some { runtime with store := storeCall platform runtime.store (.upsert thread) }
  | .usage threadId turnId model usage timestamp skipped large =>
    let (total, counter) := runtime.counter.record threadId usage
    some { runtime with
      counter
      events := appendUsage compaction runtime.events threadId turnId model timestamp skipped total
        large
      recorded := runtime.recorded ++ [(threadId, usage)] }
  | .savings threadId turnId model savings timestamp skipped large =>
    let (total, counter) := recordTokenEconomySavings runtime.counter threadId savings
    some { runtime with
      counter
      events := appendUsage compaction runtime.events threadId turnId model timestamp skipped total
        large }
  | .other threadId kind timestamp skipped =>
    some { runtime with
      events := recordEvent runtime.events threadId timestamp skipped (.other kind) }
  | .restart listing =>
    if listing.Fits backend runtime.store then
      some { runtime with
        counter := seedUsageCarryover runtime.events (listThreads platform runtime.store listing) }
    else none

end

section

/-- The listing has a stored thread: any in the file backend, else one that is neither archived
nor deleted and no side thread. -/
def Listing.has (listing : Listing) (thread : ThreadRecord) : Bool :=
  match listing with
  | .file _ => true
  | _ => passesFlags {} thread.status thread.relation

theorem searchQuery_none : searchQuery platform {} = none := rfl

theorem listThreads_ids (synced : Synced platform store) (fits : listing.Fits backend store) :
    ((listThreads platform store listing).map ThreadSummary.id).Perm
      (((threads store).filter listing.has).map ThreadRecord.id) := by
  cases listing with
  | index =>
    have selected : (threads store).filter (indexSelected platform {}) =
        (threads store).filter Listing.index.has := by
      refine List.filter_congr fun thread _ => ?_
      simp [indexSelected, matchesQuery, searchQuery_none, Listing.has, rowFromIndexRecord]
    rw [listThreads, listFromIndex_eq synced, List.map_map, ← selected]
    exact (List.mergeSort_perm _ _).map ThreadRecord.id
  | scan readdir =>
    have selected : (threads store).filter (scanSelected platform {}) =
        (threads store).filter (Listing.scan readdir).has := by
      refine List.filter_congr fun thread _ => ?_
      simp [scanSelected, matchesScan, searchQuery_none, Listing.has, toThreadSummary]
    rw [listThreads, listFromScan_eq, List.map_map, ← selected]
    exact (passed_perm synced fits.2 {}).map ThreadRecord.id
  | file order =>
    have all : (threads store).filter (Listing.file order).has = threads store :=
      List.filter_eq_self.mpr fun _ _ => rfl
    rw [listThreads, listFromFilesystem_eq, List.map_map, all]
    exact ((List.mergeSort_perm _ _).trans (inDirectory_perm synced fits.2)).map ThreadRecord.id

theorem listOwned_sublist : (listOwned platform store listing ownerUserId).Sublist
      (listThreads platform store listing) := by
  unfold listOwned
  refine List.filter_sublist.trans ?_
  split
  · exact List.filter_sublist
  · exact List.Sublist.refl _

theorem listOwned_nodup (synced : Synced platform store) (fits : listing.Fits backend store) :
    ((listOwned platform store listing ownerUserId).map ThreadSummary.id).Nodup := by
  have once : ((listThreads platform store listing).map ThreadSummary.id).Nodup :=
    (listThreads_ids synced fits).nodup_iff.mpr
      ((nodup_ids synced).sublist (List.filter_sublist.map _))
  exact once.sublist (listOwned_sublist.map _)

theorem getThread_id (synced : Synced platform store)
    (found : getThread platform store threadId listing = some thread) : thread.id = threadId := by
  have recorded : ∀ {files : ThreadStores.ThreadFiles} {last : ThreadRecord},
      store.files threadId = some files → files.metadata.getLast? = some last → last.id = threadId := by
    intro files last held final
    obtain ⟨dir, stored, rfl⟩ := Option.map_eq_some_iff.mp held
    obtain ⟨listed, named⟩ := find_mem stored
    obtain ⟨own, same, id⟩ := synced.named dir listed
    rw [lastRecord, final] at same
    cases same
    exact id.trans named
  have hydrated : ∀ {files : ThreadStores.ThreadFiles}, store.files threadId = some files →
      ThreadStores.get platform.localeCompare files = some thread → thread.id = threadId := by
    intro files held made
    obtain ⟨_, read, rfl⟩ := Option.map_eq_some_iff.mp made
    obtain ⟨last, final, rfl⟩ := Option.map_eq_some_iff.mp read
    have same := @summary_of_hydrated platform files.metadata last
      (ItemLogs.loadHybridItems files.messages)
    exact (congrArg ThreadSummary.id same).trans (recorded held final)
  cases listing with
  | index | scan _ =>
    obtain ⟨files, held, made⟩ := Option.bind_eq_some_iff.mp found
    exact hydrated held made
  | file _ =>
    obtain ⟨files, held, made⟩ := Option.bind_eq_some_iff.mp found
    exact recorded held made

theorem usageThread_id (synced : Synced platform store) (summary : ThreadSummary) :
    (usageThread platform store listing summary).id = summary.id := by
  unfold usageThread
  split
  · next found => exact getThread_id synced found
  · rfl

end

/-- What was made of one item, among what was made of items with different names. -/
theorem filter_flatMap [DecidableEq κ] (key : α → κ) (name : β → κ) (make : α → List β)
    {items : List α} (named : ∀ other made, made ∈ make other → name made = key other)
    (once : (items.map key).Nodup) (held : item ∈ items) :
    (items.flatMap make).filter (fun made => name made = key item) = make item := by
  have all : ∀ other, key other = key item →
      (make other).filter (fun made => name made = key item) = make other := fun other same =>
    List.filter_eq_self.mpr fun made made_in => by simpa using (named other made made_in).trans same
  have nothing : ∀ other, key other ≠ key item →
      (make other).filter (fun made => name made = key item) = [] := fun other apart =>
    List.filter_eq_nil_iff.mpr fun made made_in => by simpa [named other made made_in] using apart
  rw [List.filter_flatMap]
  induction items with
  | nil => cases held
  | cons first rest ih =>
    obtain ⟨fresh, others⟩ := List.nodup_cons.mp once
    rw [List.flatMap_cons]
    rcases List.mem_cons.mp held with rfl | later
    · have apart : ∀ other ∈ rest, key other ≠ key item := fun other listed same =>
        fresh (same ▸ List.mem_map_of_mem listed)
      rw [all item rfl, List.flatMap_eq_nil_iff.mpr fun other listed =>
        nothing other (apart other listed), List.append_nil]
    · have apart : key first ≠ key item := fun same => fresh (same ▸ List.mem_map_of_mem later)
      rw [nothing first apart, List.nil_append, ih others later]

section
variable {platform : Platform} {backend : StorageBackend}

/-- The tokens that have been recorded for the thread ever. -/
def recordedTokens (kind : TokenCounter) (threadId : String)
    (recorded : List (String × UsageSnapshot)) : Nat :=
  ((recorded.filter (·.1 = threadId)).map fun entry => tokens kind entry.2).sum

theorem recordedTokens_concat (threadId id : String) (recorded : List (String × UsageSnapshot))
    (usage : UsageSnapshot) :
    recordedTokens kind threadId (recorded ++ [(id, usage)]) =
      recordedTokens kind threadId recorded + if id = threadId then tokens kind usage else 0 := by
  by_cases same : id = threadId <;> simp [recordedTokens, same]

/-- The counter of the process has all that was recorded for the thread, and so has the log. -/
structure Carried (platform : Platform) (threadId : String) (runtime : Runtime) : Prop where
  synced : Synced platform runtime.store
  logged : Logged threadId runtime.events (runtime.counter.forThread threadId)
  live : ∀ kind, tokens kind (runtime.counter.forThread threadId) =
    recordedTokens kind threadId runtime.recorded

def tokenCounters : List TokenCounter := [.prompt, .completion, .cached, .cacheHit, .cacheMiss]

theorem mem_tokenCounters : kind ∈ tokenCounters := by
  cases kind <;> decide

/-- A process starts with a listing that has the thread, unless no tokens were recorded for it. -/
def carries (threadId : String) (runtime : Runtime) : RuntimeAction → Bool
  | .restart listing =>
    (threads runtime.store).any (fun thread => thread.id = threadId && listing.has thread) ||
      tokenCounters.all fun kind => recordedTokens kind threadId runtime.recorded = 0
  | _ => true

variable {threadId : String} {runtime : Runtime} {listing : Listing}

theorem carries_restart : carries threadId runtime (.restart listing) = true ↔
      threadId ∈ ((threads runtime.store).filter listing.has).map ThreadRecord.id ∨
        ∀ kind, recordedTokens kind threadId runtime.recorded = 0 := by
  simp only [carries, Bool.or_eq_true, List.any_eq_true, Bool.and_eq_true, decide_eq_true_eq,
    List.all_eq_true, List.mem_map, List.mem_filter]
  refine or_congr ⟨?_, ?_⟩
    ⟨fun spent kind => spent kind mem_tokenCounters, fun spent kind _ => spent kind⟩
  · rintro ⟨thread, held, same, listed⟩
    exact ⟨thread, ⟨held, listed⟩, same⟩
  · rintro ⟨thread, ⟨held, listed⟩, same⟩
    exact ⟨thread, held, same, listed⟩

/-- A new process counts what was recorded for the thread just if the start carries it. -/
theorem carried_restart (carried : Carried platform threadId runtime)
    (fits : listing.Fits backend runtime.store) :
    carries threadId runtime (.restart listing) = true ↔ Carried platform threadId
        { runtime with counter :=
            seedUsageCarryover runtime.events (listThreads platform runtime.store listing) } := by
  obtain ⟨synced, logged, live⟩ := carried
  let ids := (listThreads platform runtime.store listing).map (·.id)
  have listed : threadId ∈ ids ↔
      threadId ∈ ((threads runtime.store).filter listing.has).map ThreadRecord.id :=
    (listThreads_ids synced fits).mem_iff
  have seeded : ∀ kind, tokens kind ((seedUsageCarryover runtime.events
      (listThreads platform runtime.store listing)).forThread threadId) =
        if threadId ∈ ids then recordedTokens kind threadId runtime.recorded else 0 := by
    intro kind
    have all := forThread_seeded logged.ascending kind ids {}
    have fresh : ({} : UsageCounter).forThread threadId = emptyUsageSnapshot := rfl
    rw [fresh, tokens_empty, logged.last, live] at all
    refine all.trans ?_
    by_cases found : threadId ∈ ids
    · by_cases used : recordedUsages (logOf runtime.events threadId) = []
      · have last := logged.last kind
        rw [totalsOf, used] at last
        have spent : recordedTokens kind threadId runtime.recorded = 0 :=
          (live kind).symm.trans last.symm
        simp [spent]
      · simp [found, used]
    · simp [found]
  rw [carries_restart, ← listed]
  constructor
  · intro start
    have same : ∀ kind, tokens kind ((seedUsageCarryover runtime.events
        (listThreads platform runtime.store listing)).forThread threadId) =
          recordedTokens kind threadId runtime.recorded := by
      intro kind
      rw [seeded]
      rcases start with found | spent
      · rw [if_pos found]
      · rw [spent kind, ite_self]
    exact ⟨synced, ⟨logged.ascending, logged.rising, fun kind =>
      (logged.last kind).trans ((live kind).trans (same kind).symm)⟩, same⟩
  · intro carried
    by_cases found : threadId ∈ ids
    · exact .inl found
    · refine .inr fun kind => ?_
      have counted := carried.live kind
      rw [seeded, if_neg found] at counted
      exact counted.symm

/-- One step keeps the usage of the thread just if it carries it. -/
theorem carried_step (action : RuntimeAction) (carried : Carried platform threadId runtime)
    (stepped : step platform compaction backend runtime action = some next) :
    carries threadId runtime action = true ↔ Carried platform threadId next := by
  obtain ⟨synced, logged, live⟩ := carried
  cases action with
  | upsert thread =>
    cases stepped
    exact iff_of_true rfl ⟨synced_call (.upsert thread) synced, logged, live⟩
  | usage id turnId model usage timestamp skipped large =>
    cases stepped
    refine iff_of_true rfl ⟨synced, ?_, fun kind => ?_⟩
    · show Logged threadId _ ((runtime.counter.record id usage).2.forThread threadId)
      rw [forThread_record]
      by_cases same : id = threadId
      · subst same
        rw [if_pos rfl]
        exact logged_usage logged (fun kind => by simp) turnId model timestamp skipped large
      · rw [if_neg same]
        exact logged_same logged (logOf_appendUsage_other compaction _ _ _ _ _ _ _ same)
    · show tokens kind ((runtime.counter.record id usage).2.forThread threadId) = _
      rw [forThread_record, recordedTokens_concat, ← live]
      by_cases same : id = threadId <;> simp [same]
  | savings id turnId model savings timestamp skipped large =>
    cases stepped
    have counted : ∀ kind, tokens kind ((recordTokenEconomySavings runtime.counter id
        savings).2.forThread threadId) = tokens kind (runtime.counter.forThread threadId) := by
      intro kind
      unfold recordTokenEconomySavings
      rw [forThread_set]
      by_cases same : id = threadId
      · subst same
        rw [if_pos rfl]
        exact tokens_saved kind runtime.counter id savings
      · rw [if_neg same]
    refine iff_of_true rfl ⟨synced, ?_, fun kind => (counted kind).trans (live kind)⟩
    by_cases same : id = threadId
    · subst same
      have total : (recordTokenEconomySavings runtime.counter id savings).2.forThread id =
          (recordTokenEconomySavings runtime.counter id savings).1 := by
        unfold recordTokenEconomySavings
        rw [forThread_set, if_pos rfl]
      show Logged id _ ((recordTokenEconomySavings runtime.counter id savings).2.forThread id)
      rw [total]
      exact logged_usage logged (fun kind => Nat.le_of_eq (tokens_saved kind _ id savings).symm)
        turnId model timestamp skipped large
    · have kept := logged_same logged
        (logOf_appendUsage_other compaction runtime.events turnId model timestamp skipped
          (recordTokenEconomySavings runtime.counter id savings).1 large same)
      exact ⟨kept.ascending, kept.rising, fun kind =>
        (kept.last kind).trans (counted kind).symm⟩
  | other id kind timestamp skipped =>
    cases stepped
    exact iff_of_true rfl ⟨synced, logged_other logged id kind timestamp skipped, live⟩
  | restart listing =>
    simp only [step] at stepped
    by_cases fits : listing.Fits backend runtime.store
    · rw [if_pos fits] at stepped
      cases stepped
      exact carried_restart ⟨synced, logged, live⟩ fits
    · rw [if_neg fits] at stepped
      cases stepped

theorem carried_start : Carried platform threadId {} :=
  ⟨synced_calls platform [],
    ⟨by simp [Ascending, logOf], fun _ => List.Pairwise.nil, fun kind => (tokens_empty kind).symm⟩,
    fun kind => tokens_empty kind⟩

/-- The runs in which every start carries the usage of the thread are those in which the counter
and the log have all of it throughout. -/
theorem carried_iff {final : Runtime}
    (ran : runActions (step platform compaction backend) {} actions = some final) :
    Along (step platform compaction backend)
        (fun runtime action => carries threadId runtime action = true) {} actions ↔
      ∀ front back middle, actions = front ++ back →
        runActions (step platform compaction backend) {} front = some middle →
          Carried platform threadId middle :=
  along_iff_reached (fun _ action _ carried stepped => carried_step action carried stepped) actions
    carried_start ran

/-- The records of a listed thread come to what its counter has. -/
theorem sumOf_records (carried : Carried platform threadId runtime)
    (fits : listing.Fits backend runtime.store) {ownerUserId : Option String}
    (listed : threadId ∈ (listOwned platform runtime.store listing ownerUserId).map (·.id)) :
    sumOf kind ((usageRecords platform runtime listing ownerUserId nowIso).filter
        (·.threadId = threadId)) =
      tokens kind (runtime.counter.forThread threadId) := by
  obtain ⟨summary, held, rfl⟩ := List.mem_map.mp listed
  have same : ∀ other, (usageThread platform runtime.store listing other).id = other.id :=
    usageThread_id carried.synced
  have own := filter_flatMap ThreadSummary.id ThreadUsageRecord.threadId
    (summaryRecords platform runtime listing nowIso)
    (fun other record made => (mem_threadRecords made).trans (same other))
    (listOwned_nodup carried.synced fits) held
  rw [usageRecords, own]
  simp only [summaryRecords, same, loadEventsSince_eq carried.logged.ascending]
  exact sumOf_thread kind nowIso (carried.logged.rising kind) (carried.logged.last kind)

/-- Where every start carries the usage of a thread, the records of the thread come to all that was
recorded for it, and so does what the usage service reports. -/
theorem usage_survives_restarts {threadId : String} {actions : List RuntimeAction} {runtime : Runtime}
    (ran : runActions (step platform compaction backend) {} actions = some runtime)
    (carried : Along (step platform compaction backend)
      (fun before action => carries threadId before action = true) {} actions)
    {listing : Listing} (fits : listing.Fits backend runtime.store) (ownerUserId : Option String)
    (nowIso : String)
    (listed : threadId ∈ (listOwned platform runtime.store listing ownerUserId).map (·.id))
    (kind : TokenCounter) :
    sumOf kind ((usageRecords platform runtime listing ownerUserId nowIso).filter
          (·.threadId = threadId)) =
        recordedTokens kind threadId runtime.recorded ∧
      tokens kind (runtime.counter.forThread threadId) = recordedTokens kind threadId runtime.recorded := by
  have whole := (carried_iff ran).mp carried actions [] runtime (List.append_nil _).symm ran
  exact ⟨(sumOf_records whole fits listed).trans (whole.live kind), whole.live kind⟩

end

private def plainCompaction : SessionLogs.UsageEventCompaction where
  dateParse _ := none
  isoDay date := date
  retentionDays := 30

private def written (status : ThreadStatus) : RuntimeAction :=
  .upsert { id := "thr_1", title := "New chat", workspace := "/work", model := "m", status
            createdAt := "1970-01-01T00:00:00.000Z", updatedAt := "1970-01-01T00:00:00.000Z" }

private def response (promptTokens : Nat) : RuntimeAction :=
  .usage "thr_1" "turn_1" "m"
    { promptTokens, completionTokens := 2, totalTokens := promptTokens + 2, turns := 1 }
    "1970-01-01T00:00:00.000Z" 0 none

private def usedRun (status : ThreadStatus) : List RuntimeAction :=
  [written .idle, response 100, written status, .restart .index, written .idle, response 30]

private def plainRun (status : ThreadStatus) : Option Runtime :=
  runActions (step epochPlatform plainCompaction .hybrid) {} (usedRun status)

/-- What the thread is listed with, what is reported for it, and what was recorded. -/
private def promptTokensOf (runtime : Runtime) : Bool × Nat × Nat × Nat :=
  (((listOwned epochPlatform runtime.store .index none).map (·.id)).contains "thr_1",
    sumOf .prompt ((usageRecords epochPlatform runtime .index none "now").filter
      (·.threadId = "thr_1")),
    tokens .prompt (runtime.counter.forThread "thr_1"),
    recordedTokens .prompt "thr_1" runtime.recorded)

theorem usage_survives_idle : ∃ runtime, plainRun .idle = some runtime ∧
    sumOf .prompt ((usageRecords epochPlatform runtime .index none "now").filter
        (·.threadId = "thr_1")) =
      recordedTokens .prompt "thr_1" runtime.recorded ∧
    tokens .prompt (runtime.counter.forThread "thr_1") = recordedTokens .prompt "thr_1" runtime.recorded := by
  have counted : (plainRun .idle).map promptTokensOf = some (true, 130, 130, 130) := by
    decide +kernel
  obtain ⟨runtime, ran, shown⟩ := Option.map_eq_some_iff.mp counted
  have listed : ((listOwned epochPlatform runtime.store .index none).map (·.id)).contains "thr_1" =
      true := congrArg Prod.fst shown
  have fits : Listing.index.Fits .hybrid runtime.store := rfl
  exact ⟨runtime, ran, usage_survives_restarts ran (by decide) fits none "now"
    (by simpa using listed) .prompt⟩

/-- A thread that is archived while the process starts loses 100 of its 130 tokens in the counter,
and 30 in its records. -/
theorem archived_usage_lost : ∃ runtime, plainRun .archived = some runtime ∧
    Listing.index.Fits .hybrid runtime.store ∧
    "thr_1" ∈ (listOwned epochPlatform runtime.store .index none).map (·.id) ∧
    sumOf .prompt ((usageRecords epochPlatform runtime .index none "now").filter
        (·.threadId = "thr_1")) ≠
      recordedTokens .prompt "thr_1" runtime.recorded ∧
    tokens .prompt (runtime.counter.forThread "thr_1") ≠
      recordedTokens .prompt "thr_1" runtime.recorded := by
  have counted : (plainRun .archived).map promptTokensOf = some (true, 100, 30, 130) := by
    decide +kernel
  obtain ⟨runtime, ran, shown⟩ := Option.map_eq_some_iff.mp counted
  simp only [promptTokensOf, Prod.mk.injEq] at shown
  obtain ⟨listed, sums, live, all⟩ := shown
  refine ⟨runtime, ran, rfl, by simpa using listed, ?_, ?_⟩
  · rw [sums, all]; decide
  · rw [live, all]; decide

end QiongQi.UsageRestarts
