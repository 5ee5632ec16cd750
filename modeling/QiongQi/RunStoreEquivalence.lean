import QiongQi.RunStores

/-! Where `InMemoryMultiAgentRunStore` and `FileMultiAgentRunStore` answer alike. -/
namespace QiongQi.RunStoreEquivalence
open RunStores AgentGraphs Mailboxes MultiAgentRuns Machines KeyedMaps RankedLists RuntimeContracts
open List hiding drop
open LeaseStores (LeaseFence Lease AcquireResult)
open JsonValues (JsNumber)

/-- The name may be that of a file. -/
def isSafe (name : String) : Bool := (safeSegment name "").toOption.isSome

theorem safeSegment_of_isSafe (safe : isSafe name = true) : safeSegment name label = .ok name := by
  unfold isSafe safeSegment at safe
  unfold safeSegment
  split
  · rename_i unsafeName
    rw [if_pos unsafeName] at safe
    cases safe
  · rfl

theorem safeSegment_of_unsafe (notSafe : isSafe name = false) :
    ∃ thrown, safeSegment name label = .error thrown := by
  unfold isSafe safeSegment at notSafe
  unfold safeSegment
  split
  · exact ⟨_, rfl⟩
  · rename_i safeName
    rw [if_neg safeName] at notSafe
    cases notSafe

/-- The expiry is a time that a date can have. -/
def hasDate (now : Int) (ttlMs : JsNumber) : Bool :=
  (toISOString (expiry now ttlMs)).toOption.isSome

/-- All runs in the order in which the directories are listed. -/
def directoryRuns (around : Surroundings) (store : FileStore) : List RunDocument :=
  (around.readdir store.threadDirs).flatMap (store.threadRuns around)

/-- The lease that `renewLease` renews. -/
def renewable (store : FileStore) (runId holderId : String) (fenceOrTtl : FenceOrTtl)
    (now : Int) : Option Lease :=
  (store.leaseOf runId).filter fun current => current.holderId = holderId &&
    fenceOrTtl.fence?.all (LeaseStores.sameFence current) && now < current.expiresAt

/-- Names are those of files, a lease that is made or renewed ends at a time that a date can
have, a renewal is not for zero milliseconds, and runs of one time are listed in the order in
which they were first saved. -/
def ordinary (around : Surroundings) (stores : MemoryStore × FileStore) : RunStoreCall → Prop
  | .save parsed =>
    ∀ document ∈ parsed.toOption, isSafe document.runId = true ∧ isSafe document.threadId.text = true
  | .load runId | .loadVersion runId | .delete runId | .releaseLease runId _ _ =>
    isSafe runId = true
  | .update runId mutate options now =>
    ∀ current ∈ find RunDocument.runId runId stores.1.runs,
      (stores.2.assertFence runId now options.fence).toOption.isSome = true →
      (assertVersion (versionOf stores.2.versions runId) options.expectedVersion).toOption.isSome →
      ∀ next ∈ (mutate current).toOption, next.runId = runId → isSafe next.threadId.text = true
  | .acquireLease runId holderId ttlMs now _ =>
    isSafe runId = true ∧ isSafe holderId = true ∧
      ((stores.2.leaseOf runId).all (fun current => current.expiresAt ≤ now) → hasDate now ttlMs = true)
  | .renewLease runId holderId fenceOrTtl ttlMs now =>
    isSafe runId = true ∧ ((renewable stores.2 runId holderId fenceOrTtl now).isSome →
        ∀ ttl ∈ effectiveTtl ttlMs fenceOrTtl, isTruthy ttl = true ∧ hasDate now ttl = true)
  | .listByThread threadId =>
    isSafe threadId = true ∧ SameOrder (olderFirst around)
      (stores.1.runs.filter fun run => run.threadId.text = threadId)
      (stores.2.threadRuns around threadId)
  | .listAll =>
    SameOrder (olderFirst around) stores.1.runs (directoryRuns around stores.2)
  | .listWithPendingOutbox =>
    SameOrder (olderFirst around) (stores.1.runs.filter RunDocument.hasPending)
      ((directoryRuns around stores.2).filter RunDocument.hasPending)

instance (around : Surroundings) (stores : MemoryStore × FileStore) :
    ∀ call, Decidable (ordinary around stores call)
  | .save parsed => inferInstanceAs (Decidable (∀ document ∈ parsed.toOption, _))
  | .load _ | .loadVersion _ | .delete _ | .releaseLease _ _ _ =>
    inferInstanceAs (Decidable (_ = true))
  | .update _ _ _ _ =>
    inferInstanceAs (Decidable (∀ current ∈ find _ _ _, _ → _ → ∀ next ∈ Except.toOption _, _ → _))
  | .acquireLease _ _ _ _ _ => inferInstanceAs (Decidable (_ ∧ _ ∧ (_ → _)))
  | .renewLease _ _ _ _ _ => inferInstanceAs (Decidable (_ ∧ (_ → ∀ ttl ∈ effectiveTtl _ _, _)))
  | .listByThread _ => inferInstanceAs (Decidable (_ ∧ _))
  | .listAll => inferInstanceAs (Decidable (SameOrder _ _ _))
  | .listWithPendingOutbox => inferInstanceAs (Decidable (SameOrder _ _ _))

def inMemory (lease : Lease) : MemoryLease where
  holderId := lease.holderId
  expiresAt := .instant lease.expiresAt
  epoch := lease.epoch
  token := lease.token

/-- One run file for each run, in a directory that is there. -/
structure SameRuns (runs : List RunDocument) (threadDirs : List String)
    (runFiles : List RunDocument) : Prop where
  same : ∀ document, document ∈ runs ↔ document ∈ runFiles
  distinct : (runs.map RunDocument.runId).Nodup
  filesDistinct : (runFiles.map RunDocument.path).Nodup
  dirsDistinct : threadDirs.Nodup
  safeDirs : ∀ threadDir ∈ threadDirs, isSafe threadDir = true
  safe : ∀ document ∈ runs, isSafe document.runId = true
  kept : ∀ document ∈ runs, document.threadId.text ∈ threadDirs

/-- The leases of the files, with the last epoch of each. -/
structure SameLeases (leases : List (String × MemoryLease)) (files : List (String × Lease))
    (leaseEpochs : List (String × Nat)) : Prop where
  same : leases = files.map fun entry => (entry.1, inMemory entry.2)
  keyed : Keyed Prod.fst files
  epochsKeyed : Keyed Prod.fst leaseEpochs
  counted : ∀ entry ∈ files, ∃ last, (entry.1, last) ∈ leaseEpochs ∧ entry.2.epoch ≤ last
  dated : ∀ entry ∈ files, toISOString (.instant entry.2.expiresAt) = .ok entry.2.expiresAt

structure Matching (memory : MemoryStore) (file : FileStore) : Prop where
  sameRuns : SameRuns memory.runs file.threadDirs file.runFiles
  sameLeases : SameLeases memory.leases file.leases file.leaseEpochs
  versions : memory.versions = file.versions
  leaseEpochs : memory.leaseEpochs = file.leaseEpochs
  versioned : ∀ runId, (∃ document ∈ memory.runs, document.runId = runId) ↔
    ∃ entry ∈ file.versions, entry.1 = runId

theorem keyed_of_nodup (distinct : (items.map key).Nodup) : Keyed key items :=
  fun _ heldLeft _ heldRight same => inj_on_of_nodup_map distinct heldLeft heldRight same

/-- Where one name only leads to something, that is all that is found. -/
theorem filterMap_single {names : List α} (distinct : names.Nodup) (held : name ∈ names)
    (here : f name = some value) (elsewhere : ∀ other ∈ names, other ≠ name → f other = none) :
    names.filterMap f = [value] := by
  obtain ⟨front, back, rfl⟩ := append_of_mem held
  obtain ⟨-, rest, apart⟩ := nodup_append.mp distinct
  obtain ⟨fresh, -⟩ := nodup_cons.mp rest
  have none : ∀ part : List α, (∀ other ∈ part, other ∈ front ++ name :: back ∧ other ≠ name) →
      part.filterMap f = [] := by
    intro part others
    rw [filterMap_eq_nil_iff]
    intro other found
    exact elsewhere other (others other found).1 (others other found).2
  rw [filterMap_append, filterMap_cons, here, none front, none back]
  · rfl
  · intro other found
    refine ⟨by simp [found], ?_⟩
    rintro rfl
    exact fresh found
  · intro other found
    refine ⟨by simp [found], ?_⟩
    rintro rfl
    exact apart other found other mem_cons_self rfl

section
variable {around : Surroundings} {runs runFiles : List RunDocument} {store : FileStore}

theorem threadIds_safe (safeDirs : ∀ threadDir ∈ store.threadDirs, isSafe threadDir = true) :
    store.threadIds around = .ok (around.readdir store.threadDirs) := by
  have listed := around.listed store.threadDirs
  have safe : ∀ threadDir ∈ around.readdir store.threadDirs, isSafe threadDir = true :=
    fun threadDir held => safeDirs threadDir (listed.mem_iff.mp held)
  unfold FileStore.threadIds
  generalize around.readdir store.threadDirs = dirs at safe
  induction dirs with
  | nil => rfl
  | cons threadDir rest ih =>
    rw [mapM_cons, safeSegment_of_isSafe (safe threadDir mem_cons_self),
      ih fun other held => safe other (mem_cons_of_mem _ held)]
    rfl

theorem find_runId (sameRuns : SameRuns runs threadDirs runFiles) (held : document ∈ runs) :
    find RunDocument.runId document.runId runs = some document :=
  find_keyed (keyed_of_nodup sameRuns.distinct) held

variable (around) in
/-- The file of a run is found in the directory of its thread only. -/
theorem findRunFiles_same (sameRuns : SameRuns runs store.threadDirs store.runFiles) (runId : String) :
    store.findRunFiles around runId = .ok (find RunDocument.runId runId runs).toList := by
  rw [FileStore.findRunFiles, threadIds_safe sameRuns.safeDirs]
  have listed := around.listed store.threadDirs
  have filed : ∀ {threadId : String} {file : RunDocument},
      find RunDocument.path (threadId, runId) store.runFiles = some file →
        file ∈ runs ∧ file.runId = runId ∧ file.threadId.text = threadId := by
    intro threadId file found
    obtain ⟨held, named⟩ := find_mem found
    exact ⟨(sameRuns.same file).mpr held, congrArg Prod.snd named, congrArg Prod.fst named⟩
  show Except.ok _ = _
  congr 1
  cases stored : find RunDocument.runId runId runs with
  | none =>
    refine filterMap_eq_nil_iff.mpr fun threadId _ => ?_
    cases found : find RunDocument.path (threadId, runId) store.runFiles with
    | none => rfl
    | some file =>
      obtain ⟨held, named, -⟩ := filed found
      rw [← named, find_runId sameRuns held] at stored
      cases stored
  | some document =>
    obtain ⟨held, named⟩ := find_mem stored
    refine filterMap_single (listed.nodup_iff.mpr sameRuns.dirsDistinct)
      (listed.mem_iff.mpr (sameRuns.kept document held)) ?_ ?_
    · have inFiles := find_keyed (keyed_of_nodup sameRuns.filesDistinct)
        ((sameRuns.same document).mp held)
      rw [RunDocument.path, named] at inFiles
      exact inFiles
    · intro threadId _ other
      cases found : find RunDocument.path (threadId, runId) store.runFiles with
      | none => rfl
      | some file =>
        obtain ⟨heldFile, sameName, inThread⟩ := filed found
        have one := keyed_of_nodup sameRuns.distinct file heldFile document held
          (sameName.trans named.symm)
        subst one
        exact absurd inThread.symm other

variable (around) in
theorem saveParsed_same (sameRuns : SameRuns runs store.threadDirs store.runFiles)
    (safeRun : isSafe document.runId = true) (safeThread : isSafe document.threadId.text = true) :
    ∃ saved, store.saveParsed around document = .ok saved ∧
      SameRuns (setEntry RunDocument.runId document runs) saved.threadDirs saved.runFiles ∧
      saved.versions = store.versions ∧ saved.leases = store.leases ∧
      saved.leaseEpochs = store.leaseEpochs := by
  rw [FileStore.saveParsed, safeSegment_of_isSafe safeThread, safeSegment_of_isSafe safeRun]
  have existing := findRunFiles_same around sameRuns document.runId
  simp only [bind, Except.bind, existing]
  refine ⟨_, rfl, ?_, rfl, rfl, rfl⟩
  generalize moved : ((find RunDocument.runId document.runId runs).toList.filter fun file =>
    file.threadId.text ≠ document.threadId.text) = movedFiles
  have keptNodup : ((store.runFiles.filter fun file =>
      !movedFiles.any fun other => other.path = file.path).map RunDocument.path).Nodup :=
    sameRuns.filesDistinct.sublist (filter_sublist.map _)
  have movedName : ∀ file ∈ movedFiles, file.runId = document.runId := by
    intro file held
    rw [← moved] at held
    exact (find_mem (Option.mem_toList.mp (mem_filter.mp held).1)).2
  constructor
  · intro other
    rw [mem_setEntry, mem_setEntry, mem_filter]
    constructor
    · rintro (rfl | ⟨held, apart⟩)
      · exact .inl rfl
      · refine .inr ⟨⟨(sameRuns.same other).mp held, ?_⟩, fun same => apart ?_⟩
        · simp only [Bool.not_eq_eq_eq_not, Bool.not_true, any_eq_false, decide_eq_true_eq]
          intro file heldFile same
          exact apart ((congrArg Prod.snd same).symm.trans (movedName file heldFile))
        · exact congrArg Prod.snd same
    · rintro (rfl | ⟨⟨held, unmoved⟩, apart⟩)
      · exact .inl rfl
      · have heldRun := (sameRuns.same other).mpr held
        refine .inr ⟨heldRun, fun named => ?_⟩
        have stored := find_runId sameRuns heldRun
        rw [named] at stored
        by_cases inThread : other.threadId.text = document.threadId.text
        · exact apart (Prod.ext inThread named)
        · have isMoved : other ∈ movedFiles := by
            rw [← moved, stored]
            simp [inThread]
          have listed : movedFiles.any (fun file => file.path = other.path) = true :=
            any_eq_true.mpr ⟨other, isMoved, by simp⟩
          rw [listed] at unmoved
          cases unmoved
  · exact nodup_setEntry sameRuns.distinct
  · exact nodup_setEntry keptNodup
  · split
    · exact sameRuns.dirsDistinct
    · rename_i fresh
      exact nodup_append.mpr ⟨sameRuns.dirsDistinct, by simp, by
        rintro dir held other last rfl
        exact fresh (mem_singleton.mp last ▸ held)⟩
  · intro threadDir held
    split at held
    · exact sameRuns.safeDirs threadDir held
    · rcases mem_append.mp held with held | last
      · exact sameRuns.safeDirs threadDir held
      · rw [mem_singleton.mp last]
        exact safeThread
  · intro other held
    rcases mem_setEntry.mp held with rfl | ⟨held, -⟩
    · exact safeRun
    · exact sameRuns.safe other held
  · intro other held
    have inDirs : other.threadId.text ∈ store.threadDirs ∨ other = document := by
      rcases mem_setEntry.mp held with rfl | ⟨held, -⟩
      · exact .inr rfl
      · exact .inl (sameRuns.kept other held)
    split
    · rename_i present
      rcases inDirs with present | rfl
      · assumption
      · exact present
    · rcases inDirs with present | rfl
      · exact mem_append_left _ present
      · exact mem_append_right _ (mem_singleton.mpr rfl)

theorem delete_same (sameRuns : SameRuns runs threadDirs runFiles) :
    SameRuns (drop RunDocument.runId runId runs) threadDirs (runFiles.filter fun file =>
      !((find RunDocument.runId runId runs).toList.any fun other => other.path = file.path)) := by
  have within : ∀ document ∈ drop RunDocument.runId runId runs, document ∈ runs :=
    fun document held => (mem_drop.mp held).1
  constructor
  · intro document
    rw [mem_drop, mem_filter, ← sameRuns.same]
    simp only [Bool.not_eq_eq_eq_not, Bool.not_true, any_eq_false, decide_eq_true_eq]
    refine and_congr_right fun held => ⟨fun apart other found same => ?_, fun unmoved named => ?_⟩
    · obtain ⟨-, named⟩ := find_mem (Option.mem_toList.mp found)
      exact apart ((congrArg Prod.snd same).symm.trans named)
    · have stored := find_runId sameRuns held
      rw [named] at stored
      exact unmoved document (Option.mem_toList.mpr stored) rfl
  · exact sameRuns.distinct.sublist (filter_sublist.map _)
  · exact sameRuns.filesDistinct.sublist (filter_sublist.map _)
  · exact sameRuns.dirsDistinct
  · exact sameRuns.safeDirs
  · exact fun document held => sameRuns.safe document (within document held)
  · exact fun document held => sameRuns.kept document (within document held)

end

section
variable {around : Surroundings} {runs : List RunDocument} {store : FileStore}

theorem olderFirst_trans (first second third : RunDocument) :
    olderFirst around first second = true → olderFirst around second third = true →
      olderFirst around first third = true := by
  unfold olderFirst
  simp only [decide_eq_true_eq]
  exact around.transitive _ _ _

theorem olderFirst_total (first second : RunDocument) :
    (olderFirst around first second || olderFirst around second first) = true := by
  unfold olderFirst
  simp only [Bool.or_eq_true, decide_eq_true_eq]
  exact around.total _ _

section
variable (sameRuns : SameRuns runs store.threadDirs store.runFiles)
include sameRuns

theorem threadRuns_perm (threadId : String) : (store.threadRuns around threadId).Perm
      (store.runFiles.filter fun file => file.threadId.text = threadId) := by
  have keyed := keyed_of_nodup sameRuns.filesDistinct
  unfold FileStore.threadRuns
  refine ((around.listed _).filterMap _).trans (List.Perm.of_eq ?_)
  rw [filterMap_map, filterMap_congr (g := some), filterMap_some]
  intro file held
  obtain ⟨inFiles, inThread⟩ := mem_filter.mp held
  have found := find_keyed keyed inFiles
  rw [RunDocument.path, of_decide_eq_true inThread] at found
  exact found

theorem mem_threadRuns : document ∈ store.threadRuns around threadId ↔
      document ∈ runs ∧ document.threadId.text = threadId := by
  rw [(threadRuns_perm sameRuns threadId).mem_iff, mem_filter, ← sameRuns.same, decide_eq_true_eq]

theorem nodup_threadRuns (threadId : String) : (store.threadRuns around threadId).Nodup :=
  (threadRuns_perm sameRuns threadId).nodup_iff.mpr
    ((List.Nodup.of_map _ sameRuns.filesDistinct).filter _)

theorem mem_directoryRuns : document ∈ directoryRuns around store ↔ document ∈ runs := by
  have listed := around.listed store.threadDirs
  rw [directoryRuns, mem_flatMap]
  constructor
  · rintro ⟨threadId, -, held⟩
    exact ((mem_threadRuns sameRuns).mp held).1
  · intro held
    exact ⟨_, listed.mem_iff.mpr (sameRuns.kept document held), (mem_threadRuns sameRuns).mpr ⟨held, rfl⟩⟩

theorem nodup_directoryRuns : (directoryRuns around store).Nodup := by
  have listed := around.listed store.threadDirs
  refine nodup_flatMap.mpr ⟨fun threadId _ => nodup_threadRuns sameRuns threadId, ?_⟩
  refine (listed.nodup_iff.mpr sameRuns.dirsDistinct).imp fun {left right} apart => ?_
  intro document heldLeft heldRight
  have inLeft := ((mem_threadRuns sameRuns).mp heldLeft).2
  have inRight := ((mem_threadRuns sameRuns).mp heldRight).2
  exact apart (inLeft.symm.trans inRight)

end

/-- Runs that come in the same order are sorted to one list. -/
theorem sorted_eq (nodup : left.Nodup) (alsoNodup : right.Nodup)
    (same : ∀ document, document ∈ left ↔ document ∈ right)
    (sameOrder : SameOrder (olderFirst around) left right)
    (inOrder : sorted.Pairwise fun first second => olderFirst around first second = true)
    (level : ∀ document, sorted.filter (alike (olderFirst around) document) =
      right.filter (alike (olderFirst around) document)) :
    left.mergeSort (olderFirst around) = sorted := by
  refine eq_of_alike_filters olderFirst_total
    (pairwise_mergeSort olderFirst_trans olderFirst_total left) inOrder fun document => ?_
  rw [filter_mergeSort olderFirst_trans olderFirst_total, level]
  exact filter_alike_eq olderFirst_trans nodup alsoNodup same sameOrder document

theorem listByThread_same (sameRuns : SameRuns runs store.threadDirs store.runFiles)
    (safe : isSafe threadId = true) (sameOrder : SameOrder (olderFirst around)
      (runs.filter fun run => run.threadId.text = threadId)
      (store.threadRuns around threadId)) :
    store.listByThread around threadId = .ok ((runs.filter fun run =>
      run.threadId.text = threadId).mergeSort (olderFirst around)) := by
  rw [FileStore.listByThread, safeSegment_of_isSafe safe]
  have sorted := sorted_eq ((List.Nodup.of_map _ sameRuns.distinct).filter _)
    (nodup_threadRuns sameRuns threadId)
    (fun document => by rw [mem_threadRuns sameRuns, mem_filter, decide_eq_true_eq]) sameOrder
    (pairwise_mergeSort olderFirst_trans olderFirst_total _)
    (filter_mergeSort olderFirst_trans olderFirst_total)
  rw [sorted]
  rfl

section
variable (sameRuns : SameRuns runs store.threadDirs store.runFiles)
include sameRuns

variable (around) in
/-- What the files give for all threads is sorted, and keeps the order of the directories for
runs of one time. -/
theorem listAll_level : ∃ sorted, store.listAll around = .ok sorted ∧
      (sorted.Pairwise fun first second => olderFirst around first second = true) ∧
      ∀ document, sorted.filter (alike (olderFirst around) document) =
        (directoryRuns around store).filter (alike (olderFirst around) document) := by
  have listed := around.listed store.threadDirs
  have safe : ∀ threadDir ∈ around.readdir store.threadDirs, isSafe threadDir = true :=
    fun threadDir held => sameRuns.safeDirs threadDir (listed.mem_iff.mp held)
  have read : ∀ dirs : List String, (∀ threadDir ∈ dirs, isSafe threadDir = true) →
      dirs.mapM (store.listByThread around) = .ok (dirs.map fun threadId =>
        (store.threadRuns around threadId).mergeSort (olderFirst around)) := by
    intro dirs safe
    induction dirs with
    | nil => rfl
    | cons threadDir rest ih =>
      rw [mapM_cons, FileStore.listByThread, safeSegment_of_isSafe (safe threadDir mem_cons_self),
        ih fun other held => safe other (mem_cons_of_mem _ held)]
      rfl
  rw [FileStore.listAll, read _ safe]
  refine ⟨_, rfl, pairwise_mergeSort olderFirst_trans olderFirst_total _, fun document => ?_⟩
  rw [filter_mergeSort olderFirst_trans olderFirst_total, directoryRuns, flatMap_def,
    filter_flatten, filter_flatten, map_map, map_map]
  congr 1
  refine map_congr_left fun threadId _ => ?_
  exact filter_mergeSort olderFirst_trans olderFirst_total document

theorem listAll_same
    (sameOrder : SameOrder (olderFirst around) runs (directoryRuns around store)) :
    store.listAll around = .ok (runs.mergeSort (olderFirst around)) := by
  obtain ⟨sorted, listed, inOrder, level⟩ := listAll_level around sameRuns
  rw [listed, sorted_eq (List.Nodup.of_map _ sameRuns.distinct) (nodup_directoryRuns sameRuns)
    (fun document => (mem_directoryRuns sameRuns).symm) sameOrder inOrder level]

theorem listWithPendingOutbox_same
    (sameOrder : SameOrder (olderFirst around) (runs.filter RunDocument.hasPending)
      ((directoryRuns around store).filter RunDocument.hasPending)) :
    store.listWithPendingOutbox around =
      .ok ((runs.filter RunDocument.hasPending).mergeSort (olderFirst around)) := by
  obtain ⟨sorted, listed, inOrder, level⟩ := listAll_level around sameRuns
  have sortedPending := sorted_eq ((List.Nodup.of_map _ sameRuns.distinct).filter _)
    ((nodup_directoryRuns sameRuns).filter _)
    (fun document => by rw [mem_filter, mem_filter, mem_directoryRuns sameRuns])
    sameOrder (inOrder.filter RunDocument.hasPending) fun document => by
      rw [filter_filter, filter_filter, filter_congr fun other _ => Bool.and_comm _ _, ← filter_filter, level,
        filter_filter]
      exact filter_congr fun other _ => Bool.and_comm _ _
  rw [FileStore.listWithPendingOutbox, listed, sortedPending]
  rfl

end

end

section
variable {leases : List (String × MemoryLease)} {leaseEpochs : List (String × Nat)}
  {memory : MemoryStore} {file : FileStore} {runId : String}

theorem expiry_of_hasDate (dated : hasDate now ttlMs = true) :
    ∃ expiresAt, expiry now ttlMs = .instant expiresAt ∧
      toISOString (.instant expiresAt) = .ok expiresAt := by
  unfold hasDate at dated
  cases moment : expiry now ttlMs with
  | invalid | never =>
    rw [moment] at dated
    cases dated
  | instant expiresAt =>
    rw [moment, toISOString] at dated
    refine ⟨expiresAt, rfl, ?_⟩
    rw [toISOString]
    by_cases within : -maxTime ≤ expiresAt ∧ expiresAt ≤ maxTime
    · rw [if_pos within]
    · rw [if_neg within] at dated
      cases dated

theorem find_fst_mapped {f : α → β} {items : List (String × α)} :
    find Prod.fst name (items.map fun entry => (entry.1, f entry.2)) =
      (find Prod.fst name items).map fun entry => (entry.1, f entry.2) := by
  unfold find
  rw [find?_map]
  rfl

theorem leaseOf_same (sameLeases : SameLeases memory.leases file.leases leaseEpochs) :
    memory.leaseOf runId = (file.leaseOf runId).map inMemory := by
  rw [MemoryStore.leaseOf, FileStore.leaseOf, sameLeases.same, find_fst_mapped, Option.map_map,
    Option.map_map]
  rfl

theorem leaseOf_mem (found : file.leaseOf runId = some current) :
    (runId, current) ∈ file.leases := by
  obtain ⟨⟨name, lease⟩, stored, same⟩ := Option.map_eq_some_iff.mp found
  obtain ⟨held, named⟩ := find_mem stored
  cases named
  cases same
  exact held

theorem inMemory_sameFence (fence : LeaseFence) :
    (inMemory lease).sameFence fence = LeaseStores.sameFence lease fence := by
  unfold MemoryLease.sameFence LeaseStores.sameFence inMemory
  rw [Bool.eq_iff_iff]
  simp only [Bool.and_eq_true]
  exact ⟨fun same => ⟨⟨same.1.2, same.2⟩, same.1.1⟩, fun same => ⟨⟨same.2, same.1.1⟩, same.1.2⟩⟩

theorem setEntry_mapped {f : α → β} {items : List (String × α)} :
    setEntry Prod.fst (name, f value) (items.map fun entry => (entry.1, f entry.2)) =
      (setEntry Prod.fst (name, value) items).map fun entry => (entry.1, f entry.2) := by
  unfold setEntry
  rw [any_map]
  by_cases present : items.any (fun entry => entry.1 = name) = true
  · have mapped : items.any ((fun other => decide (other.1 = name)) ∘
        fun entry => (entry.1, f entry.2)) = true := present
    rw [if_pos mapped, if_pos present, map_map, map_map]
    refine map_congr_left fun entry _ => ?_
    by_cases here : entry.1 = name
    · simp [here]
    · simp [here]
  · have mapped : ¬ items.any ((fun other => decide (other.1 = name)) ∘
        fun entry => (entry.1, f entry.2)) = true := present
    rw [if_neg mapped, if_neg present, map_append]
    rfl

theorem drop_mapped {f : α → β} {items : List (String × α)} :
    drop Prod.fst name (items.map fun entry => (entry.1, f entry.2)) =
      (drop Prod.fst name items).map fun entry => (entry.1, f entry.2) := by
  unfold drop
  rw [filter_map]
  rfl

theorem sameLeases_set (sameLeases : SameLeases leases files leaseEpochs) (lease : Lease)
    {epochs : List (String × Nat)} (keyed : Keyed Prod.fst epochs) (here : (runId, last) ∈ epochs)
    (elsewhere : ∀ entry ∈ leaseEpochs, entry.1 ≠ runId → entry ∈ epochs)
    (counted : lease.epoch ≤ last)
    (dated : toISOString (.instant lease.expiresAt) = .ok lease.expiresAt) :
    SameLeases (setEntry Prod.fst (runId, inMemory lease) leases)
      (setEntry Prod.fst (runId, lease) files) epochs := by
  constructor
  · rw [sameLeases.same, setEntry_mapped]
  · exact keyed_setEntry sameLeases.keyed
  · exact keyed
  · intro entry held
    rcases mem_setEntry.mp held with rfl | ⟨held, apart⟩
    · exact ⟨last, here, counted⟩
    · obtain ⟨known, found, within⟩ := sameLeases.counted entry held
      exact ⟨known, elsewhere _ found apart, within⟩
  · intro entry held
    rcases mem_setEntry.mp held with rfl | ⟨held, -⟩
    · exact dated
    · exact sameLeases.dated entry held

theorem sameLeases_drop (sameLeases : SameLeases leases files leaseEpochs) :
    SameLeases (drop Prod.fst runId leases) (drop Prod.fst runId files) leaseEpochs := by
  constructor
  · rw [sameLeases.same, drop_mapped]
  · exact keyed_drop sameLeases.keyed
  · exact sameLeases.epochsKeyed
  · exact fun entry held => sameLeases.counted entry (mem_drop.mp held).1
  · exact fun entry held => sameLeases.dated entry (mem_drop.mp held).1

theorem nextEpoch_same (runId : String) (sameLeases : SameLeases memory.leases file.leases file.leaseEpochs)
    (epochs : memory.leaseEpochs = file.leaseEpochs) :
    (((find Prod.fst runId memory.leaseEpochs).map Prod.snd).or
        ((memory.leaseOf runId).map MemoryLease.epoch)).getD 0 =
      max (((file.leaseOf runId).map Lease.epoch).getD 0)
        (((find Prod.fst runId file.leaseEpochs).map Prod.snd).getD 0) := by
  rw [epochs, leaseOf_same sameLeases]
  cases leased : file.leaseOf runId with
  | none => simp
  | some current =>
    obtain ⟨last, held, within⟩ := sameLeases.counted _ (leaseOf_mem leased)
    have found : find Prod.fst runId file.leaseEpochs = some (runId, last) :=
      find_keyed sameLeases.epochsKeyed held
    rw [found]
    simp only [Option.map_some, Option.some_or, Option.getD_some] at within ⊢
    omega

end

/-- The two stores give the same answer, or both fail, and match again. -/
structure Agrees (memory : MemoryStore × Except Thrown Answer)
    (file : FileStore × Except Thrown Answer) : Prop where
  answer : memory.2.toOption = file.2.toOption
  matching : Matching memory.1 file.1

section
variable {around : Surroundings} {memory : MemoryStore} {file : FileStore}
  {runId holderId : String}

theorem withRun_safe (safe : isSafe runId = true) : file.withRun runId body = body runId := by
  rw [FileStore.withRun, safeSegment_of_isSafe safe]

theorem load_same (matching : Matching memory file) :
    file.load around runId = .ok (find RunDocument.runId runId memory.runs) := by
  rw [FileStore.load, findRunFiles_same around matching.sameRuns]
  cases find RunDocument.runId runId memory.runs <;> rfl

theorem loadVersion_same (matching : Matching memory file) :
    memory.loadVersion runId = file.loadVersion runId := by
  have versioned := matching.versioned runId
  rw [MemoryStore.loadVersion, FileStore.loadVersion, versionOf, matching.versions]
  cases stored : find RunDocument.runId runId memory.runs with
  | some document =>
    obtain ⟨entry, held, named⟩ := versioned.mp ⟨document, find_mem stored⟩
    cases version : find Prod.fst runId file.versions with
    | some found => rfl
    | none =>
      have missing := find?_eq_none.mp version entry held
      simp [named] at missing
  | none =>
    cases version : find Prod.fst runId file.versions with
    | none => rfl
    | some found =>
      obtain ⟨document, held, named⟩ := versioned.mpr ⟨found, find_mem version⟩
      have missing := find?_eq_none.mp stored document held
      simp [named] at missing

variable {versions : List (String × Nat)} {now : Int}

theorem matching_written (matching : Matching memory file) {saved : FileStore}
    (sameRuns : SameRuns (setEntry RunDocument.runId document memory.runs) saved.threadDirs
      saved.runFiles) (leases : saved.leases = file.leases)
    (leaseEpochs : saved.leaseEpochs = file.leaseEpochs)
    (versioned : ∀ name, (∃ entry ∈ versions, entry.1 = name) ↔
      name = document.runId ∨ ∃ entry ∈ file.versions, entry.1 = name) :
    Matching { memory with runs := setEntry RunDocument.runId document memory.runs, versions }
      { saved with versions } := by
  constructor
  · exact sameRuns
  · show SameLeases memory.leases saved.leases saved.leaseEpochs
    rw [leases, leaseEpochs]
    exact matching.sameLeases
  · rfl
  · exact matching.leaseEpochs.trans leaseEpochs.symm
  · intro name
    rw [versioned, ← matching.versioned]
    constructor
    · rintro ⟨other, held, rfl⟩
      rcases mem_setEntry.mp held with rfl | ⟨held, -⟩
      · exact .inl rfl
      · exact .inr ⟨other, held, rfl⟩
    · rintro (rfl | ⟨other, held, rfl⟩)
      · exact ⟨document, mem_setEntry.mpr (.inl rfl), rfl⟩
      · by_cases here : other.runId = document.runId
        · exact ⟨document, mem_setEntry.mpr (.inl rfl), here.symm⟩
        · exact ⟨other, mem_setEntry.mpr (.inr ⟨held, here⟩), rfl⟩

theorem mem_setVersion : (∃ entry ∈ setEntry Prod.fst (runId, version) versions, entry.1 = name) ↔
      name = runId ∨ ∃ entry ∈ versions, entry.1 = name := by
  constructor
  · rintro ⟨entry, held, rfl⟩
    rcases mem_setEntry.mp held with rfl | ⟨held, -⟩
    · exact .inl rfl
    · exact .inr ⟨entry, held, rfl⟩
  · rintro (rfl | ⟨entry, held, rfl⟩)
    · exact ⟨_, mem_setEntry.mpr (.inl rfl), rfl⟩
    · by_cases here : entry.1 = runId
      · exact ⟨_, mem_setEntry.mpr (.inl rfl), here.symm⟩
      · exact ⟨entry, mem_setEntry.mpr (.inr ⟨held, here⟩), rfl⟩

theorem mem_withVersion : (∃ entry ∈ withVersion runId versions, entry.1 = name) ↔
      name = runId ∨ ∃ entry ∈ versions, entry.1 = name := by
  unfold withVersion
  split
  · rename_i present
    obtain ⟨known, found⟩ := Option.isSome_iff_exists.mp present
    constructor
    · exact .inr
    · rintro (rfl | held)
      · exact ⟨known, find_mem found⟩
      · exact held
  · exact mem_setVersion

theorem save_agrees (matching : Matching memory file) {parsed : Except Thrown RunDocument}
    (safe : ordinary around (memory, file) (.save parsed)) :
    Agrees (memory.save parsed) (file.save around parsed) := by
  cases parsed with
  | error thrown => exact ⟨rfl, matching⟩
  | ok document =>
    obtain ⟨safeRun, safeThread⟩ := safe document rfl
    obtain ⟨saved, written, sameRuns, versions, leases, leaseEpochs⟩ :=
      saveParsed_same around matching.sameRuns safeRun safeThread
    rw [FileStore.save, withRun_safe safeRun, MemoryStore.save]
    simp only [written]
    refine ⟨rfl, ?_⟩
    show Matching { memory with
      runs := _, versions := withVersion document.runId memory.versions } _
    rw [matching.versions, ← versions]
    exact matching_written matching sameRuns leases leaseEpochs fun name => by
      rw [mem_withVersion, versions]

theorem assertFence_same (matching : Matching memory file) :
    memory.assertFence runId now fence = file.assertFence runId now fence := by
  cases fence with
  | none => rfl
  | some fence =>
    rw [MemoryStore.assertFence, FileStore.assertFence, leaseOf_same matching.sameLeases]
    cases leased : file.leaseOf runId with
    | none => rfl
    | some current =>
      simp only [Option.map_some, inMemory_sameFence]
      rfl

theorem updatedRun_ok
    (updated : updatedRun runId fenced currentVersion expectedVersion mutate current = .ok next_) :
    fenced.toOption.isSome = true ∧ (assertVersion currentVersion expectedVersion).toOption.isSome = true ∧
      mutate current = .ok next_ ∧ next_.runId = runId := by
  unfold updatedRun at updated
  obtain ⟨⟨⟩, passed, rest⟩ := bind_ok updated
  obtain ⟨⟨⟩, expected, later⟩ := bind_ok rest
  obtain ⟨made, mutated, named⟩ := bind_ok later
  split at named
  · cases named
  · rename_i same
    cases named
    rw [passed, expected]
    exact ⟨rfl, rfl, mutated, not_not.mp same⟩

section
variable (matching : Matching memory file)
include matching

theorem update_agrees {options : UpdateOptions}
    (safe : ordinary around (memory, file) (.update runId mutate options now)) :
    Agrees (memory.update runId mutate options now)
      (file.update around runId mutate options now) := by
  rw [MemoryStore.update]
  by_cases safeRun : isSafe runId = true
  · rw [FileStore.update, withRun_safe safeRun]
    simp only [load_same matching]
    cases stored : find RunDocument.runId runId memory.runs with
    | none => exact ⟨rfl, matching⟩
    | some current =>
      simp only
      rw [assertFence_same matching, matching.versions]
      cases updated : updatedRun runId (file.assertFence runId now options.fence)
          (versionOf file.versions runId) options.expectedVersion mutate current with
      | error thrown => exact ⟨rfl, matching⟩
      | ok next =>
        obtain ⟨passed, expected, mutated, named⟩ := updatedRun_ok updated
        have safeThread := safe current stored passed expected next (by rw [mutated]; rfl) named
        have safeNext : isSafe next.runId = true := by
          rw [named]
          exact safeRun
        obtain ⟨saved, written, sameRuns, versions, leases, leaseEpochs⟩ :=
          saveParsed_same around matching.sameRuns safeNext safeThread
        simp only [written]
        refine ⟨rfl, ?_⟩
        rw [← versions]
        exact matching_written matching sameRuns leases leaseEpochs fun name => by
          rw [mem_setVersion, versions, named]
  · have missing : find RunDocument.runId runId memory.runs = none := by
      refine find?_eq_none.mpr fun document held named => safeRun ?_
      rw [← of_decide_eq_true named]
      exact matching.sameRuns.safe document held
    obtain ⟨thrown, refused⟩ := safeSegment_of_unsafe (Bool.eq_false_iff.mpr safeRun)
    rw [FileStore.update, FileStore.withRun, refused, missing]
    exact ⟨rfl, matching⟩

theorem delete_agrees (safe : isSafe runId = true) :
    Agrees (memory.delete runId, .ok .done) (file.delete around runId) := by
  rw [FileStore.delete, withRun_safe safe]
  simp only [findRunFiles_same around matching.sameRuns]
  refine ⟨rfl, ?_⟩
  constructor
  · exact delete_same matching.sameRuns
  · exact sameLeases_drop matching.sameLeases
  · exact congrArg (drop Prod.fst runId) matching.versions
  · exact matching.leaseEpochs
  · intro name
    have versioned := matching.versioned name
    constructor
    · rintro ⟨document, held, rfl⟩
      obtain ⟨held, apart⟩ := mem_drop.mp held
      obtain ⟨entry, found, named⟩ := versioned.mp ⟨document, held, rfl⟩
      exact ⟨entry, mem_drop.mpr ⟨found, by rw [named]; exact apart⟩, named⟩
    · rintro ⟨entry, held, rfl⟩
      obtain ⟨held, apart⟩ := mem_drop.mp held
      obtain ⟨document, found, named⟩ := versioned.mpr ⟨entry, held, rfl⟩
      exact ⟨document, mem_drop.mpr ⟨found, by rw [named]; exact apart⟩, named⟩

theorem newLease_agrees (safeRun : isSafe runId = true) (safeHolder : isSafe holderId = true)
    (free : (file.leaseOf runId).filter (fun current => now < current.expiresAt) = none)
    (dated : hasDate now ttlMs = true) : Agrees (memory.acquireLease runId holderId ttlMs now token)
      (file.acquireLease runId holderId ttlMs now token) := by
  obtain ⟨expiresAt, expires, text⟩ := expiry_of_hasDate dated
  have freeMemory :
      (memory.leaseOf runId).filter (fun current => current.expiresAt.isAfter now) = none := by
    rw [leaseOf_same matching.sameLeases]
    cases leased : file.leaseOf runId with
    | none => rfl
    | some current =>
      rw [leased, Option.filter_eq_none_iff] at free
      rw [Option.map_some, Option.filter_eq_none_iff]
      intro lease same
      cases same
      exact free current rfl
  have epoch := nextEpoch_same runId matching.sameLeases matching.leaseEpochs
  rw [MemoryStore.acquireLease, FileStore.acquireLease, withRun_safe safeRun,
    safeSegment_of_isSafe safeHolder, freeMemory]
  simp only [free, expires, text, epoch]
  refine ⟨rfl, ?_⟩
  constructor
  · exact matching.sameRuns
  · rw [matching.leaseEpochs]
    exact sameLeases_set matching.sameLeases
      { holderId, expiresAt, epoch := _, token }
      (keyed_setEntry matching.sameLeases.epochsKeyed) (mem_setEntry.mpr (.inl rfl))
      (fun entry held apart => mem_setEntry.mpr (.inr ⟨held, apart⟩)) (Nat.le_refl _) text
  · exact matching.versions
  · rw [matching.leaseEpochs]
  · exact matching.versioned

theorem acquireLease_agrees
    (safe : ordinary around (memory, file) (.acquireLease runId holderId ttlMs now token)) :
    Agrees (memory.acquireLease runId holderId ttlMs now token)
      (file.acquireLease runId holderId ttlMs now token) := by
  obtain ⟨safeRun, safeHolder, dated⟩ := safe
  cases held : (file.leaseOf runId).filter fun current => now < current.expiresAt with
  | none =>
    refine newLease_agrees matching safeRun safeHolder held (dated ?_)
    cases leased : file.leaseOf runId with
    | none => rfl
    | some current =>
      rw [leased, Option.filter_eq_none_iff] at held
      have passed := held current rfl
      simpa using passed
  | some current =>
    obtain ⟨leased, running⟩ := Option.filter_eq_some_iff.mp held
    have heldMemory : (memory.leaseOf runId).filter (fun lease => lease.expiresAt.isAfter now) =
        some (inMemory current) := by
      rw [leaseOf_same matching.sameLeases, leased, Option.map_some, Option.filter_eq_some_iff]
      exact ⟨rfl, running⟩
    have text := matching.sameLeases.dated _ (leaseOf_mem leased)
    have textMemory : toISOString (inMemory current).expiresAt = .ok current.expiresAt := text
    rw [MemoryStore.acquireLease, FileStore.acquireLease, withRun_safe safeRun,
      safeSegment_of_isSafe safeHolder, heldMemory]
    simp only [held]
    have holder : (inMemory current).holderId = current.holderId := rfl
    rw [holder, textMemory]
    split
    all_goals exact ⟨rfl, matching⟩

end

theorem renewable_isSome (leased : file.leaseOf runId = some current) :
    (renewable file runId holderId fenceOrTtl now).isSome = !(decide (current.holderId ≠ holderId) ||
        fenceOrTtl.fence?.any (fun fence => !LeaseStores.sameFence current fence) ||
        decide (current.expiresAt ≤ now)) := by
  rw [renewable, leased, Option.isSome_filter, Bool.not_or, Bool.not_or]
  have holder : (!decide (current.holderId ≠ holderId)) = decide (current.holderId = holderId) := by
    rw [decide_not, Bool.not_not]
  have running : (!decide (current.expiresAt ≤ now)) = decide (now < current.expiresAt) := by
    rw [← decide_not, decide_eq_decide, Int.not_le]
  have fenced : (!fenceOrTtl.fence?.any fun fence => !LeaseStores.sameFence current fence) =
      fenceOrTtl.fence?.all (LeaseStores.sameFence current) := by
    cases fenceOrTtl.fence? with
    | none => rfl
    | some fence => exact Bool.not_not _
  rw [holder, running, fenced]
  rfl

section
variable (matching : Matching memory file)
include matching

theorem renewLease_agrees (safe : ordinary around (memory, file)
      (.renewLease runId holderId fenceOrTtl ttlMs now)) :
    Agrees (memory.renewLease runId holderId fenceOrTtl ttlMs now)
      (file.renewLease runId holderId fenceOrTtl ttlMs now) := by
  obtain ⟨safeRun, timely⟩ := safe
  rw [MemoryStore.renewLease, FileStore.renewLease, withRun_safe safeRun, leaseOf_same matching.sameLeases]
  cases leased : file.leaseOf runId with
  | none =>
    cases effectiveTtl ttlMs fenceOrTtl with
    | none | some ttl => exact ⟨rfl, matching⟩
  | some current =>
    cases effective : effectiveTtl ttlMs fenceOrTtl with
    | none => exact ⟨rfl, matching⟩
    | some ttl =>
      have fences : fenceOrTtl.fence?.any (fun fence => !(inMemory current).sameFence fence) =
          fenceOrTtl.fence?.any (fun fence => !LeaseStores.sameFence current fence) := by
        simp only [inMemory_sameFence]
      have passed : (inMemory current).expiresAt.hasPassed now = decide (current.expiresAt ≤ now) :=
        rfl
      have holder : (inMemory current).holderId = current.holderId := rfl
      simp only [Option.map_some, fences, passed, holder]
      by_cases refused : (decide (current.holderId ≠ holderId) ||
          fenceOrTtl.fence?.any (fun fence => !LeaseStores.sameFence current fence) ||
          decide (current.expiresAt ≤ now)) = true
      · rw [if_pos refused]
        rw [Bool.or_assoc, Bool.or_assoc, ← Bool.or_assoc (decide _), refused, Bool.or_true]
        exact ⟨rfl, matching⟩
      · have renews : (renewable file runId holderId fenceOrTtl now).isSome = true := by
          rw [renewable_isSome leased, Bool.eq_false_iff.mpr refused]
          rfl
        obtain ⟨truthy, dated⟩ := timely renews ttl effective
        obtain ⟨expiresAt, expires, text⟩ := expiry_of_hasDate dated
        rw [if_neg refused]
        rw [Bool.or_assoc, Bool.or_assoc, ← Bool.or_assoc (decide _), truthy, Bool.eq_false_iff.mpr refused]
        simp only [expires, text, Bool.not_true, Bool.or_self, Bool.false_eq_true, if_false]
        refine ⟨rfl, ?_⟩
        obtain ⟨last, counted, within⟩ := matching.sameLeases.counted _ (leaseOf_mem leased)
        constructor
        · exact matching.sameRuns
        · exact sameLeases_set matching.sameLeases { current with expiresAt }
            matching.sameLeases.epochsKeyed counted (fun entry held _ => held) within text
        · exact matching.versions
        · exact matching.leaseEpochs
        · exact matching.versioned

theorem releaseLease_agrees (safe : isSafe runId = true) :
    Agrees (memory.releaseLease runId holderId fence, .ok .done)
      (file.releaseLease runId holderId fence) := by
  have same : ∀ current : Lease, (decide ((inMemory current).holderId = holderId) &&
      fence.all (inMemory current).sameFence) =
        (decide (current.holderId = holderId) && fence.all (LeaseStores.sameFence current)) := by
    intro current
    rw [show (inMemory current).sameFence = LeaseStores.sameFence current from
      funext inMemory_sameFence]
    rfl
  rw [MemoryStore.releaseLease, FileStore.releaseLease, withRun_safe safe,
    leaseOf_same matching.sameLeases, Option.any_map]
  simp only [same]
  split
  · refine ⟨rfl, ?_⟩
    constructor
    · exact matching.sameRuns
    · exact sameLeases_drop matching.sameLeases
    · exact matching.versions
    · exact matching.leaseEpochs
    · exact matching.versioned
  · exact ⟨rfl, matching⟩

/-- An ordinary call has the same answer in both stores. -/
theorem perform_agrees (meets : ordinary around (memory, file) call) :
    Agrees (memory.perform around call) (file.perform around call) := by
  cases call with
  | save parsed => exact save_agrees matching meets
  | load runId =>
    rw [FileStore.perform, withRun_safe meets, load_same matching]
    exact ⟨rfl, matching⟩
  | update runId mutate options now => exact update_agrees matching meets
  | loadVersion runId =>
    rw [FileStore.perform, withRun_safe meets, MemoryStore.perform, loadVersion_same matching]
    exact ⟨rfl, matching⟩
  | acquireLease runId holderId ttlMs now token => exact acquireLease_agrees matching meets
  | renewLease runId holderId fenceOrTtl ttlMs now => exact renewLease_agrees matching meets
  | releaseLease runId holderId fence => exact releaseLease_agrees matching meets
  | listByThread threadId =>
    rw [FileStore.perform, listByThread_same matching.sameRuns meets.1 meets.2]
    exact ⟨rfl, matching⟩
  | listAll =>
    rw [FileStore.perform, listAll_same matching.sameRuns meets]
    exact ⟨rfl, matching⟩
  | listWithPendingOutbox =>
    rw [FileStore.perform, listWithPendingOutbox_same matching.sameRuns meets]
    exact ⟨rfl, matching⟩
  | delete runId => exact delete_agrees matching meets

end

end

/-- What the calls of a run answer, none where a call fails. -/
def answers {σ : Type} (perform : σ → RunStoreCall → σ × Except Thrown Answer) :
    σ → List RunStoreCall → List (Option Answer)
  | _, [] => []
  | store, call :: rest =>
    (perform store call).2.toOption :: answers perform (perform store call).1 rest

/-- Each call goes to both stores. -/
def stepBoth (around : Surroundings) (stores : MemoryStore × FileStore)
    (call : RunStoreCall) : Option (MemoryStore × FileStore) :=
  some ((stores.1.perform around call).1, (stores.2.perform around call).1)

theorem matching_empty : Matching {} {} := by
  have sameRuns : SameRuns [] [] [] := by
    constructor <;> simp
  have sameLeases : SameLeases [] [] [] := by
    constructor <;> simp [Keyed]
  exact ⟨sameRuns, sameLeases, rfl, rfl, by simp⟩

theorem answers_same : ∀ {memory : MemoryStore} {file : FileStore}, Matching memory file →
      Along (stepBoth around) (ordinary around) (memory, file) calls →
      answers (fun store call => store.perform around call) memory calls =
        answers (fun store call => store.perform around call) file calls := by
  induction calls with
  | nil => exact fun _ _ => rfl
  | cons call rest ih =>
    intro memory file matching along
    obtain ⟨meets, later⟩ := along
    have agrees := perform_agrees matching meets
    rw [answers, answers, agrees.answer, ih agrees.matching later]

section Example

private def byCharacters (first second : String) : Ordering :=
  if first ≤ second then if second ≤ first then .eq else .lt else .gt

private theorem byCharacters_le : byCharacters first second ≠ .gt ↔ first ≤ second := by
  unfold byCharacters
  by_cases upward : first ≤ second
  · by_cases downward : second ≤ first <;> simp [upward, downward]
  · simp [upward]

private def plainSurroundings : Surroundings where
  localeCompare := byCharacters
  readdir := id
  transitive first second third := by
    rw [byCharacters_le, byCharacters_le, byCharacters_le]
    exact String.le_trans
  total first second := by
    rw [byCharacters_le, byCharacters_le]
    exact String.le_total first second
  listed _ := .refl _

private def documentOf (runId threadId createdAt : String) : RunDocument where
  run :=
    { runId := named runId, status := .running, graphId := named "graph"
      activeNodeId := named "manager" }
  threadId := named threadId
  createdAt := createdAt

private def started (document : RunDocument) : Except Thrown RunDocument :=
  .ok { document with run := { document.run with status := .completed } }

private def leasedUpdate : List RunStoreCall :=
  [.save (.ok (documentOf "mar_1" "thr_1" "2026-01-02")),
    .save (.ok (documentOf "mar_2" "thr_2" "2026-01-01")),
    .acquireLease "mar_1" "worker_a" (.finite 1000) 0 "token_1",
    .renewLease "mar_1" "worker_a" (.fence ⟨"worker_a", 1, "token_1"⟩) (some (.finite 2500)) 900,
    .acquireLease "mar_1" "worker_b" .negativeZero 2000 "token_2",
    .update "mar_1" started { fence := some ⟨"worker_a", 1, "token_1"⟩, expectedVersion := some 0 }
      3000,
    .acquireLease "mar_1" "worker_b" .negativeZero 3400 "token_2", .listAll,
    .releaseLease "mar_1" "worker_b" none, .loadVersion "mar_1"]

private def renewedForZero : List RunStoreCall :=
  [.acquireLease "mar_1" "worker_a" (.finite 1000) 0 "token_1",
    .renewLease "mar_1" "worker_a" (.ttl (.finite 0)) none 500,
    .acquireLease "mar_1" "worker_b" (.finite 1000) 600 "token_2"]

end Example

end QiongQi.RunStoreEquivalence
