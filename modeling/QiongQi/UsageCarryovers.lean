import QiongQi.SessionLogs
import QiongQi.UsageRecords

/-! What a new process takes up of the usage of a thread: the total in its last usage event, which
compaction of the log leaves in place. -/
namespace QiongQi.UsageCarryovers
open Machines UsageProjections RunningTotals UsageRecords
open List hiding after below set

/-- Counts are whole numbers here, so that only amounts can need a floor. -/
def normalizeUsageSnapshot (snapshot : UsageSnapshot) : UsageSnapshot :=
  { snapshot with
    totalTokens :=
      if snapshot.totalTokens = 0 then snapshot.promptTokens + snapshot.completionTokens
      else snapshot.totalTokens
    cacheHitRate := hitRate snapshot.cacheHitTokens snapshot.cacheMissTokens
    costUsd := snapshot.costUsd.map (max 0)
    costCny := snapshot.costCny.map (max 0)
    cacheSavingsUsd := snapshot.cacheSavingsUsd.map (max 0)
    cacheSavingsCny := snapshot.cacheSavingsCny.map (max 0)
    tokenEconomySavingsUsd := snapshot.tokenEconomySavingsUsd.map (max 0)
    tokenEconomySavingsCny := snapshot.tokenEconomySavingsCny.map (max 0)
    hasError := if snapshot.hasError = some true then some true else none }

/-- The total of a thread in the counter. -/
def set (counter : UsageCounter) (threadId : String) (usage : UsageSnapshot) : UsageCounter :=
  { perThread := put Prod.fst (threadId, usage) counter.perThread }

def seed (counter : UsageCounter) (threadId : String) (snapshot : UsageSnapshot) : UsageCounter :=
  set counter threadId (normalizeUsageSnapshot snapshot)

structure TokenEconomySavings where
  tokens : Nat
  usd : Option ℚ := none
  cny : Option ℚ := none

def recordTokenEconomySavings (counter : UsageCounter) (threadId : String)
    (savings : TokenEconomySavings) : UsageSnapshot × UsageCounter :=
  let current := counter.forThread threadId
  let next :=
    { current with
      tokenEconomySavingsTokens := some (current.tokenEconomySavingsTokens.getD 0 + savings.tokens)
      tokenEconomySavingsUsd := addKnown current.tokenEconomySavingsUsd savings.usd
      tokenEconomySavingsCny := addKnown current.tokenEconomySavingsCny savings.cny }
  (next, set counter threadId next)

theorem forThread_set (counter : UsageCounter) (id threadId : String) (usage : UsageSnapshot) :
    (set counter id usage).forThread threadId =
      if id = threadId then usage else counter.forThread threadId := by
  show ((find Prod.fst threadId (put Prod.fst (id, usage) counter.perThread)).map
    Prod.snd).getD emptyUsageSnapshot = _
  by_cases same : id = threadId
  · subst same
    rw [if_pos rfl, find_put_self Prod.fst (id, usage) counter.perThread]
    rfl
  · rw [if_neg same, find_put_other same]
    rfl

section
variable (kind : TokenCounter)

@[simp] theorem tokens_normalized (usage : UsageSnapshot) :
    tokens kind (normalizeUsageSnapshot usage) = tokens kind usage := by
  cases kind <;> rfl

@[simp] theorem tokens_saved (counter : UsageCounter) (threadId : String)
    (savings : TokenEconomySavings) :
    tokens kind (recordTokenEconomySavings counter threadId savings).1 =
      tokens kind (counter.forThread threadId) := by
  cases kind <;> rfl

end

def loadEventsSince (events : List RuntimeEvent) (threadId : String) (sinceSeq : Nat) :
    List RuntimeEvent :=
  ((logOf events threadId).filter fun event => sinceSeq < event.seq).insertionSort
    fun left right => left.seq ≤ right.seq

/-- What compaction looks at. -/
def line (event : RuntimeEvent) : SessionLogs.RuntimeEvent :=
  match event.content with
  | .usage _ model _ => ⟨event.seq, "usage", event.timestamp, some model⟩
  | .other kind => ⟨event.seq, kind, event.timestamp, none⟩

/-- `compactUsageEventsIfLarge`, of a log that is too large. -/
def compactUsage (compaction : SessionLogs.UsageEventCompaction) (events : List RuntimeEvent)
    (threadId nowIso : String) : List RuntimeEvent :=
  let compacted :=
    SessionLogs.compactUsageEvents compaction ((logOf events threadId).map line) nowIso
  events.filter fun event => event.threadId ≠ threadId || compacted.contains (line event)

/-- A usage event is appended, and `large` is the time of the compaction where the log is too
large then. -/
def appendUsage (compaction : SessionLogs.UsageEventCompaction) (events : List RuntimeEvent)
    (threadId turnId model timestamp : String) (skipped : Nat) (usage : UsageSnapshot)
    (large : Option String) : List RuntimeEvent :=
  let appended := recordEvent events threadId timestamp skipped (.usage turnId model usage)
  match large with
  | none => appended
  | some nowIso => compactUsage compaction appended threadId nowIso

variable {events : List RuntimeEvent} {threadId : String} {live : UsageSnapshot}

theorem ascending_sublist (kept : fewer.Sublist events) (ascending : Ascending above events) :
    Ascending above fewer :=
  ⟨fun event held => ascending.1 event (kept.subset held), ascending.2.sublist kept⟩

theorem loadEventsSince_eq (ascending : Ascending 0 (logOf events threadId)) :
    loadEventsSince events threadId 0 = logOf events threadId := by
  obtain ⟨positive, increasing⟩ := ascending
  have all : ((logOf events threadId).filter fun event => 0 < event.seq) = logOf events threadId :=
    filter_eq_self.mpr fun event held => by simpa using positive event held
  have sorted : (logOf events threadId).Pairwise fun left right => left.seq ≤ right.seq :=
    increasing.imp fun before => Nat.le_of_lt before
  rw [loadEventsSince, all, sorted.insertionSort_eq]

private theorem logOf_compacted (events : List RuntimeEvent) (id nowIso threadId : String) :
    logOf (compactUsage compaction events id nowIso) threadId =
      (logOf events threadId).filter fun event => event.threadId ≠ id ||
        (SessionLogs.compactUsageEvents compaction ((logOf events id).map line) nowIso).contains
          (line event) := by
  unfold compactUsage
  simp only [logOf]
  rw [filter_comm]

/-- The log of the thread ends with the appended event, and has no others than before. -/
theorem logOf_appendUsage (compaction : SessionLogs.UsageEventCompaction)
    (events : List RuntimeEvent) (threadId turnId model timestamp : String) (skipped : Nat)
    (usage : UsageSnapshot) (large : Option String) :
    ∃ front, front.Sublist (logOf events threadId) ∧
      logOf (appendUsage compaction events threadId turnId model timestamp skipped usage large)
          threadId =
        front ++ [⟨highestSeq (logOf events threadId) + skipped + 1, timestamp, threadId,
          .usage turnId model usage⟩] := by
  let event : RuntimeEvent := ⟨highestSeq (logOf events threadId) + skipped + 1, timestamp,
    threadId, .usage turnId model usage⟩
  have appended : logOf (recordEvent events threadId timestamp skipped (.usage turnId model usage))
      threadId = logOf events threadId ++ [event] := by
    rw [logOf_recordEvent, if_pos rfl]
  cases large with
  | none => exact ⟨logOf events threadId, List.Sublist.refl _, appended⟩
  | some nowIso =>
    have written : SessionLogs.lastUsage ((logOf events threadId ++ [event]).map line) =
        some (line event) := by
      simp [SessionLogs.lastUsage, SessionLogs.isUsage, line, event]
    have kept := @SessionLogs.compactUsageEvents_last _ compaction _ nowIso written
    simp only [appendUsage]
    rw [logOf_compacted, appended, filter_append, filter_cons_of_pos, filter_nil]
    · exact ⟨_, filter_sublist, rfl⟩
    · rw [contains_iff_mem.mpr kept, Bool.or_true]

/-- The other logs stay as they are. -/
theorem logOf_appendUsage_other (compaction : SessionLogs.UsageEventCompaction)
    (events : List RuntimeEvent) (turnId model timestamp : String) (skipped : Nat)
    (usage : UsageSnapshot) (large : Option String) {id : String} (apart : id ≠ threadId) :
    logOf (appendUsage compaction events id turnId model timestamp skipped usage large) threadId =
      logOf events threadId := by
  have appended : logOf (recordEvent events id timestamp skipped (.usage turnId model usage))
      threadId = logOf events threadId := by
    rw [logOf_recordEvent, if_neg apart, append_nil]
  cases large with
  | none => exact appended
  | some nowIso =>
    simp only [appendUsage]
    rw [logOf_compacted, appended, filter_eq_self]
    intro event held
    have own : event.threadId = threadId := by simpa using (mem_filter.mp held).2
    simp [own, apart.symm]

/-- The totals in the log of a thread rise up to the live one. -/
structure Logged (threadId : String) (events : List RuntimeEvent) (live : UsageSnapshot) :
    Prop where
  ascending : Ascending 0 (logOf events threadId)
  rising : ∀ kind, Rising (totalsOf kind (logOf events threadId))
  last : ∀ kind, final 0 (totalsOf kind (logOf events threadId)) = tokens kind live

theorem logged_same (logged : Logged threadId before live)
    (same : logOf after threadId = logOf before threadId) : Logged threadId after live := by
  constructor
  · rw [same]; exact logged.ascending
  · rw [same]; exact logged.rising
  · rw [same]; exact logged.last

theorem logged_usage (logged : Logged threadId events live)
    (more : ∀ kind, tokens kind live ≤ tokens kind total) (turnId model timestamp : String)
    (skipped : Nat) (large : Option String) : Logged threadId
      (appendUsage compaction events threadId turnId model timestamp skipped total large)
      total := by
  obtain ⟨front, fewer, appended⟩ := logOf_appendUsage compaction events threadId turnId model
    timestamp skipped total large
  have totals : ∀ kind, totalsOf kind (logOf (appendUsage compaction events threadId turnId model
      timestamp skipped total large) threadId) = totalsOf kind front ++ [tokens kind total] := by
    intro kind
    simp [appended, totalsOf, recordedUsages, carriedUsage]
  have earlier : ∀ kind, (totalsOf kind front).Sublist (totalsOf kind (logOf events threadId)) :=
    fun kind => (fewer.filterMap _).map _
  refine ⟨?_, fun kind => ?_, fun kind => ?_⟩
  · obtain ⟨positive, increasing⟩ := ascending_sublist fewer logged.ascending
    rw [appended]
    constructor
    · intro event held
      rcases mem_append.mp held with old | new
      · exact positive event old
      · rw [mem_singleton.mp new]
        exact Nat.succ_pos _
    · refine pairwise_append.mpr ⟨increasing, pairwise_singleton _ _, ?_⟩
      intro event held last new
      rw [mem_singleton.mp new]
      have below := seq_le_highestSeq (fewer.subset held)
      show event.seq < highestSeq (logOf events threadId) + skipped + 1
      omega
  · rw [totals, rising_concat]
    refine ⟨(logged.rising kind).sublist (earlier kind), fun amount held => ?_⟩
    calc amount ≤ final 0 (totalsOf kind (logOf events threadId)) :=
          le_final (logged.rising kind) ((earlier kind).subset held) 0
      _ = tokens kind live := logged.last kind
      _ ≤ tokens kind total := more kind
  · rw [totals, final_concat]

theorem logged_other (logged : Logged threadId events live) (id kind timestamp : String) (skipped : Nat) :
    Logged threadId (recordEvent events id timestamp skipped (.other kind)) live := by
  have totals : ∀ tokenKind, totalsOf tokenKind (logOf (recordEvent events id timestamp skipped
      (.other kind)) threadId) = totalsOf tokenKind (logOf events threadId) := by
    intro tokenKind
    rw [logOf_recordEvent]
    by_cases same : id = threadId <;> simp [same, totalsOf, recordedUsages, carriedUsage]
  refine ⟨ascending_recordEvent logged.ascending id timestamp skipped _, ?_, ?_⟩
  · intro tokenKind
    rw [totals]
    exact logged.rising tokenKind
  · intro tokenKind
    rw [totals]
    exact logged.last tokenKind

/-- The usage event with the highest number so far. -/
def laterUsage (latest : Option (Nat × UsageSnapshot)) (event : RuntimeEvent) :
    Option (Nat × UsageSnapshot) :=
  match event.content with
  | .other _ => latest
  | .usage _ _ usage =>
    match latest with
    | none => some (event.seq, usage)
    | some (seq, _) => if event.seq > seq then some (event.seq, usage) else latest

/-- A thread that is seeded when the process starts. -/
def seedThread (events : List RuntimeEvent) (counter : UsageCounter) (threadId : String) :
    UsageCounter :=
  match (loadEventsSince events threadId 0).foldl laterUsage none with
  | some (_, usage) => seed counter threadId usage
  | none => counter

theorem laterUsage_higher (content : event.content = .usage turnId model usage) :
    ∀ {latest : Option (Nat × UsageSnapshot)}, (∀ found ∈ latest, found.1 < event.seq) →
      laterUsage latest event = some (event.seq, usage)
  | none, _ => by simp only [laterUsage, content]
  | some (seq, _), higher => by
    simp only [laterUsage, content]
    exact if_pos (higher _ rfl)

/-- Among events that are numbered upwards the last usage event is taken. -/
theorem latest_ascending (ascending : Ascending 0 events) :
    (events.foldl laterUsage none).map Prod.snd = (recordedUsages events).getLast? ∧
      ∀ latest ∈ events.foldl laterUsage none, ∃ event ∈ events, event.seq = latest.1 := by
  induction events using List.reverseRecOn with
  | nil => simp [recordedUsages]
  | append_singleton before event ih =>
    obtain ⟨found, numbered⟩ := ih (ascending_sublist (sublist_append_left _ _) ascending)
    rw [foldl_append, foldl_cons, foldl_nil, recordedUsages, filterMap_append]
    cases content : event.content with
    | other kind =>
      have silent : [event].filterMap (fun event => carriedUsage event.content) = [] := by
        simp [carriedUsage, content]
      rw [silent, append_nil]
      simp only [laterUsage, content]
      refine ⟨found, fun latest held => ?_⟩
      obtain ⟨other, listed, same⟩ := numbered latest held
      exact ⟨other, mem_append_left _ listed, same⟩
    | usage turnId model usage =>
      have spoken : [event].filterMap (fun event => carriedUsage event.content) = [usage] := by
        simp [carriedUsage, content]
      have taken : laterUsage (before.foldl laterUsage none) event = some (event.seq, usage) := by
        refine laterUsage_higher content fun latest held => ?_
        obtain ⟨other, listed, same⟩ := numbered latest held
        have higher := (pairwise_append.mp ascending.2).2.2 other listed event (by simp)
        omega
      rw [spoken, taken]
      exact ⟨by simp, fun latest held => ⟨event, by simp, by cases held; rfl⟩⟩

/-- A thread in the list has the tokens of its last total, the others have none. -/
theorem forThread_seeded (ascending : Ascending 0 (logOf events threadId)) (kind : TokenCounter)
    (ids : List String) : ∀ counter : UsageCounter,
      tokens kind ((ids.foldl (seedThread events) counter).forThread threadId) =
      if threadId ∈ ids ∧ recordedUsages (logOf events threadId) ≠ [] then
        final 0 (totalsOf kind (logOf events threadId))
      else tokens kind (counter.forThread threadId) := by
  have latest := (latest_ascending ascending).1
  have seeded : ∀ counter : UsageCounter,
      tokens kind ((seedThread events counter threadId).forThread threadId) =
        if recordedUsages (logOf events threadId) ≠ [] then
          final 0 (totalsOf kind (logOf events threadId))
        else tokens kind (counter.forThread threadId) := by
    intro counter
    unfold seedThread
    rw [loadEventsSince_eq ascending]
    cases usages : recordedUsages (logOf events threadId) using List.reverseRecOn with
    | nil =>
      rw [usages] at latest
      rw [Option.map_eq_none_iff.mp latest]
      simp
    | append_singleton before usage _ =>
      rw [usages, getLast?_concat] at latest
      obtain ⟨found, held, same⟩ := Option.map_eq_some_iff.mp latest
      rw [held]
      simp [seed, forThread_set, same, totalsOf, usages]
  have others : ∀ (counter : UsageCounter) (id : String), id ≠ threadId →
      (seedThread events counter id).forThread threadId = counter.forThread threadId := by
    intro counter id apart
    unfold seedThread
    split
    · rw [seed, forThread_set, if_neg apart]
    · rfl
  induction ids with
  | nil => simp
  | cons id rest ih =>
    intro counter
    rw [foldl_cons, ih]
    by_cases same : id = threadId
    · subst same
      rw [seeded]
      by_cases used : recordedUsages (logOf events id) = [] <;> simp [used]
    · rw [others counter id same]
      simp [show threadId ≠ id from fun equal => same equal.symm]

end QiongQi.UsageCarryovers
