import QiongQi.RunningTotals
import QiongQi.ThreadRecords
import QiongQi.UsageProjections

/-! The usage records of a thread. A usage event carries the total of its thread so far, and the
records are what each total adds to the one before, and what the live total adds to the last. -/
namespace QiongQi.UsageRecords
open RuntimeContracts ThreadRecords UsageProjections RunningTotals

/-- `Math.max(0, current - previous)` of whole numbers. -/
def diffNumber (current previous : Nat) : Nat := current - previous

def diffAmount (current previous : ℚ) : ℚ := max 0 (current - previous)

def diffOptionalNumber (current previous : Option Nat) : Option Nat :=
  if current.isNone && previous.isNone then none
  else some (diffNumber (current.getD 0) (previous.getD 0))

def diffOptionalAmount (current previous : Option ℚ) : Option ℚ :=
  if current.isNone && previous.isNone then none
  else some (diffAmount (current.getD 0) (previous.getD 0))

/-- The share of hits among hits and misses, where hits are known. -/
def hitRate (cacheHitTokens cacheMissTokens : Option Nat) : Option ℚ :=
  let cacheTotal := cacheHitTokens.getD 0 + cacheMissTokens.getD 0
  match cacheHitTokens with
  | some hits => if cacheTotal > 0 then some ((hits : ℚ) / cacheTotal) else none
  | none => none

def diffUsage (current previous : UsageSnapshot) : UsageSnapshot :=
  let promptTokens := diffNumber current.promptTokens previous.promptTokens
  let completionTokens := diffNumber current.completionTokens previous.completionTokens
  let reportedTotal := diffNumber current.totalTokens previous.totalTokens
  let cacheHitTokens := diffOptionalNumber current.cacheHitTokens previous.cacheHitTokens
  let cacheMissTokens := diffOptionalNumber current.cacheMissTokens previous.cacheMissTokens
  { promptTokens
    completionTokens
    totalTokens := if reportedTotal = 0 then promptTokens + completionTokens else reportedTotal
    cachedTokens := diffOptionalNumber current.cachedTokens previous.cachedTokens
    cacheHitTokens
    cacheMissTokens
    cacheHitRate := hitRate cacheHitTokens cacheMissTokens
    turns := diffNumber current.turns previous.turns
    costUsd := diffOptionalAmount current.costUsd previous.costUsd
    costCny := diffOptionalAmount current.costCny previous.costCny
    cacheSavingsUsd := diffOptionalAmount current.cacheSavingsUsd previous.cacheSavingsUsd
    cacheSavingsCny := diffOptionalAmount current.cacheSavingsCny previous.cacheSavingsCny
    tokenEconomySavingsTokens :=
      diffOptionalNumber current.tokenEconomySavingsTokens previous.tokenEconomySavingsTokens
    tokenEconomySavingsUsd :=
      diffOptionalAmount current.tokenEconomySavingsUsd previous.tokenEconomySavingsUsd
    tokenEconomySavingsCny :=
      diffOptionalAmount current.tokenEconomySavingsCny previous.tokenEconomySavingsCny
    hasError := if current.hasError = some true then some true else none }

def hasUsage (usage : UsageSnapshot) : Bool :=
  usage.promptTokens > 0 || usage.completionTokens > 0 || usage.totalTokens > 0 ||
    usage.cachedTokens.getD 0 > 0 || usage.cacheHitTokens.getD 0 > 0 ||
    usage.cacheMissTokens.getD 0 > 0 || usage.turns > 0 ||
    usage.costUsd.getD 0 > 0 || usage.costCny.getD 0 > 0

structure ThreadUsageRecord where
  threadId : String
  model : String
  completedAt : String
  usage : UsageSnapshot

/-- What `usageRecords` and `usageRecordModel` read of a thread. -/
structure UsageThread where
  id : String
  model : String
  updatedAt : String
  turns : List Turn := []

def nonBlank (text : Option String) : Option String := truthy (text.map jsTrim)

def usageRecordModel (thread : UsageThread) (eventModel turnId : Option String) : String :=
  let turnModel := (nonBlank turnId).bind fun turnId =>
    (thread.turns.find? (·.id = turnId)).bind fun turn => nonBlank turn.model
  let latestTurnModel := thread.turns.reverse.findSome? fun turn => nonBlank turn.model
  ((((nonBlank eventModel).or turnModel).or latestTurnModel).or
    (nonBlank (some thread.model))).getD "unknown"

structure RecordState where
  latestPersisted : UsageSnapshot := emptyUsageSnapshot
  records : List ThreadUsageRecord := []

/-- A record of what was used, if anything was. -/
def pushRecord (records : List ThreadUsageRecord) (threadId model completedAt : String)
    (delta : UsageSnapshot) : List ThreadUsageRecord :=
  if hasUsage delta then records ++ [⟨threadId, model, completedAt, delta⟩] else records

def recordUsageEvent (thread : UsageThread) (state : RecordState) (event : RuntimeEvent) :
    RecordState :=
  match event.content with
  | .other _ => state
  | .usage turnId model usage =>
    { latestPersisted := usage
      records := pushRecord state.records thread.id
        (usageRecordModel thread (some model) (some turnId)) event.timestamp
        (diffUsage usage state.latestPersisted) }

/-- The records of one thread: of its usage events, and of what it has used since. -/
def threadRecords (thread : UsageThread) (events : List RuntimeEvent) (live : UsageSnapshot)
    (nowIso : String) : List ThreadUsageRecord :=
  let state := events.foldl (recordUsageEvent thread) {}
  pushRecord state.records thread.id
    (usageRecordModel thread none (thread.turns.getLast?.map (·.id)))
    ((truthy (some thread.updatedAt)).getD nowIso) (diffUsage live state.latestPersisted)

inductive TokenCounter where
  | prompt | completion | cached | cacheHit | cacheMiss
  deriving DecidableEq

def tokens (kind : TokenCounter) (usage : UsageSnapshot) : Nat :=
  match kind with
  | .prompt => usage.promptTokens
  | .completion => usage.completionTokens
  | .cached => usage.cachedTokens.getD 0
  | .cacheHit => usage.cacheHitTokens.getD 0
  | .cacheMiss => usage.cacheMissTokens.getD 0

section
variable (kind : TokenCounter)

@[simp] theorem tokens_empty : tokens kind emptyUsageSnapshot = 0 := by
  cases kind <;> rfl

@[simp] theorem tokens_next (current usage : UsageSnapshot) :
    tokens kind (UsageCounter.next current usage) = tokens kind current + tokens kind usage := by
  cases kind <;> rfl

theorem known_diff :
    (diffOptionalNumber current previous).getD 0 = current.getD 0 - previous.getD 0 := by
  cases current <;> cases previous <;> simp [diffOptionalNumber, diffNumber]

@[simp] theorem tokens_diff (current previous : UsageSnapshot) :
    tokens kind (diffUsage current previous) = tokens kind current - tokens kind previous := by
  cases kind with
  | prompt => rfl
  | completion => rfl
  | cached => exact known_diff
  | cacheHit => exact known_diff
  | cacheMiss => exact known_diff

theorem tokens_unused (unused : hasUsage usage = false) : tokens kind usage = 0 := by
  simp only [hasUsage, Bool.or_eq_false_iff, decide_eq_false_iff_not, Nat.not_lt] at unused
  cases kind <;> simp only [tokens] <;> omega

/-- The running totals of the usage events, of one kind of tokens. -/
def totalsOf (events : List RuntimeEvent) : List Nat := (recordedUsages events).map (tokens kind)

/-- What the records come to. -/
def sumOf (records : List ThreadUsageRecord) : Nat :=
  (records.map fun record => tokens kind record.usage).sum

@[simp] theorem sumOf_pushed (records : List ThreadUsageRecord)
    (threadId model completedAt : String) (delta : UsageSnapshot) :
    sumOf kind (pushRecord records threadId model completedAt delta) =
      sumOf kind records + tokens kind delta := by
  unfold pushRecord
  split
  · simp [sumOf]
  · next unused =>
    rw [tokens_unused kind (by simpa using unused), Nat.add_zero]

/-- The events of a thread add the growth of its totals, and leave the last total behind. -/
theorem sumOf_events (thread : UsageThread) (events : List RuntimeEvent) : ∀ state : RecordState,
      sumOf kind (events.foldl (recordUsageEvent thread) state).records = sumOf kind state.records +
            (growths (tokens kind state.latestPersisted) (totalsOf kind events)).sum ∧
        tokens kind (events.foldl (recordUsageEvent thread) state).latestPersisted =
          final (tokens kind state.latestPersisted) (totalsOf kind events) := by
  induction events with
  | nil => exact fun _ => ⟨rfl, rfl⟩
  | cons event rest ih =>
    intro state
    obtain ⟨sums, lasts⟩ := ih (recordUsageEvent thread state event)
    rw [List.foldl_cons, sums, lasts]
    cases content : event.content with
    | other name =>
      have silent : totalsOf kind (event :: rest) = totalsOf kind rest := by
        simp [totalsOf, recordedUsages, carriedUsage, content]
      simp [silent, recordUsageEvent, content]
    | usage turnId model usage =>
      have spoken : totalsOf kind (event :: rest) = tokens kind usage :: totalsOf kind rest := by
        simp [totalsOf, recordedUsages, carriedUsage, content]
      rw [spoken, final_cons]
      simp only [recordUsageEvent, content, sumOf_pushed, tokens_diff, growths, List.sum_cons]
      exact ⟨by omega, trivial⟩

theorem sumOf_thread (nowIso : String) (rising : Rising (totalsOf kind events))
    (last : final 0 (totalsOf kind events) = tokens kind live) :
    sumOf kind (threadRecords thread events live nowIso) = tokens kind live := by
  obtain ⟨sums, lasts⟩ := sumOf_events kind thread events {}
  have grown := sum_growths 0 (fun _ _ => Nat.zero_le _) rising
  simp only [tokens_empty] at sums lasts
  unfold threadRecords
  simp only [sumOf_pushed, tokens_diff, sums, lasts]
  have none : sumOf kind [] = 0 := rfl
  omega

end

/-- The records of a thread have its id. -/
theorem mem_threadRecords (made : record ∈ threadRecords thread events live nowIso) :
    record.threadId = thread.id := by
  have pushed : ∀ {records : List ThreadUsageRecord} {model completedAt : String}
      {delta : UsageSnapshot}, (∀ other ∈ records, other.threadId = thread.id) →
      ∀ other ∈ pushRecord records thread.id model completedAt delta, other.threadId = thread.id := by
    intro records model completedAt delta known other held
    unfold pushRecord at held
    split at held
    · rcases List.mem_append.mp held with earlier | new
      · exact known other earlier
      · rw [List.mem_singleton.mp new]
    · exact known other held
  have folded : ∀ (events : List RuntimeEvent) (state : RecordState),
      (∀ other ∈ state.records, other.threadId = thread.id) →
      ∀ other ∈ (events.foldl (recordUsageEvent thread) state).records, other.threadId = thread.id := by
    intro events
    induction events with
    | nil => exact fun _ known => known
    | cons event rest ih =>
      intro state known
      refine ih _ ?_
      unfold recordUsageEvent
      split
      · exact known
      · exact pushed known
  exact pushed (folded events {} (by simp)) record made

end QiongQi.UsageRecords
