import Mathlib.Data.List.Induction
import Mathlib.Data.List.Sort
import Mathlib.Data.Rat.Defs
import QiongQi.Machines

/-! The usage of a thread, counted live and projected from its events. The counter answers the
total so far, and that is what a usage event carries; the reducer of the events adds them up. -/
namespace QiongQi.UsageProjections
open Machines
open List hiding below

structure UsageSnapshot where
  promptTokens : Nat
  completionTokens : Nat
  totalTokens : Nat
  cachedTokens : Option Nat := none
  cacheHitTokens : Option Nat := none
  cacheMissTokens : Option Nat := none
  cacheHitRate : Option ℚ := none
  turns : Nat
  costUsd : Option ℚ := none
  costCny : Option ℚ := none
  cacheSavingsUsd : Option ℚ := none
  cacheSavingsCny : Option ℚ := none
  tokenEconomySavingsTokens : Option Nat := none
  tokenEconomySavingsUsd : Option ℚ := none
  tokenEconomySavingsCny : Option ℚ := none
  hasError : Option Bool := none

def emptyUsageSnapshot : UsageSnapshot where
  promptTokens := 0
  completionTokens := 0
  totalTokens := 0
  cachedTokens := some 0
  cacheHitTokens := some 0
  cacheMissTokens := some 0
  cacheHitRate := none
  turns := 0
  cacheSavingsUsd := some 0
  cacheSavingsCny := some 0
  tokenEconomySavingsTokens := some 0
  tokenEconomySavingsUsd := some 0
  tokenEconomySavingsCny := some 0

/-- The sum of two amounts, unknown where both are. -/
def addKnown (into delta : Option ℚ) : Option ℚ :=
  if into.isNone && delta.isNone then none else some (into.getD 0 + delta.getD 0)

/-- What `addUsage` and `UsageCounter.record` have in common. -/
def addCounters (into delta : UsageSnapshot) (turns : Nat) (hasError : Option Bool) :
    UsageSnapshot :=
  let promptTokens := into.promptTokens + delta.promptTokens
  let completionTokens := into.completionTokens + delta.completionTokens
  let cacheHitTokens := into.cacheHitTokens.getD 0 + delta.cacheHitTokens.getD 0
  let cacheMissTokens := into.cacheMissTokens.getD 0 + delta.cacheMissTokens.getD 0
  let cacheTotal := cacheHitTokens + cacheMissTokens
  { promptTokens
    completionTokens
    totalTokens := promptTokens + completionTokens
    cachedTokens := some (into.cachedTokens.getD 0 + delta.cachedTokens.getD 0)
    cacheHitTokens := some cacheHitTokens
    cacheMissTokens := some cacheMissTokens
    cacheHitRate := if cacheTotal = 0 then none else some ((cacheHitTokens : ℚ) / cacheTotal)
    turns
    costUsd := addKnown into.costUsd delta.costUsd
    costCny := addKnown into.costCny delta.costCny
    cacheSavingsUsd := addKnown into.cacheSavingsUsd delta.cacheSavingsUsd
    cacheSavingsCny := addKnown into.cacheSavingsCny delta.cacheSavingsCny
    tokenEconomySavingsTokens :=
      some (into.tokenEconomySavingsTokens.getD 0 + delta.tokenEconomySavingsTokens.getD 0)
    tokenEconomySavingsUsd := addKnown into.tokenEconomySavingsUsd delta.tokenEconomySavingsUsd
    tokenEconomySavingsCny := addKnown into.tokenEconomySavingsCny delta.tokenEconomySavingsCny
    hasError }

def addUsage (into delta : UsageSnapshot) : UsageSnapshot :=
  addCounters into delta (into.turns + delta.turns) none

structure UsageCounter where
  perThread : List (String × UsageSnapshot) := []

namespace UsageCounter

def forThread (counter : UsageCounter) (threadId : String) : UsageSnapshot :=
  ((find Prod.fst threadId counter.perThread).map Prod.snd).getD emptyUsageSnapshot

/-- A response without a number of turns counts as one. -/
def next (current snapshot : UsageSnapshot) : UsageSnapshot :=
  addCounters current snapshot
    (current.turns + if snapshot.turns > 0 then snapshot.turns else 1) snapshot.hasError

/-- The total of the thread with the snapshot added, and the counter that holds it. -/
def record (counter : UsageCounter) (threadId : String) (snapshot : UsageSnapshot) :
    UsageSnapshot × UsageCounter :=
  let total := next (counter.forThread threadId) snapshot
  (total, { perThread := put Prod.fst (threadId, total) counter.perThread })

end UsageCounter

inductive EventContent where
  | usage (turnId model : String) (usage : UsageSnapshot)
  | other (kind : String)

structure RuntimeEvent where
  seq : Nat
  timestamp : String
  threadId : String
  content : EventContent

/-- The part of a projection that usage events reach; the others leave its usage alone. -/
structure UsageProjection where
  threadId : String
  lastSeq : Nat := 0
  updatedAt : Option String := none
  usage : UsageSnapshot := emptyUsageSnapshot

def applyRuntimeEvent (projection : UsageProjection) (event : RuntimeEvent) : UsageProjection :=
  if event.seq ≤ projection.lastSeq then projection
  else
    { threadId := if projection.threadId = "" then event.threadId else projection.threadId
      lastSeq := event.seq
      updatedAt := some event.timestamp
      usage :=
        match event.content with
        | .usage _ _ usage => addUsage projection.usage usage
        | .other _ => projection.usage }

def replayRuntimeEvents (events : List RuntimeEvent) : UsageProjection :=
  (events.insertionSort fun left right => left.seq ≤ right.seq).foldl applyRuntimeEvent
    { threadId := (events.head?.map RuntimeEvent.threadId).getD "" }

structure UsageWorld where
  counter : UsageCounter := {}
  events : List RuntimeEvent := []

def logOf (events : List RuntimeEvent) (threadId : String) : List RuntimeEvent :=
  events.filter (·.threadId = threadId)

def highestSeq (events : List RuntimeEvent) : Nat :=
  (events.map RuntimeEvent.seq).foldl max 0

/-- The recorder numbers the events of a thread upwards, and leaves numbers out. -/
def recordEvent (events : List RuntimeEvent) (threadId timestamp : String) (skipped : Nat)
    (content : EventContent) : List RuntimeEvent :=
  events ++ [⟨highestSeq (logOf events threadId) + skipped + 1, timestamp, threadId, content⟩]

/-- A usage chunk of a model response, or any other event. -/
inductive UsageAction where
  | usage (threadId turnId model : String) (usage : UsageSnapshot) (timestamp : String)
      (skipped : Nat)
  | other (threadId kind timestamp : String) (skipped : Nat)

def step (world : UsageWorld) : UsageAction → UsageWorld
  | .usage threadId turnId model usage timestamp skipped =>
    let (total, counter) := world.counter.record threadId usage
    { counter, events := recordEvent world.events threadId timestamp skipped
        (.usage turnId model total) }
  | .other threadId kind timestamp skipped =>
    { world with events := recordEvent world.events threadId timestamp skipped (.other kind) }

def run (actions : List UsageAction) : UsageWorld := actions.foldl step {}

/-- What the model responses of the thread report, one after the other. -/
def usagesOf (threadId : String) (actions : List UsageAction) : List UsageSnapshot :=
  actions.filterMap fun
    | .usage id _ _ usage _ _ => if id = threadId then some usage else none
    | .other _ _ _ _ => none

/-- The total after each of the responses. -/
def totals (current : UsageSnapshot) : List UsageSnapshot → List UsageSnapshot
  | [] => []
  | usage :: rest => UsageCounter.next current usage :: totals (UsageCounter.next current usage) rest

theorem totals_append :
    ∀ current, totals current (usages ++ [last]) =
      totals current usages ++ [UsageCounter.next (usages.foldl UsageCounter.next current) last] := by
  induction usages with
  | nil => exact fun _ => rfl
  | cons usage rest ih =>
    intro current
    simp only [cons_append, totals, foldl_cons, ih]

theorem turns_grow (current usage : UsageSnapshot) :
    current.turns < (UsageCounter.next current usage).turns := by
  show current.turns < current.turns + if usage.turns > 0 then usage.turns else 1
  split <;> omega

/-- The sum of running totals has at least the turns of the last total, besides its own. -/
theorem turns_of_totals (usages : List UsageSnapshot) :
    ∀ into current, into.turns + (usages.foldl UsageCounter.next current).turns ≤
      ((totals current usages).foldl addUsage (addUsage into current)).turns := by
  induction usages with
  | nil => exact fun _ _ => Nat.le_refl _
  | cons usage rest ih =>
    intro into current
    have later := ih (addUsage into current) (UsageCounter.next current usage)
    have more : into.turns ≤ (addUsage into current).turns := Nat.le_add_right _ _
    simp only [foldl_cons, totals]
    omega

/-- The counters of a snapshot, without the error flag. -/
def counters (usage : UsageSnapshot) : UsageSnapshot := { usage with hasError := none }

theorem addUsage_first :
    addUsage emptyUsageSnapshot (UsageCounter.next emptyUsageSnapshot usage) =
      counters (UsageCounter.next emptyUsageSnapshot usage) := by
  have known : ∀ amount, addKnown none (addKnown none amount) = addKnown none amount := by
    rintro (_ | amount) <;> simp [addKnown]
  have zero : ∀ amount, addKnown (some 0) (addKnown (some 0) amount) = addKnown (some 0) amount := by
    intro amount
    simp [addKnown]
  simp [addUsage, UsageCounter.next, addCounters, emptyUsageSnapshot, counters, known, zero]

/-- The sum of the running totals is the last of them exactly when there is at most one. -/
theorem sum_of_totals_iff :
    counters ((totals emptyUsageSnapshot usages).foldl addUsage emptyUsageSnapshot) =
      counters (usages.foldl UsageCounter.next emptyUsageSnapshot) ↔ usages.length ≤ 1 := by
  rcases usages with _ | ⟨first, _ | ⟨second, rest⟩⟩
  · simp [totals]
  · simp only [totals, foldl_cons, foldl_nil, addUsage_first]
    exact ⟨fun _ => Nat.le_refl 1, fun _ => rfl⟩
  · constructor
    · intro same
      have turns := congrArg UsageSnapshot.turns same
      have later := turns_of_totals rest
        (addUsage emptyUsageSnapshot (UsageCounter.next emptyUsageSnapshot first))
        (UsageCounter.next (UsageCounter.next emptyUsageSnapshot first) second)
      have started := turns_grow emptyUsageSnapshot first
      have counted : (addUsage emptyUsageSnapshot (UsageCounter.next emptyUsageSnapshot first)).turns =
          0 + (UsageCounter.next emptyUsageSnapshot first).turns := rfl
      simp only [totals, foldl_cons, counters] at turns
      omega
    · intro short
      simp at short

def carriedUsage : EventContent → Option UsageSnapshot
  | .usage _ _ usage => some usage
  | .other _ => none

def recordedUsages (events : List RuntimeEvent) : List UsageSnapshot :=
  events.filterMap fun event => carriedUsage event.content

/-- Numbered upwards, from above a number. -/
def Ascending (above : Nat) (events : List RuntimeEvent) : Prop :=
  (∀ event ∈ events, above < event.seq) ∧ events.Pairwise fun left right => left.seq < right.seq

variable {events : List RuntimeEvent}

theorem usage_replayed : ∀ {projection : UsageProjection}, Ascending projection.lastSeq events →
      (events.foldl applyRuntimeEvent projection).usage =
        (recordedUsages events).foldl addUsage projection.usage := by
  induction events with
  | nil => exact fun _ => rfl
  | cons event rest ih =>
    rintro projection ⟨above, increasing⟩
    obtain ⟨beyond, others⟩ := pairwise_cons.mp increasing
    have later : projection.lastSeq < event.seq := above event mem_cons_self
    have applied : applyRuntimeEvent projection event =
        { threadId := if projection.threadId = "" then event.threadId else projection.threadId
          lastSeq := event.seq
          updatedAt := some event.timestamp
          usage :=
            match event.content with
            | .usage _ _ usage => addUsage projection.usage usage
            | .other _ => projection.usage } := if_neg (by omega)
    rw [foldl_cons, ih (by rw [applied]; exact ⟨beyond, others⟩), applied]
    unfold recordedUsages
    cases content : event.content with
    | usage turnId model usage | other kind => simp [carriedUsage, content]

theorem replay_usage (ascending : Ascending 0 events) : (replayRuntimeEvents events).usage =
      (recordedUsages events).foldl addUsage emptyUsageSnapshot := by
  have sorted : events.Pairwise fun left right => left.seq ≤ right.seq :=
    ascending.2.imp fun before => Nat.le_of_lt before
  unfold replayRuntimeEvents
  rw [sorted.insertionSort_eq]
  exact usage_replayed ascending

theorem seq_le_highestSeq (held : event ∈ events) : event.seq ≤ highestSeq events := by
  induction events using List.reverseRecOn with
  | nil => cases held
  | append_singleton before last ih =>
    have grown : highestSeq (before ++ [last]) = max (highestSeq before) last.seq := by
      simp [highestSeq]
    rw [grown]
    rcases mem_append.mp held with earlier | final
    · have below := ih earlier
      omega
    · cases mem_singleton.mp final
      omega

/-- The counter has the last running total of the thread, and the log of the thread has all
of them. -/
structure Counted (threadId : String) (usages : List UsageSnapshot) (world : UsageWorld) : Prop where
  live : world.counter.forThread threadId = usages.foldl UsageCounter.next emptyUsageSnapshot
  recorded : recordedUsages (logOf world.events threadId) = totals emptyUsageSnapshot usages
  ascending : Ascending 0 (logOf world.events threadId)

theorem logOf_recordEvent (events : List RuntimeEvent) (id timestamp : String) (skipped : Nat)
    (content : EventContent) (threadId : String) :
    logOf (recordEvent events id timestamp skipped content) threadId = logOf events threadId ++
        if id = threadId then
          [⟨highestSeq (logOf events threadId) + skipped + 1, timestamp, threadId, content⟩]
        else [] := by
  unfold logOf recordEvent
  rw [filter_append]
  by_cases same : id = threadId
  · subst same
    simp [logOf]
  · simp [same]

theorem ascending_recordEvent (ascending : Ascending 0 (logOf events threadId))
    (id timestamp : String) (skipped : Nat) (content : EventContent) :
    Ascending 0 (logOf (recordEvent events id timestamp skipped content) threadId) := by
  rw [logOf_recordEvent]
  by_cases same : id = threadId
  · rw [if_pos same]
    obtain ⟨positive, increasing⟩ := ascending
    constructor
    · intro event held
      rcases mem_append.mp held with earlier | last
      · exact positive event earlier
      · cases mem_singleton.mp last
        exact Nat.succ_pos _
    · refine pairwise_append.mpr ⟨increasing, pairwise_singleton _ _, ?_⟩
      intro event held last new
      cases mem_singleton.mp new
      have below := seq_le_highestSeq held
      show event.seq < highestSeq (logOf events threadId) + skipped + 1
      omega
  · rw [if_neg same, append_nil]
    exact ascending

theorem forThread_record (counter : UsageCounter) (id threadId : String) (usage : UsageSnapshot) :
    (counter.record id usage).2.forThread threadId =
      if id = threadId then UsageCounter.next (counter.forThread threadId) usage
      else counter.forThread threadId := by
  show ((find Prod.fst threadId (put Prod.fst (id, UsageCounter.next (counter.forThread id) usage)
    counter.perThread)).map Prod.snd).getD emptyUsageSnapshot = _
  by_cases same : id = threadId
  · subst same
    rw [if_pos rfl, find_put_self Prod.fst (id, _) counter.perThread]
    rfl
  · rw [if_neg same, find_put_other same]
    rfl

/-- One more action counts what it reports for the thread, and nothing else. -/
theorem counted_step (counted : Counted threadId usages world) (action : UsageAction) :
    Counted threadId (usages ++ usagesOf threadId [action]) (step world action) := by
  cases action with
  | usage id turnId model usage timestamp skipped =>
    refine ⟨?_, ?_, ascending_recordEvent counted.ascending id timestamp skipped _⟩
    · show (world.counter.record id usage).2.forThread threadId = _
      rw [forThread_record, counted.live]
      by_cases same : id = threadId <;> simp [usagesOf, same]
    · show recordedUsages (logOf (recordEvent world.events id timestamp skipped (.usage turnId model
        (UsageCounter.next (world.counter.forThread id) usage))) threadId) = _
      rw [logOf_recordEvent]
      by_cases same : id = threadId
      · subst same
        have reported : usagesOf id [.usage id turnId model usage timestamp skipped] = [usage] := by
          simp [usagesOf]
        rw [if_pos rfl, recordedUsages, filterMap_append, reported, totals_append,
          ← counted.live, ← counted.recorded]
        rfl
      · rw [if_neg same, append_nil, counted.recorded]
        simp [usagesOf, same]
  | other id kind timestamp skipped =>
    refine ⟨?_, ?_, ascending_recordEvent counted.ascending id timestamp skipped _⟩
    · simpa [usagesOf, step] using counted.live
    · show recordedUsages (logOf (recordEvent world.events id timestamp skipped (.other kind)) threadId) = _
      rw [logOf_recordEvent, recordedUsages, filterMap_append]
      have silent : recordedUsages (if id = threadId then
          [⟨highestSeq (logOf world.events threadId) + skipped + 1, timestamp, threadId,
            .other kind⟩] else []) = [] := by
        by_cases same : id = threadId <;> simp [same, recordedUsages, carriedUsage]
      have before := counted.recorded
      unfold recordedUsages at silent before
      rw [silent, before]
      simp [usagesOf]

theorem counted_run (threadId : String) (actions : List UsageAction) :
    Counted threadId (usagesOf threadId actions) (run actions) := by
  induction actions using List.reverseRecOn with
  | nil => exact ⟨rfl, rfl, by simp [Ascending, run, logOf]⟩
  | append_singleton before action ih =>
    have more : usagesOf threadId (before ++ [action]) =
        usagesOf threadId before ++ usagesOf threadId [action] := filterMap_append
    rw [more, run, foldl_append]
    exact counted_step ih action

/-- The usage that a thread's log projects to is the usage counted live exactly when at most
one response of the thread has reported its usage. -/
theorem projected_usage_iff (threadId : String) (actions : List UsageAction) :
    counters (replayRuntimeEvents (logOf (run actions).events threadId)).usage =
      counters ((run actions).counter.forThread threadId) ↔
      (usagesOf threadId actions).length ≤ 1 := by
  have counted := counted_run threadId actions
  rw [replay_usage counted.ascending, counted.recorded, counted.live]
  exact sum_of_totals_iff

private def response (turnId model timestamp : String) (promptTokens : Nat) : UsageAction :=
  .usage "thr_1" turnId model
    { promptTokens, completionTokens := 2, totalTokens := promptTokens + 2, turns := 1 } timestamp 0

/-- Two steps of a turn with 10 and 20 prompt tokens: 30 are counted and 40 projected. -/
theorem second_response_counted_twice :
    ((run [response "turn_1" "m" "t1" 10, response "turn_1" "m" "t2" 20]).counter.forThread
        "thr_1").promptTokens = 30 ∧
      (replayRuntimeEvents (logOf
        (run [response "turn_1" "m" "t1" 10, response "turn_1" "m" "t2" 20]).events
        "thr_1")).usage.promptTokens = 40 ∧
      counters (replayRuntimeEvents (logOf
        (run [response "turn_1" "m" "t1" 10, response "turn_1" "m" "t2" 20]).events "thr_1")).usage ≠
        counters ((run [response "turn_1" "m" "t1" 10, response "turn_1" "m" "t2" 20]).counter.forThread
          "thr_1") := by
  refine ⟨by decide, by decide, fun same => ?_⟩
  have tokens := congrArg UsageSnapshot.promptTokens same
  exact absurd tokens (by decide)

end QiongQi.UsageProjections
