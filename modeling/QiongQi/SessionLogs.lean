import Mathlib.Data.List.Sort

/-! The event log of one thread, as `FileSessionStore` keeps it: what it answers, and
what compacting its usage events leaves of it. -/
namespace QiongQi.SessionLogs
open List

/-- The fields of an event that numbering, replay and compaction look at. -/
structure RuntimeEvent where
  seq : Nat
  kind : String
  timestamp : String
  model : Option String := none
  deriving DecidableEq

def highestSeq (events : List RuntimeEvent) : Nat :=
  events.foldl (fun highest event => max highest event.seq) 0

def loadEventsSince (events : List RuntimeEvent) (sinceSeq : Nat) : List RuntimeEvent :=
  (events.filter fun event => sinceSeq < event.seq).insertionSort fun left right =>
    left.seq ≤ right.seq

def isUsage (event : RuntimeEvent) : Bool := event.kind = "usage"

/-- The settings of usage compaction, and the date functions it calls: `Date.parse`
(`none` for `NaN`) and the day of a timestamp that parses. -/
structure UsageEventCompaction where
  dateParse : String → Option Int
  isoDay : String → String
  retentionDays : Nat

def msPerDay : Int := 86400000

variable (compaction : UsageEventCompaction)

def usageCoalescingBucket (event : RuntimeEvent) : String :=
  let day := if (compaction.dateParse event.timestamp).isSome then compaction.isoDay event.timestamp
    else event.timestamp
  day ++ ":" ++ event.model.getD ""

/-- The index of the last usage event. -/
def latestUsageIndex (events : List RuntimeEvent) : Option Nat :=
  ((events.zipIdx.filter fun entry => isUsage entry.1).getLast?).map Prod.snd

def beforeCutoff (cutoffMs : Int) (event : RuntimeEvent) : Bool :=
  match compaction.dateParse event.timestamp with
  | some timestamp => timestamp < cutoffMs
  | none => false

def latestBeforeCutoffIndex (cutoffMs : Int) (events : List RuntimeEvent) : Option Nat :=
  ((events.zipIdx.filter fun entry =>
    isUsage entry.1 && beforeCutoff compaction cutoffMs entry.1).getLast?).map Prod.snd

/-- Asked of usage events only. -/
def shouldRetainUsageEvent (cutoffMs : Int) (latest latestBefore : Option Nat)
    (event : RuntimeEvent) (index : Nat) : Bool :=
  some index = latest || some index = latestBefore || !beforeCutoff compaction cutoffMs event

/-- The indexes kept so far, and the latest one of each bucket. -/
structure CompactionState where
  keep : List Nat := []
  latestByBucket : List (String × Nat) := []

/-- An earlier event of the bucket gives way, unless it closes the time before the
cutoff. -/
def coalesce (latestBefore : Option Nat) (keep : List Nat) : Option Nat → List Nat
  | none => keep
  | some previous =>
    if some previous = latestBefore then keep else keep.filter fun index => index ≠ previous

def compactEvent (cutoffMs : Int) (latest latestBefore : Option Nat) (state : CompactionState)
    (entry : RuntimeEvent × Nat) : CompactionState :=
  if !isUsage entry.1 then { state with keep := state.keep ++ [entry.2] }
  else if !shouldRetainUsageEvent compaction cutoffMs latest latestBefore entry.1 entry.2 then state
  else
    let bucket := usageCoalescingBucket compaction entry.1
    { keep := coalesce latestBefore state.keep (state.latestByBucket.lookup bucket) ++ [entry.2]
      latestByBucket := (bucket, entry.2) :: state.latestByBucket }

def compactUsageEvents (events : List RuntimeEvent) (nowIso : String) : List RuntimeEvent :=
  match compaction.dateParse nowIso, latestUsageIndex events with
  | some now, some latest =>
    let cutoffMs := now - compaction.retentionDays * msPerDay
    let compacted := events.zipIdx.foldl (compactEvent compaction cutoffMs (some latest)
      (latestBeforeCutoffIndex compaction cutoffMs events)) {}
    (events.zipIdx.filter fun entry => compacted.keep.contains entry.2).map Prod.fst
  | _, _ => events

/-- The log after a compaction: it is written only where it got shorter. -/
def compactedLog (log contents : List RuntimeEvent) (nowIso : String) : List RuntimeEvent :=
  let compacted := compactUsageEvents compaction contents nowIso
  if compacted.length < contents.length then compacted else log

private theorem highest_from (events : List RuntimeEvent) :
    ∀ start, start ≤ events.foldl (fun highest event => max highest event.seq) start ∧
      (∀ event ∈ events, event.seq ≤ events.foldl (fun highest event => max highest event.seq) start) ∧
      ∀ bound, start ≤ bound → (∀ event ∈ events, event.seq ≤ bound) →
        events.foldl (fun highest event => max highest event.seq) start ≤ bound := by
  induction events with
  | nil => exact fun start => ⟨le_refl _, fun _ found => (not_mem_nil found).elim, fun _ below _ => below⟩
  | cons event rest ih =>
    intro start
    obtain ⟨base, others, least⟩ := ih (max start event.seq)
    simp only [foldl_cons]
    refine ⟨by omega, ?_, ?_⟩
    · intro stored found
      rcases mem_cons.mp found with rfl | found
      · omega
      · exact others stored found
    · intro bound below bounded
      have first := bounded event mem_cons_self
      apply least
      · omega
      · exact fun stored found => bounded stored (mem_cons_of_mem _ found)

variable {events : List RuntimeEvent}

theorem seq_le_highestSeq (found : event ∈ events) : event.seq ≤ highestSeq events :=
  (highest_from events 0).2.1 event found

theorem highestSeq_le (bounded : ∀ event ∈ events, event.seq ≤ bound) : highestSeq events ≤ bound :=
  (highest_from events 0).2.2 bound (Nat.zero_le _) bounded

@[simp] theorem highestSeq_append (events : List RuntimeEvent) (event : RuntimeEvent) :
    highestSeq (events ++ [event]) = max (highestSeq events) event.seq := by
  simp [highestSeq]

@[simp] theorem mem_loadEventsSince {sinceSeq : Nat} {event : RuntimeEvent} :
    event ∈ loadEventsSince events sinceSeq ↔ event ∈ events ∧ sinceSeq < event.seq := by
  simp [loadEventsSince]

section
variable {compaction : UsageEventCompaction} {latest latestBefore : Option Nat}
variable {entry : RuntimeEvent × Nat} {index : Nat}

private theorem compactEvent_other (other : isUsage entry.1 = false) :
    compactEvent compaction cutoffMs latest latestBefore state entry =
      { state with keep := state.keep ++ [entry.2] } := by
  simp [compactEvent, other]

private theorem compactEvent_keeps (kept : index ∈ state.keep)
    (other : ∀ bucket previous, state.latestByBucket.lookup bucket = some previous → previous ≠ index) :
    index ∈ (compactEvent compaction cutoffMs latest latestBefore state entry).keep := by
  unfold compactEvent
  split
  · exact mem_append_left _ kept
  split
  · exact kept
  apply mem_append_left
  cases found : state.latestByBucket.lookup (usageCoalescingBucket compaction entry.1) with
  | none => exact kept
  | some previous =>
    have apart := other _ previous found
    simp only [coalesce]
    split
    · exact kept
    · simp only [mem_filter, decide_eq_true_eq]
      exact ⟨kept, fun same => apart same.symm⟩

private theorem latest_usage (entries : List (RuntimeEvent × Nat)) :
    ∀ state : CompactionState, ∀ bucket index,
      (bucket, index) ∈ (entries.foldl (compactEvent compaction cutoffMs latest latestBefore)
        state).latestByBucket →
      (bucket, index) ∈ state.latestByBucket ∨ ∃ event, (event, index) ∈ entries ∧ isUsage event = true := by
  induction entries with
  | nil => exact fun _ _ _ found => .inl found
  | cons entry rest ih =>
    intro state bucket index found
    rcases ih _ bucket index found with before | ⟨event, later, usage⟩
    · unfold compactEvent at before
      split at before
      · exact .inl before
      rename_i usage
      split at before
      · exact .inl before
      rcases mem_cons.mp before with same | before
      · obtain ⟨-, rfl⟩ := Prod.mk.inj same
        exact .inr ⟨entry.1, mem_cons_self, by simpa using usage⟩
      · exact .inl before
    · exact .inr ⟨event, mem_cons_of_mem _ later, usage⟩

private theorem lookup_mem {entries : List (String × Nat)}
    (found : entries.lookup bucket = some index) : (bucket, index) ∈ entries := by
  obtain ⟨front, back, split, -⟩ := lookup_eq_some_iff.mp found
  rw [split]
  exact mem_append_right _ mem_cons_self

private theorem fold_keeps (entries : List (RuntimeEvent × Nat))
    (apart : ∀ entry ∈ entries, isUsage entry.1 = true → entry.2 ≠ index) :
    ∀ state : CompactionState, index ∈ state.keep →
      (∀ bucket previous, (bucket, previous) ∈ state.latestByBucket → previous ≠ index) →
      index ∈ (entries.foldl (compactEvent compaction cutoffMs latest latestBefore) state).keep := by
  induction entries with
  | nil => exact fun _ kept _ => kept
  | cons entry rest ih =>
    intro state kept other
    apply ih fun later found => apart later (mem_cons_of_mem _ found)
    · apply compactEvent_keeps kept
      exact fun bucket previous found => other bucket previous (lookup_mem found)
    · intro bucket previous found
      rcases latest_usage [entry] state bucket previous found with before | ⟨event, first, usage⟩
      · exact other bucket previous before
      · rw [← mem_singleton.mp first] at apart
        exact apart (event, previous) mem_cons_self usage

private theorem fold_grows (entries : List (RuntimeEvent × Nat))
    (others : ∀ entry ∈ entries, isUsage entry.1 = false) :
    ∀ state : CompactionState, index ∈ state.keep →
      index ∈ (entries.foldl (compactEvent compaction cutoffMs latest latestBefore) state).keep := by
  induction entries with
  | nil => exact fun _ kept => kept
  | cons entry rest ih =>
    intro state kept
    apply ih fun later found => others later (mem_cons_of_mem _ found)
    rw [compactEvent_other (others entry mem_cons_self)]
    exact mem_append_left _ kept

private theorem index_unique (first : (left, index) ∈ events.zipIdx)
    (second : (right, index) ∈ events.zipIdx) : left = right := by
  rw [mem_zipIdx_iff_getElem?] at first second
  exact Option.some.inj (first.symm.trans second)

private theorem other_kept (listed : entry ∈ events.zipIdx) (other : isUsage entry.1 = false) :
    entry.2 ∈ (events.zipIdx.foldl (compactEvent compaction cutoffMs latest latestBefore)
      {}).keep := by
  obtain ⟨event, index⟩ := entry
  obtain ⟨front, back, split⟩ := append_of_mem listed
  have apart : ∀ usage, (usage, index) ∈ events.zipIdx → isUsage usage ≠ true := by
    intro usage elsewhere positive
    rw [index_unique elsewhere listed, other] at positive
    cases positive
  rw [split, foldl_append, foldl_cons, compactEvent_other other]
  refine fold_keeps back ?_ _ (mem_append_right _ mem_cons_self) ?_
  · rintro ⟨usage, position⟩ later positive rfl
    refine apart usage ?_ positive
    rw [split]
    exact mem_append_right _ (mem_cons_of_mem _ later)
  · rintro bucket previous before rfl
    rcases latest_usage front {} bucket previous before with nothing | ⟨usage, earlier, positive⟩
    · cases nothing
    · refine apart usage ?_ positive
      rw [split]
      exact mem_append_left _ earlier

theorem compactUsageEvents_others (events : List RuntimeEvent) (nowIso : String) :
    (compactUsageEvents compaction events nowIso).filter (fun event => !isUsage event) =
      events.filter fun event => !isUsage event := by
  unfold compactUsageEvents
  split
  · conv => rhs; rw [← zipIdx_map_fst 0 events]
    rw [filter_map, filter_map, filter_filter]
    refine congrArg (List.map Prod.fst) (filter_congr fun entry listed => ?_)
    cases usage : isUsage entry.1 with
    | true => simp [Function.comp, usage]
    | false =>
      simpa [Function.comp, usage] using other_kept listed usage
  · rfl

theorem compactUsageEvents_other (found : event ∈ events) (other : isUsage event = false) :
    event ∈ compactUsageEvents compaction events nowIso := by
  have listed : event ∈ events.filter fun event => !isUsage event :=
    mem_filter.mpr ⟨found, by simp [other]⟩
  have same := @compactUsageEvents_others compaction events nowIso
  rw [← same] at listed
  exact (mem_filter.mp listed).1

/-- The last usage event of a log. -/
def lastUsage (events : List RuntimeEvent) : Option RuntimeEvent :=
  (events.filter isUsage).getLast?

private theorem lastUsage_zipIdx : lastUsage events =
      ((events.zipIdx.filter fun entry => isUsage entry.1).getLast?).map Prod.fst := by
  have mapped : events.filter isUsage = (events.zipIdx.filter fun entry => isUsage entry.1).map Prod.fst := by
    conv => lhs; rw [← zipIdx_map_fst 0 events]
    rw [filter_map]
    rfl
  rw [lastUsage, mapped, getLast?_map]

theorem compactUsageEvents_last {event : RuntimeEvent} (nowIso : String)
    (last : lastUsage events = some event) :
    event ∈ compactUsageEvents compaction events nowIso := by
  rw [lastUsage_zipIdx] at last
  obtain ⟨⟨_, index⟩, final, rfl⟩ := Option.map_eq_some_iff.mp last
  have position : latestUsageIndex events = some index := by
    simp only [latestUsageIndex, final, Option.map_some]
  obtain ⟨usages, ended⟩ := getLast?_eq_some_iff.mp final
  obtain ⟨front, others, split, -, rest⟩ := filter_eq_append_iff.mp ended
  obtain ⟨middle, back, between, -, usage, nothing⟩ := filter_eq_cons_iff.mp rest
  have quiet : ∀ entry ∈ back, isUsage entry.1 = false := by
    intro entry found
    simpa using filter_eq_nil_iff.mp nothing entry found
  have listed : (_, index) ∈ events.zipIdx := (mem_filter.mp (mem_of_getLast? final)).1
  unfold compactUsageEvents
  split
  · rename_i now latest _ latestFound
    rw [position] at latestFound
    cases latestFound
    refine mem_map.mpr ⟨(_, index), mem_filter.mpr ⟨listed, ?_⟩, rfl⟩
    simp only [contains_eq_mem, decide_eq_true_eq]
    generalize latestBeforeCutoffIndex compaction _ events = latestBefore
    rw [split, between, foldl_append, foldl_append, foldl_cons]
    refine fold_grows back quiet _ ?_
    simp only [compactEvent, usage, shouldRetainUsageEvent, decide_true, Bool.true_or, Bool.not_true]
    exact mem_append_right _ mem_cons_self
  · exact (mem_zipIdx' listed).2 ▸ getElem_mem _

theorem compactUsageEvents_sublist :
    (compactUsageEvents compaction events nowIso).Sublist events := by
  unfold compactUsageEvents
  split
  · have kept : ∀ keeps : RuntimeEvent × Nat → Bool,
        ((events.zipIdx.filter keeps).map Prod.fst).Sublist (events.zipIdx.map Prod.fst) :=
      fun keeps => filter_sublist.map Prod.fst
    rw [zipIdx_map_fst] at kept
    exact kept _
  · exact List.Sublist.refl events

theorem compactedLog_sublist (compaction : UsageEventCompaction) (log : List RuntimeEvent)
    (nowIso : String) : (compactedLog compaction log log nowIso).Sublist log := by
  unfold compactedLog
  simp only
  split
  · exact compactUsageEvents_sublist
  · exact List.Sublist.refl log

/-- No usage event of the log has a higher number than the last one. -/
def UsageInOrder (log : List RuntimeEvent) : Prop :=
  ∀ event ∈ log, isUsage event = true → ∃ last, last ∈ lastUsage log ∧ event.seq ≤ last.seq

instance (log : List RuntimeEvent) : Decidable (UsageInOrder log) :=
  inferInstanceAs (Decidable (∀ event ∈ log, isUsage event = true →
    ∃ last, last ∈ lastUsage log ∧ event.seq ≤ last.seq))

/-- Where usage events are in order, compaction keeps the highest number. -/
theorem highestSeq_compacted (nowIso : String) (ordered : UsageInOrder log) :
    highestSeq (compactedLog compaction log log nowIso) = highestSeq log := by
  unfold compactedLog
  simp only
  split
  · apply le_antisymm
    · exact highestSeq_le fun event found => seq_le_highestSeq (compactUsageEvents_sublist.mem found)
    · apply highestSeq_le
      intro event found
      by_cases usage : isUsage event = true
      · obtain ⟨last, present, below⟩ := ordered event found usage
        exact le_trans below (seq_le_highestSeq (compactUsageEvents_last nowIso present))
      · have other : isUsage event = false := by simpa using usage
        exact seq_le_highestSeq (compactUsageEvents_other found other)
  · rfl

end

end QiongQi.SessionLogs
