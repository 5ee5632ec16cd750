import QiongQi.KernelReducers
import QiongQi.ProgressProjections

/-! The evidence count of a task over a sequence of batches of observations. A digest is known as
long as it is among the last 64, so it counts again once 64 others have come after it. -/
namespace QiongQi.EvidenceCounts
open JsonValues RuntimeContracts RuntimeKernels TaskStates KernelNodes LoopGovernors List
  ProgressProjections

section
variable {α : Type} {values front back : List α} {value : α}

/-- 64 others stand among the values. -/
def Spaced (value : α) (between : List α) : Prop :=
  ∃ others : List α, others.Nodup ∧ others.length = 64 ∧ value ∉ others ∧ others ⊆ between

/-- A value is still known, and only later ones are behind it, or 64 others came later. -/
def Known (window : List α) (value : α) (later : List α) : Prop :=
  (∃ front back, window = front ++ value :: back ∧ back ⊆ later) ∨ Spaced value later

theorem known_lastOf (distinct : (front ++ value :: back).Nodup) :
    Known (lastOf 64 (front ++ value :: back)) value back := by
  by_cases kept : (front ++ value :: back).length - 64 ≤ front.length
  · rw [lastOf, drop_append_of_le_length kept]
    exact .inl ⟨_, back, rfl, fun _ => id⟩
  · have inside : lastOf 64 (front ++ value :: back) ⊆ back := by
      unfold lastOf
      rw [drop_append, drop_eq_nil_of_le (by omega), nil_append]
      have more : (front ++ value :: back).length - 64 - front.length ≠ 0 := by omega
      obtain ⟨count, counted⟩ := Nat.exists_eq_succ_of_ne_zero more
      rw [counted, drop_succ_cons]
      exact (drop_sublist _ _).subset
    refine .inr ⟨_, distinct.sublist (drop_sublist _ _), ?_, fun held => ?_, inside⟩
    · rw [length_drop]
      omega
    · exact (nodup_cons.mp (nodup_append.mp distinct).2.1).1 (inside held)

theorem Known.later {window later more : List α} (known : Known window value later)
    (subset : later ⊆ more) : Known window value more := by
  obtain ⟨front, back, whole, inside⟩ | ⟨others, distinct, length, apart, inside⟩ := known
  · exact .inl ⟨front, back, whole, fun _ held => subset (inside held)⟩
  · exact .inr ⟨others, distinct, length, apart, fun _ held => subset (inside held)⟩

variable [DecidableEq α]

theorem nodup_eraseDups (values : List α) : values.eraseDups.Nodup := by
  induction length : values.length using Nat.strongRecOn generalizing values with
  | ind count ih =>
    cases values with
    | nil => exact .nil
    | cons value rest =>
      rw [eraseDups_cons]
      refine nodup_cons.mpr ⟨fun held => ?_, ih _ ?_ _ rfl⟩
      · simpa using of_mem_filter (mem_eraseDups.mp held)
      · rw [← length]
        exact Nat.lt_succ_of_le (length_filter_le _ _)

theorem eraseDups_of_nodup (distinct : values.Nodup) : values.eraseDups = values := by
  induction values with
  | nil => rfl
  | cons value rest ih =>
    obtain ⟨fresh, later⟩ := nodup_cons.mp distinct
    have whole : rest.filter (fun other => !(other == value)) = rest :=
      filter_eq_self.mpr fun other held => by simpa using ne_of_mem_of_not_mem held fresh
    rw [eraseDups_cons, whole, ih later]

/-- A value that is counted twice has 64 others in between. -/
def Apart (counted : List α) : Prop :=
  ∀ front value between back, counted = front ++ value :: (between ++ value :: back) → Spaced value between

/-- What the window knows of the values counted so far. -/
def Windowed (window counted : List α) : Prop :=
  ∀ front value later, counted = front ++ value :: later → Known window.eraseDups value later

variable {window counted fresh : List α}

theorem windowed_next (windowed : Windowed window counted) (distinct : fresh.Nodup)
    (unknown : ∀ value ∈ fresh, value ∉ window) :
    Windowed (lastOf 64 (window ++ fresh).eraseDups) (counted ++ fresh) := by
  have apart : (window.eraseDups ++ fresh).Nodup :=
    nodup_append.mpr ⟨nodup_eraseDups window, distinct, fun value held other inside same =>
      unknown other inside (same ▸ mem_eraseDups.mp held)⟩
  have whole : (window ++ fresh).eraseDups = window.eraseDups ++ fresh := by
    have new : fresh.removeAll window = fresh :=
      filter_eq_self.mpr fun value held => by simpa using unknown value held
    rw [eraseDups_append, new, eraseDups_of_nodup distinct]
  rw [whole]
  intro front value later split
  rw [eraseDups_of_nodup (apart.sublist (drop_sublist _ _) : (lastOf 64 _).Nodup)]
  obtain ⟨between, rfl, rest⟩ | ⟨between, rfl, rest⟩ := append_eq_append_iff.mp split
  · -- the value is one of the fresh ones
    rw [rest, ← append_assoc] at apart ⊢
    exact known_lastOf apart
  · cases between with
    | nil =>
      rw [nil_append] at rest
      rw [← rest] at apart ⊢
      exact known_lastOf apart
    | cons first between =>
      obtain ⟨rfl, rfl⟩ := List.cons.inj rest
      obtain ⟨before, back, held, inside⟩ | spaced := windowed front value between rfl
      · rw [held, append_assoc, cons_append] at apart ⊢
        refine (known_lastOf apart).later fun other member => ?_
        exact mem_append.mpr ((mem_append.mp member).imp (@inside other) id)
      · have known : Known (lastOf 64 (window.eraseDups ++ fresh)) value between := .inr spaced
        exact known.later fun _ => mem_append_left _

theorem apart_next (apart : Apart counted) (windowed : Windowed window counted)
    (distinct : fresh.Nodup) (unknown : ∀ value ∈ fresh, value ∉ window) :
    Apart (counted ++ fresh) := by
  intro front value between back split
  have once : ∀ before after, fresh ≠ before ++ value :: (after ++ value :: back) := by
    rintro before after rfl
    have twice := (nodup_append.mp distinct).2.1
    exact (nodup_cons.mp twice).1 (mem_append_right _ mem_cons_self)
  -- What was counted up to the value's return is known apart from the window.
  have returned : ∀ later, counted = front ++ value :: later → value ∈ fresh →
      later ⊆ between → Spaced value between := by
    intro later held inside subset
    obtain ⟨before, after, member, -⟩ | spaced := (windowed front value later held).later subset
    · refine absurd (mem_eraseDups.mp ?_) (unknown value inside)
      rw [member]
      exact mem_append_right _ mem_cons_self
    · exact spaced
  obtain ⟨before, rfl, rest⟩ | ⟨held, rfl, rest⟩ := append_eq_append_iff.mp split
  · exact absurd rest (once before between)
  · cases held with
    | nil => exact absurd rest.symm (once [] between)
    | cons first held =>
      obtain ⟨rfl, later⟩ := List.cons.inj rest
      obtain ⟨more, rfl, tail⟩ | ⟨more, rfl, tail⟩ := append_eq_append_iff.mp later
      · cases more with
        | nil =>
          rw [nil_append] at tail
          rw [append_nil] at returned
          exact returned _ rfl (tail ▸ mem_cons_self) fun _ => id
        | cons second more =>
          obtain ⟨rfl, -⟩ := List.cons.inj tail
          exact apart front value between more rfl
      · refine returned _ rfl ?_ (subset_append_left _ _)
        rw [tail]
        exact mem_append_right _ mem_cons_self

end

structure Batch where
  todos : Option (List TaskTodoProjection)
  observations : List ToolObservation
  now : NonEmptyString

/-- A task after its batches, with the digests that were counted on the way. -/
def projectAll (digest : Json → NonEmptyString) :
    TaskStateV1 → List Batch → Except ForeignError (TaskStateV1 × List NonEmptyString)
  | current, [] => .ok (current, [])
  | current, batch :: rest => do
    let projection ← projectTaskState digest current batch.todos batch.observations batch.now
    let (final, counted) ← projectAll digest projection.state rest
    return (final, (freshObservations current batch.observations).map ToolObservation.resultDigest ++ counted)

def evidenceCount (state : TaskStateV1) : Nat :=
  (state.progress.map fun progress => progress.evidenceCount.value).getD 0

/-- No two observations that may count have one digest. -/
def Batch.Distinct (batch : Batch) : Prop :=
  ((batch.observations.filter fun observation => !observation.failed && !observation.replayed).map
    ToolObservation.resultDigest).Nodup

variable {digest : Json → NonEmptyString} {current : TaskStateV1}

theorem safeNatOf_value (read : safeNatOf value = some safe) : safe.value = value := by
  unfold safeNatOf at read
  split at read
  · cases read
    rfl
  · cases read

theorem nextProgress_counts {count : Nat}
    (made : nextProgress current fresh count level value = some progress) :
    progress.evidenceCount.value = evidenceCount current + fresh.length ∧
      progress.lastObservationDigests = nextDigests current fresh := by
  simp only [nextProgress, Option.bind_eq_bind, Option.bind_eq_some_iff] at made
  obtain ⟨evidence, counted, artifacts, -, made⟩ := made
  rw [← Option.some.inj made]
  exact ⟨safeNatOf_value counted, rfl⟩

theorem nextState_progress
    (parsed : nextState current actions artifacts progress now = some state) :
    ∃ made, progress = some made ∧ state.progress = some made := by
  simp only [nextState, Option.bind_eq_bind, Option.bind_eq_some_iff] at parsed
  obtain ⟨revision, -, completed, -, pending, -, made, read, parsed⟩ := parsed
  split at parsed
  · rw [← Option.some.inj parsed]
    exact ⟨made, read, rfl⟩
  · cases parsed

/-- What a projection counts, and the window it leaves. -/
theorem projectTaskState_counts
    (done : projectTaskState digest current todos observations now = .ok projection) :
    evidenceCount projection.state = evidenceCount current + (freshObservations current observations).length ∧
      (lastObservationDigests projection.state = nextDigests current
          (freshObservations current observations) ∨
        projection.state = current ∧ freshObservations current observations = []) := by
  unfold projectTaskState at done
  dsimp only at done
  split at done
  · obtain ⟨progress, made, stored⟩ := nextState_progress (projected_ok done).1
    obtain ⟨counted, window⟩ := nextProgress_counts made
    rw [evidenceCount, lastObservationDigests, stored]
    exact ⟨counted, .inl window⟩
  · rename_i same
    cases done
    simp only [Bool.or_eq_true, decide_eq_true_eq, not_or, Nat.not_lt] at same
    have none := length_eq_zero_iff.mp (Nat.le_zero.mp same.1.1.1.2)
    exact ⟨by rw [none]; rfl, .inr ⟨rfl, none⟩⟩

theorem fresh_digests {batch : Batch} (distinct : batch.Distinct) :
    ((freshObservations current batch.observations).map ToolObservation.resultDigest).Nodup ∧
      ∀ value ∈ (freshObservations current batch.observations).map ToolObservation.resultDigest,
        value ∉ lastObservationDigests current := by
  constructor
  · refine distinct.sublist (List.Sublist.map _ ?_)
    rw [freshObservations, filter_filter]
    refine monotone_filter_right _ fun observation held => ?_
    simp only [Bool.and_eq_true] at held ⊢
    exact ⟨held.2, held.1.1⟩
  · intro value held
    obtain ⟨observation, found, rfl⟩ := mem_map.mp held
    have unknown := (mem_filter.mp found).2
    simp only [Bool.and_eq_true, Bool.not_eq_true', contains_eq_mem, decide_eq_false_iff_not] at unknown
    exact unknown.2

theorem projectAll_apart :
    ∀ {current before counted}, projectAll digest current batches = .ok (final, counted) →
      (∀ batch ∈ batches, batch.Distinct) → Apart before →
      Windowed (lastObservationDigests current) before →
      evidenceCount final = evidenceCount current + counted.length ∧ Apart (before ++ counted) := by
  induction batches with
  | nil =>
    intro current before counted ran _ apart _
    cases ran
    exact ⟨rfl, by rwa [append_nil]⟩
  | cons batch rest ih =>
    intro current before counted ran distinct apart windowed
    obtain ⟨here, later⟩ := forall_mem_cons.mp distinct
    obtain ⟨projection, projected, ran⟩ := KernelReducers.except_bind ran
    obtain ⟨⟨last, more⟩, ran', whole⟩ := KernelReducers.except_bind ran
    obtain ⟨rfl, rfl⟩ := Prod.mk.inj (Except.ok.inj whole)
    obtain ⟨evidence, moved⟩ := projectTaskState_counts projected
    obtain ⟨single, unknown⟩ := @fresh_digests current batch here
    have apart := apart_next apart windowed single unknown
    have windowed : Windowed (lastObservationDigests projection.state) (before ++
        (freshObservations current batch.observations).map ToolObservation.resultDigest) := by
      obtain next | ⟨same, none⟩ := moved
      · rw [next]
        exact windowed_next windowed single unknown
      · rw [same, none, map_nil, append_nil]
        exact windowed
    obtain ⟨counts, apart⟩ := ih ran' later apart windowed
    rw [append_assoc] at apart
    refine ⟨?_, apart⟩
    rw [counts, evidence, length_append, length_map, Nat.add_assoc]

/-- Where no batch has a digest twice, every counted digest adds one, and a digest is counted again
only after 64 others. -/
theorem counted_apart (digest : Json → NonEmptyString) (current final : TaskStateV1)
    (batches : List Batch) (counted : List NonEmptyString)
    (ran : projectAll digest current batches = .ok (final, counted))
    (distinct : ∀ batch ∈ batches, batch.Distinct) :
    evidenceCount final = evidenceCount current + counted.length ∧ Apart counted := by
  have start : Apart ([] : List NonEmptyString) := by
    intro front value between back split
    simp at split
  exact projectAll_apart ran distinct start fun front value later split => by simp at split

/-- The result of a read with the digest of a number. -/
def readResult (number : Nat) : ToolObservation where
  callId := named "c1"
  toolName := named "read"
  effect := .read
  capabilityClass := named "filesystem.read"
  resourceKeys := []
  canonicalArgumentsDigest := named "args"
  resultDigest := named (toString number)
  resultItemId := named "r1"
  artifactRefs := []
  failed := false
  replayed := false

def readBatch (numbers : List Nat) : Batch := ⟨none, numbers.map readResult, named "later"⟩

theorem counted_apart_two : ∃ final counted,
    projectAll (fun _ => named "digest") readTask [readBatch [0, 1]] = .ok (final, counted) ∧
      evidenceCount final = evidenceCount readTask + counted.length ∧ Apart counted := by
  refine ⟨_, _, rfl, counted_apart (fun _ => named "digest") readTask _ [readBatch [0, 1]] _ rfl ?_⟩
  rw [forall_mem_singleton, Batch.Distinct]
  decide

/-- A result that is read again after 64 others counts twice. -/
theorem counted_twice : ∃ final counted, projectAll (fun _ => named "digest") readTask
        [readBatch [0], readBatch ((List.range 64).map (· + 1)), readBatch [0]] =
      .ok (final, counted) ∧
    evidenceCount final = 66 ∧ counted.eraseDups.length = 65 ∧ counted.count (named (toString 0)) = 2 := by
  refine ⟨_, _, rfl, ?_, ?_, ?_⟩
  all_goals decide

end QiongQi.EvidenceCounts
