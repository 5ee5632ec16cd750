import Mathlib.Data.List.Count
import QiongQi.Machines

/-! Child runs of `DelegationRuntime`: calls of `runChild` that overlap at their awaits, the
records that they list and write, and the limits of a runtime. -/
namespace QiongQi.Delegations
open Machines

structure SubagentsCapabilityConfig where
  enabled : Bool
  maxParallel : Nat
  maxChildRuns : Nat

inductive ChildRunStatus
  | queued
  | running
  | completed
  | failed
  | aborted
  deriving DecidableEq

/-- What `runChild` is called with, as far as a record keeps it. -/
structure Input where
  parentThreadId : String
  parentTurnId : String
  prompt : String
  deriving DecidableEq

structure ChildRunRecord where
  id : String
  parentThreadId : String
  parentTurnId : String
  prompt : String
  status : ChildRunStatus
  deriving DecidableEq

/-- The file of a record: the directory of its parent and its own name. -/
def ChildRunRecord.file (record : ChildRunRecord) : String × String :=
  (record.parentThreadId, record.id)

/-- `ChildRunRecord.parse`: these texts have at least one character. -/
def ChildRunRecord.parse (record : ChildRunRecord) : Option ChildRunRecord :=
  if record.id = "" ∨ record.parentThreadId = "" ∨ record.parentTurnId = "" ∨ record.prompt = "" then
    none
  else
    some record

/-- What a call waits for. `caught` tells that the call is in its `catch` block. -/
inductive Phase
  | listing
  | reading (names : List (String × String))
  | creating (record : ChildRunRecord)
  | announcing (record : ChildRunRecord)
  | running (record : ChildRunRecord)
  | closing (record : ChildRunRecord) (caught : Bool)
  | reporting (record : ChildRunRecord) (caught : Bool)
  | returned (record : ChildRunRecord)
  | thrown
  deriving DecidableEq

structure Call where
  input : Input
  phase : Phase
  deriving DecidableEq

/-- `started` lists the parent of each child run that this runtime has begun to run. -/
structure World where
  active : Nat
  calls : List Call
  records : List ChildRunRecord
  started : List String
  deriving DecidableEq

/-- What comes back to a waiting call. Of the files that were listed, those in `missed` were
gone or not readable. -/
inductive Answer
  | names
  | texts (missed : List (String × String)) (childId : String)
  | written
  | announced
  | answered (status : ChildRunStatus)
  | threw (aborted : Bool)

inductive Action
  | runChild (input : Input)
  | resume (number : Nat) (answer : Answer)
  | deleteByThread (threadId : String)

/-- Up to its first await. -/
def runChild (config : SubagentsCapabilityConfig) (active : Nat) : Phase :=
  if ¬ config.enabled then
    .thrown
  else if active ≥ config.maxParallel then
    .thrown
  else
    .listing

/-- `readdir` of the parent's directory, or of all of them where no parent is named. -/
def fileNames (parentThreadId : String) (records : List ChildRunRecord) : List (String × String) :=
  (records.filter fun record =>
    parentThreadId = "" ∨ record.parentThreadId = parentThreadId).map ChildRunRecord.file

/-- The listing is back: the second limit, and the record of the child run. -/
def allow (config : SubagentsCapabilityConfig) (input : Input) (listed : Nat) (childId : String) : Phase :=
  if listed ≥ config.maxChildRuns then
    .thrown
  else
    match ChildRunRecord.parse
      { id := childId
        parentThreadId := input.parentThreadId
        parentTurnId := input.parentTurnId
        prompt := input.prompt
        status := .running } with
    | none => .thrown
    | some record => .creating record

/-- How many of the listed files could be read. -/
def existing (names missed : List (String × String)) : Nat :=
  (names.filter fun name => name ∉ missed).length

/-- One call goes on: what it changes outside of itself, and what it waits for next. -/
def advance (config : SubagentsCapabilityConfig) (world : World) (input : Input) :
    Phase → Answer → Option (World × Phase)
  | .listing, .names => some (world, .reading (fileNames input.parentThreadId world.records))
  | .reading names, .texts missed childId =>
    some (world, allow config input (existing names missed) childId)
  | .creating record, .written =>
    some ({ world with records := put ChildRunRecord.file record world.records }, .announcing record)
  | .announcing record, .announced =>
    some ({ world with
      active := world.active + 1
      started := input.parentThreadId :: world.started }, .running record)
  | .running record, .answered status =>
    some (world, .closing { record with status := status } false)
  | .closing record caught, .written =>
    some ({ world with records := put ChildRunRecord.file record world.records }, .reporting record caught)
  | .reporting record _, .announced =>
    some ({ world with active := world.active - 1 }, .returned record)
  | .creating _, .threw _ => some (world, .thrown)
  | .announcing _, .threw _ => some (world, .thrown)
  | .running record, .threw aborted => some (world, .closing (failure record aborted) true)
  | .closing record false, .threw aborted =>
    some (world, .closing (failure record aborted) true)
  | .reporting record false, .threw aborted =>
    some (world, .closing (failure record aborted) true)
  -- `finally` runs for an error of the `catch` block too
  | .closing _ true, .threw _ => some ({ world with active := world.active - 1 }, .thrown)
  | .reporting _ true, .threw _ => some ({ world with active := world.active - 1 }, .thrown)
  | _, _ => none
where failure (record : ChildRunRecord) (aborted : Bool) : ChildRunRecord :=
    { record with status := if aborted then .aborted else .failed }

def step (config : SubagentsCapabilityConfig) (world : World) : Action → Option World
  | .runChild input =>
    some { world with calls := world.calls ++ [⟨input, runChild config world.active⟩] }
  | .resume number answer =>
    match world.calls[number]? with
    | none => none
    | some call =>
      match advance config world call.input call.phase answer with
      | none => none
      | some (next, phase) =>
        some { next with calls := world.calls.set number { call with phase := phase } }
  | .deleteByThread threadId =>
    some { world with
      records := world.records.filter fun record => record.parentThreadId ≠ threadId }

/-- Between `active += 1` and `active -= 1`. -/
def Call.isActive (call : Call) : Bool :=
  match call.phase with
  | .running _ | .closing _ _ | .reporting _ _ => true
  | _ => false

/-- Past the first limit, and not yet active. -/
def Call.arriving (call : Call) : Bool :=
  match call.phase with
  | .listing | .reading _ | .creating _ | .announcing _ => true
  | _ => false

/-- Past the second limit, and not yet active. -/
def Call.starting (parentThreadId : String) (call : Call) : Bool :=
  match call.phase with
  | .creating _ | .announcing _ => call.input.parentThreadId = parentThreadId
  | _ => false

/-- The child runs that are active at once, and those begun for any one parent, keep to
the limits. -/
def Limited (config : SubagentsCapabilityConfig) (world : World) : Prop :=
  world.calls.countP Call.isActive ≤ config.maxParallel ∧
    ∀ parentThreadId, world.started.count parentThreadId ≤ config.maxChildRuns

/-- No call is under way, and earlier child runs have kept to the limit. -/
def Fresh (config : SubagentsCapabilityConfig) (world : World) : Prop :=
  world.active = 0 ∧ world.calls = [] ∧
    ∀ parentThreadId, world.started.count parentThreadId ≤ config.maxChildRuns

/-- The input of the call that passes the second limit here, if it does. -/
def passing (config : SubagentsCapabilityConfig) (world : World) (number : Nat)
    (missed : List (String × String)) (childId : String) : Option Input :=
  match world.calls[number]? with
  | some ⟨input, .reading names⟩ =>
    if allow config input (existing names missed) childId = .thrown then none else some input
  | _ => none

/-- A call passes the first limit only where the calls that passed it before and are yet to
become active leave room, and the second one likewise. -/
def Spaced (config : SubagentsCapabilityConfig) (world : World) : Action → Prop
  | .runChild _ => runChild config world.active = .listing →
    world.active + world.calls.countP Call.arriving < config.maxParallel
  | .resume number (.texts missed childId) =>
    ∀ input ∈ passing config world number missed childId, world.started.count input.parentThreadId +
        world.calls.countP (Call.starting input.parentThreadId) < config.maxChildRuns
  | _ => True

instance decidableSpaced (config : SubagentsCapabilityConfig) (world : World) :
    ∀ action, Decidable (Spaced config world action)
  | .runChild _ => inferInstanceAs (Decidable (_ → _))
  | .resume number (.texts missed childId) =>
    inferInstanceAs (Decidable (∀ input ∈ passing config world number missed childId, _ < _))
  | .resume _ .names | .resume _ .written | .resume _ .announced | .resume _ (.answered _)
  | .resume _ (.threw _) | .deleteByThread _ => .isTrue trivial

/-- What calls at any of their awaits keep. -/
structure Counted (config : SubagentsCapabilityConfig) (world : World) : Prop where
  active : world.active = world.calls.countP Call.isActive
  parallel : world.active + world.calls.countP Call.arriving ≤ config.maxParallel
  started : ∀ parentThreadId, world.started.count parentThreadId +
    world.calls.countP (Call.starting parentThreadId) ≤ config.maxChildRuns

theorem Counted.limited (counted : Counted config world) : Limited config world := by
  have parallel := counted.parallel
  have active := counted.active
  refine ⟨by omega, fun parentThreadId => ?_⟩
  have started := counted.started parentThreadId
  omega

theorem Fresh.counted (fresh : Fresh config world) : Counted config world := by
  obtain ⟨active, calls, started⟩ := fresh
  refine ⟨?_, ?_, fun parentThreadId => ?_⟩
  · rw [active, calls]
    rfl
  · rw [active, calls]
    exact Nat.zero_le _
  · rw [calls]
    exact started parentThreadId

section
variable {α : Type} {test : α → Bool} {items : List α} {number : Nat} {old : α}

theorem toNat_le_countP (found : items[number]? = some old) :
    (test old).toNat ≤ items.countP test := by
  cases held : test old with
  | false => exact Nat.zero_le _
  | true => exact List.countP_pos_iff.mpr ⟨old, List.mem_of_getElem? found, held⟩

theorem countP_set_add (test : α → Bool) (found : items[number]? = some old) (new : α) :
    (items.set number new).countP test + (test old).toNat = items.countP test + (test new).toNat := by
  have counted : (test old).toNat ≤ items.countP test := toNat_le_countP found
  obtain ⟨bound, rfl⟩ := List.getElem?_eq_some_iff.mp found
  rw [List.countP_set bound]
  cases held : test items[number] <;> cases test new <;> simp only [held, Bool.toNat_true,
    Bool.toNat_false, if_true, Bool.false_eq_true, if_false] at counted ⊢ <;> omega

end

section
variable {config : SubagentsCapabilityConfig} {world next : World} {input : Input}
  {phase later : Phase} {answer : Answer}

theorem allow_cases : allow config input listed childId = .thrown ∨
      ∃ record, allow config input listed childId = .creating record := by
  unfold allow
  split
  · exact .inl rfl
  · split
    · exact .inl rfl
    · exact .inr ⟨_, rfl⟩

section
variable (advanced : advance config world input phase answer = some (next, later))
include advanced

/-- A call that goes on moves its own share of the active calls. -/
theorem advance_active (held : (Call.isActive ⟨input, phase⟩).toNat ≤ world.active) :
    next.active + (Call.isActive ⟨input, phase⟩).toNat =
      world.active + (Call.isActive ⟨input, later⟩).toNat := by
  unfold advance at advanced
  split at advanced <;> cases advanced
  case h_2 names missed childId =>
    rcases allow_cases with
      thrown | ⟨record, created⟩
    · rw [thrown]
      rfl
    · rw [created]
      rfl
  all_goals
    simp only [Call.isActive, Bool.toNat_true, Bool.toNat_false] at held ⊢
    try omega

theorem advance_arriving :
    (Call.isActive ⟨input, later⟩).toNat + (Call.arriving ⟨input, later⟩).toNat ≤
      (Call.isActive ⟨input, phase⟩).toNat + (Call.arriving ⟨input, phase⟩).toNat := by
  unfold advance at advanced
  split at advanced <;> cases advanced
  case h_2 names missed childId =>
    rcases allow_cases with
      thrown | ⟨record, created⟩
    · rw [thrown]
      exact Nat.zero_le _
    · rw [created]
      exact Nat.le_refl _
  all_goals first | exact Nat.le_refl _ | exact Nat.zero_le _

theorem advance_started (parentThreadId : String) :
    next.started.count parentThreadId + (Call.starting parentThreadId ⟨input, later⟩).toNat ≤
        world.started.count parentThreadId + (Call.starting parentThreadId ⟨input, phase⟩).toNat ∨
      parentThreadId = input.parentThreadId ∧ ∃ names missed childId,
        phase = .reading names ∧ answer = .texts missed childId ∧ next = world ∧
        allow config input (existing names missed) childId ≠ .thrown := by
  unfold advance at advanced
  split at advanced <;> cases advanced
  case h_2 names missed childId =>
    rcases allow_cases with
      thrown | ⟨record, created⟩
    · rw [thrown]
      exact .inl (Nat.le_refl _)
    · by_cases same : input.parentThreadId = parentThreadId
      · exact .inr ⟨same.symm, names, missed, childId, rfl, rfl, rfl, by simp [created]⟩
      · exact .inl (by simp [Call.starting, created, same])
  case h_4 record =>
    refine .inl ?_
    by_cases same : input.parentThreadId = parentThreadId
    all_goals simp [Call.starting, same]
  all_goals
    simp only [Call.starting, Bool.toNat_false]
    exact .inl (by omega)

end

theorem step_resume (stepped : step config world (.resume number answer) = some next) :
    ∃ call after later, world.calls[number]? = some call ∧
      advance config world call.input call.phase answer = some (after, later) ∧
      next = { after with calls := world.calls.set number { call with phase := later } } := by
  simp only [step] at stepped
  split at stepped
  · cases stepped
  · rename_i call found
    split at stepped
    · cases stepped
    · rename_i after later advanced
      cases stepped
      exact ⟨call, after, later, found, advanced, rfl⟩

end

theorem runChild_cases : runChild config active = .thrown ∨ runChild config active = .listing := by
  unfold runChild
  split
  · exact .inl rfl
  · split
    · exact .inl rfl
    · exact .inr rfl

theorem counted_resume (counted : Counted config world) (spaced : Spaced config world (.resume number answer))
    (stepped : step config world (.resume number answer) = some next) : Counted config next := by
  obtain ⟨active, parallel, started⟩ := counted
  obtain ⟨⟨input, phase⟩, after, later, found, advanced, rfl⟩ := step_resume stepped
  dsimp only at advanced
  have moved := fun test : Call → Bool => countP_set_add test found ⟨input, later⟩
  have held : (Call.isActive ⟨input, phase⟩).toNat ≤ world.active := by
    rw [active]
    exact toNat_le_countP found
  have sum := advance_active advanced held
  have fewer := advance_arriving advanced
  have activeCount := moved Call.isActive
  refine ⟨?_, ?_, fun parentThreadId => ?_⟩
  · dsimp only
    omega
  · have arrivingCount := moved Call.arriving
    dsimp only
    omega
  · have startingCount := moved (Call.starting parentThreadId)
    have before := started parentThreadId
    dsimp only
    rcases advance_started advanced parentThreadId with
      less | ⟨rfl, names, missed, childId, rfl, rfl, rfl, passed⟩
    · omega
    · have room := spaced input (by simp only [passing, found, if_neg passed, Option.mem_def])
      have one : (Call.starting input.parentThreadId ⟨input, later⟩).toNat ≤ 1 :=
        Bool.toNat_le _
      have none : (Call.starting input.parentThreadId ⟨input, .reading names⟩).toNat = 0 := rfl
      omega

theorem counted_step (counted : Counted config world) (spaced : Spaced config world action)
    (stepped : step config world action = some next) : Counted config next := by
  cases action with
  | runChild input =>
    obtain ⟨active, parallel, started⟩ := counted
    cases stepped
    rcases runChild_cases with thrown | listing
    · rw [thrown]
      refine ⟨?_, ?_, fun parentThreadId => ?_⟩
      · simpa [List.countP_append, Call.isActive] using active
      · simpa [List.countP_append, Call.arriving] using parallel
      · simpa [List.countP_append, Call.starting] using started parentThreadId
    · have room : world.active + world.calls.countP Call.arriving < config.maxParallel :=
        spaced listing
      rw [listing]
      refine ⟨?_, ?_, fun parentThreadId => ?_⟩
      · simpa [List.countP_append, Call.isActive] using active
      · simp only [List.countP_append, List.countP_singleton, Call.arriving, if_true]
        omega
      · simpa [List.countP_append, Call.starting] using started parentThreadId
  | resume number answer => exact counted_resume counted spaced stepped
  | deleteByThread threadId =>
    cases stepped
    exact ⟨counted.active, counted.parallel, counted.started⟩

/-- Where calls pass the limits one after another, the limits hold at every moment. -/
theorem spaced_run_limited (config : SubagentsCapabilityConfig) (actions : List Action)
    (world final : World) (fresh : Fresh config world)
    (spaced : Along (step config) (Spaced config) world actions)
    (ran : runActions (step config) world actions = some final) : Limited config final :=
  (invariant_run (fun _ _ _ => counted_step) actions fresh.counted spaced ran).limited

section Example

private def single : SubagentsCapabilityConfig := ⟨true, 1, 1⟩

private def idle : World := ⟨0, [], [], []⟩

private def research : Input := ⟨"thread", "turn", "research"⟩

private theorem idle_fresh : Fresh config idle :=
  ⟨rfl, rfl, fun _ => Nat.zero_le _⟩

/-- One child run after another, and a third that is refused. -/
theorem spaced_run_limited_two : Limited ⟨true, 1, 2⟩
      ⟨0, [⟨research, .returned ⟨"a", "thread", "turn", "research", .completed⟩⟩,
        ⟨research, .returned ⟨"b", "thread", "turn", "research", .failed⟩⟩,
        ⟨research, .thrown⟩],
        [⟨"b", "thread", "turn", "research", .failed⟩,
          ⟨"a", "thread", "turn", "research", .completed⟩], ["thread", "thread"]⟩ :=
  spaced_run_limited ⟨true, 1, 2⟩
    [.runChild research, .resume 0 .names, .resume 0 (.texts [] "a"), .resume 0 .written,
      .resume 0 .announced, .resume 0 (.answered .completed), .resume 0 .written,
      .resume 0 .announced, .runChild research, .resume 1 .names,
      .resume 1 (.texts [] "b"), .resume 1 .written, .resume 1 .announced,
      .resume 1 (.threw false), .resume 1 .written, .resume 1 .announced,
      .runChild research, .resume 2 .names, .resume 2 (.texts [] "c")]
    idle _ idle_fresh (by decide) (by decide)

/-- Two calls pass both limits before either of them counts. -/
theorem overlapping_calls_exceed : Fresh single idle ∧ ∃ final, runActions (step single) idle
        [.runChild research, .runChild research, .resume 0 .names, .resume 1 .names,
          .resume 0 (.texts [] "a"), .resume 1 (.texts [] "b"), .resume 0 .written,
          .resume 1 .written, .resume 0 .announced, .resume 1 .announced] = some final ∧
      single.maxParallel < final.calls.countP Call.isActive ∧
      single.maxChildRuns < final.started.count "thread" ∧ ¬ Limited single final := by
  refine ⟨idle_fresh, ⟨2, _, _, _⟩, rfl, by decide, by decide, fun limited => ?_⟩
  exact absurd limited.1 (by decide)

end Example

end QiongQi.Delegations
