import QiongQi.EventRecorders

/-! The numbers of recorded events. The counter lives in memory and the log is read
asynchronously: two calls that read the log before either has appended may get the
same number, unless the counter is ahead of the log for both. -/
namespace QiongQi.EventNumbers
open Machines SessionLogs EventRecorders List

variable {compaction : UsageEventCompaction}

/-- All the ways the recorder moves on. -/
inductive Stepped (compaction : UsageEventCompaction) (world : RecorderWorld) :
    RecorderAction → RecorderWorld → Prop where
  | begin (draft : RuntimeEventDraft) : Stepped compaction world (.begin draft) (beginRecord world draft)
  | heartbeat : Stepped compaction world .heartbeat { world with bus := world.bus.allocateSeq }
  | restart : Stepped compaction world .restart { world with bus := {}, calls := [] }
  | readHighest (call : RecordCall) (found : call ∈ world.calls) (stage : call.stage = .allocated) :
    Stepped compaction world (.readHighest call.id)
      (world.advance call (.looked (highestSeq world.log)))
  | publish (call : RecordCall) (nowIso : String) (persistedSeq : Nat) (found : call ∈ world.calls)
    (stage : call.stage = .looked persistedSeq) :
    Stepped compaction world (.publish call.id nowIso)
      ({ world with bus := world.bus.publish (stampEvent call persistedSeq nowIso) }.advance call
        (.published persistedSeq (stampEvent call persistedSeq nowIso)))
  | append (call : RecordCall) (persistedSeq : Nat) (event : RuntimeEvent)
    (found : call ∈ world.calls) (stage : call.stage = .published persistedSeq event) :
    Stepped compaction world (.append call.id)
      (({ world with log := world.log ++ [event] }.advance call (.appended event)).observe
        (.appended call.id event))
  | readForCompaction (call : RecordCall) (event : RuntimeEvent) (found : call ∈ world.calls)
    (stage : call.stage = .appended event) (usage : isUsage event = true) :
    Stepped compaction world (.readForCompaction call.id)
      (world.advance call (.compacting event world.log))
  | writeCompacted (call : RecordCall) (nowIso : String) (event : RuntimeEvent)
    (contents : List RuntimeEvent) (found : call ∈ world.calls)
    (stage : call.stage = .compacting event contents) :
    Stepped compaction world (.writeCompacted call.id nowIso)
      ({ world with log := compactedLog compaction world.log contents nowIso }.advance call
        (.appended event))
  | finish (call : RecordCall) (event : RuntimeEvent) (found : call ∈ world.calls)
    (stage : call.stage = .appended event) :
    Stepped compaction world (.finish call.id)
      ((world.leave call.id).observe (.finished call.id event))
  | fail (call : RecordCall) (found : call ∈ world.calls) :
    Stepped compaction world (.fail call.id) (world.leave call.id)

variable {next : RecorderWorld} {action : RecorderAction}
variable {event : RuntimeEvent} {call : RecordCall}

private theorem called {id : Nat} (stepped : (match find RecordCall.id id world.calls with
      | none => none
      | some call => stepCall compaction world call action) = some next) :
    ∃ call ∈ world.calls, call.id = id ∧ stepCall compaction world call action = some next := by
  cases held : find RecordCall.id id world.calls with
  | none =>
    rw [held] at stepped
    cases stepped
  | some call =>
    rw [held] at stepped
    obtain ⟨found, named⟩ := find_mem held
    exact ⟨call, found, named, stepped⟩

theorem stepRecorder_stepped (stepped : stepRecorder compaction world action = some next) :
    Stepped compaction world action next := by
  cases action with
  | begin draft =>
    cases stepped
    exact .begin draft
  | heartbeat =>
    cases stepped
    exact .heartbeat
  | restart =>
    cases stepped
    exact .restart
  | readHighest id =>
    obtain ⟨call, found, rfl, moved⟩ := called stepped
    simp only [stepCall] at moved
    split at moved
    · rename_i stage
      cases moved
      exact .readHighest call found stage
    · cases moved
  | publish id nowIso =>
    obtain ⟨call, found, rfl, moved⟩ := called stepped
    simp only [stepCall] at moved
    split at moved
    · rename_i persistedSeq stage
      cases moved
      exact .publish call nowIso persistedSeq found stage
    · cases moved
  | append id =>
    obtain ⟨call, found, rfl, moved⟩ := called stepped
    simp only [stepCall] at moved
    split at moved
    · rename_i persistedSeq event stage
      cases moved
      exact .append call persistedSeq event found stage
    · cases moved
  | readForCompaction id =>
    obtain ⟨call, found, rfl, moved⟩ := called stepped
    simp only [stepCall] at moved
    split at moved
    · rename_i event stage
      by_cases usage : isUsage event = true
      · rw [if_pos usage] at moved
        cases moved
        exact .readForCompaction call event found stage usage
      · rw [if_neg usage] at moved
        cases moved
    · cases moved
  | writeCompacted id nowIso =>
    obtain ⟨call, found, rfl, moved⟩ := called stepped
    simp only [stepCall] at moved
    split at moved
    · rename_i event contents stage
      cases moved
      exact .writeCompacted call nowIso event contents found stage
    · cases moved
  | finish id =>
    obtain ⟨call, found, rfl, moved⟩ := called stepped
    simp only [stepCall] at moved
    split at moved
    · rename_i event stage
      cases moved
      exact .finish call event found stage
    · cases moved
  | fail id =>
    obtain ⟨call, found, rfl, moved⟩ := called stepped
    cases moved
    exact .fail call found

def recorded (trace : List RecorderObservation) : List RuntimeEvent :=
  trace.filterMap fun
    | .appended _ event => some event
    | _ => none

/-- Recorded events have numbers of their own, and a call that begins after another
has finished gets a larger one. -/
structure SeqsIdentify (trace : List RecorderObservation) : Prop where
  distinct : (recorded trace).Pairwise fun left right => left.seq ≠ right.seq
  increasing : ∀ front back first event id later, trace = front ++ .began id :: back →
    .finished first event ∈ front → .appended id later ∈ trace → event.seq < later.seq

/-- What a call read, between its read of the log and its append. -/
def lookedSeq (call : RecordCall) : Option Nat :=
  match call.stage with
  | .looked persistedSeq => some persistedSeq
  | .published persistedSeq _ => some persistedSeq
  | _ => none

/-- No other call is between its read and its append, or the counter is ahead of the
log for both. -/
def Undisturbed (world : RecorderWorld) (call : RecordCall) : Prop :=
  ∀ other ∈ world.calls, ∀ persistedSeq ∈ lookedSeq other,
    highestSeq world.log < call.allocatedSeq ∧ persistedSeq < other.allocatedSeq

/-- The log is as the compaction read it, with its usage events in order. -/
def Settled (world : RecorderWorld) (call : RecordCall) : Prop :=
  match call.stage with
  | .compacting _ contents => contents = world.log ∧ UsageInOrder world.log
  | _ => True

/-- When a step keeps the numbers apart. -/
def Orderly (world : RecorderWorld) : RecorderAction → Prop
  | .begin draft => draft.seq = none
  | .readHighest id => ∀ call ∈ world.calls, call.id = id → Undisturbed world call
  | .writeCompacted id _ => ∀ call ∈ world.calls, call.id = id → Settled world call
  | _ => True

instance (world : RecorderWorld) (call : RecordCall) : Decidable (Undisturbed world call) :=
  inferInstanceAs (Decidable (∀ other ∈ world.calls, ∀ persistedSeq ∈ lookedSeq other,
    highestSeq world.log < call.allocatedSeq ∧ persistedSeq < other.allocatedSeq))

instance (world : RecorderWorld) (call : RecordCall) : Decidable (Settled world call) :=
  match stage : call.stage with
  | .compacting _ contents =>
    decidable_of_iff (contents = world.log ∧ UsageInOrder world.log) (by simp [Settled, stage])
  | .allocated | .looked _ | .published _ _ | .appended _ => .isTrue (by simp [Settled, stage])

instance (world : RecorderWorld) : ∀ action, Decidable (Orderly world action)
  | .begin draft => inferInstanceAs (Decidable (draft.seq = none))
  | .readHighest id =>
    inferInstanceAs (Decidable (∀ call ∈ world.calls, call.id = id → Undisturbed world call))
  | .writeCompacted id _ =>
    inferInstanceAs (Decidable (∀ call ∈ world.calls, call.id = id → Settled world call))
  | .publish _ _ | .append _ | .readForCompaction _ | .finish _ | .fail _ | .heartbeat | .restart =>
    .isTrue trivial

/-- The number a call is going to have, from its read to its append. -/
def claimed (call : RecordCall) : Option Nat :=
  (lookedSeq call).map fun persistedSeq => max call.allocatedSeq (persistedSeq + 1)

structure Numbered (world : RecorderWorld) : Prop where
  counter : ∀ call ∈ world.calls, ∃ last, world.bus.nextSeq = some last ∧ call.allocatedSeq ≤ last
  allocated : ∀ left ∈ world.calls, ∀ right ∈ world.calls, left.id ≠ right.id →
    left.allocatedSeq ≠ right.allocatedSeq
  drafts : ∀ call ∈ world.calls, call.draft.seq = none
  fresh : ∀ call ∈ world.calls, call.id < world.begun
  seen : ∀ id event, .appended id event ∈ world.trace → id < world.begun
  finished : ∀ id event, .finished id event ∈ world.trace → .appended id event ∈ world.trace
  stored : ∀ id event, .appended id event ∈ world.trace → event.seq ≤ highestSeq world.log
  distinct : (recorded world.trace).Pairwise fun left right => left.seq ≠ right.seq
  window : ∀ call ∈ world.calls, ∀ number, claimed call = some number →
    ∀ id event, .appended id event ∈ world.trace → event.seq ≠ number
  apart : ∀ left ∈ world.calls, ∀ right ∈ world.calls, left.id ≠ right.id →
    ∀ number, claimed left = some number → claimed right ≠ some number
  later : ∀ front back id, world.trace = front ++ .began id :: back →
    ∀ first event, .finished first event ∈ front →
      (∀ call ∈ world.calls, call.id = id → ∀ number, claimed call = some number → event.seq < number) ∧
      ∀ later, .appended id later ∈ world.trace → event.seq < later.seq

/-- What the stage of a call says about its event. -/
structure Staged (world : RecorderWorld) (call : RecordCall) : Prop where
  stamped : ∀ persistedSeq event, call.stage = .published persistedSeq event → claimed call = some event.seq
  written : ∀ event, (call.stage = .appended event ∨
    ∃ contents, call.stage = .compacting event contents) → .appended call.id event ∈ world.trace

/-- Calls that go on: none claims a number that it did not claim before. -/
def CallsFrom (before after : List RecordCall) : Prop :=
  ∀ call ∈ after, ∃ old ∈ before, call.id = old.id ∧ call.allocatedSeq = old.allocatedSeq ∧
    call.draft = old.draft ∧ (claimed call = none ∨ claimed call = claimed old)

variable {world : RecorderWorld}

private theorem Numbered.carried (numbered : Numbered world) (goOn : CallsFrom world.calls calls)
    (grown : highestSeq world.log ≤ highestSeq log)
    (counter : ∀ call ∈ calls, ∃ last, bus.nextSeq = some last ∧ call.allocatedSeq ≤ last) :
    Numbered { world with log, bus, calls } where
  counter := counter
  allocated := by
    intro left foundLeft right foundRight different
    obtain ⟨oldLeft, heldLeft, idLeft, allocatedLeft, -⟩ := goOn left foundLeft
    obtain ⟨oldRight, heldRight, idRight, allocatedRight, -⟩ := goOn right foundRight
    rw [allocatedLeft, allocatedRight]
    exact numbered.allocated oldLeft heldLeft oldRight heldRight (idLeft ▸ idRight ▸ different)
  drafts := by
    intro call found
    obtain ⟨old, held, -, -, draft, -⟩ := goOn call found
    rw [draft]
    exact numbered.drafts old held
  fresh := by
    intro call found
    obtain ⟨old, held, id, -⟩ := goOn call found
    rw [id]
    exact numbered.fresh old held
  seen := numbered.seen
  finished := numbered.finished
  stored := fun id event found => le_trans (numbered.stored id event found) grown
  distinct := numbered.distinct
  window := by
    intro call found number claims
    obtain ⟨old, held, -, -, -, lost | kept⟩ := goOn call found
    · rw [lost] at claims
      cases claims
    · exact numbered.window old held number (kept ▸ claims)
  apart := by
    intro left foundLeft right foundRight different number claims clash
    obtain ⟨oldLeft, heldLeft, idLeft, -, -, lostLeft | keptLeft⟩ := goOn left foundLeft
    · rw [lostLeft] at claims
      cases claims
    obtain ⟨oldRight, heldRight, idRight, -, -, lostRight | keptRight⟩ := goOn right foundRight
    · rw [lostRight] at clash
      cases clash
    exact numbered.apart oldLeft heldLeft oldRight heldRight (idLeft ▸ idRight ▸ different) number
      (keptLeft ▸ claims) (keptRight ▸ clash)
  later := by
    intro front back id split first event before
    obtain ⟨claims, stored⟩ := numbered.later front back id split first event before
    refine ⟨?_, stored⟩
    intro call found named number claim
    obtain ⟨old, held, same, -, -, lost | kept⟩ := goOn call found
    · rw [lost] at claim
      cases claim
    · exact claims old held (same ▸ named) number (kept ▸ claim)

private theorem Numbered.finish {id : Nat} (numbered : Numbered world)
    (written : .appended id event ∈ world.trace) :
    Numbered (world.observe (.finished id event)) where
  counter := numbered.counter
  allocated := numbered.allocated
  drafts := numbered.drafts
  fresh := numbered.fresh
  seen := by
    intro id event found
    simp only [RecorderWorld.observe, mem_append, mem_singleton] at found
    rcases found with found | absurdity
    · exact numbered.seen id event found
    · cases absurdity
  finished := by
    intro other shown found
    refine mem_append_left _ ?_
    rcases mem_append.mp found with found | found
    · exact numbered.finished other shown found
    · cases mem_singleton.mp found
      exact written
  stored := by
    intro id event found
    simp only [RecorderWorld.observe, mem_append, mem_singleton] at found
    rcases found with found | absurdity
    · exact numbered.stored id event found
    · cases absurdity
  distinct := by
    have same : recorded (world.trace ++ [.finished id event]) = recorded world.trace := by
      simp [recorded]
    show (recorded (world.trace ++ [.finished id event])).Pairwise _
    rw [same]
    exact numbered.distinct
  window := by
    intro call found number claims other shown appended
    simp only [RecorderWorld.observe, mem_append, mem_singleton] at appended
    rcases appended with appended | absurdity
    · exact numbered.window call found number claims other shown appended
    · cases absurdity
  apart := numbered.apart
  later := by
    intro front back other split first shown before
    rcases split_snoc split with ⟨-, -, absurdity⟩ | ⟨rest, -, earlier⟩
    · cases absurdity
    obtain ⟨claims, stored⟩ := numbered.later front rest other earlier first shown before
    refine ⟨claims, fun later found => ?_⟩
    simp only [RecorderWorld.observe, mem_append, mem_singleton] at found
    rcases found with found | absurdity
    · exact stored later found
    · cases absurdity

private theorem Numbered.append {id : Nat} (numbered : Numbered world) (seen : id < world.begun)
    (unused : ∀ other shown, .appended other shown ∈ world.trace → shown.seq ≠ event.seq)
    (unclaimed : ∀ call ∈ world.calls, claimed call ≠ some event.seq)
    (above : ∀ front back, world.trace = front ++ .began id :: back →
      ∀ first shown, .finished first shown ∈ front → shown.seq < event.seq) :
    Numbered ({ world with log := world.log ++ [event] }.observe (.appended id event)) where
  counter := numbered.counter
  allocated := numbered.allocated
  drafts := numbered.drafts
  fresh := numbered.fresh
  seen := by
    intro other shown found
    rcases mem_append.mp found with found | found
    · exact numbered.seen other shown found
    · cases mem_singleton.mp found
      exact seen
  finished := by
    intro other shown found
    refine mem_append_left _ ?_
    rcases mem_append.mp found with found | found
    · exact numbered.finished other shown found
    · cases mem_singleton.mp found
  stored := by
    intro other shown found
    show shown.seq ≤ highestSeq (world.log ++ [event])
    rw [highestSeq_append]
    rcases mem_append.mp found with found | found
    · exact le_trans (numbered.stored other shown found) (le_max_left _ _)
    · cases mem_singleton.mp found
      exact le_max_right _ _
  distinct := by
    show (recorded (world.trace ++ [.appended id event])).Pairwise _
    have grown : recorded (world.trace ++ [.appended id event]) = recorded world.trace ++ [event] := by
      simp [recorded]
    rw [grown]
    refine pairwise_append.mpr ⟨numbered.distinct, pairwise_singleton _ _, ?_⟩
    intro shown found last same
    rw [mem_singleton.mp same]
    obtain ⟨observation, appended, is⟩ := mem_filterMap.mp found
    cases observation with
    | appended other held =>
      cases is
      exact unused other shown appended
    | began other => cases is
    | finished other held => cases is
  window := by
    intro call found number claims other shown appended
    rcases mem_append.mp appended with appended | appended
    · exact numbered.window call found number claims other shown appended
    · cases mem_singleton.mp appended
      rintro rfl
      exact unclaimed call found claims
  apart := numbered.apart
  later := by
    intro front back other split first shown before
    rcases split_snoc split with ⟨-, -, absurdity⟩ | ⟨rest, -, earlier⟩
    · cases absurdity
    obtain ⟨claims, stored⟩ := numbered.later front rest other earlier first shown before
    refine ⟨claims, fun later found => ?_⟩
    rcases mem_append.mp found with found | found
    · exact stored later found
    · cases mem_singleton.mp found
      exact above front rest earlier first shown before

private theorem Numbered.enter (call : RecordCall) (numbered : Numbered world)
    (counter : ∃ last, world.bus.nextSeq = some last ∧ call.allocatedSeq ≤ last)
    (allocated : ∀ other ∈ world.calls, other.allocatedSeq ≠ call.allocatedSeq)
    (draft : call.draft.seq = none) (fresh : call.id < world.begun)
    (window : ∀ number, claimed call = some number →
      ∀ id event, .appended id event ∈ world.trace → event.seq ≠ number)
    (apart : ∀ other ∈ world.calls, ∀ number, claimed call = some number → claimed other ≠ some number)
    (later : ∀ front back, world.trace = front ++ .began call.id :: back →
      ∀ first event, .finished first event ∈ front → ∀ number, claimed call = some number →
        event.seq < number) :
    Numbered { world with calls := call :: world.calls } where
  counter := by
    intro other found
    rcases mem_cons.mp found with rfl | found
    · exact counter
    · exact numbered.counter other found
  allocated := by
    intro left foundLeft right foundRight different
    rcases mem_cons.mp foundLeft with rfl | heldLeft
    · rcases mem_cons.mp foundRight with rfl | heldRight
      · exact absurd rfl different
      · exact (allocated right heldRight).symm
    · rcases mem_cons.mp foundRight with rfl | heldRight
      · exact allocated left heldLeft
      · exact numbered.allocated left heldLeft right heldRight different
  drafts := by
    intro other found
    rcases mem_cons.mp found with rfl | found
    · exact draft
    · exact numbered.drafts other found
  fresh := by
    intro other found
    rcases mem_cons.mp found with rfl | found
    · exact fresh
    · exact numbered.fresh other found
  seen := numbered.seen
  finished := numbered.finished
  stored := numbered.stored
  distinct := numbered.distinct
  window := by
    intro other found
    rcases mem_cons.mp found with rfl | found
    · exact window
    · exact numbered.window other found
  apart := by
    intro left foundLeft right foundRight different number claims
    rcases mem_cons.mp foundLeft with rfl | heldLeft
    · rcases mem_cons.mp foundRight with rfl | heldRight
      · exact absurd rfl different
      · exact apart right heldRight number claims
    · rcases mem_cons.mp foundRight with rfl | heldRight
      · exact fun clash => apart left heldLeft number clash claims
      · exact numbered.apart left heldLeft right heldRight different number claims
  later := by
    intro front back id split first event before
    obtain ⟨claims, stored⟩ := numbered.later front back id split first event before
    refine ⟨fun other found named => ?_, stored⟩
    rcases mem_cons.mp found with rfl | found
    · exact later front back (named ▸ split) first event before
    · exact claims other found named

private theorem nextNumber_above (numbered : Numbered world) :
    ∀ call ∈ world.calls, call.allocatedSeq < world.bus.nextNumber := by
  intro call found
  obtain ⟨last, counter, below⟩ := numbered.counter call found
  simp only [InMemoryEventBus.nextNumber, counter, Option.getD_some]
  omega

private theorem Numbered.allocate (numbered : Numbered world) :
    Numbered { world with bus := world.bus.allocateSeq } := by
  have same : CallsFrom world.calls world.calls := fun call found =>
    ⟨call, found, rfl, rfl, rfl, .inr rfl⟩
  refine numbered.carried same (le_refl _) fun call found => ?_
  exact ⟨world.bus.nextNumber, rfl, Nat.le_of_lt (nextNumber_above numbered call found)⟩

private theorem Numbered.observe_began (numbered : Numbered world) :
    Numbered ({ world with begun := world.begun + 1 }.observe (.began world.begun)) := by
  have appended : ∀ id event, RecorderObservation.appended id event ∈
      world.trace ++ [.began world.begun] → .appended id event ∈ world.trace := by
    intro id event found
    simpa using found
  refine ⟨numbered.counter, numbered.allocated, numbered.drafts, ?_, ?_, ?_, ?_, ?_, ?_, numbered.apart, ?_⟩
  · exact fun call found => Nat.lt_succ_of_lt (numbered.fresh call found)
  · exact fun id event found => Nat.lt_succ_of_lt (numbered.seen id event (appended id event found))
  · intro id event found
    have found : .finished id event ∈ world.trace ++ [.began world.begun] := found
    have found : .finished id event ∈ world.trace := by simpa using found
    exact mem_append_left _ (numbered.finished id event found)
  · exact fun id event found => numbered.stored id event (appended id event found)
  · have same : recorded (world.trace ++ [.began world.begun]) = recorded world.trace := by
      simp [recorded]
    show (recorded (world.trace ++ [.began world.begun])).Pairwise _
    rw [same]
    exact numbered.distinct
  · exact fun call found number claims id event shown =>
      numbered.window call found number claims id event (appended id event shown)
  · intro front back id split first event before
    rcases split_snoc split with ⟨-, -, same⟩ | ⟨rest, -, earlier⟩
    · cases same
      constructor
      · intro call found named
        have := numbered.fresh call found
        omega
      · intro later found
        have := numbered.seen _ later (appended _ later found)
        omega
    · obtain ⟨claims, stored⟩ := numbered.later front rest id earlier first event before
      exact ⟨claims, fun later found => stored later (appended id later found)⟩

private theorem callsFrom_drop (calls : List RecordCall) (id : Nat) :
    CallsFrom calls (drop RecordCall.id id calls) := by
  intro call found
  exact ⟨call, (mem_drop.mp found).1, rfl, rfl, rfl, .inr rfl⟩

private theorem callsFrom_put (stage : RecordStage) (found : call ∈ calls)
    (claims : claimed { call with stage } = none ∨ claimed { call with stage } = claimed call) :
    CallsFrom calls (put RecordCall.id { call with stage } calls) := by
  intro other held
  rcases mem_put.mp held with rfl | ⟨held, -⟩
  · exact ⟨call, found, rfl, rfl, rfl, claims⟩
  · exact ⟨other, held, rfl, rfl, rfl, .inr rfl⟩

private theorem counter_carried (numbered : Numbered world) (goOn : CallsFrom world.calls calls) :
    ∀ call ∈ calls, ∃ last, world.bus.nextSeq = some last ∧ call.allocatedSeq ≤ last := by
  intro call found
  obtain ⟨old, held, -, allocated, -⟩ := goOn call found
  rw [allocated]
  exact numbered.counter old held

private theorem Numbered.look (numbered : Numbered world) (found : call ∈ world.calls)
    (undisturbed : Undisturbed world call) :
    Numbered (world.advance call (.looked (highestSeq world.log))) := by
  have others : Numbered { world with calls := drop RecordCall.id call.id world.calls } :=
    numbered.carried (callsFrom_drop world.calls call.id) (le_refl _)
      (counter_carried numbered (callsFrom_drop world.calls call.id))
  have above : ∀ number, claimed { call with stage := .looked (highestSeq world.log) } =
      some number → number = max call.allocatedSeq (highestSeq world.log + 1) := by
    intro number claims
    simpa [claimed, lookedSeq, eq_comm] using claims
  refine others.enter { call with stage := .looked (highestSeq world.log) }
    (numbered.counter call found) ?_ (numbered.drafts call found) (numbered.fresh call found)
    ?_ ?_ ?_
  · intro other held
    obtain ⟨held, different⟩ := mem_drop.mp held
    exact numbered.allocated other held call found different
  · intro number claims id event appended
    have below := numbered.stored id event appended
    have := above number claims
    omega
  · intro other held number claims clash
    obtain ⟨held, different⟩ := mem_drop.mp held
    have number_eq := above number claims
    cases looked : lookedSeq other with
    | none => simp [claimed, looked] at clash
    | some persistedSeq =>
      obtain ⟨ahead, otherAhead⟩ := undisturbed other held persistedSeq looked
      have otherNumber : number = max other.allocatedSeq (persistedSeq + 1) := by
        simpa [claimed, looked, eq_comm] using clash
      have apart := numbered.allocated other held call found different
      omega
  · intro front back split first event before number claims
    have written := numbered.finished first event (split ▸ mem_append_left _ before)
    have below := numbered.stored first event written
    have := above number claims
    omega

private theorem Numbered.appendCall (numbered : Numbered world) (found : call ∈ world.calls)
    (claims : claimed call = some event.seq) :
    Numbered (({ world with log := world.log ++ [event] }.advance call (.appended event)).observe
      (.appended call.id event)) := by
  have goOn := callsFrom_put (.appended event) found (.inl rfl)
  have carried : Numbered (world.advance call (.appended event)) :=
    numbered.carried goOn (le_refl _) (counter_carried numbered goOn)
  refine carried.append (numbered.fresh call found) ?_ ?_ ?_
  · exact numbered.window call found event.seq claims
  · intro other held
    rcases mem_put.mp held with rfl | ⟨held, different⟩
    · exact fun absurdity => by cases absurdity
    · exact fun clash => numbered.apart other held call found different event.seq clash claims
  · intro front back split first shown before
    exact (numbered.later front back call.id split first shown before).1 call found rfl event.seq
      claims

/-- The numbers are apart, and every call is where its stage says. -/
structure InOrder (world : RecorderWorld) : Prop where
  numbered : Numbered world
  staged : ∀ call ∈ world.calls, Staged world call

private theorem staged_grow (staged : Staged world call)
    (grown : ∀ id event, .appended id event ∈ world.trace → .appended id event ∈ next.trace) :
    Staged next call :=
  ⟨staged.stamped, fun event stage => grown call.id event (staged.written event stage)⟩

private theorem staged_open
    (early : call.stage = .allocated ∨ ∃ persistedSeq, call.stage = .looked persistedSeq) :
    Staged world call := by
  constructor
  · intro persistedSeq event published
    rcases early with early | ⟨_, early⟩ <;> rw [early] at published <;> cases published
  · intro event written
    rcases early with early | ⟨_, early⟩ <;> rw [early] at written <;>
      rcases written with written | ⟨_, written⟩ <;> cases written

private theorem staged_written
    (late : call.stage = .appended event ∨ ∃ contents, call.stage = .compacting event contents)
    (written : .appended call.id event ∈ world.trace) : Staged world call := by
  constructor
  · intro persistedSeq other published
    rcases late with late | ⟨_, late⟩ <;> rw [late] at published <;> cases published
  · intro other again
    rcases late with late | ⟨_, late⟩ <;> rw [late] at again <;>
      rcases again with again | ⟨_, again⟩ <;> cases again <;> exact written

private theorem staged_put (inOrder : InOrder world)
    (grown : ∀ id event, .appended id event ∈ world.trace → .appended id event ∈ next.trace)
    (calls : next.calls = put RecordCall.id { call with stage } world.calls)
    (staged : Staged next { call with stage }) : ∀ other ∈ next.calls, Staged next other := by
  intro other found
  rw [calls] at found
  rcases mem_put.mp found with rfl | ⟨found, -⟩
  · exact staged
  · exact staged_grow (inOrder.staged other found) grown

theorem begin_inOrder (unnumbered : draft.seq = none) (inOrder : InOrder world) :
    InOrder (beginRecord world draft) := by
  have numbered := inOrder.numbered
  constructor
  · refine numbered.allocate.observe_began.enter
      { id := world.begun, draft, allocatedSeq := world.bus.nextNumber, stage := .allocated }
      ⟨world.bus.nextNumber, rfl, le_refl _⟩ ?_ unnumbered (Nat.lt_succ_self _) ?_ ?_ ?_
    · exact fun other found => Nat.ne_of_lt (nextNumber_above numbered other found)
    · exact fun _ absurdity => by cases absurdity
    · exact fun _ _ _ absurdity => by cases absurdity
    · exact fun _ _ _ _ _ _ _ absurdity => by cases absurdity
  · intro call found
    rcases mem_cons.mp found with rfl | found
    · exact staged_open (.inl rfl)
    · exact staged_grow (inOrder.staged call found) fun id event shown =>
        mem_append_left _ shown

theorem step_inOrder (inOrder : InOrder world) (orderly : Orderly world action)
    (stepped : stepRecorder compaction world action = some next) : InOrder next := by
  obtain ⟨numbered, staged⟩ := inOrder
  cases stepRecorder_stepped stepped with
  | begin draft => exact begin_inOrder orderly ⟨numbered, staged⟩
  | heartbeat =>
    exact ⟨numbered.allocate, fun call found => staged_grow (staged call found) fun _ _ => id⟩
  | restart =>
    have none : CallsFrom world.calls [] := fun _ found => by cases found
    exact ⟨numbered.carried none (le_refl _) fun _ found => (by cases found), fun _ found => by cases found⟩
  | readHighest call found stage =>
    refine ⟨numbered.look found (orderly call found rfl), ?_⟩
    exact staged_put ⟨numbered, staged⟩ (fun _ _ => id) rfl (staged_open (.inr ⟨_, rfl⟩))
  | publish call nowIso persistedSeq found stage =>
    have claims : claimed { call with
        stage := .published persistedSeq (stampEvent call persistedSeq nowIso) } = claimed call := by
      simp [claimed, lookedSeq, stage]
    have goOn := callsFrom_put
      (.published persistedSeq (stampEvent call persistedSeq nowIso)) found (.inr claims)
    have counter := counter_carried numbered goOn
    refine ⟨numbered.carried goOn (le_refl _) counter, ?_⟩
    refine staged_put ⟨numbered, staged⟩ (fun _ _ => id) rfl ⟨?_, fun _ absurdity => ?_⟩
    · rintro persisted event ⟨⟩
      simp [claimed, lookedSeq, stampEvent, stampedSeq, numbered.drafts call found]
    · rcases absurdity with absurdity | ⟨_, absurdity⟩ <;> cases absurdity
  | append call persistedSeq event found stage =>
    have claims := (staged call found).stamped persistedSeq event stage
    refine ⟨numbered.appendCall found claims, ?_⟩
    refine staged_put ⟨numbered, staged⟩ (fun _ _ shown => mem_append_left _ shown) rfl ?_
    exact staged_written (.inl rfl) (mem_append_right _ mem_cons_self)
  | readForCompaction call event found stage usage =>
    have goOn := callsFrom_put (.compacting event world.log) found (.inl rfl)
    refine ⟨numbered.carried goOn (le_refl _) (counter_carried numbered goOn), ?_⟩
    have written := (staged call found).written event (.inl stage)
    exact staged_put ⟨numbered, staged⟩ (fun _ _ => id) rfl (staged_written (.inr ⟨_, rfl⟩) written)
  | writeCompacted call nowIso event contents found stage =>
    have settled : contents = world.log ∧ UsageInOrder world.log := by
      have settled := orderly call found rfl
      simpa [Settled, stage] using settled
    obtain ⟨rfl, ordered⟩ := settled
    have goOn := callsFrom_put (.appended event) found (.inl rfl)
    have grown : highestSeq world.log ≤ highestSeq (compactedLog compaction world.log world.log nowIso) :=
      le_of_eq (highestSeq_compacted nowIso ordered).symm
    have counter := counter_carried numbered goOn
    refine ⟨numbered.carried goOn grown counter, ?_⟩
    have written := (staged call found).written event (.inr ⟨world.log, stage⟩)
    exact staged_put ⟨numbered, staged⟩ (fun _ _ => id) rfl (staged_written (.inl rfl) written)
  | finish call event found stage =>
    have left := callsFrom_drop world.calls call.id
    have written := (staged call found).written event (.inl stage)
    have carried : Numbered (world.leave call.id) :=
      numbered.carried left (le_refl _) (counter_carried numbered left)
    refine ⟨carried.finish written, fun other held => ?_⟩
    exact staged_grow (staged other (mem_drop.mp held).1) fun _ _ shown =>
      mem_append_left _ shown
  | fail call found =>
    have left := callsFrom_drop world.calls call.id
    refine ⟨numbered.carried left (le_refl _) (counter_carried numbered left), fun other held => ?_⟩
    exact staged_grow (staged other (mem_drop.mp held).1) fun _ _ => id

theorem inOrder_start : InOrder {} where
  numbered := by
    refine ⟨?_, ?_, ?_, ?_, ?_, ?_, ?_, List.Pairwise.nil, ?_, ?_, ?_⟩
    · exact fun _ found => by cases found
    · exact fun _ found => by cases found
    · exact fun _ found => by cases found
    · exact fun _ found => by cases found
    · exact fun _ _ found => by cases found
    · exact fun _ _ found => by cases found
    · exact fun _ _ found => by cases found
    · exact fun _ found => by cases found
    · exact fun _ found => by cases found
    · intro front back id split
      exact absurd split (by simp)
  staged := fun _ found => by cases found

/-- In every run of orderly steps, restarts included, the numbers identify the
events of the thread and grow from one call to the next. -/
theorem seqs_identify_events (compaction : UsageEventCompaction) (actions : List RecorderAction)
    (orderly : Along (stepRecorder compaction) Orderly {} actions) {final : RecorderWorld}
    (ran : runActions (stepRecorder compaction) {} actions = some final) :
    SeqsIdentify final.trace := by
  have inOrder : InOrder final :=
    invariant_run (fun _ _ _ holds fair stepped => step_inOrder holds fair stepped) actions
      inOrder_start orderly ran
  have numbered := inOrder.numbered
  refine ⟨numbered.distinct, ?_⟩
  intro front back first event id later split before appended
  exact (numbered.later front back id split first event before).2 later appended

/-- Compaction settings for runs without dates. -/
def undated : UsageEventCompaction where
  dateParse _ := none
  isoDay timestamp := timestamp
  retentionDays := 365

def turnStarted : RuntimeEventDraft where
  kind := "turn_started"
  timestamp := some "2024-01-01T00:00:00.000Z"

/-- Two calls of a new thread overlap; after a restart the calls come one by one. -/
def overlapOnNewThread : List RecorderAction :=
  [.begin turnStarted, .begin turnStarted, .readHighest 1, .publish 1 "", .readHighest 0,
    .publish 0 "", .append 1, .append 0, .finish 0, .finish 1, .restart,
    .begin turnStarted, .readHighest 2, .publish 2 "", .append 2, .finish 2,
    .begin turnStarted, .readHighest 3, .publish 3 "", .append 3, .finish 3]

/-- The calls of that run get the numbers 2, 1, 3 and 4. -/
theorem seqs_identify_events_overlap :
    ∃ final, runActions (stepRecorder undated) {} overlapOnNewThread = some final ∧
      (recorded final.trace).map RuntimeEvent.seq = [2, 1, 3, 4] ∧ SeqsIdentify final.trace := by
  have numbers : (runActions (stepRecorder undated) {} overlapOnNewThread).map
      (fun world => (recorded world.trace).map RuntimeEvent.seq) = some [2, 1, 3, 4] := by
    decide
  obtain ⟨final, ran, seqs⟩ := Option.map_eq_some_iff.mp numbers
  refine ⟨final, ran, seqs, ?_⟩
  exact seqs_identify_events undated overlapOnNewThread (by decide) ran

/-- The first calls of a new process overlap: both read the log before either appends. -/
def overlapAfterRestart : List RecorderAction :=
  [.begin turnStarted, .readHighest 0, .publish 0 "", .append 0, .finish 0, .restart,
    .begin turnStarted, .begin turnStarted, .readHighest 1, .readHighest 2, .publish 1 "",
    .publish 2 "", .append 1, .append 2, .finish 1, .finish 2]

/-- They are recorded under the same number. -/
theorem same_seq_after_restart :
    ∃ final, runActions (stepRecorder undated) {} overlapAfterRestart = some final ∧
      ¬ SeqsIdentify final.trace := by
  have numbers : (runActions (stepRecorder undated) {} overlapAfterRestart).map
      (fun world => (recorded world.trace).map RuntimeEvent.seq) = some [1, 2, 2] := by
    decide
  obtain ⟨final, ran, seqs⟩ := Option.map_eq_some_iff.mp numbers
  refine ⟨final, ran, fun identify => ?_⟩
  have distinct : ((recorded final.trace).map RuntimeEvent.seq).Pairwise (· ≠ ·) :=
    pairwise_map.mpr identify.distinct
  rw [seqs] at distinct
  exact absurd distinct (by decide)

end QiongQi.EventNumbers
