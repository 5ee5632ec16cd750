import Mathlib.Algebra.Ring.Nat
import QiongQi.Machines
import QiongQi.SessionLogs

/-! `appendEvent` of `FileSessionStore` on one event log: appends go straight to the file,
and each append of a usage event may read the log and replace it by a compacted one. -/
namespace QiongQi.EventAppends
open Machines SessionLogs

/-- The settings of the store, and the length of an event's line. -/
structure Store where
  compaction : UsageEventCompaction
  maxBytes : Nat
  lineBytes : RuntimeEvent → Nat

/-- The file operation that a call comes to next. -/
inductive Phase
  | appending (event : RuntimeEvent)
  | statting
  | reading
  | replacing (read : List RuntimeEvent) (nowIso : String)
  | returned
  | thrown
  deriving DecidableEq

/-- `appended` lists the events of other kinds than usage, as their appends took place. -/
structure World where
  log : List RuntimeEvent
  calls : List Phase
  appended : List RuntimeEvent
  deriving DecidableEq

inductive Action
  | appendEvent (event : RuntimeEvent)
  | advance (number : Nat) (fails : Bool) (nowIso : String)

def others (log : List RuntimeEvent) : List RuntimeEvent :=
  log.filter fun event => !isUsage event

def size (store : Store) (log : List RuntimeEvent) : Nat :=
  (log.map store.lineBytes).sum

/-- One file operation of a call, which may fail. A compaction that fails is a warning. -/
def advance (store : Store) (world : World) (nowIso : String) :
    Phase → Bool → Option (World × Phase)
  | .appending event, false =>
    some ({ world with
      log := world.log ++ [event]
      appended := world.appended ++ others [event] },
      if isUsage event then .statting else .returned)
  | .appending _, true => some (world, .thrown)
  | .statting, false =>
    some (world, if size store world.log ≤ store.maxBytes then .returned else .reading)
  | .reading, false =>
    some (world, if (compactUsageEvents store.compaction world.log nowIso).length ≥ world.log.length then
        .returned
      else
        .replacing world.log nowIso)
  | .replacing read readAt, false =>
    some ({ world with log := compactUsageEvents store.compaction read readAt }, .returned)
  | .statting, true | .reading, true | .replacing _ _, true => some (world, .returned)
  | .returned, _ | .thrown, _ => none

def step (store : Store) (world : World) : Action → Option World
  | .appendEvent event => some { world with calls := world.calls ++ [.appending event] }
  | .advance number fails nowIso =>
    match world.calls[number]? with
    | none => none
    | some phase =>
      match advance store world nowIso phase fails with
      | none => none
      | some (next, later) => some { next with calls := world.calls.set number later }

/-- The log has each event of another kind than usage once for each append, in order. -/
def Complete (world : World) : Prop :=
  others world.log = world.appended

/-- A replacement comes where no event of another kind than usage has been appended since
the log was read. -/
def timely (world : World) : Action → Bool
  | .advance number false _ =>
    match world.calls[number]? with
    | some (.replacing read _) => others read = others world.log
    | _ => true
  | _ => true

theorem advance_others (complete : Complete world)
    (advanced : advance store world nowIso phase fails = some (after, later)) :
    (∃ read readAt, phase = .replacing read readAt ∧ fails = false ∧
        others after.log = others read ∧ after.appended = world.appended) ∨
      (fails = false → ∀ read readAt, phase ≠ .replacing read readAt) ∧ Complete after := by
  unfold advance at advanced
  split at advanced
  case h_1 event =>
    cases advanced
    refine .inr ⟨fun _ _ _ same => (by cases same), ?_⟩
    unfold Complete others at complete ⊢
    rw [List.filter_append, complete]
  case h_5 read readAt =>
    cases advanced
    exact .inl ⟨read, readAt, rfl, rfl, compactUsageEvents_others read readAt, rfl⟩
  case h_8 =>
    cases advanced
    exact .inr ⟨fun went => (by cases went), complete⟩
  case h_9 | h_10 => cases advanced
  all_goals
    cases advanced
    exact .inr ⟨fun _ _ _ same => (by cases same), complete⟩

theorem timely_iff (world : World) (action : Action) (next : World) (complete : Complete world)
    (stepped : step store world action = some next) :
    timely world action = true ↔ Complete next := by
  cases action with
  | appendEvent event =>
    cases stepped
    exact iff_of_true rfl complete
  | advance number fails nowIso =>
    simp only [step] at stepped
    split at stepped
    · cases stepped
    · rename_i phase found
      split at stepped
      · cases stepped
      · rename_i after later advanced
        cases stepped
        rcases advance_others complete advanced with
          ⟨read, readAt, rfl, rfl, kept, same⟩ | ⟨other, kept⟩
        · unfold Complete at complete ⊢
          simp only [timely, found, decide_eq_true_eq, complete, kept, same]
        · refine iff_of_true ?_ kept
          cases fails with
          | true => rfl
          | false =>
            simp only [timely, found]
            split
            · rename_i read readAt replaced
              exact absurd (Option.some.inj replaced) (other rfl read readAt)
            · rfl

/-- In a run, every event of another kind than usage is in the log once and in order at every
moment, just where each replacement is timely. -/
theorem appended_complete_iff (store : Store) (actions : List Action) (world final : World)
    (complete : Complete world) (ran : runActions (step store) world actions = some final) :
    (∀ front back middle, actions = front ++ back →
        runActions (step store) world front = some middle → Complete middle) ↔
      Along (step store) (fun state action => timely state action = true) world actions :=
  (along_iff_reached timely_iff actions complete ran).symm

section Example

/-- A store that compacts at once, with the dates of one day. -/
private def smallStore : Store where
  compaction :=
    { dateParse := fun text => if text = "2026-01-01T00:00:00Z" then some 1767225600000 else none
      isoDay := fun _ => "2026-01-01"
      retentionDays := 365 }
  maxBytes := 1
  lineBytes := fun _ => 100

private def usageEvent (seq : Nat) : RuntimeEvent :=
  ⟨seq, "usage", "2026-01-01T00:00:00Z", some "model"⟩

private def turnEvent (seq : Nat) : RuntimeEvent :=
  ⟨seq, "turn_completed", "2026-01-01T00:00:00Z", none⟩

private def noEvents : World := ⟨[], [], []⟩

private def twoCompactions : List Action :=
  [.appendEvent (usageEvent 1), .advance 0 false "", .appendEvent (usageEvent 2),
    .advance 1 false "", .advance 1 false "", .advance 1 false "2026-01-01T00:00:00Z",
    .advance 1 false "", .appendEvent (turnEvent 3), .advance 2 false ""]

/-- Each compaction comes before the next append. -/
theorem appended_complete_two : ∃ final, runActions (step smallStore) noEvents twoCompactions = some final ∧
      final.log = [usageEvent 2, turnEvent 3] ∧ Complete final := by
  have ran : runActions (step smallStore) noEvents twoCompactions =
      some ⟨[usageEvent 2, turnEvent 3], [.statting, .returned, .returned], [turnEvent 3]⟩ := by
    decide
  have timely_ : Along (step smallStore) (fun state action => timely state action = true)
      noEvents twoCompactions := by decide
  exact ⟨_, ran, rfl, (appended_complete_iff smallStore twoCompactions noEvents _ rfl ran).mpr
    timely_ twoCompactions [] _ (List.append_nil _).symm ran⟩

/-- A turn event is appended while a compaction has read the log and not yet replaced it. -/
theorem appended_event_lost : Complete noEvents ∧ ∃ final, runActions (step smallStore) noEvents
        [.appendEvent (usageEvent 1), .advance 0 false "", .appendEvent (usageEvent 2),
          .advance 1 false "", .advance 1 false "", .advance 1 false "2026-01-01T00:00:00Z",
          .appendEvent (turnEvent 3), .advance 2 false "", .advance 1 false ""] = some final ∧
      final.calls[2]? = some .returned ∧ final.appended = [turnEvent 3] ∧
      final.log = [usageEvent 2] ∧ ¬ Complete final :=
  ⟨rfl, ⟨[usageEvent 2], [.statting, .returned, .returned], [turnEvent 3]⟩, by decide,
    rfl, rfl, rfl, by unfold Complete; decide⟩

end Example

end QiongQi.EventAppends
