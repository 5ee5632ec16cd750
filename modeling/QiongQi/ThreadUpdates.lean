import Mathlib.Data.List.Permutation
import QiongQi.ThreadOperations

/-! Concurrent operations on one thread record. `ThreadService` reads and writes without a
queue, so an operation can write back fields that another one has changed since. -/
namespace QiongQi.ThreadUpdates
open Machines SharedRecords ThreadRecords ThreadOperations

variable {toLowerCase : String → String}

private def patchedBudget (patch : ThreadPatch) (current : Option ℚ) : Option ℚ :=
  patch.costBudgetUsd.getD current

private def patchedWarning (patch : ThreadPatch) (current : Option Bool) : Option Bool :=
  match patch.costBudgetUsd with
  | some none => none
  | some (some _) => some false
  | none => patch.costBudgetWarningSent.or current

private def patchedParent (patch : ThreadPatch) (current : Option String) : Option String :=
  if patch.relation.any (· ≠ .side) then none else current

private theorem update_eq : update current patch now = { current with
      title := patch.title.getD current.title
      workspace := patch.workspace.getD current.workspace
      model := patch.model.getD current.model
      mode := patch.mode.getD current.mode
      status := patch.status.getD current.status
      approvalPolicy := patch.approvalPolicy.getD current.approvalPolicy
      sandboxMode := patch.sandboxMode.getD current.sandboxMode
      relation := patch.relation.getD current.relation
      workModeId := patch.workModeId.getD current.workModeId
      workModeModuleId := patch.workModeModuleId.or current.workModeModuleId
      costBudgetUsd := patchedBudget patch current.costBudgetUsd
      costBudgetWarningSent := patchedWarning patch current.costBudgetWarningSent
      parentThreadId := patchedParent patch current.parentThreadId
      updatedAt := now } := by
  unfold update patchedBudget patchedWarning patchedParent touchThread
  by_cases promoted : patch.relation.any (· ≠ .side) = true <;>
    rcases patch.costBudgetUsd with _ | _ | budget <;>
    rcases patch.costBudgetWarningSent with _ | sent <;>
    simp only [promoted, Bool.false_eq_true, if_true, if_false] <;> rfl

private theorem getD_agree {given : Option α} (kept : given.isSome = false → left = right) :
    given.getD left = given.getD right := by
  cases given with
  | none => exact kept rfl
  | some _ => rfl

private theorem or_agree {given left right : Option α}
    (kept : given.isSome = false → left = right) : given.or left = given.or right := by
  cases given with
  | none => simpa using kept rfl
  | some _ => rfl

variable {field : ThreadField}

theorem update_agree {patch : ThreadPatch} (agree : Agrees (.plain (.update patch now)) snapshot stored) :
    update snapshot patch now = update stored patch now := by
  rw [update_eq, update_eq]
  apply same_of_fields
  intro field
  have kept := agree field
  cases field
  case title | workspace | model | mode | status | approvalPolicy | sandboxMode | relation | workModeId =>
    exact getD_agree kept
  case workModeModuleId => exact or_agree kept
  case costBudgetUsd => exact getD_agree kept
  case costBudgetWarningSent =>
    simp only [SameField, patchedWarning]
    rcases budget : patch.costBudgetUsd with _ | _ | _
    · apply or_agree
      intro unset
      exact kept (by simp [overwrites, budget, unset])
    · rfl
    · rfl
  case parentThreadId =>
    unfold SameField patchedParent
    by_cases promoted : patch.relation.any (· ≠ .side) = true
    · rw [if_pos promoted, if_pos promoted]
    · rw [if_neg promoted, if_neg promoted]
      exact kept (by simpa [overwrites] using promoted)
  case updatedAt => rfl
  all_goals exact kept rfl

theorem startedThread_agree {workModeId createdAt startedAt : String}
    (agree : Agrees (.startTurn request workModeId createdAt startedAt now) snapshot stored) :
    startedThread toLowerCase snapshot request workModeId createdAt startedAt now =
      startedThread toLowerCase stored request workModeId createdAt startedAt now := by
  have sameId : snapshot.id = stored.id := agree .id rfl
  have sameTitle : snapshot.title = stored.title := agree .title rfl
  have sameTurns : snapshot.turns = stored.turns := agree .turns rfl
  apply same_of_fields
  intro field
  have kept := agree field
  cases field
  case title =>
    unfold SameField startedThread deriveFirstTurnTitlePatch
    rw [sameTitle, sameTurns]
  case approvalPolicy | sandboxMode => exact getD_agree kept
  case turns =>
    unfold SameField startedThread
    rw [sameId, sameTurns]
  case status | updatedAt => rfl
  all_goals exact kept rfl

private theorem agree_touched (agree : Agrees operation snapshot stored)
    (only : ∀ field, field ≠ .updatedAt → overwrites operation snapshot field = false) :
    snapshot = touchThread stored snapshot.updatedAt := by
  apply same_of_fields
  intro field
  have kept := agree field
  cases field
  case updatedAt => rfl
  all_goals exact kept (only _ (by decide))

private theorem agree_idle (agree : Agrees operation snapshot stored)
    (only : ∀ field, field ≠ .updatedAt → field ≠ .status → overwrites operation snapshot field = false) :
    snapshot = { stored with updatedAt := snapshot.updatedAt, status := snapshot.status } := by
  apply same_of_fields
  intro field
  have kept := agree field
  cases field
  case updatedAt | status => rfl
  all_goals exact kept (only _ (by decide) (by decide))

theorem interruptedThread_agree {discard : Bool}
    (agree : Agrees (.plain (.interruptTurn turnId discard finishedAt now)) snapshot stored) :
    interruptedThread snapshot turnId discard finishedAt now =
      interruptedThread stored turnId discard finishedAt now := by
  have sameTurns : snapshot.turns = stored.turns := agree .turns rfl
  have samePresence : hasTurn snapshot turnId = hasTurn stored turnId := by
    rw [hasTurn, hasTurn, sameTurns]
  unfold interruptedThread
  by_cases present : hasTurn snapshot turnId = true
  · rw [if_pos present, if_pos (samePresence ▸ present),
      agree_idle agree (by intro field apart other; cases field <;> first | rfl | contradiction)]
    rfl
  · rw [if_neg present, if_neg (samePresence ▸ present)]
    rw [agree_touched agree (by
      intro field apart
      cases field <;> first | rfl | contradiction | simpa [overwrites] using present)]
    rfl

theorem apply_agree (agree : Agrees operation snapshot stored) :
    apply toLowerCase operation snapshot = apply toLowerCase operation stored := by
  cases operation with
  | startTurn request workModeId createdAt startedAt now =>
    exact congrArg some (startedThread_agree agree)
  | plain request =>
    cases request with
    | update patch now => exact congrArg some (update_agree agree)
    | setGoal request now
    | setTodos todos ids now
    | finishGoalElapsedTimer timer elapsed now
    | projectItem item now =>
      rw [agree_touched agree (by intro field apart; cases field <;> first | rfl | contradiction)]
      rfl
    | finishTurn turnId status error finishedAt now =>
      rw [agree_idle agree (by intro field apart other; cases field <;> first | rfl | contradiction)]
      rfl
    | interruptTurn turnId discard finishedAt now =>
      exact congrArg some (interruptedThread_agree agree)
    | startTurn request createdAt startedAt now => rfl

private theorem getD_unset {given : Option α} {current : α} (unset : given.isSome = false) :
    current = given.getD current := by
  cases given with
  | none => rfl
  | some _ => cases unset

private theorem update_frame
    (unset : overwrites (.plain (.update patch now)) current field = false) :
    SameField current (update current patch now) field := by
  rw [update_eq]
  cases field
  case title | workspace | model | mode | status | approvalPolicy | sandboxMode | relation | workModeId |
      costBudgetUsd =>
    exact getD_unset unset
  case workModeModuleId =>
    cases given : patch.workModeModuleId with
    | none => simp [SameField]
    | some _ => simp [overwrites, given] at unset
  case costBudgetWarningSent =>
    unfold SameField patchedWarning
    cases budget : patch.costBudgetUsd with
    | none =>
      cases warning : patch.costBudgetWarningSent with
      | none => simp
      | some _ => simp [overwrites, warning] at unset
    | some _ => simp [overwrites, budget] at unset
  case parentThreadId =>
    unfold SameField patchedParent
    rw [if_neg]
    simpa [overwrites] using unset
  case updatedAt => cases unset
  all_goals rfl

/-- An operation leaves the fields that it does not set as it has read them. -/
theorem apply_frame (applied : apply toLowerCase operation current = some after)
    (unset : sets toLowerCase operation current field = false) : SameField current after field := by
  obtain ⟨kept, underived⟩ := Bool.or_eq_false_iff.mp unset
  cases operation with
  | startTurn request workModeId createdAt startedAt now =>
    cases applied
    cases field
    case title => exact getD_unset underived
    case approvalPolicy | sandboxMode => exact getD_unset kept
    case status | updatedAt => cases kept
    case turns => cases underived
    all_goals rfl
  | plain request =>
    cases request with
    | update patch now =>
      cases applied
      exact update_frame kept
    | setGoal request now
    | setTodos todos ids now
    | finishGoalElapsedTimer timer elapsed now =>
      obtain ⟨made, -, rfl⟩ := Option.map_eq_some_iff.mp applied
      cases field <;> first | rfl | cases (show true = false from unset)
    | projectItem item now
    | finishTurn turnId status error finishedAt now =>
      cases applied
      cases field <;> first | rfl | cases (show true = false from unset)
    | interruptTurn turnId discard finishedAt now =>
      cases applied
      unfold interruptedThread
      by_cases present : hasTurn current turnId = true
      · rw [if_pos present]
        cases field
        case status => simp [overwrites, present] at kept
        case turns => simp [derives, present] at underived
        case updatedAt => cases kept
        all_goals rfl
      · rw [if_neg present]
        cases field <;> first | rfl | cases (show true = false from kept)
    | startTurn request createdAt startedAt now => cases applied

theorem threadProtocol_lawful : Lawful (threadProtocol toLowerCase) Agrees where
  agree _ _ _ agree := apply_agree agree
  giveUp request opened record gaveUp := by
    cases request with
    | startTurn request createdAt startedAt now => cases gaveUp
    | _ => exact gaveUp

/-- Every completed operation has left the fields it does not set as they were stored. -/
def NothingReverted (toLowerCase : String → String)
    (world : World ThreadRequest ThreadOperation ThreadRecord) : Prop :=
  ∀ completion ∈ world.completions, ∀ field,
    sets toLowerCase (settle completion.request completion.before) completion.before field = false →
      SameField completion.before completion.after field

theorem execute_frame (unset : sets toLowerCase (settle request current) current field = false) :
    SameField current ((threadProtocol toLowerCase).execute current request) field := by
  unfold Protocol.execute
  cases applied : (threadProtocol toLowerCase).apply (settle request current) current with
  | none =>
    have still : (threadProtocol toLowerCase).apply
        ((threadProtocol toLowerCase).settle request current) current = none := applied
    rw [still]
    cases field <;> rfl
  | some after =>
    have written : (threadProtocol toLowerCase).apply
        ((threadProtocol toLowerCase).settle request current) current = some after := applied
    rw [written]
    exact apply_frame applied unset

/-- In a run in which every operation that writes finds the fields it does not overwrite as
it read them, no update is lost. -/
theorem thread_updates_kept (toLowerCase : String → String) (initial : ThreadRecord)
    (actions : List (Action ThreadRequest))
    (world : World ThreadRequest ThreadOperation ThreadRecord)
    (timely : Along (step (threadProtocol toLowerCase))
      (Timely (threadProtocol toLowerCase) Agrees) { record := initial } actions)
    (ran : runActions (step (threadProtocol toLowerCase)) { record := initial } actions = some world) :
    SomeOrder (threadProtocol toLowerCase) initial world ∧ NothingReverted toLowerCase world := by
  have inOrder := inOrder_run threadProtocol_lawful timely ran
  constructor
  · exact inOrder.someOrder
  · intro completion member field unset
    rw [inOrder.alone completion member]
    exact execute_frame unset

private def newThread : ThreadRecord :=
  { id := "thr_1", title := "New chat", workspace := "/work", model := "m"
    createdAt := "t0", updatedAt := "t0" }

private def rename : ThreadRequest :=
  .update { title := some "Renamed" } "t1"

private def pursue : ThreadRequest :=
  .setGoal { objective := some "Ship it" } "t2"

/-- A rename that completes before a goal is set. -/
theorem thread_updates_kept_in_turn :
    ∃ world, runActions (step (threadProtocol String.toLower)) { record := newThread }
        [.open 1 rename, .read 1, .open 2 pursue, .write 1, .read 2, .write 2] = some world ∧ world.record.title = "Renamed" ∧ world.record.goal.isSome ∧
      SomeOrder (threadProtocol String.toLower) newThread world ∧
      NothingReverted String.toLower world :=
  ⟨_, rfl, by decide, by decide, thread_updates_kept String.toLower newThread
      [.open 1 rename, .read 1, .open 2 pursue, .write 1, .read 2, .write 2] _
      (by decide) rfl⟩

/-- The goal is set from a record that was read before the rename was written, and the
thread has its old title again. -/
theorem rename_lost_to_goal :
    ∃ world, runActions (step (threadProtocol String.toLower)) { record := newThread }
        [.open 1 rename, .open 2 pursue, .read 1, .read 2, .write 1, .write 2] = some world ∧ world.calls.length = 0 ∧
      ¬ SomeOrder (threadProtocol String.toLower) newThread world ∧
      ¬ NothingReverted String.toLower world := by
  refine ⟨_, rfl, rfl, ?_, ?_⟩
  · rintro ⟨order, perm, ends⟩
    have titled := congrArg ThreadRecord.title ends
    rcases List.perm_pair.mp perm with rfl | rfl
    all_goals exact absurd titled (by decide)
  · intro kept
    have goalWrite := kept _ (List.mem_cons_of_mem _ List.mem_cons_self) .title (by decide)
    exact absurd goalWrite (by decide)

end QiongQi.ThreadUpdates
