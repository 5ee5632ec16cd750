import QiongQi.KernelRuns

/-! What the kernel's state functions can change. Every later result uses these
facts instead of the function bodies. -/
namespace QiongQi.KernelReducers
open JsonValues Programs RuntimeContracts MiddlewareCommands ExecutionGraphs RuntimeKernels
  KernelRuns

variable {Ext : Type} {ExtAnswer : Ext → Type}

/-- What commands never touch. -/
structure SameHeader (before after : RunStateV3) : Prop where
  graphVersion : after.graphVersion = before.graphVersion
  identity : after.identity = before.identity
  status : after.status = before.status
  cursor : after.cursor = before.cursor
  outcome : after.outcome = before.outcome
  createdAt : after.createdAt = before.createdAt
  updatedAt : after.updatedAt = before.updatedAt

theorem SameHeader.refl (state : RunStateV3) : SameHeader state state :=
  ⟨rfl, rfl, rfl, rfl, rfl, rfl, rfl⟩

theorem SameHeader.trans (left : SameHeader first second) (right : SameHeader second third) :
    SameHeader first third where
  graphVersion := right.graphVersion.trans left.graphVersion
  identity := right.identity.trans left.identity
  status := right.status.trans left.status
  cursor := right.cursor.trans left.cursor
  outcome := right.outcome.trans left.outcome
  createdAt := right.createdAt.trans left.createdAt
  updatedAt := right.updatedAt.trans left.updatedAt

theorem except_bind {next : α → Except ε β} (returned : (result >>= next) = .ok value) :
    ∃ middle, result = .ok middle ∧ next middle = .ok value := by
  cases result with
  | error reason => cases returned
  | ok middle => exact ⟨middle, rfl, returned⟩

theorem addBudget_only {processed extended : List String}
    (added : addBudget state delta usageId processed = .ok (next, extended)) :
    ∃ budgets middleware, next = { state with budgets, middleware } := by
  cases usageId with
  | none =>
    obtain ⟨budgets, _, rest⟩ := except_bind added
    cases rest
    exact ⟨budgets, state.middleware, rfl⟩
  | some usageId =>
    simp only [addBudget] at added
    split at added
    · cases added
      exact ⟨state.budgets, state.middleware, rfl⟩
    · obtain ⟨budgets, _, rest⟩ := except_bind added
      cases rest
      exact ⟨budgets, _, rfl⟩

theorem applyCommand_header (applied : applyCommand state processed command = .ok (next, after)) :
    SameHeader state next := by
  cases command with
  | addBudget delta usageId =>
    obtain ⟨ids, _, rest⟩ := except_bind applied
    obtain ⟨⟨added, extended⟩, found, final⟩ := except_bind rest
    cases final
    obtain ⟨budgets, middleware, rfl⟩ := addBudget_only found
    exact ⟨rfl, rfl, rfl, rfl, rfl, rfl, rfl⟩
  | setTaskRevision revision =>
    simp only [applyCommand] at applied
    split at applied <;> cases applied
    exact ⟨rfl, rfl, rfl, rfl, rfl, rfl, rfl⟩
  | _ =>
    cases applied
    exact ⟨rfl, rfl, rfl, rfl, rfl, rfl, rfl⟩

theorem applyCommandList_header {commands : List MiddlewareCommand} :
    ∀ {state next : RunStateV3} {processed : Option (List String)},
      applyCommandList state processed commands = .ok next → SameHeader state next := by
  induction commands with
  | nil =>
    intro state next processed applied
    cases applied
    exact SameHeader.refl state
  | cons command rest ih =>
    intro state next processed applied
    obtain ⟨⟨middle, after⟩, first, others⟩ := except_bind applied
    exact (applyCommand_header first).trans (ih others)

/-- The second validation of a command list changes nothing. -/
@[simp] theorem applyCommands_eq (state : RunStateV3) (commands : List MiddlewareCommand) :
    applyCommands state commands = applyCommandList state none commands := by
  simp only [applyCommands, canonicalize_commandsJson]
  rfl

theorem applyCommands_header (applied : applyCommands state commands = .ok next) :
    SameHeader state next :=
  applyCommandList_header ((applyCommands_eq state commands).symm.trans applied)

theorem withNodeValue_header (state : RunStateV3) (nodeId : String) (value : Option JsValue) :
    SameHeader state (withNodeValue state nodeId value) := by
  cases value <;> exact ⟨rfl, rfl, rfl, rfl, rfl, rfl, rfl⟩

theorem isTerminal_congr (same : left.status = right.status) :
    isTerminal left = isTerminal right := by
  simp only [isTerminal, same]

theorem outcomeFromTerminalState_congr (status : left.status = right.status)
    (outcome : left.outcome = right.outcome) :
    outcomeFromTerminalState left = outcomeFromTerminalState right := by
  simp only [outcomeFromTerminalState, status, outcome]

section
variable (terminal : isTerminal state = true)
include terminal

theorem withOutcome_terminal :
    withOutcome state outcome now = state := by
  simp only [withOutcome, terminal, if_true]

theorem reduceCompletedNode_terminal
    (ended : payload.outcome.isSome)
    (reduced : reduceCompletedNode kernel state node payload seq now = .ok next) :
    next.status = state.status ∧ next.outcome = state.outcome ∧
      next.cursor.checkpointSeq = max state.cursor.checkpointSeq seq := by
  obtain ⟨outcome, found⟩ := Option.isSome_iff_exists.mp ended
  obtain ⟨applied, commands, rest⟩ := except_bind reduced
  have header := (applyCommands_header commands).trans (withNodeValue_header applied node.id
    payload.value)
  have stillTerminal : isTerminal (withNodeValue applied node.id payload.value) = true :=
    (isTerminal_congr header.status).trans terminal
  rw [found] at rest
  cases rest
  simp only [endAt, withOutcome_terminal stillTerminal]
  exact ⟨header.status, header.outcome, congrArg (fun cursor => max cursor.checkpointSeq seq)
    header.cursor⟩

theorem reduceAfterMiddleware_terminal {payload : AfterMiddlewarePayload}
    (reduced : reduceAfterMiddleware kernel state payload seq now = .ok next) :
    next.status = state.status ∧ next.outcome = state.outcome ∧
      next.cursor.checkpointSeq = max state.cursor.checkpointSeq seq := by
  obtain ⟨outcomed, first, rest⟩ := except_bind reduced
  obtain ⟨moved, second, final⟩ := except_bind rest
  simp only [afterMiddlewareState, terminal, if_true] at first
  cases first
  simp only [afterMiddlewareCursor, terminal, if_true] at second
  cases second
  cases final
  exact ⟨rfl, rfl, rfl⟩

end

/-- Every reduced completion moves the checkpoint to its own number or keeps a
later one. -/
theorem reduceCompletedNode_checkpoint
    (reduced : reduceCompletedNode kernel state node payload seq now = .ok next) :
    next.cursor.checkpointSeq = max state.cursor.checkpointSeq seq := by
  obtain ⟨applied, commands, rest⟩ := except_bind reduced
  have header := (applyCommands_header commands).trans (withNodeValue_header applied node.id
    payload.value)
  cases present : payload.outcome with
  | some outcome =>
    rw [present] at rest
    cases rest
    exact congrArg (fun cursor => max cursor.checkpointSeq seq) header.cursor
  | none =>
    rw [present] at rest
    obtain ⟨target, _, rest⟩ := except_bind rest
    obtain ⟨_, _, final⟩ := except_bind rest
    cases final
    exact congrArg (fun cursor => max cursor.checkpointSeq seq) header.cursor

theorem withOutcome_cursor (state : RunStateV3) (outcome : RunOutcome)
    (now : NonEmptyString) : (withOutcome state outcome now).cursor = state.cursor := by
  unfold withOutcome
  split <;> rfl

theorem afterMiddlewareCursor_header
    (controlled : afterMiddlewareCursor kernel outcomed commands = .ok moved) :
    moved.status = outcomed.status ∧
      moved.cursor.checkpointSeq = outcomed.cursor.checkpointSeq := by
  unfold afterMiddlewareCursor at controlled
  split at controlled
  · cases controlled
    exact ⟨rfl, rfl⟩
  · unfold applyControl at controlled
    split at controlled
    · cases controlled
      exact ⟨rfl, rfl⟩
    · obtain ⟨_, _, final⟩ := except_bind controlled
      cases final
      exact ⟨rfl, rfl⟩

/-- So does every reduced `node.after_middleware`. -/
theorem reduceAfterMiddleware_checkpoint {payload : AfterMiddlewarePayload}
    (reduced : reduceAfterMiddleware kernel state payload seq now = .ok next) :
    next.cursor.checkpointSeq = max state.cursor.checkpointSeq seq := by
  obtain ⟨outcomed, first, rest⟩ := except_bind reduced
  obtain ⟨moved, second, final⟩ := except_bind rest
  cases final
  have outcomedCursor : outcomed.cursor = state.cursor := by
    simp only [afterMiddlewareState] at first
    split at first
    · cases first
      rfl
    · obtain ⟨applied, commands, final⟩ := except_bind first
      cases final
      have header := applyCommands_header commands
      split
      · rw [withOutcome_cursor, header.cursor]
      · exact header.cursor
  show max moved.cursor.checkpointSeq seq = _
  rw [(afterMiddlewareCursor_header second).2, outcomedCursor]

theorem migrateGraphState_header (migrated : migrateGraphState kernel state now = .ok next) :
    next.status = state.status ∧ next.cursor.checkpointSeq = state.cursor.checkpointSeq := by
  have detour : ∀ version marker resumeNodeId,
      (accountingDetour state version marker resumeNodeId).status = state.status ∧
        (accountingDetour state version marker resumeNodeId).cursor.checkpointSeq =
          state.cursor.checkpointSeq := by
    intro version marker resumeNodeId
    unfold accountingDetour
    split <;> exact ⟨rfl, rfl⟩
  unfold migrateGraphState at migrated
  simp only at migrated
  split at migrated
  · cases migrated
    exact ⟨rfl, rfl⟩
  split at migrated
  · split at migrated
    · cases migrated
      exact ⟨rfl, rfl⟩
    · obtain ⟨_, _, final⟩ := except_bind migrated
      cases final
      exact detour _ _ _
  split at migrated
  · cases migrated
    exact ⟨rfl, rfl⟩
  split at migrated
  · simp only [migrateV1Proposal] at migrated
    split at migrated
    · cases migrated
    split at migrated
    · cases migrated
    split at migrated
    · cases migrated
    cases migrated
    unfold revalidateProposal
    simp only
    split <;> exact ⟨rfl, rfl⟩
  split at migrated
  · obtain ⟨_, _, final⟩ := except_bind migrated
    cases final
    exact detour _ _ _
  · cases migrated
    exact ⟨rfl, rfl⟩

theorem withOutcome_begun : (withOutcome state outcome now).status ≠ .created := by
  unfold withOutcome
  split
  · rename_i terminal
    intro created
    simp [isTerminal, created] at terminal
  · show outcome.status.toRunStatus ≠ .created
    cases outcome.status <;> decide

theorem reduceCompletedNode_begun
    (reduced : reduceCompletedNode kernel state node payload seq now = .ok next) :
    next.status ≠ .created := by
  obtain ⟨applied, commands, rest⟩ := except_bind reduced
  cases present : payload.outcome with
  | some outcome =>
    rw [present] at rest
    cases rest
    exact withOutcome_begun
  | none =>
    rw [present] at rest
    obtain ⟨target, _, rest⟩ := except_bind rest
    obtain ⟨_, _, final⟩ := except_bind rest
    cases final
    exact fun created => by cases created

theorem reduceAfterMiddleware_begun {payload : AfterMiddlewarePayload} (begun : state.status ≠ .created)
    (reduced : reduceAfterMiddleware kernel state payload seq now = .ok next) :
    next.status ≠ .created := by
  obtain ⟨outcomed, first, rest⟩ := except_bind reduced
  obtain ⟨moved, second, final⟩ := except_bind rest
  cases final
  have outcomedBegun : outcomed.status ≠ .created := by
    simp only [afterMiddlewareState] at first
    split at first
    · cases first
      exact begun
    · obtain ⟨applied, commands, final⟩ := except_bind first
      cases final
      split
      · exact withOutcome_begun
      · rw [(applyCommands_header commands).status]
        exact begun
  show moved.status ≠ .created
  rw [(afterMiddlewareCursor_header second).1]
  exact outcomedBegun

/-- A stored snapshot is one its own schema leaves alone. -/
def Stored (world : RunWorld Ext) : Prop :=
  ∀ snapshot, world.snapshot = some snapshot → RunStateV3.persist snapshot = some snapshot

private theorem performSave_stored (stored : Stored world) :
    Stored (performSave around world state).2 := by
  unfold performSave
  split
  · exact stored
  · split
    · exact stored
    · rename_i persisted found
      rintro snapshot ⟨⟩
      exact RunStateV3.persist_idem found

theorem recordEffects_snapshot (identity : RunIdentity) (now : NonEmptyString)
    (effects : List (EffectEventType × JsValue)) :
    ∀ world : RunWorld Ext, (effects.foldl (recordEffect identity now) world).snapshot = world.snapshot := by
  induction effects with
  | nil => exact fun _ => rfl
  | cons effect rest ih => exact fun world => ih (recordEffect identity now world effect)

private theorem perform_stored (world : RunWorld Ext) (stored : Stored world) :
    Stored (perform around identity world op).2 := by
  cases op with
  | save state fence => exact performSave_stored stored
  | append event fence =>
    simp only [perform, performAppend]
    split
    · exact stored
    · split <;> exact stored
  | external call =>
    intro snapshot found
    have same := recordEffects_snapshot identity (around.nowIso world.clock)
      (around.effects world.clock) (world.observe (.called call))
    exact stored snapshot (same.symm.trans found)
  | _ => exact stored

theorem attemptRuns_stored (kernel : RuntimeKernel ExtAnswer) (identity : RunIdentity)
    (attempts : List (RunAttempt ExtAnswer)) : Stored (attemptRuns kernel identity {} attempts) := by
  suffices kept : ∀ world : RunWorld Ext, Stored world →
      Stored (attemptRuns kernel identity world attempts) from
    kept {} fun _ found => by cases found
  induction attempts with
  | nil => exact fun _ stored => stored
  | cons attempt rest ih =>
    intro world stored
    refine ih _ ?_
    have ran := @execute_preserves _ _ _ _ _ (runHost attempt.surroundings identity) _
      (fun world op => perform_stored world) (run kernel identity attempt.passes)
      { world with clock := 0 } stored
    unfold attemptRun
    split
    all_goals
      rename_i executed
      rw [executed] at ran
      exact ran

end QiongQi.KernelReducers
