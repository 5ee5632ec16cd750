import QiongQi.KernelReplay
import QiongQi.KernelDurability
import QiongQi.Histories

/-! An account of the commands of one run, kept by somebody who sees the run's operations and
their answers but not its state. Every list of commands goes into the account once: the lists
of the stored events that are replayed, then each list that is answered, in the order of the
answers. A state may only be saved when it is what the account says. -/
namespace QiongQi.CommandLedgers
open JsonValues Programs RuntimeContracts MiddlewareCommands ExecutionGraphs RuntimeKernels
  KernelRuns KernelReducers KernelDurability KernelReplay

variable {Ext : Type} {ExtAnswer : Ext → Type}

structure RunData where
  budgets : BudgetState
  recovery : RecoveryState
  middleware : List (String × MiddlewareState)
  nodeData : List (String × JsValue)
  taskRevision : SafeNat
  pendingEffects : List EffectIntent
  committedEffects : List CommittedEffectRef

def dataOf (state : RunStateV3) : RunData where
  budgets := state.budgets
  recovery := state.recovery
  middleware := state.middleware
  nodeData := state.nodeData
  taskRevision := state.taskRevision
  pendingEffects := state.pendingEffects
  committedEffects := state.committedEffects

/-- The commands take the data from one to the other, whatever state it is the data of. -/
def Applies (commands : List MiddlewareCommand) (before after : RunData) : Prop :=
  ∀ state, dataOf state = before → ∃ next, applyCommands state commands = .ok next ∧ dataOf next = after

/-- The value that a completed node leaves. -/
def RunData.keep (data : RunData) (nodeId : String) : Option JsValue → RunData
  | none => data
  | some value => { data with nodeData := assign data.nodeData nodeId value }

/-- A state with these data. -/
def RunData.placed (data : RunData) (header : RunStateV3) : RunStateV3 :=
  { header with
    budgets := data.budgets
    recovery := data.recovery
    middleware := data.middleware
    nodeData := data.nodeData
    taskRevision := data.taskRevision
    pendingEffects := data.pendingEffects
    committedEffects := data.committedEffects }

/-- The data of one state under the header of another. -/
def under (header state : RunStateV3) : RunStateV3 :=
  (dataOf state).placed header

section
variable (header state : RunStateV3)

theorem dataOf_under : dataOf (under header state) = dataOf state := rfl

theorem under_of_data {header state : RunStateV3} (same : dataOf header = dataOf state) :
    under header state = header := by
  simp only [dataOf, RunData.mk.injEq] at same
  obtain ⟨budgets, recovery, middleware, nodeData, revision, pending, committed⟩ := same
  simp only [under, RunData.placed, dataOf, ← budgets, ← recovery, ← middleware, ← nodeData,
    ← revision, ← pending, ← committed]

private theorem addBudget_under :
    addBudget (under header state) delta usageId processed =
      (addBudget state delta usageId processed).map fun added =>
        (under header added.1, added.2) := by
  cases usageId with
  | none =>
    simp only [addBudget, under, RunData.placed, dataOf]
    cases budgetKeys.foldlM (addBudgetKey delta) state.budgets <;> rfl
  | some usageId =>
    simp only [addBudget, under, RunData.placed, dataOf]
    split
    · rfl
    · cases budgetKeys.foldlM (addBudgetKey delta) state.budgets <;> rfl

private theorem applyCommand_under :
    applyCommand (under header state) processed command =
      (applyCommand state processed command).map fun applied =>
        (under header applied.1, applied.2) := by
  cases command with
  | addBudget delta usageId =>
    simp only [applyCommand]
    have ids : processedUsageIds (under header state) processed = processedUsageIds state processed := by
      cases processed <;> rfl
    rw [ids]
    cases processedUsageIds state processed with
    | error message => rfl
    | ok ids =>
      simp only [bind, Except.bind, addBudget_under]
      cases addBudget state delta usageId ids <;> rfl
  | setTaskRevision revision =>
    simp only [applyCommand]
    have revision : (under header state).taskRevision = state.taskRevision := rfl
    rw [revision]
    split <;> rfl
  | _ => rfl

private theorem applyCommandList_under :
    ∀ (state : RunStateV3) (processed : Option (List String)),
      applyCommandList (under header state) processed commands =
        (applyCommandList state processed commands).map (under header) := by
  induction commands with
  | nil => exact fun _ _ => rfl
  | cons command rest ih =>
    intro state processed
    simp only [applyCommandList, applyCommand_under]
    cases applyCommand state processed command with
    | error message => rfl
    | ok applied => exact ih applied.1 applied.2

end

variable {commands : List MiddlewareCommand} {notes : List Note}

/-- Commands read and write nothing but the data. -/
theorem applies_of_applied {state next : RunStateV3} (applied : applyCommands state commands = .ok next) :
    Applies commands (dataOf state) (dataOf next) := by
  intro other same
  refine ⟨under other next, ?_, dataOf_under other next⟩
  rw [applyCommands_eq] at applied ⊢
  rw [← under_of_data same, applyCommandList_under, applied]
  rfl

/-- A budget leaves the revision alone, and a revision is only taken if it is not lower. -/
theorem applyCommand_revision (applied : applyCommand state processed command = .ok (next, after)) :
    state.taskRevision.value ≤ next.taskRevision.value := by
  cases command with
  | addBudget delta usageId =>
    obtain ⟨ids, -, rest⟩ := except_bind applied
    obtain ⟨⟨added, extended⟩, found, final⟩ := except_bind rest
    cases final
    obtain ⟨budgets, middleware, rfl⟩ := addBudget_only found
    exact le_rfl
  | setTaskRevision revision =>
    simp only [applyCommand] at applied
    split at applied
    · cases applied
    · cases applied
      exact Nat.le_of_not_lt ‹_›
  | _ =>
    cases applied
    exact le_rfl

theorem applyCommandList_revision : ∀ {state next : RunStateV3} {processed : Option (List String)},
      applyCommandList state processed commands = .ok next →
        state.taskRevision.value ≤ next.taskRevision.value := by
  induction commands with
  | nil =>
    intro state next processed applied
    cases applied
    exact le_rfl
  | cons command rest ih =>
    intro state next processed applied
    obtain ⟨⟨middle, after⟩, first, others⟩ := except_bind applied
    exact (applyCommand_revision first).trans (ih others)

theorem applyCommands_revision (applied : applyCommands state commands = .ok next) :
    state.taskRevision.value ≤ next.taskRevision.value :=
  applyCommandList_revision ((applyCommands_eq state commands).symm.trans applied)

theorem Applies.forward (applies : Applies commands before after) (header : RunStateV3) :
    before.taskRevision.value ≤ after.taskRevision.value := by
  obtain ⟨next, applied, rfl⟩ := applies (before.placed header) rfl
  exact applyCommands_revision applied

@[simp] theorem RunData.keep_revision (data : RunData) (nodeId : String) (value : Option JsValue) :
    (data.keep nodeId value).taskRevision = data.taskRevision := by
  cases value <;> rfl

/-- A load, a listing, an answer, a handler's result, a record or a save that went well, or
a lease that is gone. -/
inductive Note where
  | loaded (stored : Option RunStateV3)
  | listed (events : List RunEventEnvelope)
  | answered (context : MiddlewareContext) (result : Option MiddlewareResult)
  | handled (nodeId : String) (result : Option RuntimeNodeResult)
  | recorded (event : RunEventEnvelope)
  | saved (state : RunStateV3)
  | lost

def note : (op : RuntimeOp Ext) → Except RuntimeError (RuntimeAnswer ExtAnswer op) → List Note
  | .load, .ok stored => [.loaded stored]
  | .listAfter _, .ok events => [.listed events]
  | .middleware context, .ok result => [.answered context result]
  | .leave nodeId result, .ok _ => [.handled nodeId result]
  | .append _ _, .ok event => [.recorded event]
  | .save state _, .ok _ => [.saved state]
  | .renew _, .ok false => [.lost]
  | _, _ => []

/-- What the commands so far come to and the number of the last event they are from, the
stored events that are still to be taken in, and the list that was answered last, as long as
it is in neither. `saved` tells whether the store has the data as they are. -/
structure Ledger where
  data : RunData
  version : String
  checkpoint : Nat
  ended : Bool
  queue : Option (List RunEventEnvelope) := none
  waiting : List MiddlewareCommand := []
  saved : Bool := true

def Ledger.opened (state : RunStateV3) : Ledger where
  data := dataOf state
  version := state.graphVersion
  checkpoint := state.cursor.checkpointSeq
  ended := isTerminal state

/-- Nothing is left to be applied or to be saved. -/
structure Ledger.Settled (ledger : Ledger) : Prop where
  saved : ledger.saved = true
  waiting : ledger.waiting = []

/-- An event puts its commands into the account. A completion also keeps its value and
decides whether the run has ended; what `afterNode` says of a run that has ended is left out.
A start that is recorded moves the checkpoint to its number, one that is replayed never back. -/
inductive Posts (ledger : Ledger) (event : RunEventEnvelope) :
    List MiddlewareCommand → Ledger → Prop
  | completion {payload data} (kind : event.eventType = "node.completed")
      (parsed : parseCompletedNodePayload event.payload = .ok payload)
      (applies : Applies payload.commands ledger.data data) :
      Posts ledger event payload.commands { ledger with
        data := data.keep payload.nodeId payload.value
        checkpoint := max ledger.checkpoint event.seq
        ended := payload.outcome.isSome
        saved := false }
  | answer {payload data} (kind : event.eventType = "node.after_middleware")
      (going : ledger.ended = false)
      (parsed : parseAfterMiddlewarePayload event.payload = .ok payload)
      (applies : Applies payload.commands ledger.data data) :
      Posts ledger event payload.commands { ledger with
        data := data
        checkpoint := max ledger.checkpoint event.seq
        ended := (payload.outcome <|> commandOutcome payload.commands).isSome
        saved := false }
  | late (kind : event.eventType = "node.after_middleware") (ended : ledger.ended = true) :
      Posts ledger event [] { ledger with checkpoint := max ledger.checkpoint event.seq }
  | started {reached} (kind : event.eventType = "node.started")
      (moved : reached = event.seq ∨ reached = max ledger.checkpoint event.seq) :
      Posts ledger event [] { ledger with checkpoint := reached }
  | other (unseen : isNodeEvent event = false) : Posts ledger event [] ledger

/-- The account after the notes. Middleware is shown the data of the account. Each answered
list waits until an event that carries it is recorded or until it ends the run; nothing else
may be answered meanwhile. What becomes of a `beforeRun` list without an outcome is left open. -/
inductive Books (kernel : RuntimeKernel ExtAnswer) (identity : RunIdentity) :
    List Note → Ledger → Prop
  | loaded (stored : Option RunStateV3) (now : NonEmptyString) :
      Books kernel identity [.loaded stored]
        (.opened (stored.getD (initialState kernel identity now)))
  | lost {notes ledger} (books : Books kernel identity notes ledger) :
      Books kernel identity (notes ++ [.lost]) ledger
  | listed {notes ledger events} (books : Books kernel identity notes ledger)
      (first : ledger.queue = none) :
      Books kernel identity (notes ++ [.listed events]) { ledger with
        queue := some ((sortEvents events).filter fun event => ledger.checkpoint < event.seq) }
  | listedAgain {notes ledger events rest} (books : Books kernel identity notes ledger)
      (listed : ledger.queue = some rest) : Books kernel identity (notes ++ [.listed events]) ledger
  | replayed {notes ledger next event rest commands} (books : Books kernel identity notes ledger)
      (waiting : ledger.waiting = []) (queue : ledger.queue = some (event :: rest))
      (posts : Posts ledger event commands next) :
      Books kernel identity notes { next with queue := some rest }
  | migrated {notes ledger live next now} (books : Books kernel identity notes ledger)
      (data : dataOf live = ledger.data) (version : live.graphVersion = ledger.version)
      (moved : migrateGraphState kernel live now = .ok next) :
      Books kernel identity notes { ledger with
        data := dataOf next, version := next.graphVersion, saved := false }
  | answered {notes ledger context result commands} (books : Books kernel identity notes ledger)
      (shown : dataOf context.state = ledger.data) (waiting : ledger.waiting = [])
      (accepted : acceptedCommands result = .ok commands)
      (taken : context.hook = .beforeNode ∨ context.hook = .afterNode ∧ ledger.ended = false ∨
        context.hook = .beforeRun ∧ (commandOutcome commands).isSome = true) :
      Books kernel identity (notes ++ [.answered context result]) { ledger with
        waiting := commands }
  | leftOpen {notes ledger context result commands data}
      (books : Books kernel identity notes ledger)
      (shown : dataOf context.state = ledger.data) (hook : context.hook = .beforeRun)
      (accepted : acceptedCommands result = .ok commands)
      (unended : commandOutcome commands = none)
      (applies : data = ledger.data ∨ Applies commands ledger.data data) :
      Books kernel identity (notes ++ [.answered context result]) { ledger with
        data := data, saved := false }
  | ignored {notes ledger context result} (books : Books kernel identity notes ledger)
      (shown : dataOf context.state = ledger.data)
      (nothing : context.hook = .afterRun ∨ (∀ commands, acceptedCommands result ≠ .ok commands) ∨
        context.hook = .afterNode ∧ ledger.ended = true) :
      Books kernel identity (notes ++ [.answered context result]) ledger
  | handled {notes ledger nodeId result own} (books : Books kernel identity notes ledger)
      (accepted : nodeCommands [] result = .ok own) :
      Books kernel identity (notes ++ [.handled nodeId result]) { ledger with
        waiting := ledger.waiting ++ own }
  | refused {notes ledger nodeId result} (books : Books kernel identity notes ledger)
      (invalid : ∀ own, nodeCommands [] result ≠ .ok own) :
      Books kernel identity (notes ++ [.handled nodeId result]) ledger
  | recorded {notes ledger next event} (books : Books kernel identity notes ledger)
      (posts : Posts ledger event ledger.waiting next) :
      Books kernel identity (notes ++ [.recorded event]) { next with waiting := [] }
  | unread {notes ledger event} (books : Books kernel identity notes ledger)
      (unposted : ∀ next, ¬ Posts ledger event ledger.waiting next) :
      Books kernel identity (notes ++ [.recorded event]) ledger
  | ended {notes ledger outcome data} (books : Books kernel identity notes ledger)
      (ends : commandOutcome ledger.waiting = some outcome)
      (applies : Applies ledger.waiting ledger.data data) :
      Books kernel identity notes { ledger with
        data := data, ended := true, waiting := [], saved := false }
  | saved {notes ledger state} (books : Books kernel identity notes ledger)
      (data : dataOf state = ledger.data) (ended : isTerminal state = ledger.ended)
      (checkpoint : state.cursor.checkpointSeq = ledger.checkpoint)
      (waiting : ledger.waiting = []) (queue : ledger.queue = some []) :
      Books kernel identity (notes ++ [.saved state]) { ledger with saved := true }

theorem Books.recorded_silent (books : Books kernel identity notes ledger)
    (waiting : ledger.waiting = []) (posts : Posts ledger event [] next) :
    Books kernel identity (notes ++ [.recorded event]) { next with waiting := [] } := by
  refine books.recorded ?_
  rw [waiting]
  exact posts

/-- The revisions of the states that middleware is asked about and of those that are saved;
what a run does after an error is left out. -/
def revisionsIn (notes : List Note) : List Nat :=
  notes.filterMap fun
    | .answered context _ =>
      if context.hook = .onError then none else some context.state.taskRevision.value
    | .saved state => if state.status = .failed then none else some state.taskRevision.value
    | _ => none

theorem revisionsIn_append : revisionsIn (left ++ right) = revisionsIn left ++ revisionsIn right :=
  List.filterMap_append

/-- Up to now the revision has never gone back. -/
structure Rising (notes : List Note) (data : RunData) : Prop where
  rising : (revisionsIn notes).Pairwise (· ≤ ·)
  reached : ∀ revision ∈ revisionsIn notes, revision ≤ data.taskRevision.value

theorem Rising.raise (rising : Rising notes before)
    (forward : before.taskRevision.value ≤ after.taskRevision.value) : Rising notes after :=
  ⟨rising.rising, fun revision found => (rising.reached revision found).trans forward⟩

/-- One more note shows the revision that was reached, or none. -/
theorem Rising.note (rising : Rising notes data)
    (shown : ∀ revision ∈ revisionsIn [noted], revision = data.taskRevision.value) :
    Rising (notes ++ [noted]) data := by
  obtain ⟨rising, reached⟩ := rising
  have single : (revisionsIn [noted]).Pairwise (· ≤ ·) :=
    List.pairwise_of_forall_mem_list fun left first right second =>
      (shown left first).trans (shown right second).symm |>.le
  refine ⟨?_, fun revision found => ?_⟩
  · rw [revisionsIn_append]
    refine List.pairwise_append.mpr ⟨rising, single, fun earlier found later last => ?_⟩
    rw [shown later last]
    exact reached earlier found
  · rw [revisionsIn_append] at found
    rcases List.mem_append.mp found with found | last
    · exact reached revision found
    · exact (shown revision last).le

theorem Posts.forward (posts : Posts ledger event commands next) (header : RunStateV3) :
    ledger.data.taskRevision.value ≤ next.data.taskRevision.value := by
  cases posts with
  | completion kind parsed applies =>
    rw [RunData.keep_revision]
    exact applies.forward header
  | answer kind going parsed applies => exact applies.forward header
  | late => exact le_rfl
  | started => exact le_rfl
  | other => exact le_rfl

/-- Migration moves the cursor and adds marks to the node data, nothing else of the data. -/
theorem migrateGraphState_revision (moved : migrateGraphState kernel live now = .ok next) :
    next.taskRevision = live.taskRevision := by
  have detour : ∀ version marker resumeNodeId,
      (accountingDetour live version marker resumeNodeId).taskRevision = live.taskRevision := by
    intro version marker resumeNodeId
    unfold accountingDetour
    split <;> rfl
  have proposal : ∀ version prepared,
      (revalidateProposal live version prepared now).taskRevision = live.taskRevision := by
    intro version prepared
    unfold revalidateProposal
    dsimp only
    split <;> rfl
  unfold migrateGraphState at moved
  dsimp only at moved
  split at moved
  · cases moved
    rfl
  split at moved
  · split at moved
    · cases moved
      rfl
    · obtain ⟨-, -, final⟩ := except_bind moved
      cases final
      exact detour _ _ _
  split at moved
  · cases moved
    rfl
  split at moved
  · unfold migrateV1Proposal at moved
    dsimp only at moved
    split at moved
    · cases moved
    split at moved
    · cases moved
    split at moved
    · cases moved
    · cases moved
      exact proposal _ _
  split at moved
  · obtain ⟨-, -, final⟩ := except_bind moved
    cases final
    exact detour _ _ _
  · cases moved
    rfl

theorem revisions_answered (shown : dataOf context.state = data) :
    ∀ revision ∈ revisionsIn [.answered context result], revision = data.taskRevision.value := by
  subst shown
  intro revision found
  by_cases error : context.hook = .onError
  · simp [revisionsIn, error] at found
  · simpa [revisionsIn, error, dataOf] using found

/-- In every account the revision never goes back. -/
theorem Books.rising (books : Books kernel identity notes ledger) (header : RunStateV3) :
    Rising notes ledger.data := by
  induction books with
  | loaded stored now => exact ⟨List.Pairwise.nil, nofun⟩
  | lost books ih => exact ih.note nofun
  | listed books first ih => exact ih.note nofun
  | listedAgain books listed ih => exact ih.note nofun
  | replayed books waiting queue posts ih => exact ih.raise (posts.forward header)
  | migrated books data version moved ih =>
    refine ih.raise ?_
    rw [← data]
    exact (congrArg SafeNat.value (migrateGraphState_revision moved)).ge
  | answered books shown waiting accepted taken ih => exact ih.note (revisions_answered shown)
  | leftOpen books shown hook accepted unended applies ih =>
    refine (ih.note (revisions_answered shown)).raise ?_
    rcases applies with rfl | applies
    · exact le_rfl
    · exact applies.forward header
  | ignored books shown nothing ih => exact ih.note (revisions_answered shown)
  | handled books accepted ih => exact ih.note nofun
  | refused books invalid ih => exact ih.note nofun
  | recorded books posts ih => exact (ih.raise (posts.forward header)).note nofun
  | unread books unposted ih => exact ih.note nofun
  | ended books ends applies ih => exact ih.raise (applies.forward header)
  | saved books data ended checkpoint waiting queue ih =>
    refine ih.note fun revision found => ?_
    rw [← data]
    simp only [revisionsIn, List.filterMap_cons, List.filterMap_nil] at found
    split at found
    · cases found
    · rename_i status
      split at status
      · cases status
      · cases status
        exact List.mem_singleton.mp found

/-- The state in memory is what the account says. -/
structure Agrees (live : RunStateV3) (ledger : Ledger) : Prop where
  data : dataOf live = ledger.data
  ended : isTerminal live = ledger.ended
  version : live.graphVersion = ledger.version
  checkpoint : live.cursor.checkpointSeq = ledger.checkpoint

theorem withOutcome_data (state : RunStateV3) (outcome : RunOutcome) (now : NonEmptyString) :
    dataOf (withOutcome state outcome now) = dataOf state := by
  unfold withOutcome
  split <;> rfl

theorem withOutcome_ends (state : RunStateV3) (outcome : RunOutcome) (now : NonEmptyString) :
    isTerminal (withOutcome state outcome now) = true := by
  unfold withOutcome
  split
  · assumption
  · cases outcome.status <;> simp [isTerminal, OutcomeStatus.toRunStatus]

theorem withOutcome_version :
    (withOutcome state outcome now).graphVersion = state.graphVersion := by
  unfold withOutcome
  split <;> rfl

theorem withNodeValue_data (state : RunStateV3) (nodeId : String) (value : Option JsValue) :
    dataOf (withNodeValue state nodeId value) = (dataOf state).keep nodeId value := by
  cases value <;> rfl

section
variable {kernel : RuntimeKernel ExtAnswer} {live next : RunStateV3} {ledger : Ledger}
variable {now : NonEmptyString} {event : RunEventEnvelope}

theorem Agrees.aside (agrees : Agrees live ledger) (queue : Option (List RunEventEnvelope))
    (waiting : List MiddlewareCommand) (saved : Bool) :
    Agrees live { ledger with queue, waiting, saved } :=
  ⟨agrees.data, agrees.ended, agrees.version, agrees.checkpoint⟩

theorem Agrees.completion (agrees : Agrees live ledger) (kind : event.eventType = "node.completed")
    (parsed : parseCompletedNodePayload event.payload = .ok payload)
    (own : payload.nodeId = node.id)
    (reduced : reduceCompletedNode kernel live node payload event.seq now = .ok next) :
    ∃ after, Posts ledger event payload.commands after ∧ Agrees next after ∧
      after.queue = ledger.queue ∧ after.waiting = ledger.waiting := by
  have checkpoint : next.cursor.checkpointSeq = max ledger.checkpoint event.seq :=
    agrees.checkpoint ▸ reduceCompletedNode_checkpoint reduced
  obtain ⟨applied, commands, rest⟩ := except_bind reduced
  have header := (applyCommands_header commands).trans
    (withNodeValue_header applied node.id payload.value)
  have applies := applies_of_applied commands
  rw [agrees.data] at applies
  have kept := withNodeValue_data applied node.id payload.value
  refine ⟨_, .completion kind parsed applies, ?_, rfl, rfl⟩
  rw [own]
  cases outcome : payload.outcome with
  | some found =>
    rw [outcome] at rest
    cases rest
    refine ⟨(withOutcome_data _ _ _).trans kept, withOutcome_ends _ found now, ?_, checkpoint⟩
    exact withOutcome_version.trans (header.graphVersion.trans agrees.version)
  | none =>
    rw [outcome] at rest
    obtain ⟨target, -, rest⟩ := except_bind rest
    obtain ⟨-, -, final⟩ := except_bind rest
    cases final
    exact ⟨kept, rfl, header.graphVersion.trans agrees.version, checkpoint⟩

theorem afterMiddlewareCursor_data
    (controlled : afterMiddlewareCursor kernel outcomed commands = .ok moved) :
    dataOf moved = dataOf outcomed ∧ moved.status = outcomed.status ∧
      moved.graphVersion = outcomed.graphVersion := by
  unfold afterMiddlewareCursor at controlled
  split at controlled
  · cases controlled
    exact ⟨rfl, rfl, rfl⟩
  · unfold applyControl at controlled
    split at controlled
    · cases controlled
      exact ⟨rfl, rfl, rfl⟩
    · obtain ⟨-, -, final⟩ := except_bind controlled
      cases final
      exact ⟨rfl, rfl, rfl⟩

theorem Agrees.answer (agrees : Agrees live ledger) (going : ledger.ended = false)
    (kind : event.eventType = "node.after_middleware")
    (parsed : parseAfterMiddlewarePayload event.payload = .ok payload)
    (reduced : reduceAfterMiddleware kernel live payload event.seq now = .ok next) :
    ∃ after, Posts ledger event payload.commands after ∧ Agrees next after ∧
      after.queue = ledger.queue ∧ after.waiting = ledger.waiting := by
  have checkpoint : next.cursor.checkpointSeq = max ledger.checkpoint event.seq :=
    agrees.checkpoint ▸ reduceAfterMiddleware_checkpoint reduced
  obtain ⟨outcomed, first, rest⟩ := except_bind reduced
  obtain ⟨moved, second, final⟩ := except_bind rest
  cases final
  obtain ⟨data, status, version⟩ := afterMiddlewareCursor_data second
  unfold afterMiddlewareState at first
  rw [agrees.ended, going] at first
  obtain ⟨applied, commands, ending⟩ := except_bind first
  have header := applyCommands_header commands
  have applies := applies_of_applied commands
  rw [agrees.data] at applies
  refine ⟨_, .answer kind going parsed applies, ?_, rfl, rfl⟩
  cases outcome : payload.outcome <|> commandOutcome payload.commands with
  | some found =>
    rw [outcome] at ending
    cases ending
    refine ⟨data.trans (withOutcome_data _ _ _), ?_, ?_, checkpoint⟩
    · exact (isTerminal_congr status).trans (withOutcome_ends _ found now)
    · exact version.trans (withOutcome_version.trans
        (header.graphVersion.trans agrees.version))
  | none =>
    rw [outcome] at ending
    cases ending
    refine ⟨data, ?_, version.trans (header.graphVersion.trans agrees.version), checkpoint⟩
    exact ((isTerminal_congr status).trans (isTerminal_congr header.status)).trans
      (agrees.ended.trans going)

theorem Agrees.late (agrees : Agrees live ledger) (ended : ledger.ended = true)
    (reduced : reduceAfterMiddleware kernel live payload event.seq now = .ok next) :
    Agrees next { ledger with checkpoint := max ledger.checkpoint event.seq } := by
  have checkpoint : next.cursor.checkpointSeq = max ledger.checkpoint event.seq :=
    agrees.checkpoint ▸ reduceAfterMiddleware_checkpoint reduced
  obtain ⟨outcomed, first, rest⟩ := except_bind reduced
  obtain ⟨moved, second, final⟩ := except_bind rest
  cases final
  obtain ⟨data, status, version⟩ := afterMiddlewareCursor_data second
  unfold afterMiddlewareState at first
  rw [agrees.ended, ended] at first
  cases first
  exact ⟨data.trans agrees.data, (isTerminal_congr status).trans agrees.ended,
    version.trans agrees.version, checkpoint⟩

end

/-- Terminal states only get another graph version. -/
theorem migrateTerminal_data (kernel : RuntimeKernel ExtAnswer) (state : RunStateV3) :
    dataOf (migrateTerminalGraphMetadata kernel state) = dataOf state ∧
      isTerminal (migrateTerminalGraphMetadata kernel state) = isTerminal state ∧
      (migrateTerminalGraphMetadata kernel state).cursor.checkpointSeq = state.cursor.checkpointSeq := by
  unfold migrateTerminalGraphMetadata
  split <;> exact ⟨rfl, rfl, rfl⟩

private theorem mapError_other {result : Except String α} {first second : String → String}
    (ok : result.mapError first = .ok value) : result.mapError second = .ok value := by
  cases result with
  | error message => cases ok
  | ok found => exact ok

private theorem canonicalizeCommand_index {index other : Nat}
    (accepted : canonicalizeCommand index raw = .ok command) :
    canonicalizeCommand other raw = .ok command :=
  mapError_other accepted

private theorem canonicalizeFrom_index :
    ∀ {index other : Nat} {commands : List MiddlewareCommand},
      canonicalizeFrom index raws = .ok commands → canonicalizeFrom other raws = .ok commands := by
  induction raws with
  | nil => exact fun accepted => accepted
  | cons raw rest ih =>
    intro index other commands accepted
    obtain ⟨command, first, accepted⟩ := except_bind accepted
    obtain ⟨others, remaining, final⟩ := except_bind accepted
    cases final
    simp only [canonicalizeFrom, canonicalizeCommand_index first, ih remaining]
    rfl

private theorem canonicalizeFrom_append :
    ∀ {index : Nat}, canonicalizeFrom index
      (before.map (fun command => command.toJson.toJs) ++ raws) =
        (canonicalizeFrom (index + before.length) raws).map (before ++ ·) := by
  induction before with
  | nil =>
    intro index
    cases found : canonicalizeFrom index raws <;> simp [found, Except.map]
  | cons command rest ih =>
    intro index
    have one : canonicalizeCommand index command.toJson.toJs = .ok command := by
      simp [canonicalizeCommand, parse_toJson, Except.mapError]
    have shifted : index + (command :: rest).length = index + 1 + rest.length := by
      simp only [List.length_cons]
      omega
    rw [List.map_cons, List.cons_append, canonicalizeFrom, one, ih, shifted]
    cases canonicalizeFrom (index + 1 + rest.length) raws <;> rfl

/-- The commands of a node are those before it and then its handler's own. -/
theorem nodeCommands_split :
    nodeCommands before result = .ok commands ↔
      ∃ own, nodeCommands [] result = .ok own ∧ commands = before ++ own := by
  show canonicalizeFrom 0 (before.map (fun command => command.toJson.toJs) ++
      (result.bind RuntimeNodeResult.commands).getD []) = .ok commands ↔
    ∃ own, canonicalizeFrom 0 ((result.bind RuntimeNodeResult.commands).getD []) = .ok own ∧
      commands = before ++ own
  rw [canonicalizeFrom_append]
  constructor
  · intro accepted
    cases found : canonicalizeFrom (0 + before.length)
      ((result.bind RuntimeNodeResult.commands).getD []) with
    | error message =>
      rw [found] at accepted
      cases accepted
    | ok own =>
      rw [found] at accepted
      cases accepted
      exact ⟨own, canonicalizeFrom_index found, rfl⟩
  · rintro ⟨own, accepted, rfl⟩
    rw [canonicalizeFrom_index accepted]
    rfl

end QiongQi.CommandLedgers
