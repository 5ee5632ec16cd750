import QiongQi.ItemLogs
import QiongQi.RuntimeContracts
import QiongQi.TaskRevisions

/-! `CompactionTransaction.compact`: a compaction summary that is appended to a session and a
task state revision that points to it, with appends of others at every await. -/
namespace QiongQi.CompactionTransactions
open ItemLogs Machines RewrittenLogs RuntimeContracts TaskRevisions TurnItems
open List hiding after append drop

/-- What the transaction writes of a summary into a task state. -/
structure TaskCompaction where
  itemId : String
  taskRevision : Nat
  sourceDigest : String
  sourceItemIds : List String
  replacedTokens : Nat

/-- The parts of a task state that the transaction reads or writes, beside its revision. -/
structure TaskContent where
  identity : RunIdentity
  sourceDigest : String
  updatedAt : String
  compaction : Option TaskCompaction

abbrev Task := TaskState TaskContent

/-- An item of kind `compaction`, with the fields that the transaction looks at. -/
structure SummaryItem where
  item : TurnItem
  sourceDigest : Option String
  sourceItemIds : Option (List String)
  taskRevision : Option Nat
  taskSourceDigest : Option String

/-- What the compactor returns. The item is of another kind where `summary` is `none`. -/
structure Compacted where
  next : List TurnItem
  summary : Option (String × SummaryItem)
  replacedTokens : Nat

/-- The input of `compact`. The compactor is asked with the other fields of the input, which
do not change from one call to the other, and with `summaryOverride`. -/
structure Input where
  identity : RunIdentity
  taskState : Task
  history : List (String × TurnItem)
  summarize : Option (String → Option String)

structure Options where
  compactor : Input → Option String → Compacted
  renderTaskStateProjection : Task → String
  nowIso : String
  token : Token

structure Result where
  next : List TurnItem
  summaryItem : SummaryItem
  replacedTokens : Nat
  taskState : Task

/-- The awaits of `compact`. -/
inductive Await
  | load
  | summarize
  | loadItems
  | prepare
  | recordEvent
  | appendItem
  | commit
  | rewriteItems
  | abort
  deriving DecidableEq

inductive Error
  | message (text : String)
  | failed (step : Await)

/-- A step fails before it has its effect or after. -/
inductive Failure
  | before
  | after
  deriving DecidableEq

/-- What happens around a call: the items that others append while it waits for a step, those
that they append from the last step to its return, and the steps that fail. -/
structure Surroundings where
  appended : Await → List TurnItem
  settled : List TurnItem
  failure : Await → Option Failure

/-- A revision file is named by the revision of its state. -/
structure Tasks where
  active : Option ActivePointer
  revisions : List (PreparedPayload TaskContent)
  named : ∀ payload ∈ revisions, payload.state.revision = payload.prepared.revision

def Tasks.load (tasks : Tasks) : Option Task :=
  match tasks.active with
  | none => none
  | some pointer =>
    (find PreparedPayload.name (pointer.revision, pointer.token) tasks.revisions).map
      PreparedPayload.state

def Tasks.activeRevision (tasks : Tasks) : Nat :=
  match tasks.active with
  | none => 0
  | some pointer => pointer.revision

def revisionConflict (expected active next : Nat) : Error :=
  .message ("task revision conflict: expected active " ++ toString expected ++ ", found " ++
    toString active ++ ", next " ++ toString next)

def Tasks.prepare (tasks : Tasks) (token : Token) (state : Task) (expectedRevision : Nat) :
    Except Error (Tasks × TaskStatePreparedRevision) :=
  if tasks.activeRevision ≠ expectedRevision ∨ state.revision ≠ expectedRevision + 1 then
    .error (revisionConflict expectedRevision tasks.activeRevision state.revision)
  else
    .ok ({ tasks with
          revisions := put PreparedPayload.name
            ⟨⟨token, state.revision, expectedRevision⟩, state⟩ tasks.revisions
          named := by
            intro payload held
            rcases mem_put.mp held with rfl | ⟨held, -⟩
            · rfl
            · exact tasks.named payload held },
        ⟨token, state.revision, expectedRevision⟩)

def Tasks.commit (tasks : Tasks) (prepared : TaskStatePreparedRevision) : Except Error Tasks :=
  match find PreparedPayload.name prepared.name tasks.revisions with
  | none => .error (.message "prepared task revision not found")
  | some payload =>
    if tasks.activeRevision ≠ prepared.expectedRevision then
      .error (revisionConflict prepared.expectedRevision tasks.activeRevision prepared.revision)
    else if payload.state.revision ≠ prepared.revision then
      .error (.message "prepared task revision payload mismatch")
    else
      .ok { tasks with active := some ⟨prepared.revision, prepared.token⟩ }

def Tasks.abort (tasks : Tasks) (prepared : TaskStatePreparedRevision) : Tasks :=
  { tasks with
    revisions := drop PreparedPayload.name prepared.name tasks.revisions
    named := fun payload held => tasks.named payload (mem_drop.mp held).1 }

/-- `log` is the item log of the session; `concurrent` lists what others have appended. -/
structure World where
  log : List TurnItem
  tasks : Tasks
  concurrent : List TurnItem

def World.join (world : World) (items : List TurnItem) : World :=
  { world with log := world.log ++ items, concurrent := world.concurrent ++ items }

/-- One awaited step: others append while it is under way. -/
def await {α : Type} (around : Surroundings) (step : Await)
    (effect : World → Except Error (World × α)) (world : World) : World × Except Error α :=
  let world := world.join (around.appended step)
  match around.failure step with
  | some .before => (world, .error (.failed step))
  | failure =>
    match effect world with
    | .error error => (world, .error error)
    | .ok (after, value) =>
      (after, if failure = some .after then .error (.failed step) else .ok value)

def identityFields (identity : RunIdentity) : List (String × String) :=
  [("ownerUserId", identity.ownerUserId.text), ("workspaceKey", identity.workspaceKey.text),
    ("threadId", identity.threadId.text), ("turnId", identity.turnId.text),
    ("runId", identity.runId.text)]

def assertIdentity (identity : RunIdentity) (task : Task) : Except Error Unit :=
  match ((identityFields identity).zip (identityFields task.content.identity)).find?
      fun pair => pair.1.2 ≠ pair.2.2 with
  | some pair => .error (.message ("compaction task identity mismatch: " ++ pair.1.1))
  | none => .ok ()

def assertHistoryScope (identity : RunIdentity) (history : List (String × TurnItem)) :
    Except Error Unit :=
  if history.any fun item => item.1 ≠ identity.threadId.text then
    .error (.message "compaction history scope mismatch")
  else
    .ok ()

/-- The state that `compact` goes on from. -/
def assertActive (input : Input) (active : Option Task) : Except Error Unit :=
  let conflict (found : Nat) : Except Error Unit :=
    .error (.message ("task revision conflict before compaction: expected " ++
      toString input.taskState.revision ++ ", found " ++ toString found))
  match active with
  | none => conflict 0
  | some state =>
    if state.revision ≠ input.taskState.revision then conflict state.revision else .ok ()

/-- What the transaction is about to write. -/
structure Plan where
  next : List TurnItem
  summaryItem : SummaryItem
  replacedTokens : Nat
  taskState : Task

def plan (options : Options) (input : Input) (baseSummary : String)
    (modelSummary : Option String) : Except Error Plan :=
  let projectedTask : Task :=
    ⟨input.taskState.revision + 1, { input.taskState.content with updatedAt := options.nowIso }⟩
  let summaryOverride := jsTrim (modelSummary.getD baseSummary) ++ "\n\n" ++
    options.renderTaskStateProjection projectedTask
  let compacted := options.compactor input (some summaryOverride)
  match compacted.summary with
  | none => .error (.message "compaction source digest unavailable")
  | some (_, summary) =>
    match summary.sourceDigest.filter (· ≠ "") with
    | none => .error (.message "compaction source digest unavailable")
    | some sourceDigest =>
      let sourceItemIds := summary.sourceItemIds.getD []
      if sourceItemIds.length = 0 then
        .error (.message "compaction source items unavailable")
      else
        let summaryItem := { summary with
          taskRevision := some projectedTask.revision
          taskSourceDigest := some projectedTask.content.sourceDigest }
        .ok
          { summaryItem
            replacedTokens := compacted.replacedTokens
            taskState := ⟨projectedTask.revision, { projectedTask.content with
              compaction := some
                { itemId := summaryItem.item.id
                  taskRevision := projectedTask.revision
                  sourceDigest
                  sourceItemIds
                  replacedTokens := compacted.replacedTokens } }⟩
            next := compacted.next.map fun item =>
              if item.id = summaryItem.item.id then summaryItem.item else item }

/-- How far `compact` gets before it writes. -/
inductive Prelude
  | ended (outcome : Except Error Result)
  | planned (plan : Plan) (originalItems : List TurnItem)

/-- Everything up to `loadItems`. -/
def begin_ (options : Options) (around : Surroundings) (input : Input) (world : World) :
    World × Prelude :=
  match do
    assertIdentity input.identity input.taskState
    assertHistoryScope input.identity input.history with
  | .error error => (world, .ended (.error error))
  | .ok _ =>
    match await around .load (fun world => .ok (world, world.tasks.load)) world with
    | (world, .error error) => (world, .ended (.error error))
    | (world, .ok active) =>
      match assertActive input active with
      | .error error => (world, .ended (.error error))
      | .ok _ =>
        let base := options.compactor input none
        match base.summary with
        | none => (world, .ended (.error (.message "compactor returned a non-compaction item")))
        | some (summary, summaryItem) =>
          if base.replacedTokens = 0 then
            (world, .ended (.ok ⟨base.next, summaryItem, 0, input.taskState⟩))
          else
            match summarized summary world with
            | (world, .error error) => (world, .ended (.error error))
            | (world, .ok modelSummary) =>
              match plan options input summary modelSummary with
              | .error error => (world, .ended (.error error))
              | .ok plan =>
                match await around .loadItems
                    (fun world => .ok (world, loadItems world.log)) world with
                | (world, .error error) => (world, .ended (.error error))
                | (world, .ok originalItems) => (world, .planned plan originalItems)
where summarized (summary : String) (world : World) : World × Except Error (Option String) :=
    match input.summarize with
    | none => (world, .ok (some summary))
    | some summarize =>
      await around .summarize (fun world => .ok (world, summarize summary)) world

/-- The `catch` block. -/
def undo (around : Surroundings) (originalItems : List TurnItem) (appended : Bool)
    (prepared : TaskStatePreparedRevision) (error : Error) (world : World) : World × Error :=
  match rewritten with
  | (world, .error rewriteError) => (world, rewriteError)
  | (world, .ok _) =>
    ((await around .abort
      (fun world => .ok ({ world with tasks := world.tasks.abort prepared }, ())) world).1, error)
where rewritten : World × Except Error Unit :=
    if appended then
      await around .rewriteItems
        (fun world => .ok ({ world with log := originalItems }, ())) world
    else
      (world, .ok ())

/-- The `try` block. -/
def transact (options : Options) (around : Surroundings) (input : Input) (plan : Plan)
    (originalItems : List TurnItem) (world : World) : World × Except Error Result :=
  match await around .prepare (fun world => do
      let (tasks, prepared) ←
        world.tasks.prepare options.token plan.taskState input.taskState.revision
      .ok ({ world with tasks := tasks }, prepared)) world with
  | (world, .error error) => (world, .error error)
  | (world, .ok prepared) =>
    match await around .recordEvent (fun world => .ok (world, ())) world with
    | (world, .error error) =>
      let (world, error) := undo around originalItems false prepared error world
      (world, .error error)
    | (world, .ok _) =>
      match await around .appendItem (fun world =>
          .ok ({ world with log := world.log ++ [plan.summaryItem.item] }, ())) world with
      | (world, .error error) =>
        let (world, error) := undo around originalItems false prepared error world
        (world, .error error)
      | (world, .ok _) =>
        match await around .commit (fun world => do
            let tasks ← world.tasks.commit prepared
            .ok ({ world with tasks := tasks }, ())) world with
        | (world, .error error) =>
          let (world, error) := undo around originalItems true prepared error world
          (world, .error error)
        | (world, .ok _) =>
          (world, .ok ⟨plan.next, plan.summaryItem, plan.replacedTokens, plan.taskState⟩)

def compact (options : Options) (around : Surroundings) (input : Input) (world : World) :
    World × Except Error Result :=
  let (world, outcome) :=
    match begin_ options around input world with
    | (world, .ended outcome) => (world, outcome)
    | (world, .planned plan originalItems) =>
      transact options around input plan originalItems world
  (world.join around.settled, outcome)

/-- After a failure the task state is as before, and the session is as if only the others had
appended to it. After a success each item that they appended is in the session as they left
it. -/
def Atomic (start final : World) : Except Error Result → Prop
  | .error _ => final.tasks.load = start.tasks.load ∧
    loadItems final.log = loadItems (start.log ++ final.concurrent)
  | .ok _ => ∀ item, latest TurnItem.id final.concurrent item.id = some item → item ∈ loadItems final.log

/-- What others append from the reading of the session to its rewriting. -/
def Surroundings.overwritten (around : Surroundings) : List TurnItem :=
  around.appended .prepare ++ around.appended .recordEvent ++
    around.appended .appendItem ++ around.appended .commit ++
    around.appended .rewriteItems

/-- What others append after the rewriting. The revision is aborted where that went well. -/
def Surroundings.later (around : Surroundings) : List TurnItem :=
  (if around.failure .rewriteItems = none then around.appended .abort else []) ++ around.settled

/-- The summary has an id of its own. -/
def FreshSummary (options : Options) (around : Surroundings) (input : Input) (start : World) : Prop :=
  match begin_ options around input start with
  | (_, .ended _) => True
  | (world, .planned plan _) => plan.summaryItem.item.id ∉
    (world.log ++ around.overwritten ++ around.appended .abort ++ around.settled).map TurnItem.id

/-- Where the compaction comes to write: an append does not fail once it has its line, a commit
does not fail once it has taken effect, and where a commit fails the session is rewritten and
what others have appended since it was read makes no difference to it. -/
def Calm (options : Options) (around : Surroundings) (input : Input) (start : World) : Prop :=
  match begin_ options around input start with
  | (_, .ended _) => True
  | (world, .planned _ _) =>
    around.failure .prepare = none → around.failure .recordEvent = none →
      around.failure .appendItem ≠ some .after ∧
      (around.failure .appendItem = none → around.failure .commit ≠ some .after ∧
        (around.failure .commit = some .before → around.failure .rewriteItems ≠ some .before ∧
          loadItems (world.log ++ around.overwritten ++ around.later) =
            loadItems (world.log ++ around.later)))

theorem loadItems_contents (log : List TurnItem) :
    loadItems log = contents TurnItem.id log := loadItems_eq log

section
variable {options : Options} {around : Surroundings} {input : Input}

@[simp] theorem join_tasks (world : World) (items : List TurnItem) :
    (world.join items).tasks = world.tasks := rfl

theorem join_join (world : World) :
    (world.join first).join second = world.join (first ++ second) := by
  simp only [World.join, append_assoc]

theorem join_nil (world : World) : world.join [] = world := by
  simp only [World.join, append_nil]

theorem await_ok {step : Await} (took : effect (world.join (around.appended step)) = .ok (after, value)) :
    await around step effect world = (if around.failure step = some .before then
          world.join (around.appended step) else after,
        if around.failure step = none then .ok value else .error (.failed step)) := by
  unfold await
  dsimp only
  rw [took]
  cases failure : around.failure step with
  | none => rfl
  | some when_ => cases when_ <;> rfl

theorem await_read (step : Await) (read : World → α) :
    await around step (fun world => .ok (world, read world)) world =
      (world.join (around.appended step), if around.failure step = none then
          .ok (read (world.join (around.appended step)))
        else
          .error (.failed step)) := by
  rw [await_ok rfl, ite_self]

theorem await_read_cases (step : Await) (read : World → α) : (around.failure step = none ∧
        await around step (fun world => .ok (world, read world)) world =
          (world.join (around.appended step), .ok (read (world.join (around.appended step))))) ∨
      await around step (fun world => .ok (world, read world)) world =
        (world.join (around.appended step), .error (.failed step)) := by
  rw [await_read]
  by_cases went : around.failure step = none
  · exact .inl ⟨went, by rw [if_pos went]⟩
  · exact .inr (by rw [if_neg went])

theorem plan_revision (planned : plan options input baseSummary modelSummary = .ok made) :
    made.taskState.revision = input.taskState.revision + 1 := by
  unfold plan at planned
  dsimp only at planned
  split at planned
  · cases planned
  · split at planned
    · cases planned
    · split at planned
      · cases planned
      · cases planned
        rfl

theorem assertActive_ok (fits : assertActive input active = .ok ()) :
    ∃ state, active = some state ∧ state.revision = input.taskState.revision := by
  unfold assertActive at fits
  split at fits
  · cases fits
  · rename_i state
    split at fits
    · cases fits
    · rename_i same
      exact ⟨state, rfl, not_not.mp same⟩

/-- What is known of a compaction that comes to write. -/
def Begun (input : Input) (world : World) : World × Prelude → Prop
  | (before, .ended _) => ∃ items, before = world.join items
  | (before, .planned plan originalItems) => (∃ items, before = world.join items) ∧
    originalItems = loadItems before.log ∧
    plan.taskState.revision = input.taskState.revision + 1 ∧
    ∃ state, world.tasks.load = some state ∧ state.revision = input.taskState.revision

theorem summarized_joined : ∃ items, (begin_.summarized around input summary world).1 = world.join items := by
  unfold begin_.summarized
  split
  · exact ⟨[], (join_nil world).symm⟩
  · rw [await_read]
    exact ⟨_, rfl⟩

/-- Up to the plan, a compaction only reads. -/
theorem begin_begun : Begun input world (begin_ options around input world) := by
  unfold begin_
  split
  · exact ⟨[], (join_nil world).symm⟩
  · rcases await_read_cases .load (fun world => world.tasks.load) with ⟨-, loaded⟩ | failed
    · rw [loaded]
      dsimp only
      split
      · exact ⟨_, rfl⟩
      · rename_i fits
        obtain ⟨state, active, revision⟩ := assertActive_ok fits
        split
        · exact ⟨_, rfl⟩
        · rename_i summary _ _
          split
          · exact ⟨_, rfl⟩
          · obtain ⟨more, joined⟩ := summarized_joined
            rw [join_join] at joined
            split
            · rename_i answered
              rw [answered] at joined
              exact ⟨_, joined⟩
            · rename_i answered
              rw [answered] at joined
              split
              · exact ⟨_, joined⟩
              · rename_i planned
                subst joined
                rcases await_read_cases .loadItems
                  (fun world => loadItems world.log) with ⟨-, read⟩ | failed
                · rw [read, join_join]
                  exact ⟨⟨_, rfl⟩, rfl, plan_revision planned, state, active, revision⟩
                · rw [failed, join_join]
                  exact ⟨_, rfl⟩
    · rw [failed]
      exact ⟨_, rfl⟩

end

section
variable {tasks : Tasks} {state next : Task}

theorem active_of_load (loaded : tasks.load = some state) :
    ∃ pointer, tasks.active = some pointer ∧ pointer.revision = state.revision := by
  unfold Tasks.load at loaded
  split at loaded
  · cases loaded
  · rename_i pointer active
    obtain ⟨payload, found, rfl⟩ := Option.map_eq_some_iff.mp loaded
    obtain ⟨held, named⟩ := find_mem found
    have revision : payload.prepared.revision = pointer.revision := congrArg Prod.fst named
    exact ⟨pointer, active, (tasks.named payload held).trans revision |>.symm⟩

theorem load_congr {other : Tasks} (active : other.active = tasks.active)
    (same : ∀ pointer, tasks.active = some pointer →
      find PreparedPayload.name (pointer.revision, pointer.token) other.revisions =
        find PreparedPayload.name (pointer.revision, pointer.token) tasks.revisions) :
    other.load = tasks.load := by
  unfold Tasks.load
  rw [active]
  split
  · rfl
  · rename_i pointer pointed
    rw [same pointer pointed]

theorem prepare_ok (loaded : tasks.load = some state)
    (revision : next.revision = state.revision + 1) : ∃ after,
    tasks.prepare token next state.revision = .ok (after, ⟨token, next.revision, state.revision⟩) ∧
      after.active = tasks.active ∧ after.load = tasks.load ∧
      find PreparedPayload.name (next.revision, token) after.revisions =
        some ⟨⟨token, next.revision, state.revision⟩, next⟩ := by
  obtain ⟨pointer, active, same⟩ := active_of_load loaded
  have current : tasks.activeRevision = state.revision := by
    unfold Tasks.activeRevision
    rw [active]
    exact same
  refine ⟨_, if_neg (by simp [current, revision]), rfl, load_congr rfl fun other pointed => ?_,
    find_put_self PreparedPayload.name ⟨⟨token, next.revision, state.revision⟩, next⟩ _⟩
  rw [active] at pointed
  cases pointed
  refine find_put_other fun named => ?_
  have numbers : next.revision = pointer.revision := congrArg Prod.fst named
  omega

theorem commit_ok (current : tasks.activeRevision = prepared.expectedRevision)
    (found : find PreparedPayload.name prepared.name tasks.revisions = some ⟨prepared, next⟩)
    (revision : next.revision = prepared.revision) :
    tasks.commit prepared = .ok { tasks with active := some ⟨prepared.revision, prepared.token⟩ } := by
  unfold Tasks.commit
  rw [found]
  simp only [current, revision, ne_eq, not_true_eq_false, if_false]

theorem load_abort {prepared : TaskStatePreparedRevision} (other : prepared.revision ≠ tasks.activeRevision) :
    (tasks.abort prepared).load = tasks.load := by
  refine load_congr rfl fun pointer active => find_drop_other fun named => other ?_
  have numbers : pointer.revision = prepared.revision := congrArg Prod.fst named
  unfold Tasks.activeRevision
  rw [active]
  exact numbers.symm

theorem load_abort_active (active : tasks.active = some ⟨prepared.revision, prepared.token⟩) :
    (tasks.abort prepared).load = none := by
  unfold Tasks.load
  simp only [Tasks.abort, active]
  rw [show (prepared.revision, prepared.token) = prepared.name from rfl, find_drop_self]
  rfl

end

/-- A compaction that is about to write, in a world where the next revision fits. -/
structure Ready (input : Input) (plan : Plan) (world : World) : Prop where
  revision : plan.taskState.revision = input.taskState.revision + 1
  active : ∃ state, world.tasks.load = some state ∧ state.revision = input.taskState.revision

section
variable {options : Options} {around : Surroundings} {input : Input} {plan : Plan}
  {originalItems : List TurnItem} {world : World}

/-- The world in which the revision is prepared and `items` have been appended. -/
def World.held (world : World) (tasks : Tasks) (items : List TurnItem) : World :=
  { world.join items with tasks := tasks }

theorem transact_prepare (ready : Ready input plan world) : ∃ tasks prepared,
    prepared = ⟨options.token, plan.taskState.revision, input.taskState.revision⟩ ∧
      tasks.active = world.tasks.active ∧ tasks.load = world.tasks.load ∧
      find PreparedPayload.name prepared.name tasks.revisions = some ⟨prepared, plan.taskState⟩ ∧
      tasks.activeRevision = input.taskState.revision ∧
      await around .prepare (fun world => do
          let (tasks, prepared) ←
            world.tasks.prepare options.token plan.taskState input.taskState.revision
          .ok ({ world with tasks := tasks }, prepared)) world =
        (world.held (if around.failure .prepare = some .before then world.tasks else tasks)
            (around.appended .prepare),
          if around.failure .prepare = none then .ok prepared
          else .error (.failed .prepare)) := by
  obtain ⟨state, loaded, same⟩ := ready.active
  obtain ⟨tasks, prepared, active, kept, found⟩ :=
    prepare_ok loaded (ready.revision.trans (by rw [same]))
  rw [same] at prepared found
  refine ⟨tasks, _, rfl, active, kept, found, ?_, ?_⟩
  · obtain ⟨pointer, pointed, revision⟩ := active_of_load loaded
    unfold Tasks.activeRevision
    rw [active, pointed]
    exact revision.trans same
  · have took : (do
        let (tasks, prepared) ← (world.join (around.appended .prepare)).tasks.prepare
          options.token plan.taskState input.taskState.revision
        .ok ({ world.join (around.appended .prepare) with tasks := tasks }, prepared)) =
        (.ok (world.held tasks (around.appended .prepare),
          ⟨options.token, plan.taskState.revision, input.taskState.revision⟩) :
            Except Error (World × TaskStatePreparedRevision)) := by
      simp only [join_tasks, prepared]
      rfl
    rw [await_ok took]
    split <;> rfl

theorem aborted (around : Surroundings) (prepared : TaskStatePreparedRevision) (before : World) : ∃ tasks,
    (tasks = before.tasks ∨ tasks = before.tasks.abort prepared) ∧ (await around .abort
        (fun world => .ok ({ world with tasks := world.tasks.abort prepared }, ())) before).1 =
        before.held tasks (around.appended .abort) := by
  rw [await_ok rfl]
  split
  · exact ⟨_, .inl rfl, rfl⟩
  · exact ⟨_, .inr rfl, rfl⟩

/-- Where nothing has been appended, undoing is aborting. -/
theorem undo_unappended : ∃ tasks, (tasks = before.tasks ∨ tasks = before.tasks.abort prepared) ∧
      undo around originalItems false prepared error before =
        (before.held tasks (around.appended .abort), error) := by
  obtain ⟨tasks, either, same⟩ := aborted around prepared before
  refine ⟨tasks, either, ?_⟩
  unfold undo undo.rewritten
  simp only [Bool.false_eq_true, if_false]
  rw [same]

theorem rewrite_step : undo.rewritten around originalItems true before =
      (if around.failure .rewriteItems = some .before then
          before.join (around.appended .rewriteItems)
        else
          { before.join (around.appended .rewriteItems) with log := originalItems },
        if around.failure .rewriteItems = none then .ok ()
        else .error (.failed .rewriteItems)) := by
  unfold undo.rewritten
  rw [if_pos rfl, await_ok rfl]

theorem undo_unrewritten (failed : around.failure .rewriteItems = some .before) :
    undo around originalItems true prepared error before =
      (before.join (around.appended .rewriteItems), .failed .rewriteItems) := by
  unfold undo
  rw [rewrite_step, failed]
  rfl

theorem undo_rewritten (went : around.failure .rewriteItems ≠ some .before) : ∃ tasks cause,
    (tasks = before.tasks ∨ tasks = before.tasks.abort prepared) ∧
      undo around originalItems true prepared error before =
        (({ before.join (around.appended .rewriteItems) with log := originalItems }).held
          tasks (if around.failure .rewriteItems = none then around.appended .abort
            else []), cause) := by
  unfold undo
  rw [rewrite_step, if_neg went]
  cases failure : around.failure .rewriteItems with
  | none =>
    obtain ⟨tasks, either, same⟩ := aborted around prepared
      { before.join (around.appended .rewriteItems) with log := originalItems }
    refine ⟨tasks, error, either, ?_⟩
    simp only [if_true]
    rw [same]
  | some when_ =>
    refine ⟨before.tasks, .failed .rewriteItems, .inl rfl, ?_⟩
    simp only [reduceCtorEq, if_false]
    simp only [World.held, World.join, append_nil]

/-- The active state stays where a revision that is not active is aborted. -/
theorem load_either {tasks before : Tasks} (either : tasks = before ∨ tasks = before.abort prepared)
    (other : prepared.revision ≠ before.activeRevision) : tasks.load = before.load := by
  rcases either with rfl | rfl
  · rfl
  · exact load_abort other

@[simp] theorem held_join (tasks : Tasks) (first second : List TurnItem) :
    (world.held tasks first).join second = world.held tasks (first ++ second) := by
  simp only [World.held, World.join, append_assoc]

@[simp] theorem held_held (tasks other : Tasks) (first second : List TurnItem) :
    (world.held tasks first).held other second = world.held other (first ++ second) := by
  simp only [World.held, World.join, append_assoc]

theorem transact_early (ready : Ready input plan world)
    (early : around.failure .prepare ≠ none ∨ around.failure .recordEvent ≠ none ∨
      around.failure .appendItem = some .before) : ∃ tasks error items,
    transact options around input plan originalItems world =
        (world.held tasks items, .error error) ∧ tasks.load = world.tasks.load := by
  obtain ⟨tasks, prepared, made, -, kept, -, current, stepped⟩ :=
    transact_prepare ready
  have other : prepared.revision ≠ tasks.activeRevision := by
    rw [current, made, ready.revision]
    exact Nat.succ_ne_self _
  unfold transact
  rw [stepped]
  by_cases prepare : around.failure .prepare = none
  · rw [if_pos prepare, if_neg (by rw [prepare]; exact fun same => by cases same)]
    dsimp only
    rcases await_read_cases .recordEvent (fun _ => ()) with ⟨recorded, read⟩ | failed
    · have before : around.failure .appendItem = some .before :=
        (early.resolve_left (not_not.mpr prepare)).resolve_left (not_not.mpr recorded)
      rw [read]
      dsimp only
      rw [await_ok rfl, before]
      simp only [if_true, reduceCtorEq, if_false, held_join]
      obtain ⟨final, either, undone⟩ := undo_unappended
      rw [undone, held_held]
      exact ⟨_, _, _, rfl, (load_either either other).trans kept⟩
    · rw [failed]
      dsimp only
      rw [held_join]
      obtain ⟨final, either, undone⟩ := undo_unappended
      rw [undone, held_held]
      exact ⟨_, _, _, rfl, (load_either either other).trans kept⟩
  · rw [if_neg prepare]
    refine ⟨_, _, _, rfl, ?_⟩
    split
    · rfl
    · exact kept

theorem transact_append (ready : Ready input plan world) (prepare : around.failure .prepare = none)
    (recordEvent : around.failure .recordEvent = none) : ∃ tasks prepared,
    prepared = ⟨options.token, plan.taskState.revision, input.taskState.revision⟩ ∧
      tasks.load = world.tasks.load ∧
      find PreparedPayload.name prepared.name tasks.revisions = some ⟨prepared, plan.taskState⟩ ∧
      tasks.activeRevision = input.taskState.revision ∧
      transact options around input plan originalItems world = match await around .appendItem (fun world =>
            .ok ({ world with log := world.log ++ [plan.summaryItem.item] }, ()))
            (world.held tasks
              (around.appended .prepare ++ around.appended .recordEvent)) with
        | (world, .error error) =>
          let (world, error) := undo around originalItems false prepared error world
          (world, .error error)
        | (world, .ok _) =>
          match await around .commit (fun world => do
              let tasks ← world.tasks.commit prepared
              .ok ({ world with tasks := tasks }, ())) world with
          | (world, .error error) =>
            let (world, error) := undo around originalItems true prepared error world
            (world, .error error)
          | (world, .ok _) =>
            (world, .ok ⟨plan.next, plan.summaryItem, plan.replacedTokens, plan.taskState⟩) := by
  obtain ⟨tasks, prepared, made, -, kept, found, current, stepped⟩ :=
    transact_prepare ready
  refine ⟨tasks, prepared, made, kept, found, current, ?_⟩
  unfold transact
  rw [stepped, if_pos prepare, if_neg (by rw [prepare]; exact fun same => by cases same)]
  dsimp only
  rw [await_read, if_pos recordEvent, held_join]

/-- The world in which the summary has been appended between `first` and `last`. -/
def World.summed (world : World) (tasks : Tasks) (first : List TurnItem) (summary : TurnItem)
    (last : List TurnItem) : World where
  log := world.log ++ first ++ summary :: last
  tasks := tasks
  concurrent := world.concurrent ++ first ++ last

@[simp] theorem summed_join (tasks : Tasks) (first last more : List TurnItem)
    (summary : TurnItem) : (world.summed tasks first summary last).join more =
      world.summed tasks first summary (last ++ more) := by
  simp only [World.summed, World.join, append_assoc, cons_append]

@[simp] theorem summed_held (tasks other : Tasks) (first last more : List TurnItem)
    (summary : TurnItem) : (world.summed tasks first summary last).held other more =
      world.summed other first summary (last ++ more) := by
  simp only [World.held, summed_join]
  rfl

/-- What others append before the summary. -/
def Surroundings.first (around : Surroundings) : List TurnItem :=
  around.appended .prepare ++ around.appended .recordEvent ++ around.appended .appendItem

theorem summed_append :
    { (world.held tasks (around.appended .prepare ++ around.appended .recordEvent)).join
        (around.appended .appendItem) with
      log := ((world.held tasks (around.appended .prepare ++
        around.appended .recordEvent)).join (around.appended .appendItem)).log ++
          [summary] } = world.summed tasks around.first summary [] := by
  simp only [World.held, World.join, World.summed, Surroundings.first, append_assoc, append_nil]

/-- An append that fails after it has its line is not undone. -/
theorem transact_appended (ready : Ready input plan world) (prepare : around.failure .prepare = none)
    (recordEvent : around.failure .recordEvent = none)
    (appendItem : around.failure .appendItem = some .after) : ∃ tasks error,
    transact options around input plan originalItems world =
      (world.summed tasks around.first plan.summaryItem.item
        (around.appended .abort), .error error) := by
  obtain ⟨tasks, prepared, -, -, -, -, same⟩ :=
    transact_append ready prepare recordEvent
  rw [same, await_ok rfl, appendItem, summed_append]
  simp only [reduceCtorEq, if_false, Option.some.injEq]
  obtain ⟨final, -, undone⟩ := undo_unappended
  rw [undone, summed_held]
  exact ⟨_, _, rfl⟩

theorem transact_commit (ready : Ready input plan world) (prepare : around.failure .prepare = none)
    (recordEvent : around.failure .recordEvent = none)
    (appendItem : around.failure .appendItem = none) : ∃ tasks prepared committed,
    tasks.load = world.tasks.load ∧ prepared.revision ≠ tasks.activeRevision ∧
      committed.load = some plan.taskState ∧ (committed.abort prepared).load = none ∧
      transact options around input plan originalItems world =
        match (if around.failure .commit = some .before then
            world.summed tasks around.first plan.summaryItem.item
              (around.appended .commit)
          else
            world.summed committed around.first plan.summaryItem.item
              (around.appended .commit),
          if around.failure .commit = none then (.ok () : Except Error Unit)
          else .error (.failed .commit)) with
        | (world, .error error) =>
          let (world, error) := undo around originalItems true prepared error world
          (world, .error error)
        | (world, .ok _) =>
          (world, .ok ⟨plan.next, plan.summaryItem, plan.replacedTokens, plan.taskState⟩) := by
  obtain ⟨tasks, prepared, made, kept, found, current, same⟩ :=
    transact_append ready prepare recordEvent
  have expected : tasks.activeRevision = prepared.expectedRevision := by
    rw [current, made]
  have revision : plan.taskState.revision = prepared.revision := by
    rw [made]
  have committed := commit_ok expected found revision
  refine ⟨tasks, prepared, { tasks with active := some ⟨prepared.revision, prepared.token⟩ },
    kept, ?_, ?_, load_abort_active rfl, ?_⟩
  · rw [current, made, ready.revision]
    exact Nat.succ_ne_self _
  · unfold Tasks.load
    dsimp only
    rw [show (prepared.revision, prepared.token) = prepared.name from rfl, found]
    rfl
  · rw [same, await_ok rfl, appendItem, summed_append]
    simp only [reduceCtorEq, if_false, if_true]
    have took : (do
        let tasks ← ((world.summed tasks around.first plan.summaryItem.item []).join
          (around.appended .commit)).tasks.commit prepared
        .ok ({ (world.summed tasks around.first plan.summaryItem.item []).join
          (around.appended .commit) with tasks := tasks }, ())) =
        (.ok (world.summed { tasks with active := some ⟨prepared.revision, prepared.token⟩ }
          around.first plan.summaryItem.item (around.appended .commit), ()) :
          Except Error (World × Unit)) := by
      rw [show ((world.summed tasks around.first plan.summaryItem.item []).join
        (around.appended .commit)).tasks = tasks from rfl, committed]
      simp only [summed_join, nil_append]
      rfl
    rw [await_ok took, summed_join, nil_append]

end

/-- The start of a call, before others have appended anything. -/
def World.start (log : List TurnItem) (tasks : Tasks) : World :=
  ⟨log, tasks, []⟩

theorem mem_loadItems_ids {id : String} :
    id ∈ (loadItems log).map TurnItem.id ↔ id ∈ log.map TurnItem.id := by
  rw [loadItems_contents, mem_keys_contents]

/-- Where only the others have appended, everything is as it should be. -/
theorem atomic_held (log : List TurnItem) (items : List TurnItem) (outcome : Except Error Result)
    (kept : after.load = tasks.load) :
    Atomic (.start log tasks) ((World.start log tasks).held after items) outcome := by
  cases outcome with
  | error error => exact ⟨kept, rfl⟩
  | ok result =>
    intro item found
    rw [loadItems_contents]
    refine mem_contents (?_ : latest TurnItem.id _ item.id = some item)
    have found : latest TurnItem.id items item.id = some item := found
    simp only [World.held, World.join, World.start, latest_append_list, found, Option.some_or]

theorem summary_seen (fresh : summary.id ∉ (log ++ first ++ last).map TurnItem.id) :
    loadItems (log ++ first ++ summary :: last) ≠ loadItems (log ++ first ++ last) := by
  intro same
  have seen : summary.id ∈ (loadItems (log ++ first ++ summary :: last)).map TurnItem.id := by
    rw [mem_loadItems_ids]
    simp
  rw [same, mem_loadItems_ids] at seen
  exact fresh seen

/-- Beside a summary with an id of its own, the others' items stay as they left them. -/
theorem others_kept (log : List TurnItem) (fresh : summary.id ∉ (first ++ last).map TurnItem.id)
    (found : latest TurnItem.id (first ++ last) item.id = some item) :
    item ∈ loadItems (log ++ first ++ summary :: last) := by
  have apart : summary.id ≠ item.id := by
    intro same
    have listed := latest_isSome_iff.mp (Option.isSome_of_eq_some found)
    exact fresh (same ▸ listed)
  rw [loadItems_contents]
  refine mem_contents (?_ : latest TurnItem.id _ item.id = some item)
  rw [latest_append_list] at found
  rw [show log ++ first ++ summary :: last = log ++ (first ++ [summary]) ++ last by simp,
    latest_append_list, latest_append_list, latest_append, if_neg apart]
  cases ended : latest TurnItem.id last item.id with
  | some other =>
    rw [ended] at found
    exact found
  | none =>
    rw [ended] at found
    simp only [Option.none_or] at found ⊢
    rw [found]
    rfl

/-- The items that come after the plan do not have the id of a summary of its own. -/
theorem fresh_among {around : Surroundings} {id : String} (others : List TurnItem)
    (fresh : id ∉ (log ++ around.overwritten ++ around.appended .abort ++ around.settled).map TurnItem.id)
    (among : others ⊆ log ++ around.overwritten ++ around.appended .abort ++
      around.settled) : id ∉ others.map TurnItem.id := by
  intro found
  obtain ⟨item, held, rfl⟩ := mem_map.mp found
  exact fresh (mem_map_of_mem (among held))

/-- A transaction is atomic just where it is calm, from the plan on. -/
theorem transact_atomic_iff (input : Input) (plan : Plan) (log items : List TurnItem)
    (tasks : Tasks) (ready : Ready input plan ((World.start log tasks).join items))
    (fresh : plan.summaryItem.item.id ∉ (log ++ items ++ around.overwritten ++
      around.appended .abort ++ around.settled).map TurnItem.id) :
    Atomic (.start log tasks) ((transact options around input plan (loadItems (log ++ items))
          ((World.start log tasks).join items)).1.join around.settled)
        (transact options around input plan (loadItems (log ++ items))
          ((World.start log tasks).join items)).2 ↔
      (around.failure .prepare = none → around.failure .recordEvent = none →
        around.failure .appendItem ≠ some .after ∧
        (around.failure .appendItem = none → around.failure .commit ≠ some .after ∧
          (around.failure .commit = some .before → around.failure .rewriteItems ≠ some .before ∧
            loadItems (log ++ items ++ around.overwritten ++ around.later) =
              loadItems (log ++ items ++ around.later)))) := by
  by_cases early : around.failure .prepare ≠ none ∨
      around.failure .recordEvent ≠ none ∨ around.failure .appendItem = some .before
  · obtain ⟨after, error, more, same, kept⟩ :=
      transact_early ready early
    rw [same]
    refine iff_of_true ?_ fun prepare recordEvent => ?_
    · have held := atomic_held log (items ++ (more ++ around.settled))
        (.error error) (kept.trans rfl : after.load = tasks.load)
      simpa [World.held, World.join, World.start] using held
    · have append := (early.resolve_left (not_not.mpr prepare)).resolve_left
        (not_not.mpr recordEvent)
      rw [append]
      exact ⟨fun wrong => (by cases wrong), fun wrong => (by cases wrong)⟩
  · rw [not_or, not_or, not_not, not_not] at early
    obtain ⟨prepare, recordEvent, appendItem⟩ := early
    simp only [prepare, recordEvent, forall_const]
    cases append : around.failure .appendItem with
    | some when_ =>
      cases when_ with
      | before => exact absurd append appendItem
      | after =>
        obtain ⟨after, error, same⟩ := transact_appended
          ready prepare recordEvent append
        rw [same, summed_join]
        refine iff_of_false (fun atomic => ?_) fun calm => calm.1 rfl
        have own := fresh_among (log ++ items ++ around.first ++
          (around.appended .abort ++ around.settled)) fresh (by
            intro item held
            simp only [Surroundings.overwritten, Surroundings.first, mem_append] at held ⊢
            tauto)
        refine summary_seen own ?_
        simpa [World.summed, World.join, World.start] using atomic.2
    | none =>
      obtain ⟨after, prepared, committed, kept, other, active, gone, same⟩ :=
        transact_commit ready
          prepare recordEvent append
      rw [same]
      cases commit : around.failure .commit with
      | none =>
        simp only [reduceCtorEq, if_false, if_true, ne_eq, not_false_eq_true, false_implies,
          and_self, implies_true, iff_true, summed_join]
        intro item found
        have own := fresh_among (items ++ around.first ++
          (around.appended .commit ++ around.settled)) fresh (by
            intro item held
            simp only [Surroundings.overwritten, Surroundings.first, mem_append] at held ⊢
            tauto)
        have seen := others_kept log own
          (by simpa [World.summed, World.join, World.start] using found)
        simpa [World.summed, World.join, World.start] using seen
      | some when_ =>
        cases when_ with
        | after =>
          obtain ⟨state, loaded, revision⟩ := ready.active
          -- the active state is the new one, or its file is gone
          have changed : ∀ final : Tasks, (final = committed ∨ final = committed.abort prepared) →
              final.load ≠ tasks.load := by
            have loaded : tasks.load = some state := loaded
            rintro final (rfl | rfl)
            · rw [active, loaded]
              intro wrong
              have numbers := congrArg (Option.map TaskState.revision) wrong
              simp only [Option.map_some, Option.some.injEq, ready.revision, revision] at numbers
              omega
            · rw [gone, loaded]
              exact fun wrong => (by cases wrong)
          simp only [reduceCtorEq, if_false, Option.some.injEq, ne_eq, not_true_eq_false,
            false_and, forall_const, and_false, iff_false]
          intro atomic
          by_cases rewrite : around.failure .rewriteItems = some .before
          · rw [undo_unrewritten rewrite] at atomic
            exact changed committed (.inl rfl) atomic.1
          · obtain ⟨final, cause, either, undone⟩ := undo_rewritten rewrite
            rw [undone] at atomic
            exact changed final either atomic.1
        | before =>
          simp only [reduceCtorEq, if_false, if_true, Option.some.injEq, ne_eq,
            not_false_eq_true, true_and, forall_const]
          by_cases rewrite : around.failure .rewriteItems = some .before
          · rw [undo_unrewritten rewrite]
            refine iff_of_false (fun atomic => ?_) fun calm => calm.1 rewrite
            have own := fresh_among (log ++ items ++ around.first ++
              (around.appended .commit ++ around.appended .rewriteItems ++ around.settled)) fresh (by
                intro item held
                simp only [Surroundings.overwritten, Surroundings.first, mem_append] at held ⊢
                tauto)
            refine summary_seen own ?_
            simpa [World.summed, World.join, World.start] using atomic.2
          · obtain ⟨final, cause, either, undone⟩ := undo_rewritten rewrite
            rw [undone]
            have load : final.load = tasks.load := (load_either either other).trans kept
            have rewritten : ∀ more, loadItems (loadItems (log ++ items) ++ more) =
                loadItems (log ++ items ++ more) := by
              intro more
              rw [loadItems_contents, loadItems_contents, loadItems_contents, contents_rewritten]
            have later := rewritten around.later
            simp only [rewrite, not_false_eq_true, true_and, Atomic, World.held, World.join,
              World.summed, World.start, load, Surroundings.overwritten, Surroundings.first,
              Surroundings.later, append_assoc, nil_append] at later ⊢
            rw [later]
            exact eq_comm

/-- A compaction whose summary has an id of its own is atomic just where its surroundings are
calm. -/
theorem compact_atomic_iff (options : Options) (around : Surroundings) (input : Input)
    (log : List TurnItem) (tasks : Tasks)
    (fresh : FreshSummary options around input (.start log tasks)) :
    Atomic (.start log tasks) (compact options around input (.start log tasks)).1
        (compact options around input (.start log tasks)).2 ↔
      Calm options around input (.start log tasks) := by
  have begun : Begun input (.start log tasks)
      (begin_ options around input (.start log tasks)) := begin_begun
  unfold compact Calm
  unfold FreshSummary at fresh
  split at fresh
  · rename_i before outcome started
    rw [started] at begun
    obtain ⟨items, rfl⟩ := begun
    refine iff_of_true ?_ trivial
    have held := atomic_held log (items ++ around.settled) outcome
      (rfl : tasks.load = tasks.load)
    simpa [World.held, World.join, World.start] using held
  · rename_i before plan originalItems started
    rw [started] at begun
    obtain ⟨⟨items, rfl⟩, rfl, revision, active⟩ := begun
    exact transact_atomic_iff input plan log items tasks ⟨revision, active⟩ fresh

section Example

private def sampleIdentity : RunIdentity where
  ownerUserId := named "owner-1"
  workspaceKey := named "/workspace-1"
  threadId := named "thread-1"
  turnId := named "turn-1"
  runId := named "run-1"

private def sampleTask : Task :=
  ⟨1, ⟨sampleIdentity, "task-source-1", "2026-07-15T00:00:00.000Z", none⟩⟩

private def message (id text : String) : TurnItem :=
  { id, turnId := "turn-1", status := .completed, body := .userMessage text [] }

private def summaryOf (text : String) : SummaryItem where
  item :=
    { id := "compaction_turn-1_1784073601000", turnId := "turn-1", status := .completed
      body := .compaction text 12 }
  sourceDigest := some "digest-1"
  sourceItemIds := some ["user-1"]
  taskRevision := none
  taskSourceDigest := none

/-- One older item is compacted and one recent item stays. -/
private def sampleOptions : Options where
  compactor := fun input summaryOverride =>
    let text := summaryOverride.getD "summary"
    ⟨(summaryOf text).item :: (input.history.map Prod.snd).drop 1, some (text, summaryOf text), 12⟩
  renderTaskStateProjection := fun _ => "Authoritative runtime task state"
  nowIso := "2026-07-15T00:00:01.000Z"
  token := .call 1

private def sampleHistory : List TurnItem := [message "user-1" "report", message "user-2" "go on"]

private def sampleInput : Input where
  identity := sampleIdentity
  taskState := sampleTask
  history := sampleHistory.map fun item => ("thread-1", item)
  summarize := none

private def sampleTasks : Tasks where
  active := some ⟨1, .call 0⟩
  revisions := [⟨⟨.call 0, 1, 0⟩, sampleTask⟩]
  named := fun payload held => by
    cases mem_singleton.mp held
    rfl

/-- Another writer appends an item while `commit` is awaited. -/
private def meanwhile (commit : Option Failure) : Surroundings where
  appended := fun step => if step = .commit then [message "steer-1" "also this"] else []
  settled := []
  failure := fun step => if step = .commit then commit else none

theorem compact_atomic_committed : Atomic (.start sampleHistory sampleTasks)
    (compact sampleOptions (meanwhile none) sampleInput (.start sampleHistory sampleTasks)).1
    (compact sampleOptions (meanwhile none) sampleInput (.start sampleHistory sampleTasks)).2 :=
  (compact_atomic_iff sampleOptions (meanwhile none) sampleInput sampleHistory sampleTasks
    (by decide : "compaction_turn-1_1784073601000" ∉ ["user-1", "user-2", "steer-1"])).mpr
    fun _ _ => ⟨fun wrong => (by cases wrong), fun _ =>
      ⟨fun wrong => (by cases wrong), fun wrong => (by cases wrong)⟩⟩

/-- The commit fails, and the rewriting of the session drops the item that was appended. -/
theorem appended_item_rewritten_away : ∃ final, compact sampleOptions (meanwhile (some .before)) sampleInput
        (.start sampleHistory sampleTasks) = (final, .error (.failed .commit)) ∧
      final.concurrent = [message "steer-1" "also this"] ∧
      loadItems final.log = sampleHistory ∧
      ¬ Atomic (.start sampleHistory sampleTasks) final (.error (.failed .commit)) := by
  refine ⟨_, rfl, rfl, by decide, fun atomic => ?_⟩
  exact absurd atomic.2 (by decide)

end Example

end QiongQi.CompactionTransactions
