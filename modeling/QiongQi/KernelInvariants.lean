import QiongQi.KernelLive

/-! The induction over a kernel's runs, done once: what holds of the stores at every
point of a run, and of the state in memory while a run has one, is kept by every
run if it is kept by each of the things a run does. -/
namespace QiongQi.KernelInvariants
open JsonValues Programs RuntimeContracts MiddlewareCommands ExecutionGraphs RuntimeKernels
  KernelRuns KernelReducers KernelDurability KernelReplay KernelSteps KernelLive

variable {Ext : Type} {ExtAnswer : Ext → Type}

/-- How a completion came about: the node's handler ran on the state in memory
after the middleware before it had let it. -/
structure Completion (kernel : RuntimeKernel ExtAnswer) (around : Surroundings ExtAnswer)
    (good : RunStateV3 → String → Option RuntimeNodeResult → Prop) (live : RunStateV3)
    (node : RuntimeNode) (result : Option RuntimeNodeResult) (commands : List MiddlewareCommand) :
    Prop where
  known : nodeFor kernel.graph live.cursor.nodeId = .ok node
  before : ∃ answer beforeCommands,
    Answers around { state := live, hook := .beforeNode, node := some node } answer ∧
      acceptedCommands answer = .ok beforeCommands ∧ commandOutcome beforeCommands = none ∧
      nodeCommands beforeCommands result = .ok commands
  returned : good live node.id result

/-- Commands that end a run before its first or its next node. -/
def EndingCommands (around : Surroundings ExtAnswer) (live : RunStateV3)
    (commands : List MiddlewareCommand) : Prop :=
  ∃ context answer, context.state = live ∧ (context.hook = .beforeRun ∨ context.hook = .beforeNode) ∧
    Answers around context answer ∧ acceptedCommands answer = .ok commands

/-- `idle` holds wherever a run may be cut short, `held` of the state in memory and
of the events after its checkpoint that are still to be replayed; `good` is what
the handlers are known to return. -/
structure KeepsOutside (kernel : RuntimeKernel ExtAnswer) (identity : RunIdentity)
    (around : Surroundings ExtAnswer)
    (good : RunStateV3 → String → Option RuntimeNodeResult → Prop)
    (idle : RunWorld Ext → Prop)
    (held : RunStateV3 → List RunEventEnvelope → RunWorld Ext → Prop) : Prop where
  idle_respects : Respects idle
  held_respects : ∀ live rest, Respects (held live rest)
  cut : ∀ {live rest world}, held live rest world → idle world
  ascending : ∀ {world}, idle world → world.events.Pairwise fun left right => left.seq < right.seq
  returns : ∀ {live node handler} (fence : Option LeaseFence), kernel.nodes node.id = some handler →
    Returns (good live node.id) (handler { state := live, node, leaseFence := fence })
  hooked : ∀ {live rest world context}, context.state = live → held live rest world →
    held live rest (world.observe (.hooked context))
  failing : ∀ {world state context}, idle world → world.snapshot = some state →
    context.hook = .onError → context.state = state → idle (world.observe (.hooked context))
  finished : ∀ {world outcome}, idle world → idle (world.observe (.returned outcome))
  loaded : ∀ {world state}, idle world → world.snapshot = some state →
    held state (world.events.filter fun event => state.cursor.checkpointSeq < event.seq) world
  fresh : ∀ {world} now, idle world → world.snapshot = none →
    held (initialState kernel identity now) (world.events.filter fun event => 0 < event.seq) world
  replayed : ∀ {live next event rest world pending after now}, held live (event :: rest) world →
      replayEvent kernel live pending event now = .ok (next, after) → held next rest world
  started : ∀ {live world event} now, held live [] world → event.seq = nextSeq world.events →
    event.eventType = "node.started" → held (startedState live event.seq now) [] (recordedWorld world event)
  committed : ∀ {live rest world pending answer commands event}, held live rest world →
    Answers around (afterContext live pending) answer →
    acceptedCommands answer = .ok commands → event.seq = nextSeq world.events →
    event.eventType = "node.after_middleware" →
    event.payload = (afterPayload pending commands).toJs → idle (recordedWorld world event) ∧
        (AfterAccepted pending commands → ∀ now next,
          reduceAfterMiddleware kernel live (afterPayload pending commands) event.seq now =
            .ok next → held next rest (recordedWorld world event))
  saved : ∀ {live world stored}, held live [] world → RunStateV3.persist live = some stored →
    held live [] (savedWorld world stored)
  ended : ∀ {live applied world commands outcome now}, held live [] world →
    EndingCommands around live commands → applyCommands live commands = .ok applied →
      held (withOutcome applied outcome now) [] world
  migrated : ∀ {live next world now}, held live [] world →
    migrateGraphState kernel live now = .ok next → held next [] world
  relabelled : ∀ {live world}, held live [] world → held (migrateTerminalGraphMetadata kernel live) [] world

/-- What a completed node records, and what becomes of the state then. -/
def Completes (kernel : RuntimeKernel ExtAnswer) (idle : RunWorld Ext → Prop)
    (held : RunStateV3 → List RunEventEnvelope → RunWorld Ext → Prop) (live : RunStateV3)
    (world : RunWorld Ext) (node : RuntimeNode) (result : Option RuntimeNodeResult)
    (commands : List MiddlewareCommand) (event : RunEventEnvelope) : Prop :=
  event.seq = nextSeq world.events → event.eventType = "node.completed" →
  event.payload = (completedPayload live node result commands).toJs → idle (recordedWorld world event) ∧
      (parseCompletedNodePayload (completedPayload live node result commands).toJs =
          .ok (completedPayload live node result commands) → ∀ now next,
        reduceCompletedNode kernel live node (completedPayload live node result commands)
          event.seq now = .ok next → held next [] (recordedWorld world event))

/-- The state in memory is looked at as a whole. -/
structure Keeps (kernel : RuntimeKernel ExtAnswer) (identity : RunIdentity) (around : Surroundings ExtAnswer)
    (good : RunStateV3 → String → Option RuntimeNodeResult → Prop)
    (idle : RunWorld Ext → Prop)
    (held : RunStateV3 → List RunEventEnvelope → RunWorld Ext → Prop) : Prop
    extends KeepsOutside kernel identity around good idle held where
  silent : ∀ {live rest world observation}, Silent observation → held live rest world →
    held live rest (world.observe observation)
  failed : ∀ {world state outcome now stored}, idle world → world.snapshot = some state →
    RunStateV3.persist (withOutcome state outcome now) = some stored → idle (savedWorld world stored)
  effect : ∀ {live world effect now}, held live [] world →
    held live [] (recordEffect identity now world effect)
  completed : ∀ {live world node result commands event}, held live [] world →
    Completion kernel around good live node result commands →
      Completes kernel idle held live world node result commands event
  marked : ∀ {live world} status now, held live [] world → held (mark status now live) [] world

/-- The same with a condition of its own while a node's handler is at work: the node that
is entered is the one at the cursor. -/
structure KeepsWithin (kernel : RuntimeKernel ExtAnswer) (identity : RunIdentity)
    (around : Surroundings ExtAnswer)
    (good : RunStateV3 → String → Option RuntimeNodeResult → Prop)
    (idle : RunWorld Ext → Prop)
    (held : RunStateV3 → List RunEventEnvelope → RunWorld Ext → Prop)
    (inside : RunStateV3 → RuntimeNode → RunWorld Ext → Prop) : Prop
    extends KeepsOutside kernel identity around good idle held where
  inside_respects : ∀ live node, Respects (inside live node)
  cutInside : ∀ {live node world}, inside live node world → idle world
  entered : ∀ {live world node}, held live [] world → nodeFor kernel.graph live.cursor.nodeId = .ok node →
      inside live node (world.observe (.entered node.id))
  called : ∀ {live node world} call, inside live node world → inside live node (world.observe (.called call))
  effect : ∀ {live node world effect now}, inside live node world →
    inside live node (recordEffect identity now world effect)
  left : ∀ {live node world} result, inside live node world →
    held live [] (world.observe (.left node.id result))
  failed : ∀ {world state outcome now stored}, idle world → world.snapshot = some state →
    isTerminal state = false → outcome.status = .failed →
      RunStateV3.persist (withOutcome state outcome now) = some stored → idle (savedWorld world stored)
  completed : ∀ {live world node result commands event}, held live [] world →
    isTerminal live = false → Completion kernel around good live node result commands →
      Completes kernel idle held live world node result commands event
  marked : ∀ {live world} now, held live [] world → isTerminal live = false →
    held (mark .running now live) [] world

variable {kernel : RuntimeKernel ExtAnswer} {identity : RunIdentity}
variable {around : Surroundings ExtAnswer}
variable {good : RunStateV3 → String → Option RuntimeNodeResult → Prop}
variable {idle : RunWorld Ext → Prop}
variable {held : RunStateV3 → List RunEventEnvelope → RunWorld Ext → Prop}
variable {inside : RunStateV3 → RuntimeNode → RunWorld Ext → Prop}
variable {live : RunStateV3}

theorem Keeps.within (keeps : Keeps kernel identity around good idle held) :
    KeepsWithin kernel identity around good idle held fun live _ => held live [] where
  toKeepsOutside := keeps.toKeepsOutside
  inside_respects live _ := keeps.held_respects live []
  cutInside := keeps.cut
  entered holds _ := keeps.silent trivial holds
  called _ := keeps.silent trivial
  effect := keeps.effect
  left _ := keeps.silent trivial
  failed holds stored _ _ := keeps.failed holds stored
  completed holds _ := keeps.completed holds
  marked now holds _ := keeps.marked .running now holds

section
variable (keeps : KeepsWithin kernel identity around good idle held inside)
include keeps

private theorem runs_hookHeld (state : context.state = live) :
    Runs around identity idle (held live rest) (await (.middleware context))
      fun answer world => held live rest world ∧ Answers around context answer :=
  runs_hook_answered (keeps.held_respects live rest) (fun _ => keeps.cut) (fun _ => keeps.cut)
    fun _ => keeps.hooked state

private theorem runs_healthy :
    Runs around identity idle (held live rest) (assertLeaseHealthy fence live)
      fun _ => held live rest :=
  runs_leaseHealthy (keeps.held_respects live rest) fun _ => keeps.cut

private theorem runs_commit (pending : PendingAfterMiddleware) :
    Runs around identity idle (held live rest)
      (commitAfterMiddleware kernel identity fence live pending) fun next => held next rest := by
  refine runs_commitAfterMiddleware (keeps.held_respects live rest)
    (fun next => keeps.held_respects next rest) (fun _ => keeps.cut) (fun _ _ => keeps.cut)
    (fun _ _ _ state => keeps.hooked state) ?_ keeps.idle_respects
  intro world event answer commands answers accepted holds seq kind carried _
  exact keeps.committed holds answers accepted seq kind carried

private theorem runs_saveHeld :
    Runs around identity idle (held state []) (await (.save state fence))
      fun _ => held state [] :=
  runs_save (keeps.held_respects state []) (keeps.held_respects state []) (fun _ => keeps.cut)
    fun _ _ => keeps.saved

private theorem runs_saveIfHeld (condition : Bool) :
    Runs around identity idle (held live []) (saveIf fence condition live)
      fun _ => held live [] := by
  unfold saveIf
  split
  · exact runs_saveHeld keeps
  · exact runs_pure fun _ => id

private theorem runs_afterRunIfHeld (condition : Bool) :
    Runs around identity idle (held live []) (afterRunIf condition live)
      fun _ => held live [] := by
  unfold afterRunIf
  split
  · exact triple_bind (runs_hookHeld keeps rfl) fun _ => runs_pure fun _ hooked => hooked.1
  · exact runs_pure fun _ => id

private theorem runs_startNodeHeld (node : RuntimeNode) :
    Runs around identity idle (held live []) (startNode identity fence live node)
      fun next world => held next [] world ∧
        next.cursor.nodeId = live.cursor.nodeId ∧ next.status = live.status := by
  refine triple_bind (runs_healthy keeps) fun _ => ?_
  refine triple_bind (runs_saveIfHeld keeps _) fun _ => ?_
  have recorded : Runs around identity idle (held live [])
      (recordEvent identity live node.id "node.started" (.object [("nodeId", .string node.id),
          ("stepIndex", .number (.finite live.cursor.stepIndex))]) fence)
      fun event world => ∀ now, held (startedState live event.seq now) [] world := by
    refine runs_recordEvent (keeps.held_respects live []) ?_ (fun _ => keeps.cut) ?_
    · exact fun event before after snapshot events trace holds now =>
        (keeps.held_respects _ []).keep (holds now) snapshot events trace
    · exact fun world event holds seq kind _ _ now => keeps.started now holds seq kind
  refine triple_bind recorded fun event => ?_
  refine triple_bind (runs_still trivial ?_ fun world holds =>
    keeps.cut (holds live.updatedAt)) fun now =>
      runs_pure fun world holds => ⟨holds now, rfl, rfl⟩
  exact fun before after snapshot events trace holds now =>
    (keeps.held_respects _ []).keep (holds now) snapshot events trace

private theorem runs_called (call : Ext) (now : NonEmptyString)
    (effects : List (EffectEventType × JsValue)) (world : RunWorld Ext)
    (holds : inside live node world) :
    inside live node (calledWorld identity world call now effects) := by
  suffices recorded : ∀ world : RunWorld Ext, inside live node world →
      inside live node (effects.foldl (recordEffect identity now) world) from
    recorded _ (keeps.called call holds)
  induction effects with
  | nil => exact fun _ => id
  | cons effect rest ih => exact fun world holds => ih _ (keeps.effect holds)

/-- What a pass of the main loop leaves. -/
def afterPassHeld (idle : RunWorld Ext → Prop)
    (held : RunStateV3 → List RunEventEnvelope → RunWorld Ext → Prop) :
    Pass → RunWorld Ext → Prop
  | .goOn next => fun world => held next [] world ∧ isTerminal next = false
  | .done _ => idle

/-- The state in memory once a recorded completion has been read and reduced. -/
private def Reducible (kernel : RuntimeKernel ExtAnswer) (idle : RunWorld Ext → Prop)
    (held : RunStateV3 → List RunEventEnvelope → RunWorld Ext → Prop) (live : RunStateV3)
    (node : RuntimeNode) (payload : CompletedNodePayload) (seq : Nat) (world : RunWorld Ext) :
    Prop :=
  idle world ∧ (parseCompletedNodePayload payload.toJs = .ok payload → ∀ now next,
    reduceCompletedNode kernel live node payload seq now = .ok next → held next [] world)

private theorem runs_completeNodeHeld (going : isTerminal live = false)
    (known : nodeFor kernel.graph live.cursor.nodeId = .ok node)
    (registered : kernel.nodes node.id = some handler)
    (answers : Answers around { state := live, hook := .beforeNode, node := some node }
      answer) (accepted : acceptedCommands answer = .ok beforeCommands)
    (goesOn : commandOutcome beforeCommands = none) :
    Runs around identity idle (held live [])
      (completeNode kernel identity fence live node beforeCommands handler)
      (afterPassHeld idle held) := by
  have respects := keeps.held_respects live []
  have stops : ∀ world, held live [] world → idle world := fun _ => keeps.cut
  refine triple_bind (runs_enter (keeps.inside_respects live node) stops
    fun world holds => keeps.entered holds known) fun _ => ?_
  refine triple_bind (runs_issue_returns (keeps.returns fence registered)
    (keeps.inside_respects live node) (fun _ => keeps.cutInside)
    fun world call now effects => runs_called keeps call now effects world) fun result =>
      triple_of_fact fun returned => ?_
  refine triple_bind (runs_leave respects (fun _ => keeps.cutInside)
    fun world => keeps.left result) fun _ => ?_
  refine triple_bind (runs_healthy keeps) fun _ => ?_
  refine runs_lift stops fun commands parsed => ?_
  refine runs_lift stops fun _ _ => ?_
  have completion : Completion kernel around good live node result commands :=
    ⟨known, ⟨answer, beforeCommands, answers, accepted, goesOn, parsed⟩, returned⟩
  let payload := completedPayload live node result commands
  have left : ∀ seq, Respects (Reducible kernel idle held live node payload seq) :=
    fun seq before after snapshot events trace holds =>
      ⟨keeps.idle_respects.keep holds.1 snapshot events trace, fun parsed now next reduces =>
        (keeps.held_respects next []).keep (holds.2 parsed now next reduces) snapshot events trace⟩
  have recorded : Runs around identity idle (held live [])
      (recordEvent identity live node.id "node.completed" payload.toJs fence) fun event world =>
        Reducible kernel idle held live node payload event.seq world ∧ event.payload = payload.toJs := by
    refine runs_recordEvent respects ?_ stops ?_
    · exact fun event before after snapshot events trace holds =>
        ⟨(left event.seq).keep holds.1 snapshot events trace, holds.2⟩
    · intro world event holds seq kind carried _
      exact ⟨keeps.completed holds going completion seq kind carried, carried⟩
  refine triple_bind recorded fun event => triple_of_fact fun carried => ?_
  refine triple_bind (runs_crashPoint _ (left _) fun _ holds => holds.1) fun _ => ?_
  refine runs_lift (fun _ holds => holds.1) fun parsed found => ?_
  have same : parsed = payload := parseCompletedNodePayload_toJs (carried ▸ found)
  subst same
  refine triple_bind (runs_still trivial (left _) fun _ holds => holds.1) fun now => ?_
  refine runs_lift (fun _ holds => holds.1) fun reduced reduces => ?_
  refine runs_weaken (?_ : Runs around identity idle (held reduced []) _
    (afterPassHeld idle held)) (fun world holds => holds.2 (carried ▸ found) now reduced reduces)
    fun _ _ => id
  refine triple_bind (runs_commit keeps _) fun next => ?_
  refine triple_bind (runs_saveIfHeld keeps _) fun _ => ?_
  refine triple_bind (runs_afterRunIfHeld keeps _) fun _ => runs_pure fun world holds => ?_
  split
  · exact keeps.cut holds
  · rename_i unended
    exact ⟨holds, Bool.eq_false_of_not_eq_true unended⟩

private theorem runs_endRunHeld (outcome : RunOutcome) (ending : EndingCommands around live commands) :
    Runs around identity idle (held live []) (endRun fence live commands outcome)
      fun _ => idle := by
  refine runs_lift (fun _ => keeps.cut) fun applied commanded => ?_
  refine triple_bind (runs_still trivial (keeps.held_respects live []) fun _ => keeps.cut)
    fun now => ?_
  refine runs_weaken (?_ : Runs around identity idle
    (held (withOutcome applied outcome now) []) _ fun _ => idle)
    (fun world holds => keeps.ended holds ending commanded) fun _ _ => id
  exact triple_bind (runs_saveHeld keeps) fun _ => runs_pure fun _ => keeps.cut

private theorem runs_runNodeHeld (going : isTerminal live = false) :
    Runs around identity idle (held live []) (runNode kernel identity fence live)
      (afterPassHeld idle held) := by
  refine runs_lift (fun _ => keeps.cut) fun node known => ?_
  refine triple_bind (runs_startNodeHeld keeps node) fun next => triple_of_fact fun same => ?_
  refine triple_bind (runs_hookHeld keeps rfl) fun answer => triple_of_fact fun answers => ?_
  refine triple_bind (runs_healthy keeps) fun _ => ?_
  refine runs_lift (fun _ => keeps.cut) fun beforeCommands accepted => ?_
  cases said : commandOutcome beforeCommands with
  | some outcome =>
    have ending : EndingCommands around next beforeCommands :=
      ⟨_, answer, rfl, .inr rfl, answers, accepted⟩
    exact triple_bind (runs_endRunHeld keeps outcome ending) fun _ => runs_pure fun _ => id
  | none =>
    cases registered : kernel.nodes node.id with
    | none => exact runs_throw fun _ => keeps.cut
    | some handler =>
      have known : nodeFor kernel.graph next.cursor.nodeId = .ok node := same.1 ▸ known
      have going : isTerminal next = false := (isTerminal_congr same.2).trans going
      exact runs_completeNodeHeld keeps going known registered answers accepted said

private theorem runs_runNodesHeld (passes : Nat) : ∀ live : RunStateV3, isTerminal live = false →
    Runs around identity idle (held live []) (runNodes kernel identity fence passes live)
      fun _ => idle := by
  induction passes with
  | zero => exact fun live _ => triple_stop fun _ => keeps.cut
  | succ passes ih =>
    refine fun live going => triple_bind (runs_runNodeHeld keeps going) fun pass => ?_
    cases pass with
    | done outcome => exact runs_pure fun _ => id
    | goOn next => exact triple_of_fact fun going => ih next going

private theorem runs_commitPendingHeld (pending : Option PendingAfterMiddleware) :
    Runs around identity idle (held live rest)
      (commitPending kernel identity fence live pending) fun next => held next rest := by
  cases pending with
  | none => exact runs_pure fun _ => id
  | some waiting => exact runs_commit keeps waiting

private theorem runs_replayLoopHeld (checkpoint : Nat) :
    ∀ (live : RunStateV3) (pending : Option PendingAfterMiddleware), Runs around identity idle
        (held live (events.filter fun event => checkpoint < event.seq))
        (replayLoop kernel identity fence checkpoint live pending events)
        fun replayed => held replayed.1 [] := by
  induction events with
  | nil => exact fun live pending => runs_pure fun _ => id
  | cons event events ih =>
    intro live pending
    refine runs_lift (fun _ => keeps.cut) fun _ _ => ?_
    by_cases before : event.seq < checkpoint
    · rw [if_pos before, List.filter_cons_of_neg (by simp; omega)]
      exact ih live pending
    rw [if_neg before]
    by_cases current : event.seq = checkpoint
    · rw [if_pos current, List.filter_cons_of_neg (by simp; omega)]
      split
      · exact runs_lift (fun _ => keeps.cut) fun waiting _ => ih live (some waiting)
      · exact ih live pending
    rw [if_neg current, List.filter_cons_of_pos (by simp; omega)]
    refine triple_bind (runs_commitPendingHeld keeps _) fun state => ?_
    refine triple_bind (runs_still trivial (keeps.held_respects state _) fun _ => keeps.cut)
      fun now => ?_
    refine runs_lift (fun _ => keeps.cut) fun stepped replayed => ?_
    exact runs_weaken (ih stepped.1 stepped.2) (fun world holds => keeps.replayed holds replayed)
      fun _ _ => id

/-- The stores answer for a state that was loaded, or made up where none was stored. -/
private def Ready (idle : RunWorld Ext → Prop)
    (held : RunStateV3 → List RunEventEnvelope → RunWorld Ext → Prop) (state : RunStateV3)
    (world : RunWorld Ext) : Prop :=
  idle world ∧ held state (world.events.filter fun event => state.cursor.checkpointSeq < event.seq)
    world

private theorem respects_readyHeld : Respects (Ready idle held live) := by
  rintro before after snapshot events trace ⟨cut, holds⟩
  refine ⟨keeps.idle_respects.keep cut snapshot events trace, ?_⟩
  rw [events]
  exact (keeps.held_respects live _).keep holds snapshot events trace

private theorem runs_replayHeld : Runs around identity idle (Ready idle held live)
      (replayAfterCheckpoint kernel identity fence live) fun next => held next [] := by
  have stops : ∀ world, Ready idle held live world → idle world := fun _ ready => ready.1
  have replayed : Runs around identity idle (Ready idle held live)
      (replayEvents kernel identity fence live) fun replayed => held replayed.1 [] := by
    refine triple_bind (runs_listAfter _ (respects_readyHeld keeps) stops) fun events => ?_
    rintro world ⟨ready, rfl⟩
    have ascending := (keeps.ascending ready.1).filter
      fun event => live.cursor.checkpointSeq - 1 < event.seq
    have sorted : sortEvents (world.events.filter fun event =>
        live.cursor.checkpointSeq - 1 < event.seq) =
        world.events.filter fun event => live.cursor.checkpointSeq - 1 < event.seq :=
      List.Pairwise.insertionSort_eq (ascending.imp fun apart => Nat.le_of_lt apart)
    have later : (world.events.filter fun event => live.cursor.checkpointSeq - 1 < event.seq).filter
        (fun event => live.cursor.checkpointSeq < event.seq) =
        world.events.filter fun event => live.cursor.checkpointSeq < event.seq := by
      rw [List.filter_filter]
      refine List.filter_congr fun event _ => ?_
      simp only [Bool.and_eq_left_iff_imp, decide_eq_true_eq]
      omega
    rw [sorted]
    refine runs_replayLoopHeld keeps _ live none world ?_
    rw [later]
    exact ready.2
  exact triple_bind replayed fun result => runs_commitPendingHeld keeps result.2

private theorem runs_rerunTerminalHeld : Runs around identity idle (Ready idle held live)
      (rerunTerminal kernel identity fence live) fun _ => idle := by
  refine triple_bind (runs_replayHeld keeps) fun replayed => ?_
  refine triple_bind (runs_afterRunIfHeld keeps _) fun _ => ?_
  refine runs_weaken (?_ : Runs around identity idle
    (held (migrateTerminalGraphMetadata kernel replayed) []) _ fun _ => idle)
    (fun _ => keeps.relabelled) fun _ _ => id
  exact triple_bind (runs_saveIfHeld keeps _) fun _ => runs_pure fun _ => keeps.cut

private theorem runs_settleHeld (checkpoint : Nat) :
    Runs around identity idle (held live []) (settleReplayed kernel fence checkpoint live)
      fun _ => idle := by
  refine triple_bind (runs_afterRunIfHeld keeps _) fun _ => ?_
  refine runs_weaken (?_ : Runs around identity idle
    (held (migrateTerminalGraphMetadata kernel live) []) _ fun _ => idle)
    (fun _ => keeps.relabelled) fun _ _ => id
  exact triple_bind (runs_saveHeld keeps) fun _ => runs_pure fun _ => keeps.cut

private theorem runs_startRunHeld (going : isTerminal live = false) (passes : Nat) :
    Runs around identity idle (held live []) (startRun kernel identity fence passes live)
      fun _ => idle := by
  refine triple_bind (runs_still trivial (keeps.held_respects live []) fun _ => keeps.cut)
    fun now => ?_
  refine runs_lift (fun _ => keeps.cut) fun migrated moved => ?_
  refine runs_weaken (?_ : Runs around identity idle (held migrated []) _ fun _ => idle)
    (fun _ holds => keeps.migrated holds moved) fun _ _ => id
  have going : isTerminal migrated = false :=
    (isTerminal_congr (migrateGraphState_header moved).1).trans going
  refine triple_bind (runs_saveHeld keeps) fun _ => ?_
  refine triple_bind (runs_still trivial (keeps.held_respects migrated []) fun _ => keeps.cut)
    fun now => ?_
  refine runs_weaken (?_ : Runs around identity idle (held (mark .running now migrated) []) _
    fun _ => idle) (fun _ holds => keeps.marked now holds going) fun _ _ => id
  refine triple_bind (runs_saveHeld keeps) fun _ => ?_
  refine triple_bind (runs_hookHeld keeps rfl) fun answer => triple_of_fact fun answers => ?_
  refine triple_bind (runs_healthy keeps) fun _ => ?_
  refine runs_lift (fun _ => keeps.cut) fun commands accepted => ?_
  split
  next outcome _ =>
    exact runs_endRunHeld keeps outcome ⟨_, answer, rfl, .inl rfl, answers, accepted⟩
  · exact runs_runNodesHeld keeps passes _ rfl

private theorem runs_resumeRunHeld (passes : Nat) :
    Runs around identity idle (Ready idle held live)
      (resumeRun kernel identity fence passes live) fun _ => idle := by
  unfold resumeRun
  split
  · exact runs_pure fun _ ready => ready.1
  · refine triple_bind (runs_replayHeld keeps) fun replayed => ?_
    split
    · exact runs_settleHeld keeps _
    · rename_i unended
      exact runs_startRunHeld keeps (Bool.eq_false_of_not_eq_true unended) passes

private theorem runs_loadStateHeld :
    Runs around identity idle idle (loadState kernel identity) (Ready idle held) := by
  refine triple_bind (runs_load keeps.idle_respects fun _ => id) fun stored => ?_
  cases stored with
  | some state => exact runs_pure fun world loaded => ⟨loaded.1, keeps.loaded loaded.1 loaded.2⟩
  | none =>
    have respects : Respects fun world : RunWorld Ext => idle world ∧ world.snapshot = none :=
      fun _ _ snapshot events trace holds =>
        ⟨keeps.idle_respects.keep holds.1 snapshot events trace, snapshot.trans holds.2⟩
    refine triple_bind (runs_still trivial respects fun _ holds => holds.1) fun now => ?_
    exact runs_pure fun world holds => ⟨holds.1, keeps.fresh now holds.1 holds.2⟩

private theorem runs_runHeldKept (passes : Nat) :
    Runs around identity idle idle (runHeld kernel identity fence passes) fun _ => idle := by
  have stops : ∀ state world, Ready idle held state world → idle world := fun _ _ ready => ready.1
  refine triple_bind (runs_loadStateHeld keeps) fun state => ?_
  refine runs_lift (stops state) fun _ _ => ?_
  refine triple_bind (runs_leaseHealthy (respects_readyHeld keeps) (stops state)) fun _ => ?_
  split
  · exact runs_rerunTerminalHeld keeps
  · exact runs_resumeRunHeld keeps passes

private theorem runs_reportStoredHeld :
    Runs around identity idle idle reportStored fun _ => idle := by
  refine triple_bind (runs_load keeps.idle_respects fun _ => id) fun stored => ?_
  cases stored with
  | none => exact runs_pure fun _ loaded => loaded.1
  | some state =>
    dsimp only
    split <;> exact runs_pure fun _ loaded => loaded.1

private theorem runs_reportFailureHeld (error : RuntimeError) :
    Runs around identity idle idle (reportFailure fence error) fun _ => idle := by
  refine triple_bind (runs_load keeps.idle_respects fun _ => id) fun stored => ?_
  cases stored with
  | none => exact runs_pure fun _ loaded => loaded.1
  | some state =>
    have respects : Respects fun world : RunWorld Ext => idle world ∧ world.snapshot = some state :=
      fun _ _ snapshot events trace holds =>
        ⟨keeps.idle_respects.keep holds.1 snapshot events trace, snapshot.trans holds.2⟩
    refine triple_bind (runs_hook respects (fun _ holds => holds.1) (fun _ holds => holds.1)
      fun world holds => ⟨keeps.failing holds.1 holds.2 rfl rfl, holds.2⟩) fun _ => ?_
    split
    · exact runs_pure fun _ holds => holds.1
    rename_i unended
    have going : isTerminal state = false := Bool.eq_false_of_not_eq_true unended
    refine triple_bind (runs_still trivial respects fun _ holds => holds.1) fun now => ?_
    have saved : Runs around identity idle
        (fun world : RunWorld Ext => idle world ∧ world.snapshot = some state)
        (await (.save (withOutcome state (failedOutcome error) now) fence)) fun _ => idle :=
      runs_save respects keeps.idle_respects (fun _ holds => holds.1)
        fun _ _ holds persisted => keeps.failed holds.1 holds.2 going rfl persisted
    refine triple_bind (triple_catching saved fun _ => triple_pure fun _ => id) fun _ => ?_
    exact runs_pure fun _ => id

private theorem runs_recoverHeld (error : RuntimeError) :
    Runs around identity idle idle (recover fence error) fun _ => idle := by
  cases error with
  | kernelCrash original => exact runs_throw fun _ => id
  | leaseLost outcome =>
    cases outcome with
    | some outcome => exact runs_pure fun _ => id
    | none => exact runs_reportStoredHeld keeps
  | foreign error =>
    refine triple_bind (runs_still trivial keeps.idle_respects fun _ => id) fun lost => ?_
    split
    · exact runs_reportStoredHeld keeps
    · exact runs_reportFailureHeld keeps _

private theorem runs_releaseHeld :
    Triple (runHost around identity) idle (release fence) (fun _ => idle)
      (fun _ _ => False) idle := by
  refine triple_catching (?_ : Triple _ _ _ _ (fun _ => idle) _) fun _ => triple_pure fun _ => id
  refine triple_await (fun world holds _ => holds) ?_ ?_
  · intro world holds _ answer after performed
    cases performed
    exact keeps.idle_respects.keep holds rfl rfl rfl
  · intro world holds _ error after performed
    cases performed

theorem runs_run_within (passes : Nat) :
    Runs around identity idle idle (run kernel identity passes) fun _ => idle := by
  refine triple_bind (runs_still trivial keeps.idle_respects fun _ => id) fun lease => ?_
  split
  · refine triple_finallyDo ?_ (fun _ => runs_releaseHeld keeps) fun _ => runs_releaseHeld keeps
    exact triple_catching (runs_runHeldKept keeps passes) (runs_recoverHeld keeps)
  · exact runs_pure fun _ => id

end

theorem attemptRun_within
    (kept : KeepsWithin kernel identity attempt.surroundings good idle held inside)
    (start : idle world) : idle (attemptRun kernel identity world attempt) := by
  have begun : idle { world with clock := 0 } := kept.idle_respects.keep start rfl rfl rfl
  have ran := runs_run_within kept attempt.passes _ begun
  unfold attemptRun
  rcases finished : execute (runHost attempt.surroundings identity)
    (run kernel identity attempt.passes) { world with clock := 0 } with ⟨ending, after⟩
  rw [finished] at ran
  cases ending with
  | returned outcome => exact kept.finished ran
  | threw error => exact ran
  | stopped => exact ran

theorem attemptRuns_within (keeps : ∀ attempt ∈ attempts,
      ∃ held inside, KeepsWithin kernel identity attempt.surroundings good idle held inside)
    (start : idle world) : idle (attemptRuns kernel identity world attempts) := by
  induction attempts generalizing world with
  | nil => exact start
  | cons attempt rest ih =>
    obtain ⟨held, inside, kept⟩ := keeps attempt List.mem_cons_self
    exact ih (fun attempt found => keeps attempt (List.mem_cons_of_mem _ found))
      (attemptRun_within kept start)

theorem attemptRuns_keep (keeps : ∀ attempt ∈ attempts, ∃ held,
      Keeps kernel identity attempt.surroundings good idle held) (start : idle world) :
    idle (attemptRuns kernel identity world attempts) := by
  have within : ∀ attempt ∈ attempts, ∃ held inside,
      KeepsWithin kernel identity attempt.surroundings good idle held inside :=
    fun attempt found => (keeps attempt found).elim fun held kept => ⟨held, _, kept.within⟩
  exact attemptRuns_within within start

end QiongQi.KernelInvariants
