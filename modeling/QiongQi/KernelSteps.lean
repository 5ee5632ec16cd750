import QiongQi.KernelDurability

/-! What each awaited operation does to the stores, as triples. A condition here
looks at the snapshot, the log and the trace of a world, never at its clock or at
the lease guard's flag; `stop` is what must hold wherever a run may be cut short
or throw. -/
namespace QiongQi.KernelSteps
open JsonValues Programs RuntimeContracts MiddlewareCommands ExecutionGraphs RuntimeKernels
  KernelRuns KernelReducers KernelDurability

variable {Ext : Type} {ExtAnswer : Ext → Type}

private theorem highest_ge (events : List RunEventEnvelope) :
    ∀ start, start ≤ events.foldl (fun highest event => max highest event.seq) start ∧
      ∀ event ∈ events, event.seq ≤ events.foldl (fun highest event => max highest event.seq) start := by
  induction events with
  | nil => exact fun start => ⟨le_refl _, fun _ found => by cases found⟩
  | cons event rest ih =>
    intro start
    obtain ⟨base, others⟩ := ih (max start event.seq)
    refine ⟨by simp only [List.foldl_cons]; omega, fun found member => ?_⟩
    rcases List.mem_cons.mp member with rfl | member
    · simp only [List.foldl_cons]
      omega
    · exact others found member

theorem seq_lt_nextSeq (found : event ∈ events) : event.seq < nextSeq events := by
  have := (highest_ge events 0).2 event found
  simp only [nextSeq]
  omega

theorem nextSeq_append (events : List RunEventEnvelope) (event : RunEventEnvelope) :
    nextSeq (events ++ [event]) = max (nextSeq events) (event.seq + 1) := by
  simp only [nextSeq, List.foldl_append, List.foldl_cons, List.foldl_nil]
  omega

theorem nextSeq_listed : nextSeq (events.filter fun event => 0 < event.seq) = nextSeq events := by
  suffices same : ∀ start, (events.filter fun event => 0 < event.seq).foldl
      (fun highest event => max highest event.seq) start =
      events.foldl (fun highest event => max highest event.seq) start by
    simp only [nextSeq, same]
  induction events with
  | nil => exact fun _ => rfl
  | cons event rest ih =>
    intro start
    by_cases counts : 0 < event.seq
    · rw [List.filter_cons_of_pos (by simpa using counts)]
      exact ih _
    · rw [List.filter_cons_of_neg (by simpa using counts), ih]
      have none : event.seq = 0 := by omega
      simp only [List.foldl_cons, none, Nat.max_zero]

/-- The condition is about the stores and the trace only. -/
def Respects (condition : RunWorld Ext → Prop) : Prop :=
  ∀ before after : RunWorld Ext, after.snapshot = before.snapshot → after.events = before.events →
    after.trace = before.trace → condition before → condition after

theorem Respects.keep (respects : Respects condition) (holds : condition before)
    (snapshot : after.snapshot = before.snapshot) (events : after.events = before.events)
    (trace : after.trace = before.trace) : condition after :=
  respects before after snapshot events trace holds

/-- Operations that change neither. -/
def Still : RuntimeOp Ext → Prop
  | .acquire | .renew _ | .isLost | .release _ | .load | .listAfter _ | .crashPoint _ | .nowIso => True
  | _ => False

theorem still_stores (still : Still op) :
    (perform around identity world op).2.snapshot = world.snapshot ∧
      (perform around identity world op).2.events = world.events ∧
      (perform around identity world op).2.trace = world.trace := by
  cases op with
  | save state fence | append event fence | middleware context | enter nodeId
  | leave nodeId result | external call => exact absurd still id
  | _ => exact ⟨rfl, rfl, rfl⟩

/-- The world after a stored snapshot. -/
def savedWorld (world : RunWorld Ext) (stored : RunStateV3) : RunWorld Ext :=
  { world with snapshot := some stored }.observe (.saved stored)

/-- The world after an appended event. -/
def recordedWorld (world : RunWorld Ext) (event : RunEventEnvelope) : RunWorld Ext :=
  { world with events := world.events ++ [event.readBack] }.observe (.appended event.readBack)

section
variable {around : Surroundings ExtAnswer} {identity : RunIdentity}
variable {pre stop : RunWorld Ext → Prop}

/-- An execution of the program on the run's host; it may end early where `stop`
holds. -/
abbrev Runs (around : Surroundings ExtAnswer) (identity : RunIdentity)
    (stop pre : RunWorld Ext → Prop) (program : KernelProgram ExtAnswer α)
    (post : α → RunWorld Ext → Prop) : Prop :=
  Triple (runHost around identity) pre program post (fun _ => stop) stop

theorem runs_pure (holds : ∀ world, pre world → post value world) :
    Runs around identity stop pre (pure value) post :=
  triple_pure holds

theorem runs_throw (stops : ∀ world, pre world → stop world) :
    Runs around identity stop pre (Program.throw error) post :=
  triple_throw stops

/-- A computation that throws stops the run; otherwise its value is known. -/
theorem runs_lift {next : α → KernelProgram ExtAnswer β} (stops : ∀ world, pre world → stop world)
    (ok : ∀ value, result = .ok value → Runs around identity stop pre (next value) post) :
    Runs around identity stop pre (lift result >>= next) post := by
  cases result with
  | ok value => exact ok value rfl
  | error message => exact triple_throw stops

theorem runs_weaken (proved : Runs around identity stop pre program post)
    (weaker : ∀ world, pre' world → pre world)
    (stronger : ∀ value world, post value world → post' value world) :
    Runs around identity stop pre' program post' :=
  triple_consequence proved weaker stronger (fun _ _ => id) fun _ => id

theorem runs_still (still : Still op) (respects : Respects pre) (stops : ∀ world, pre world → stop world) :
    Runs around identity stop pre (await op) fun _ => pre := by
  have kept : ∀ world, pre world → pre (perform around identity world op).2 := by
    intro world holds
    obtain ⟨snapshot, events, trace⟩ := still_stores still
    exact respects.keep holds snapshot events trace
  refine triple_await (fun world holds _ => stops world holds) ?_ ?_
  · intro world holds _ answer after performed
    have := kept world holds
    rwa [show perform around identity world op = (.ok answer, after) from performed] at this
  · intro world holds _ error after performed
    have := kept world holds
    rw [show perform around identity world op = (.error error, after) from performed] at this
    exact stops after this

theorem runs_load (respects : Respects pre) (stops : ∀ world, pre world → stop world) :
    Runs around identity stop pre (await .load) fun stored world =>
      pre world ∧ world.snapshot = stored := by
  refine triple_await (fun world holds _ => stops world holds) ?_ ?_
  · intro world holds _ answer after performed
    cases performed
    exact ⟨respects.keep holds rfl rfl rfl, rfl⟩
  · intro world holds _ error after performed
    cases performed

theorem runs_listAfter (seq : Nat) (respects : Respects pre) (stops : ∀ world, pre world → stop world) :
    Runs around identity stop pre (await (.listAfter seq)) fun events world =>
      pre world ∧ events = world.events.filter fun event => seq < event.seq := by
  refine triple_await (fun world holds _ => stops world holds) ?_ ?_
  · intro world holds _ answer after performed
    simp only [runHost, perform, performListAfter] at performed
    split at performed
    · cases performed
    · cases performed
      exact ⟨respects.keep holds rfl rfl rfl, rfl⟩
  · intro world holds _ error after performed
    have after_eq : after = world.tick := (congrArg Prod.snd performed).symm
    rw [after_eq]
    exact stops _ (respects.keep holds rfl rfl rfl)

theorem runs_listAll (respects : Respects pre) (stops : ∀ world, pre world → stop world) :
    Runs around identity stop pre (await (.listAfter 0)) fun events world =>
      pre world ∧ nextSeq events = nextSeq world.events := by
  refine runs_weaken (runs_listAfter 0 respects stops) (fun _ => id) ?_
  rintro events world ⟨holds, rfl⟩
  exact ⟨holds, nextSeq_listed⟩

/-- Middleware may answer the context so. -/
def Answers (around : Surroundings ExtAnswer) (context : MiddlewareContext)
    (result : Option MiddlewareResult) : Prop :=
  ∃ clock, around.middleware clock context = .ok result

variable {post : RunWorld Ext → Prop} {state : RunStateV3}

section
variable {context : MiddlewareContext}
variable (respects : Respects post)
variable (stopped : ∀ world, pre world → stop world)
variable (stops : ∀ world, post world → stop world)
variable (hooked : ∀ world, pre world → post (world.observe (.hooked context)))
include respects stopped stops hooked

theorem runs_hook_answered : Runs around identity stop pre (await (.middleware context))
      fun result world => post world ∧ Answers around context result := by
  refine triple_await (fun world holds _ => stopped world holds) ?_ ?_
  · intro world holds _ answer after performed
    have after_eq : after = (world.observe (.hooked context)).tick :=
      (congrArg Prod.snd performed).symm
    rw [after_eq]
    refine ⟨respects.keep (hooked world holds) rfl rfl rfl, world.clock, ?_⟩
    have answered := congrArg Prod.fst performed
    simp only [runHost, perform] at answered
    cases found : around.middleware world.clock context with
    | error error =>
      rw [found] at answered
      cases answered
    | ok result =>
      rw [found] at answered
      cases answered
      rfl
  · intro world holds _ error after performed
    have after_eq : after = (world.observe (.hooked context)).tick :=
      (congrArg Prod.snd performed).symm
    rw [after_eq]
    exact stops _ (respects.keep (hooked world holds) rfl rfl rfl)

theorem runs_hook :
    Runs around identity stop pre (await (.middleware context)) fun _ => post :=
  runs_weaken (runs_hook_answered respects stopped stops hooked) (fun _ => id)
    fun _ _ holds => holds.1

end

/-- A save either stores what `persist` makes of the state or throws. -/
theorem runs_save (respectsPre : Respects pre) (respectsPost : Respects post)
    (stops : ∀ world, pre world → stop world)
    (saved : ∀ world stored, pre world → RunStateV3.persist state = some stored →
      post (savedWorld world stored)) :
    Runs around identity stop pre (await (.save state fence)) fun _ => post := by
  refine triple_await (fun world holds _ => stops world holds) ?_ ?_
  · intro world holds _ answer after performed
    simp only [runHost, perform, performSave] at performed
    split at performed
    · cases performed
    · split at performed
      · cases performed
      · rename_i stored persisted
        cases performed
        exact respectsPost.keep (saved world stored holds persisted) rfl rfl rfl
  · intro world holds _ error after performed
    simp only [runHost, perform, performSave] at performed
    split at performed
    · cases performed
      exact stops _ (respectsPre.keep holds rfl rfl rfl)
    · split at performed
      · cases performed
        exact stops _ (respectsPre.keep holds rfl rfl rfl)
      · cases performed

theorem runs_recordEvent {post : RunEventEnvelope → RunWorld Ext → Prop}
    (respectsPre : Respects pre) (respectsPost : ∀ event, Respects (post event))
    (stops : ∀ world, pre world → stop world)
    (recorded : ∀ world event, pre world → event.seq = nextSeq world.events →
      event.eventType = eventType → event.payload = payload → event.identity = identity →
      post event (recordedWorld world event)) : Runs around identity stop pre
      (recordEvent identity state nodeId eventType payload fence) post := by
  refine triple_bind (runs_listAll respectsPre stops) fun existing => ?_
  have respects : Respects fun world => pre world ∧ nextSeq existing = nextSeq world.events := by
    intro before after snapshot events trace holds
    exact ⟨respectsPre.keep holds.1 snapshot events trace, events ▸ holds.2⟩
  refine triple_bind (runs_still trivial respects fun world holds => stops world holds.1)
    fun now => ?_
  refine triple_await (fun world holds _ => stops world holds.1) ?_ ?_
  · intro world holds _ answer after performed
    simp only [runHost, perform, performAppend] at performed
    split at performed
    · cases performed
    · split at performed
      · cases performed
      · cases performed
        exact (respectsPost _).keep (recorded world _ holds.1 holds.2 rfl rfl rfl) rfl rfl rfl
  · intro world holds _ error after performed
    simp only [runHost, perform, performAppend] at performed
    split at performed
    · cases performed
      exact stops _ (respectsPre.keep holds.1 rfl rfl rfl)
    · split at performed
      · cases performed
        exact stops _ (respectsPre.keep holds.1 rfl rfl rfl)
      · cases performed

theorem runs_leaseHealthy (respects : Respects pre) (stops : ∀ world, pre world → stop world) :
    Runs around identity stop pre (assertLeaseHealthy fence state) fun _ => pre := by
  refine triple_bind (runs_still trivial respects stops) fun renewed => ?_
  split
  · exact runs_pure fun _ => id
  · exact runs_throw stops

theorem runs_crashPoint (point : RuntimeKernelCrashPoint) (respects : Respects pre)
    (stops : ∀ world, pre world → stop world) :
    Runs around identity stop pre (reachCrashPoint point) fun _ => pre := by
  refine triple_catching (runs_still trivial respects stops) fun error => ?_
  cases error <;> exact triple_throw fun _ => id

theorem runs_enter (respects : Respects post) (stops : ∀ world, pre world → stop world)
    (entered : ∀ world, pre world → post (world.observe (.entered nodeId))) :
    Runs around identity stop pre (await (.enter nodeId)) fun _ => post := by
  refine triple_await (fun world holds _ => stops world holds) ?_ ?_
  · intro world holds _ answer after performed
    have after_eq : after = (world.observe (.entered nodeId)).tick :=
      (congrArg Prod.snd performed).symm
    rw [after_eq]
    exact respects.keep (entered world holds) rfl rfl rfl
  · intro world holds _ error after performed
    cases performed

theorem runs_leave (respects : Respects post) (stops : ∀ world, pre world → stop world)
    (left : ∀ world, pre world → post (world.observe (.left nodeId result))) :
    Runs around identity stop pre (await (.leave nodeId result)) fun _ => post := by
  refine triple_await (fun world holds _ => stops world holds) ?_ ?_
  · intro world holds _ answer after performed
    have after_eq : after = (world.observe (.left nodeId result)).tick :=
      (congrArg Prod.snd performed).symm
    rw [after_eq]
    exact respects.keep (left world holds) rfl rfl rfl
  · intro world holds _ error after performed
    cases performed

/-- The world after a handler's call and the effect records it leaves. -/
def calledWorld (identity : RunIdentity) (world : RunWorld Ext) (call : Ext) (now : NonEmptyString)
    (effects : List (EffectEventType × JsValue)) : RunWorld Ext :=
  effects.foldl (recordEffect identity now) (world.observe (.called call))

/-- A handler keeps what each of its calls keeps, and its result is a good one. -/
theorem runs_issue_returns (returns : Returns good program) (respects : Respects pre)
    (stops : ∀ world, pre world → stop world)
    (called : ∀ world call now effects, pre world → pre (calledWorld identity world call now effects)) :
    Runs around identity stop pre (issue program)
      fun result world => pre world ∧ good result := by
  induction program with
  | pure value => exact triple_pure fun _ holds => ⟨holds, returns⟩
  | throw error => exact triple_throw stops
  | stop => exact triple_stop stops
  | call op next ih =>
    have performed : ∀ world, pre world → (runHost around identity).alive world = true →
        pre ((runHost around identity).perform world (.external op)).2 :=
      fun world holds _ => respects.keep (called world op (around.nowIso world.clock)
        (around.effects world.clock) holds) rfl rfl rfl
    unfold issue
    refine triple_call (fun world holds _ => stops world holds) performed fun answer => ?_
    cases answer with
    | ok answer => exact ih (.ok answer) (returns (.ok answer))
    | error error =>
      cases error with
      | foreign error => exact ih (.error error) (returns (.error error))
      | kernelCrash original | leaseLost outcome => exact triple_throw stops

theorem runs_issue (program : Program Ext ExtAnswer ForeignError α) (respects : Respects pre)
    (stops : ∀ world, pre world → stop world)
    (called : ∀ world call now effects, pre world → pre (calledWorld identity world call now effects)) :
    Runs around identity stop pre (issue program) fun _ => pre :=
  runs_weaken (runs_issue_returns (returns_anything program) respects stops called) (fun _ => id)
    fun _ _ holds => holds.1

/-- What `commitAfterMiddleware` shows the middleware. -/
def afterContext (state : RunStateV3) (pending : PendingAfterMiddleware) : MiddlewareContext where
  state := state
  hook := .afterNode
  node := some pending.node
  facts := pending.completed.facts

/-- What `commitAfterMiddleware` records. -/
def afterPayload (pending : PendingAfterMiddleware) (commands : List MiddlewareCommand) :
    AfterMiddlewarePayload where
  nodeId := pending.node.id
  stepIndex := pending.completed.stepIndex
  commands := commands
  outcome := commandOutcome commands

theorem afterPayload_survives (pending : PendingAfterMiddleware)
    (commands : List MiddlewareCommand) : (afterPayload pending commands).toJs.Survives :=
  afterMiddlewarePayload_survives fun _ found => commandOutcome_stable found

/-- The recorded payload is parsed back and belongs to the completion. -/
def AfterAccepted (pending : PendingAfterMiddleware) (commands : List MiddlewareCommand) : Prop :=
  parseAfterMiddlewarePayload (afterPayload pending commands).toJs = .ok (afterPayload pending commands) ∧
    assertAfterMiddlewareMatches pending.completed (afterPayload pending commands) = .ok ()

/-- `commitAfterMiddleware`: the hook sees the state, one event is recorded, and
the state it returns is that event reduced. -/
theorem runs_commitAfterMiddleware {post : RunStateV3 → RunWorld Ext → Prop}
    (respectsPre : Respects pre) (respectsPost : ∀ next, Respects (post next))
    (stops : ∀ world, pre world → stop world)
    (stopsPost : ∀ next world, post next world → stop world)
    (hooked : ∀ world context, context.hook = .afterNode → context.state = state → pre world →
      pre (world.observe (.hooked context))) (recorded : ∀ world event result commands,
      Answers around (afterContext state pending) result →
      acceptedCommands result = .ok commands → pre world → event.seq = nextSeq world.events →
      event.eventType = "node.after_middleware" →
      event.payload = (afterPayload pending commands).toJs → event.identity = identity →
      stop (recordedWorld world event) ∧ (AfterAccepted pending commands → ∀ now next,
          reduceAfterMiddleware kernel state (afterPayload pending commands) event.seq now =
            .ok next → post next (recordedWorld world event))) (respectsStop : Respects stop) :
    Runs around identity stop pre
      (commitAfterMiddleware kernel identity fence state pending) post := by
  refine triple_bind (runs_leaseHealthy respectsPre stops) fun _ => ?_
  refine triple_bind (runs_hook_answered respectsPre stops stops fun world holds =>
    hooked world (afterContext state pending) rfl rfl holds) fun result =>
      triple_of_fact fun answers => ?_
  refine triple_bind (runs_leaseHealthy respectsPre stops) fun _ => ?_
  refine runs_lift stops fun commands accepted => ?_
  refine runs_lift stops fun _ _ => ?_
  refine triple_bind (runs_crashPoint _ respectsPre stops) fun _ => ?_
  have committed : Runs around identity stop pre
      (recordEvent identity state pending.node.id "node.after_middleware"
        (canonicalizeJsonObject (afterPayload pending commands).toJs) fence)
      fun event world => (stop world ∧ (AfterAccepted pending commands → ∀ now next,
          reduceAfterMiddleware kernel state (afterPayload pending commands) event.seq now =
            .ok next → post next world)) ∧
        event.payload = (afterPayload pending commands).toJs := by
    refine runs_recordEvent respectsPre ?_ stops ?_
    · intro event before after snapshot events trace holds
      exact ⟨⟨respectsStop.keep holds.1.1 snapshot events trace, fun accepted now next reduced =>
        (respectsPost next).keep (holds.1.2 accepted now next reduced) snapshot events trace⟩,
        holds.2⟩
    · intro world event holds seq eventType payload own
      have canonical : event.payload = (afterPayload pending commands).toJs :=
        payload.trans (canonicalizeJsonObject_survives (afterPayload_survives pending commands))
      exact ⟨recorded world event result commands answers accepted holds seq eventType canonical own,
        canonical⟩
  refine triple_bind committed fun event => triple_of_fact fun payload => ?_
  refine runs_lift (fun world holds => holds.1) fun parsed found => ?_
  have same : parsed = afterPayload pending commands :=
    parseAfterMiddlewarePayload_toJs (payload ▸ found)
  subst same
  refine runs_lift (fun world holds => holds.1) fun _ matching => ?_
  refine triple_bind (runs_still trivial ?_ fun world holds => holds.1) fun now => ?_
  · intro before after snapshot events trace holds
    exact ⟨respectsStop.keep holds.1 snapshot events trace, fun accepted now next reduced =>
      (respectsPost next).keep (holds.2 accepted now next reduced) snapshot events trace⟩
  refine runs_lift (fun world holds => holds.1) fun next reduced => ?_
  have ready : ∀ world, (stop world ∧ (AfterAccepted pending commands → ∀ now next,
        reduceAfterMiddleware kernel state (afterPayload pending commands) event.seq now =
          .ok next → post next world)) → post next world :=
    fun world holds => holds.2 ⟨payload ▸ found, matching⟩ now next reduced
  refine runs_weaken (?_ : Runs around identity stop (post next) _ post) ready fun _ _ => id
  refine triple_bind (runs_crashPoint _ (respectsPost next) (stopsPost next)) fun _ => ?_
  exact runs_pure fun _ => id

end

end QiongQi.KernelSteps
