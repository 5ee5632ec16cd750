import QiongQi.RewrittenLogs
import QiongQi.ToolRuntimes

/-! Whether each tool intent of a thread's kernel runs gets an execution of its own, and its
own result in the session. -/
namespace QiongQi.IntentResults
open JsonValues Programs RuntimeContracts RuntimeKernels TaskStates ModelProposals KernelNodes List
  ToolRuntimes Machines RewrittenLogs

/-- What a tool comes to: a result, or an approval that was not given. -/
inductive ToolReply where
  | result (output : JsValue) (isError : Bool)
  | unapproved

/-- `LocalToolHost` names the item of a reply by the call. -/
def replyItem (identity : RunIdentity) (call : ModelToolIntent) : ToolReply → ResultItem
  | .result output isError =>
    { isToolResult := true
      isError
      output
      body := .object [("id", .string s!"item_{call.callId.text}"),
        ("turnId", .string identity.turnId.text), ("threadId", .string identity.threadId.text),
        ("callId", .string call.callId.text), ("toolName", .string call.toolName.text),
        ("output", output), ("isError", .bool isError)] }
  | .unapproved =>
    { isToolResult := false
      isError := false
      output := .undefined
      body := .object [("id", .string s!"item_appr_{call.callId.text}"),
        ("turnId", .string identity.turnId.text), ("threadId", .string identity.threadId.text),
        ("approvalId", .string s!"appr_{call.callId.text}"),
        ("toolName", .string call.toolName.text)] }

/-- A call of the tool host's `execute`. -/
structure Execution where
  identity : RunIdentity
  call : ModelToolIntent
  reply : Except ForeignError ToolReply

/-- How the tool host, the clock and whatever else a handler awaits behave, given what has been
executed. `prepare` makes of a call the one to execute, or denies it with a reply. -/
structure ToolBehaviour where
  prepare : List Execution → RunIdentity → ModelToolIntent →
    Except ForeignError (ModelToolIntent × Option ToolReply)
  execute : List Execution → RunIdentity → ModelToolIntent → Except ForeignError ToolReply
  nowIso : List Execution → NonEmptyString
  others : (call : KernelCall) → Except ForeignError (KernelAnswer call)

structure SessionLine where
  id : String
  item : NodeItem
  updates : List ItemUpdate := []

/-- A call that the runtime was given: what had been executed before, what was executed for
it, and its answer. -/
structure Handled where
  identity : RunIdentity
  call : ModelToolIntent
  before : List Execution
  executed : List Execution
  answer : Except ForeignError ToolExecution

/-- The result that goes to the session and to the model. -/
def Handled.result? (handled : Handled) : Option ResultItem :=
  match handled.answer with
  | .ok execution => if execution.outcome.isSome then none else execution.result
  | .error _ => none

/-- The stored results, the executions, the lines of the session and the calls so far. -/
structure ToolWorld where
  results : List ((RunIdentity × NonEmptyString) × StoredToolResult) := []
  executions : List Execution := []
  session : List SessionLine := []
  handled : List Handled := []

def resultItemId (item : ResultItem) : String :=
  match property item.body "id" with
  | .string id => id
  | _ => ""

def itemId : NodeItem → String
  | .assistantReasoning id _ | .assistantText id _ | .toolCall id _ | .runtimeProgress id _ => id
  | .toolResult item => resultItemId item

def ToolWorld.applyItem (world : ToolWorld) (item : NodeItem) : ToolWorld :=
  { world with session := world.session ++ [{ id := itemId item, item }] }

def ToolWorld.applyItemOnce (world : ToolWorld) (item : NodeItem) : ToolWorld :=
  if world.session.any fun line => line.id = itemId item then world else world.applyItem item

def ToolWorld.updateItem (world : ToolWorld) (id : String) (update : ItemUpdate) : ToolWorld :=
  match latest SessionLine.id world.session id with
  | some line =>
    { world with
      session := world.session ++ [{ line with updates := line.updates ++ [update] }] }
  | none => world

variable (deps : KernelV3NodeDependencies) (behaviour : ToolBehaviour) (identity : RunIdentity)

def performStep (world : ToolWorld) :
    (step : ToolStep) → Except ForeignError (ToolAnswer step) × ToolWorld
  | .prepare call =>
    ((behaviour.prepare world.executions identity call).map fun prepared =>
      { call := prepared.1, result := prepared.2.map (replyItem identity prepared.1) }, world)
  | .execute call =>
    let reply := behaviour.execute world.executions identity call
    (reply.map (replyItem identity call),
      { world with executions := world.executions ++ [{ identity, call, reply }] })
  | .append _ _ _ => (.ok (), world)
  | .loadResult key => (.ok ((find Prod.fst (identity, key) world.results).map Prod.snd), world)
  | .saveResult key _ stored =>
    (.ok (), { world with results := put Prod.fst ((identity, key), stored) world.results })
  | .nowIso => (.ok (behaviour.nowIso world.executions), world)

def toolHost : Host ToolStep ToolAnswer ForeignError ToolWorld where
  alive _ := true
  perform := performStep behaviour identity

/-- `ToolRuntimeV3.execute`. -/
def runTool (call : ModelToolIntent) (policy : ToolEffectPolicy)
    (pendingEffects : List EffectIntent) (committedEffects : List CommittedEffectRef)
    (world : ToolWorld) : Except ForeignError ToolExecution × ToolWorld :=
  match execute (toolHost behaviour identity)
      (executeSingle deps identity call policy pendingEffects committedEffects) world with
  | (.returned execution, after) => (.ok execution, after)
  | (.threw error, after) => (.error error, after)
  | (.stopped, after) => (.error (.thrown ""), after)

/-- The runtime's answer to a call, which the world keeps. -/
def handle (call : ModelToolIntent) (policy : ToolEffectPolicy)
    (pendingEffects : List EffectIntent) (committedEffects : List CommittedEffectRef)
    (world : ToolWorld) : Except ForeignError ToolExecution × ToolWorld :=
  let ran := runTool deps behaviour identity call policy pendingEffects committedEffects world
  (ran.1, { ran.2 with
    handled := ran.2.handled ++ [{
      identity, call, before := world.executions
      executed := ran.2.executions.drop world.executions.length
      answer := ran.1 }] })

def performCall (world : ToolWorld) :
    (call : KernelCall) → Except ForeignError (KernelAnswer call) × ToolWorld
  | .applyItemOnce item => (.ok (), world.applyItemOnce item)
  | .applyItem item => (.ok (), world.applyItem item)
  | .updateItemOnce id update | .updateItem id update => (.ok (), world.updateItem id update)
  | .executeTool call policy pendingEffects committedEffects =>
    handle deps behaviour identity call policy pendingEffects committedEffects world
  | .nowIso => (.ok (behaviour.nowIso world.executions), world)
  | call => (behaviour.others call, world)

def nodeHost : Host KernelCall KernelAnswer ForeignError ToolWorld where
  alive _ := true
  perform := performCall deps behaviour identity

/-- The calls of a proposal, with the value of `build-context` they are committed under. -/
structure Round where
  built : JsValue
  calls : List ModelToolIntent

/-- A run by its rounds of tool calls. The handlers read nothing but the identity of `state`,
and the nodes between the rounds leave the effects as they are. -/
structure ThreadRun where
  state : RunStateV3
  rounds : List Round

def commitRound (state : RunStateV3) (round : Round) (pendingEffects : List EffectIntent)
    (committedEffects : List CommittedEffectRef) :
    NodeProgram (Except RunOutcome CommitProgress) := do
  applyCalls state round.calls
  commitCalls deps state round.built round.calls { pendingEffects, committedEffects }

/-- A round that throws or has an outcome ends the run. -/
def runRounds (state : RunStateV3) :
    List Round → List EffectIntent → List CommittedEffectRef → ToolWorld → ToolWorld
  | [], _, _, world => world
  | round :: rest, pendingEffects, committedEffects, world =>
    match execute (nodeHost deps behaviour state.identity)
        (commitRound deps state round pendingEffects committedEffects) world with
    | (.returned (.ok progress), after) =>
      runRounds state rest progress.pendingEffects progress.committedEffects after
    | (_, after) => after

/-- The runs of a thread, one after the other, each of them new. -/
def runThread (runs : List ThreadRun) : ToolWorld :=
  runs.foldl (fun world run => runRounds deps behaviour run.state run.rounds [] [] world) {}

/-- The items that the session can have of an intent: its call, its result, its approval. -/
def intentItemIds (intent : RunIdentity × NonEmptyString) : List String :=
  [s!"item_tool_{intent.1.turnId.text}_{intent.2.text}", s!"item_{intent.2.text}",
    s!"item_appr_{intent.2.text}"]

def Round.intents (identity : RunIdentity) (round : Round) : List (RunIdentity × NonEmptyString) :=
  round.calls.map fun call => (identity, call.callId)

def ThreadRun.intents (run : ThreadRun) : List (RunIdentity × NonEmptyString) :=
  run.rounds.flatMap (Round.intents run.state.identity)

/-- No two intents of the thread have an item in common. -/
def Apart (runs : List ThreadRun) : Prop :=
  ((runs.flatMap ThreadRun.intents).flatMap intentItemIds).Nodup

instance (runs : List ThreadRun) : Decidable (Apart runs) :=
  inferInstanceAs (Decidable (List.Nodup _))

section
variable {deps : KernelV3NodeDependencies} {behaviour : ToolBehaviour} {identity : RunIdentity}

/-- A reply to the intent, and what was executed for it: nothing where the host denied it. -/
inductive Replied (behaviour : ToolBehaviour) (identity : RunIdentity) (before : List Execution)
    (call : ModelToolIntent) : ModelToolIntent → List Execution → ToolReply → Prop where
  | denied {made : ModelToolIntent} {reply : ToolReply}
      (prepared : behaviour.prepare before identity call = .ok (made, some reply)) :
      Replied behaviour identity before call made [] reply
  | ran {made : ModelToolIntent} {reply : ToolReply}
      (prepared : behaviour.prepare before identity call = .ok (made, none))
      (executed : behaviour.execute before identity made = .ok reply) :
      Replied behaviour identity before call made [⟨identity, made, .ok reply⟩] reply

/-- The answer to an intent that is executed once, as what the tool host makes of it, and
answered with the reply of that execution; or that is not let through, or throws. -/
inductive OwnAnswer (behaviour : ToolBehaviour) (identity : RunIdentity) (before : List Execution)
    (call : ModelToolIntent) : List Execution → Except ForeignError ToolExecution → Prop where
  | refused {error : ForeignError}
      (prepared : behaviour.prepare before identity call = .error error) :
      OwnAnswer behaviour identity before call [] (.error error)
  | renamed {made : ModelToolIntent} {reply : Option ToolReply}
      (prepared : behaviour.prepare before identity call = .ok (made, reply))
      (other : made.callId ≠ call.callId) :
      OwnAnswer behaviour identity before call []
        (.error (.error "tool host preparation changed callId"))
  | threw {made : ModelToolIntent} {error : ForeignError}
      (prepared : behaviour.prepare before identity call = .ok (made, none))
      (same : made.callId = call.callId)
      (executed : behaviour.execute before identity made = .error error) :
      OwnAnswer behaviour identity before call [⟨identity, made, .error error⟩] (.error error)
  | unobserved {made : ModelToolIntent} {executed : List Execution} {reply : ToolReply}
      {error : ForeignError} (replied : Replied behaviour identity before call made executed reply)
      (same : made.callId = call.callId) :
      OwnAnswer behaviour identity before call executed (.error error)
  | replied {made : ModelToolIntent} {executed : List Execution} {reply : ToolReply}
      {execution : ToolExecution}
      (replied : Replied behaviour identity before call made executed reply)
      (same : made.callId = call.callId)
      (result : execution.result = some (replyItem identity made reply))
      (goesOn : execution.outcome = none) :
      OwnAnswer behaviour identity before call executed (.ok execution)

theorem execute_step : execute (toolHost behaviour identity) (awaitStep step >>= next_) world =
      match performStep behaviour identity world step with
      | (.ok answer, after) => execute (toolHost behaviour identity) (next_ answer) after
      | (.error error, after) => (.threw error, after) := by
  show execute _ ((Program.await step).bind next_) world = _
  simp only [execute_bind, Program.await, execute, toolHost, if_true]
  rcases performStep behaviour identity world step with ⟨error | answer, after⟩
  · rfl
  · rfl

variable {committedEffects : List CommittedEffectRef} {call : ModelToolIntent} {world : ToolWorld}

/-- What the commit of a new effect leaves: one more committed effect, and nothing pending
that was not. -/
theorem execute_commitEffect (fresh : hasCommitted committedEffects key = false) :
    ∃ (ref : CommittedEffectRef) (results : List _), ref.idempotencyKey = key ∧
      execute (toolHost behaviour identity)
          (commitEffect deps pendingEffects committedEffects key item observation) world =
        (.returned (pendingEffects.filter fun candidate => candidate.idempotencyKey ≠ key,
          committedEffects ++ [ref]), { world with results }) := by
  have missing :
      (committedEffects.find? fun candidate => candidate.idempotencyKey = key) = none := by
    rw [find?_eq_none]
    exact any_eq_false.mp fresh
  unfold commitEffect
  rw [missing]
  exact ⟨_, _, rfl, rfl⟩

variable (deps) in
theorem execute_commitResult (call : ModelToolIntent) (policy : ToolEffectPolicy)
    (pendingEffects : List EffectIntent) (item : ResultItem) (world : ToolWorld)
    (fresh : hasCommitted committedEffects key = false) :
    (∃ error, execute (toolHost behaviour identity)
        (commitResult deps key call policy pendingEffects committedEffects item) world =
      (.threw error, world)) ∨
    ∃ (ref : CommittedEffectRef) (results : List _) (execution : ToolExecution), ref.idempotencyKey = key ∧
      execution.pendingEffects = pendingEffects.filter (fun candidate => candidate.idempotencyKey ≠ key) ∧
      execution.committedEffects = committedEffects ++ [ref] ∧
      execution.result = some item ∧ execution.outcome = none ∧
      execute (toolHost behaviour identity)
          (commitResult deps key call policy pendingEffects committedEffects item) world =
        (.returned execution, { world with results }) := by
  have committed : ∀ observation, ∃ (ref : CommittedEffectRef) (results : List _)
      (execution : ToolExecution), ref.idempotencyKey = key ∧
      execution.pendingEffects = pendingEffects.filter (fun candidate => candidate.idempotencyKey ≠ key) ∧
      execution.committedEffects = committedEffects ++ [ref] ∧
      execution.result = some item ∧ execution.outcome = none ∧
      execute (toolHost behaviour identity)
          ((commitEffect deps pendingEffects committedEffects key item observation).bind
            fun effects => .pure { pendingEffects := effects.1, committedEffects := effects.2
                                   result := some item, observation }) world =
        (.returned execution, { world with results }) := by
    intro observation
    obtain ⟨ref, results, named, ran⟩ := execute_commitEffect fresh
    rw [execute_bind, ran]
    exact ⟨ref, results, _, named, rfl, rfl, rfl, rfl, rfl⟩
  unfold commitResult
  split
  · cases deps.observeTool call item policy with
    | error error => exact .inl ⟨error, rfl⟩
    | ok seen => exact .inr (committed (some seen))
  · exact .inr (committed none)

/-- What a call leaves whose effect is neither pending nor committed. -/
structure RanFresh (behaviour : ToolBehaviour) (identity : RunIdentity) (call : ModelToolIntent)
    (committedEffects : List CommittedEffectRef) (world : ToolWorld)
    (ran : Except ForeignError ToolExecution × ToolWorld) : Prop where
  session : ran.2.session = world.session
  handled : ran.2.handled = world.handled
  own : ∃ executed, ran.2.executions = world.executions ++ executed ∧
    OwnAnswer behaviour identity world.executions call executed ran.1
  effects : ∀ execution, ran.1 = .ok execution → execution.pendingEffects = [] ∧
    ∃ ref : CommittedEffectRef, ref.idempotencyKey = idempotencyKey identity call.callId ∧
      execution.committedEffects = committedEffects ++ [ref]

variable (deps) in
/-- The end of a call that the host replied to. -/
theorem ranFresh_replied (policy : ToolEffectPolicy) (intent : EffectIntent)
    (fresh : hasCommitted committedEffects (idempotencyKey identity call.callId) = false)
    (intended : intent.idempotencyKey = idempotencyKey identity call.callId)
    (replied : Replied behaviour identity world.executions call made executed reply)
    (same : made.callId = call.callId) : RanFresh behaviour identity call committedEffects world
      (match execute (toolHost behaviour identity)
          (commitResult deps (idempotencyKey identity call.callId) made policy
            (prepareEffect [] intent) committedEffects (replyItem identity made reply))
          { world with executions := world.executions ++ executed } with
        | (.returned execution, after) => (.ok execution, after)
        | (.threw error, after) => (.error error, after)
        | (.stopped, after) => (.error (.thrown ""), after)) := by
  rcases execute_commitResult deps made policy (prepareEffect [] intent)
      (replyItem identity made reply)
      { world with executions := world.executions ++ executed } fresh with
    ⟨error, ran⟩ | ⟨ref, results, execution, named, pending, committed, result, goesOn, ran⟩
  · rw [ran]
    exact ⟨rfl, rfl, ⟨executed, rfl, .unobserved replied same⟩, fun _ failed => by cases failed⟩
  · rw [ran]
    refine ⟨rfl, rfl, ⟨executed, rfl, .replied replied same result goesOn⟩, ?_⟩
    rintro _ ⟨⟩
    refine ⟨?_, ref, named, committed⟩
    rw [pending]
    simp [prepareEffect, hasPending, intended]

theorem runTool_fresh
    (fresh : hasCommitted committedEffects (idempotencyKey identity call.callId) = false) :
    RanFresh behaviour identity call committedEffects world
      (runTool deps behaviour identity call policy [] committedEffects world) := by
  have single : executeSingle deps identity call policy [] committedEffects =
      executePrepared deps identity call policy [] committedEffects := by
    simp only [executeSingle, fresh, executeUncommitted, hasPending, any_nil, Bool.false_and,
      Bool.false_eq_true, if_false]
  rw [runTool, single, executePrepared]
  rw [execute_step]
  simp only [performStep]
  cases prepared : behaviour.prepare world.executions identity call with
  | error error =>
    exact ⟨rfl, rfl, ⟨[], (append_nil _).symm, .refused prepared⟩, fun _ failed => by cases failed⟩
  | ok preparation =>
    obtain ⟨made, denial⟩ := preparation
    simp only [Except.map]
    by_cases same : made.callId = call.callId
    · rw [if_neg (not_not.mpr same), execute_step]
      simp only [performStep]
      rw [execute_step]
      simp only [performStep]
      cases denial with
      | none =>
        simp only [preparedResult, Option.map_none]
        rw [execute_step]
        simp only [performStep]
        cases executed : behaviour.execute world.executions identity made with
        | error error =>
          exact ⟨rfl, rfl, ⟨_, rfl, .threw prepared same executed⟩, fun _ failed => by cases failed⟩
        | ok reply => exact ranFresh_replied deps policy _ fresh rfl (.ran prepared executed) same
      | some reply =>
        have ended := ranFresh_replied deps policy
          (effectIntent deps (idempotencyKey identity call.callId) made policy
            (behaviour.nowIso world.executions)) fresh rfl (.denied prepared) same
        rw [append_nil] at ended
        exact ended
    · rw [if_pos same]
      exact ⟨rfl, rfl, ⟨[], (append_nil _).symm, .renamed prepared same⟩, fun _ failed => by cases failed⟩

def Handled.intent (handled : Handled) : RunIdentity × NonEmptyString :=
  (handled.identity, handled.call.callId)

/-- The session has the result under its item. -/
def Saved (session : List SessionLine) (handled : Handled) : Prop :=
  ∀ item, handled.result? = some item → latest SessionLine.id session (resultItemId item) =
      some { id := resultItemId item, item := .toolResult item }

def Handled.Own (behaviour : ToolBehaviour) (handled : Handled) : Prop :=
  OwnAnswer behaviour handled.identity handled.before handled.call handled.executed handled.answer

/-- The calls handled so far are some of the intents `done`, each with its own answer, and with
its result in the session. -/
structure Sound (behaviour : ToolBehaviour) (done : List (RunIdentity × NonEmptyString))
    (handled : List Handled) (session : List SessionLine) : Prop where
  own : ∀ call ∈ handled, call.Own behaviour
  known : ∀ call ∈ handled, call.intent ∈ done
  saved : ∀ call ∈ handled, Saved session call

/-- The ids of the items of these intents. -/
def itemIds (intents : List (RunIdentity × NonEmptyString)) : List String :=
  intents.flatMap intentItemIds

variable {done : List (RunIdentity × NonEmptyString)} {session : List SessionLine}

theorem replyItem_id :
    resultItemId (replyItem identity made reply) ∈ intentItemIds (identity, made.callId) := by
  cases reply with
  | result output isError => exact mem_cons_of_mem _ mem_cons_self
  | unapproved => exact mem_cons_of_mem _ (mem_cons_of_mem _ mem_cons_self)

theorem result_id {call : Handled} (own : call.Own behaviour) (result : call.result? = some item) :
    resultItemId item ∈ intentItemIds call.intent := by
  obtain ⟨identity, intent, before, executed, answer⟩ := call
  unfold Handled.result? at result
  simp only [Handled.Own] at own
  cases own with
  | refused | renamed | threw | unobserved => cases result
  | @replied made _ reply execution replied same answered goesOn =>
    simp only [goesOn, Option.isSome_none, Bool.false_eq_true, if_false, answered,
      Option.some.injEq] at result
    rw [← result, Handled.intent, ← same]
    exact replyItem_id

theorem Sound.write (sound : Sound behaviour done handled session)
    (other : line.id ∉ itemIds done) : Sound behaviour done handled (session ++ [line]) := by
  refine ⟨sound.own, sound.known, fun call held item result => ?_⟩
  have apart : line.id ≠ resultItemId item := by
    intro same
    apply other
    rw [same]
    exact mem_flatMap.mpr
      ⟨call.intent, sound.known call held, result_id (sound.own call held) result⟩
  rw [latest_append, if_neg apart]
  exact sound.saved call held item result

theorem Sound.applyItemOnce (sound : Sound behaviour done handled world.session)
    (other : itemId item ∉ itemIds done) :
    Sound behaviour done handled (world.applyItemOnce item).session := by
  unfold ToolWorld.applyItemOnce
  split
  · exact sound
  · exact sound.write other

theorem Sound.updateItem {id : String} (update : ItemUpdate)
    (sound : Sound behaviour done handled world.session) (other : id ∉ itemIds done) :
    Sound behaviour done handled (world.updateItem id update).session := by
  unfold ToolWorld.updateItem
  split
  · rename_i line found
    exact sound.write (by rwa [latest_key found])
  · exact sound

theorem updateItem_handled (id : String) :
    (world.updateItem id update).handled = world.handled := by
  unfold ToolWorld.updateItem
  split
  · rfl
  · rfl

theorem applyItemOnce_handled : (world.applyItemOnce item).handled = world.handled := by
  unfold ToolWorld.applyItemOnce
  split
  · rfl
  · rfl

theorem Sound.add {call : Handled} (sound : Sound behaviour done handled session)
    (own : call.Own behaviour) (saved : Saved session call) (more : done ⊆ done')
    (known : call.intent ∈ done') : Sound behaviour done' (handled ++ [call]) session := by
  constructor
  · intro other held
    rcases mem_append.mp held with earlier | last
    · exact sound.own other earlier
    · rwa [mem_singleton.mp last]
  · intro other held
    rcases mem_append.mp held with earlier | last
    · exact more (sound.known other earlier)
    · rwa [mem_singleton.mp last]
  · intro other held
    rcases mem_append.mp held with earlier | last
    · exact sound.saved other earlier
    · rwa [mem_singleton.mp last]

theorem Sound.mono (sound : Sound behaviour done handled session) (more : done ⊆ done') :
    Sound behaviour done' handled session :=
  ⟨sound.own, fun call held => more (sound.known call held), sound.saved⟩

/-- An operation that the host does, whatever its state. -/
theorem triple_done {call : KernelCall} {returns : KernelAnswer call → ToolWorld → Prop}
    (does : ∀ world, pre world → ∃ answer after,
      performCall deps behaviour identity world call = (.ok answer, after) ∧ returns answer after) :
    Triple (nodeHost deps behaviour identity) pre (await call) returns throws fun _ => False := by
  refine triple_await (fun _ _ dead => by cases dead) ?_ ?_
  · intro world holds _ answer after performed
    obtain ⟨given, left, ran, post⟩ := does world holds
    cases ran.symm.trans performed
    exact post
  · intro world holds _ error after performed
    obtain ⟨given, left, ran, -⟩ := does world holds
    cases ran.symm.trans performed

theorem triple_now :
    Triple (nodeHost deps behaviour identity) pre (await .nowIso) (fun _ => pre) throws
      fun _ => False :=
  triple_done fun world holds => ⟨_, world, rfl, holds⟩

theorem triple_attempt {returns : Except ForeignError α → ToolWorld → Prop}
    (body : Triple host pre program (fun value => returns (.ok value))
      (fun error => returns (.error error)) fun _ => False) :
    Triple host pre (attempt program) returns throws fun _ => False :=
  triple_catching (triple_bind body fun _ => triple_pure fun _ => id)
    fun _ => triple_pure fun _ => id

/-- The intents of the calls, none of which has an item in common with another or with one
that is done. -/
def Fresh (done : List (RunIdentity × NonEmptyString)) (identity : RunIdentity)
    (calls : List ModelToolIntent) : Prop :=
  (itemIds (done ++ calls.map fun call => (identity, call.callId))).Nodup

theorem Fresh.other {id : String} (fresh : Fresh done identity calls) (held : call ∈ calls)
    (own : id ∈ intentItemIds (identity, call.callId)) : id ∉ itemIds done := by
  intro earlier
  rw [Fresh, itemIds, flatMap_append] at fresh
  refine (nodup_append.mp fresh).2.2 id earlier id ?_ rfl
  exact mem_flatMap.mpr ⟨_, mem_map_of_mem held, own⟩

theorem Fresh.rest {rest : List ModelToolIntent} (fresh : Fresh done identity (call :: rest)) :
    Fresh (done ++ [(identity, call.callId)]) identity rest := by
  rwa [Fresh, map_cons, append_cons] at fresh

section
variable {intent : RunIdentity × NonEmptyString} {pendingEffects : List EffectIntent}

theorem applyCalls_sound (fresh : Fresh done state.identity calls) :
    Triple (nodeHost deps behaviour state.identity)
      (fun world => Sound behaviour done world.handled world.session) (applyCalls state calls)
      (fun _ world => Sound behaviour done world.handled world.session) throws
      fun _ => False := by
  suffices every : ∀ call ∈ calls, toolItemId state call.callId.text ∉ itemIds done by
    clear fresh
    induction calls with
    | nil => exact triple_pure fun _ => id
    | cons call rest ih =>
      refine triple_bind (triple_done fun world sound => ⟨(), _, rfl, ?_⟩)
        fun _ => ih fun other held => every other (mem_cons_of_mem _ held)
      rw [applyItemOnce_handled]
      exact sound.applyItemOnce (every call mem_cons_self)
  exact fun call held => fresh.other held mem_cons_self

/-- The call was handed to the runtime last, and its result is not in the session yet. -/
structure Opened (behaviour : ToolBehaviour) (done : List (RunIdentity × NonEmptyString))
    (intent : RunIdentity × NonEmptyString) (call : Handled) (world : ToolWorld) : Prop where
  last : ∃ earlier, world.handled = earlier ++ [call] ∧ Sound behaviour done earlier world.session
  own : call.Own behaviour
  named : call.intent = intent

theorem Opened.settle {call : Handled} (opened : Opened behaviour done intent call world)
    (saved : Saved world.session call) :
    Sound behaviour (done ++ [intent]) world.handled world.session := by
  obtain ⟨⟨earlier, handled, sound⟩, own, named⟩ := opened
  rw [handled]
  exact sound.add own saved (subset_append_left _ _) (by simp [named])

theorem Opened.unanswered {call : Handled} (opened : Opened behaviour done intent call world)
    (none : call.result? = none) : Sound behaviour (done ++ [intent]) world.handled world.session :=
  opened.settle fun item result => by rw [none] at result; cases result

/-- The ids of an intent's items are those of no earlier one. -/
def Unused (done : List (RunIdentity × NonEmptyString)) (intent : RunIdentity × NonEmptyString) :
    Prop :=
  ∀ id ∈ intentItemIds intent, id ∉ itemIds done

theorem opened_write {call : Handled} (unused : Unused done intent)
    (opened : Opened behaviour done intent call world) (held : itemId item ∈ intentItemIds intent) :
    Opened behaviour done intent call (world.applyItem item) := by
  obtain ⟨⟨earlier, handled, sound⟩, own, named⟩ := opened
  exact ⟨⟨earlier, handled, sound.write (unused _ held)⟩, own, named⟩

theorem updateCall_opened {handled : Handled} (unused : Unused done (state.identity, call.callId)) :
    Triple (nodeHost deps behaviour state.identity)
      (Opened behaviour done (state.identity, call.callId) handled)
      (await (.updateItem (toolItemId state call.callId.text) update))
      (fun _ => Opened behaviour done (state.identity, call.callId) handled) throws
      fun _ => False := by
  refine triple_done fun world opened => ⟨(), _, rfl, ?_⟩
  obtain ⟨⟨earlier, handled, sound⟩, own, named⟩ := opened
  refine ⟨⟨earlier, ?_, sound.updateItem update (unused _ mem_cons_self)⟩, own, named⟩
  rw [updateItem_handled, handled]

theorem applyItem_opened {handled : Handled} {item : NodeItem} (unused : Unused done intent)
    (own : itemId item ∈ intentItemIds intent) :
    Triple (nodeHost deps behaviour identity) (Opened behaviour done intent handled)
      (await (.applyItem item)) (fun _ => Opened behaviour done intent handled) throws
      fun _ => False :=
  triple_done fun _ opened => ⟨(), _, rfl, opened_write unused opened own⟩

theorem commitRejected_sound {handled : Handled}
    (unused : Unused done (state.identity, call.callId)) (none : handled.result? = none) :
    Triple (nodeHost deps behaviour state.identity)
      (Opened behaviour done (state.identity, call.callId) handled)
      (commitRejected deps state call policy error progress)
      (fun next world =>
        Sound behaviour (done ++ [(state.identity, call.callId)]) world.handled world.session ∧
          next.pendingEffects = progress.pendingEffects ∧
          next.committedEffects = progress.committedEffects)
      (fun _ world =>
        Sound behaviour (done ++ [(state.identity, call.callId)]) world.handled world.session)
      fun _ => False := by
  refine triple_bind triple_now fun now => ?_
  refine triple_bind triple_now fun finishedAt => ?_
  refine triple_bind (updateCall_opened unused) fun _ => ?_
  refine triple_bind (applyItem_opened unused (mem_cons_of_mem _ mem_cons_self)) fun _ => ?_
  refine triple_bind (triple_lift (fun _ _ _ => id)
    fun _ _ world opened => opened.unanswered none) fun observation => ?_
  exact triple_pure fun world opened => ⟨opened.unanswered none, rfl, rfl⟩

theorem commitExecuted_sound {handled : Handled} {item : ResultItem}
    (unused : Unused done (state.identity, call.callId)) (result : handled.result? = some item) :
    Triple (nodeHost deps behaviour state.identity)
      (Opened behaviour done (state.identity, call.callId) handled)
      (commitExecuted deps state call execution item progress)
      (fun next world =>
        Sound behaviour (done ++ [(state.identity, call.callId)]) world.handled world.session ∧
          next.pendingEffects = execution.pendingEffects ∧
          next.committedEffects = execution.committedEffects)
      throws fun _ => False := by
  refine triple_bind triple_now fun finishedAt => ?_
  refine triple_bind (updateCall_opened unused) fun _ => ?_
  refine triple_bind (triple_done fun world opened => ⟨(), _, rfl, ?_⟩)
    fun _ => triple_pure fun world sound => ⟨sound, rfl, rfl⟩
  have own : itemId (.toolResult item) ∈ intentItemIds (state.identity, call.callId) :=
    opened.named ▸ result_id opened.own result
  refine (opened_write unused opened own).settle fun other answered => ?_
  cases result.symm.trans answered
  exact (latest_append _ _ _).trans (if_pos rfl)

/-- The effects of a run between its calls: none is pending, and each that is committed is that
of an intent that is done. -/
structure EffectsOf (done : List (RunIdentity × NonEmptyString)) (identity : RunIdentity)
    (pendingEffects : List EffectIntent) (committedEffects : List CommittedEffectRef) : Prop where
  pending : pendingEffects = []
  committed : ∀ ref ∈ committedEffects, ∃ callId : NonEmptyString, (identity, callId) ∈ done ∧
    ref.idempotencyKey = idempotencyKey identity callId

section
variable (effects : EffectsOf done identity pendingEffects committedEffects)
include effects

theorem EffectsOf.mono
    (more : done ⊆ done') : EffectsOf done' identity pendingEffects committedEffects := by
  refine ⟨effects.pending, fun ref held => ?_⟩
  obtain ⟨callId, earlier, key⟩ := effects.committed ref held
  exact ⟨callId, more earlier, key⟩

theorem EffectsOf.fresh (unused : Unused done (identity, callId)) :
    hasCommitted committedEffects (idempotencyKey identity callId) = false := by
  refine any_eq_false.mpr fun ref held same => ?_
  obtain ⟨earlier, member, key⟩ := effects.committed ref held
  have text : earlier.text = callId.text :=
    idempotencyKey_injective (key.symm.trans (of_decide_eq_true same))
  have own : s!"item_{callId.text}" ∈ intentItemIds (identity, earlier) := by
    rw [← text]
    exact mem_cons_of_mem _ mem_cons_self
  exact unused _ (mem_cons_of_mem _ mem_cons_self) (mem_flatMap.mpr ⟨_, member, own⟩)

theorem executeTool_opened
    (unused : Unused done (identity, call.callId)) : Triple (nodeHost deps behaviour identity)
      (fun world => Sound behaviour done world.handled world.session)
      (attempt (await (.executeTool call policy pendingEffects committedEffects)))
      (fun answer world => (∀ execution, answer = .ok execution →
          EffectsOf (done ++ [(identity, call.callId)]) identity execution.pendingEffects
            execution.committedEffects) ∧
        ∃ handled, handled.answer = answer ∧ Opened behaviour done (identity, call.callId) handled world)
      throws fun _ => False := by
  have handles : ∀ world, Sound behaviour done world.handled world.session → ∀ answer after,
        performCall deps behaviour identity world
          (.executeTool call policy pendingEffects committedEffects) = (answer, after) →
        (∀ execution, answer = .ok execution →
          EffectsOf (done ++ [(identity, call.callId)]) identity execution.pendingEffects
            execution.committedEffects) ∧
        ∃ handled, handled.answer = answer ∧ Opened behaviour done (identity, call.callId) handled after := by
    rintro world sound answer after ⟨⟩
    rw [effects.pending]
    have ran : RanFresh behaviour identity call committedEffects world
        (runTool deps behaviour identity call policy [] committedEffects world) :=
      runTool_fresh (effects.fresh unused)
    obtain ⟨session, handled, ⟨executed, executions, own⟩, left⟩ := ran
    let last : Handled :=
      { identity, call, before := world.executions
        executed := (runTool deps behaviour identity call policy [] committedEffects
          world).2.executions.drop world.executions.length
        answer := (runTool deps behaviour identity call policy [] committedEffects world).1 }
    refine ⟨fun execution answered => ?_, last, rfl, ⟨world.handled, ?_, ?_⟩, ?_, rfl⟩
    · obtain ⟨pending, ref, key, committed⟩ := left execution answered
      refine ⟨pending, fun other held => ?_⟩
      rw [committed] at held
      rcases mem_append.mp held with earlier | last
      · exact (effects.mono (subset_append_left _ _)).committed other earlier
      · rw [mem_singleton.mp last]
        exact ⟨call.callId, by simp, key⟩
    · exact congrArg (· ++ [last]) handled
    · show Sound behaviour done world.handled
        (runTool deps behaviour identity call policy [] committedEffects world).2.session
      rw [session]
      exact sound
    · simp only [Handled.Own, last, executions, drop_left]
      exact own
  exact triple_attempt (triple_await (fun _ _ dead => by cases dead)
    (fun world sound _ answer after performed => handles world sound _ _ performed)
    fun world sound _ error after performed => handles world sound _ _ performed)

end

/-- Whatever becomes of its calls, a round keeps the thread sound. -/
theorem commitCalls_sound :
    ∀ {done : List (RunIdentity × NonEmptyString)} {progress : CommitProgress},
      Fresh done state.identity calls →
      EffectsOf done state.identity progress.pendingEffects progress.committedEffects →
      Triple (nodeHost deps behaviour state.identity)
        (fun world => Sound behaviour done world.handled world.session)
        (commitCalls deps state built calls progress)
        (fun result world =>
          Sound behaviour (done ++ calls.map fun call => (state.identity, call.callId))
            world.handled world.session ∧
          ∀ next, result = .ok next →
            EffectsOf (done ++ calls.map fun call => (state.identity, call.callId)) state.identity
              next.pendingEffects next.committedEffects)
        (fun _ world =>
          Sound behaviour (done ++ calls.map fun call => (state.identity, call.callId))
            world.handled world.session)
        fun _ => False := by
  induction calls with
  | nil =>
    intro done progress _ effects
    simp only [map_nil, append_nil]
    exact triple_pure fun world sound => ⟨sound, by rintro next ⟨⟩; exact effects⟩
  | cons call rest ih =>
    intro done progress fresh effects
    have unused : Unused done (state.identity, call.callId) :=
      fun id => fresh.other mem_cons_self
    rw [map_cons, append_cons]
    have more : done ++ [(state.identity, call.callId)] ⊆ done ++ [(state.identity, call.callId)] ++
          rest.map fun call => (state.identity, call.callId) := subset_append_left _ _
    refine triple_bind (executeTool_opened effects unused) ?_
    rintro answer world ⟨left, handled, answered, opened⟩
    have unanswered : handled.result? = none → Sound behaviour
        (done ++ [(state.identity, call.callId)] ++
          rest.map fun call => (state.identity, call.callId)) world.handled world.session :=
      fun none => (opened.unanswered none).mono more
    cases answer with
    | error error =>
      have none : handled.result? = none := by rw [Handled.result?, answered]
      dsimp only
      split
      · refine triple_bind (triple_consequence (commitRejected_sound unused none)
          (fun _ => id) (fun _ _ => id) (fun _ _ sound => sound.mono more) fun _ => id)
          (fun next => triple_of_fact ?_) world opened
        rintro ⟨pending, committed⟩
        refine ih fresh.rest ?_
        rw [pending, committed]
        exact effects.mono (subset_append_left _ _)
      · exact unanswered none
    | ok execution =>
      cases outcome : execution.outcome with
      | some outcome =>
        have none : handled.result? = none := by simp [Handled.result?, answered, outcome]
        simp only [outcome]
        exact ⟨unanswered none, fun next failed => by cases failed⟩
      | none =>
        cases result : execution.result with
        | none =>
          have none : handled.result? = none := by simp [Handled.result?, answered, result]
          simp only [outcome, result]
          exact ⟨unanswered none, fun next failed => by cases failed⟩
        | some item =>
          have shown : handled.result? = some item := by
            simp [Handled.result?, answered, outcome, result]
          simp only [outcome, result]
          refine triple_bind (commitExecuted_sound unused shown)
            (fun next => triple_of_fact ?_) world opened
          rintro ⟨pending, committed⟩
          refine ih fresh.rest ?_
          rw [pending, committed]
          exact left execution rfl

theorem commitRound_sound {round : Round} (fresh : Fresh done state.identity round.calls)
    (effects : EffectsOf done state.identity pendingEffects committedEffects) :
    Triple (nodeHost deps behaviour state.identity)
      (fun world => Sound behaviour done world.handled world.session)
      (commitRound deps state round pendingEffects committedEffects)
      (fun result world =>
        Sound behaviour (done ++ round.intents state.identity) world.handled world.session ∧
        ∀ next, result = .ok next → EffectsOf (done ++ round.intents state.identity) state.identity
            next.pendingEffects next.committedEffects)
      (fun _ world =>
        Sound behaviour (done ++ round.intents state.identity) world.handled world.session)
      fun _ => False :=
  triple_bind (applyCalls_sound fresh) fun _ => commitCalls_sound fresh effects

theorem itemIds_append : itemIds (first ++ second) = itemIds first ++ itemIds second :=
  flatMap_append

theorem runRounds_sound :
    ∀ {done : List (RunIdentity × NonEmptyString)} {pendingEffects : List EffectIntent}
      {committedEffects : List CommittedEffectRef} {world : ToolWorld},
      (itemIds (done ++ rounds.flatMap (Round.intents state.identity))).Nodup →
      EffectsOf done state.identity pendingEffects committedEffects →
      Sound behaviour done world.handled world.session →
      Sound behaviour (done ++ rounds.flatMap (Round.intents state.identity))
        (runRounds deps behaviour state rounds pendingEffects committedEffects world).handled
        (runRounds deps behaviour state rounds pendingEffects committedEffects world).session := by
  induction rounds with
  | nil =>
    intro done pendingEffects committedEffects world _ _ sound
    rwa [flatMap_nil, append_nil]
  | cons round rest ih =>
    intro done pendingEffects committedEffects world distinct effects sound
    rw [flatMap_cons, ← append_assoc] at distinct ⊢
    have fresh : Fresh done state.identity round.calls := by
      rw [itemIds_append] at distinct
      exact (nodup_append.mp distinct).1
    have ends : Ending.Holds _ _ _ (execute (nodeHost deps behaviour state.identity)
          (commitRound deps state round pendingEffects committedEffects) world) :=
      commitRound_sound fresh effects world sound
    unfold runRounds
    rcases ran : execute (nodeHost deps behaviour state.identity)
      (commitRound deps state round pendingEffects committedEffects) world with ⟨ending, after⟩
    rw [ran] at ends
    rcases ending with (outcome | progress) | error | _
    · exact ends.1.mono (subset_append_left _ _)
    · exact ih distinct (ends.2 progress rfl) ends.1
    · exact Sound.mono ends (subset_append_left _ _)
    · exact ends.elim

end

theorem runThread_sound (runs : List ThreadRun) :
    ∀ {done : List (RunIdentity × NonEmptyString)} {world : ToolWorld},
      (itemIds (done ++ runs.flatMap ThreadRun.intents)).Nodup →
      Sound behaviour done world.handled world.session →
      Sound behaviour (done ++ runs.flatMap ThreadRun.intents)
        (runs.foldl (fun world run => runRounds deps behaviour run.state run.rounds [] [] world)
          world).handled
        (runs.foldl (fun world run => runRounds deps behaviour run.state run.rounds [] [] world)
          world).session := by
  induction runs with
  | nil =>
    intro done world _ sound
    rwa [flatMap_nil, append_nil]
  | cons run rest ih =>
    intro done world distinct sound
    rw [flatMap_cons, ← append_assoc] at distinct ⊢
    refine ih distinct (runRounds_sound ?_ ⟨rfl, forall_mem_nil _⟩ sound)
    rw [itemIds_append] at distinct
    exact (nodup_append.mp distinct).1

variable (deps behaviour) in
/-- Where no two intents of the thread have an item in common, each is answered with what its
own execution replied, and that is what the session has of it. -/
theorem intents_have_own_results {runs : List ThreadRun} (apart : Apart runs) :
    ∀ call ∈ (runThread deps behaviour runs).handled,
      call.Own behaviour ∧ Saved (runThread deps behaviour runs).session call := by
  have sound : Sound behaviour ([] ++ runs.flatMap ThreadRun.intents)
      (runThread deps behaviour runs).handled (runThread deps behaviour runs).session :=
    runThread_sound runs apart
      { own := forall_mem_nil _
        known := forall_mem_nil _
        saved := forall_mem_nil _ }
  exact fun call held => ⟨sound.own call held, sound.saved call held⟩

end

def plainDeps : KernelV3NodeDependencies where
  tests := ⟨fun _ => false, fun _ => false, fun _ => false⟩
  digestValue _ := named "digest"
  projectTaskState _ _ _ _ := .error (.error "no progress")
  observeTool call item policy := .ok {
    callId := call.callId, toolName := call.toolName, effect := policy.effect
    capabilityClass := call.toolName, resourceKeys := []
    canonicalArgumentsDigest := named "digest", resultDigest := named "digest"
    resultItemId := named "item", artifactRefs := [], failed := item.isError, replayed := false }

/-- Every tool replies with its arguments. -/
def echoing : ToolBehaviour where
  prepare _ _ call := .ok (call, none)
  execute _ _ call := .ok (.result (Json.object call.arguments).toJs false)
  nowIso _ := named "2024-01-01T00:00:00.000Z"
  others _ := .error (.error "not asked for")

/-- One run whose model reads a file, and then another under the given call id. -/
def twoReads (callId : String) : List ThreadRun :=
  [{ state := initialState (productionKernel plainDeps) KernelRuns.sampleIdentity (named "now")
     rounds := [("call_1", "a.txt"), (callId, "b.txt")].map fun read =>
      { built := .undefined
        calls := [{ callId := named read.1, toolName := named "read"
                    arguments := [("path", .string read.2)] }] } }]

theorem two_reads_have_own_results : Apart (twoReads "call_2") ∧
    ∀ call ∈ (runThread plainDeps echoing (twoReads "call_2")).handled,
      call.Own echoing ∧ Saved (runThread plainDeps echoing (twoReads "call_2")).session call :=
  ⟨by decide, intents_have_own_results plainDeps echoing (by decide)⟩

/-- The call ids of a proposal are distinct. -/
def DistinctInRounds (runs : List ThreadRun) : Prop :=
  ∀ run ∈ runs, ∀ round ∈ run.rounds, (round.calls.map ModelToolIntent.callId).Nodup

/-- The second read is not executed: it is answered with the first file. -/
theorem second_read_not_executed :
    ¬ ∀ (deps : KernelV3NodeDependencies) (behaviour : ToolBehaviour) (runs : List ThreadRun),
      DistinctInRounds runs → ∀ call ∈ (runThread deps behaviour runs).handled,
        call.Own behaviour ∧ Saved (runThread deps behaviour runs).session call := by
  intro claim
  have distinct : DistinctInRounds (twoReads "call_1") := by
    intro run held round member
    cases List.mem_singleton.mp held
    obtain ⟨read, -, rfl⟩ := mem_map.mp member
    exact nodup_singleton _
  have replayed : (runThread plainDeps echoing (twoReads "call_1")).handled.any
      (fun call => call.executed.isEmpty && call.result?.isSome) = true := by decide
  obtain ⟨call, held, found⟩ := any_eq_true.mp replayed
  obtain ⟨own, -⟩ := claim plainDeps echoing (twoReads "call_1") distinct call held
  obtain ⟨identity, intent, before, executed, answer⟩ := call
  rw [Bool.and_eq_true, List.isEmpty_iff] at found
  obtain ⟨none, some⟩ := found
  subst none
  cases own with
  | refused prepared | renamed prepared | unobserved prepared => cases some
  | replied replied same result goesOn =>
    cases replied with
    | denied prepared => cases prepared

end QiongQi.IntentResults
