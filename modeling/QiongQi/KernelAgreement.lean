import QiongQi.KernelRestores
import QiongQi.KernelTerminal

/-! Replay against the live run. Handler values and outcomes go into the live state
as they are and into the log as JSON: where they come back from it unchanged, every
snapshot of a run and the events after it give the state the run holds in memory. -/
namespace QiongQi.KernelAgreement
open JsonValues Programs RuntimeContracts MiddlewareCommands ExecutionGraphs RuntimeKernels
  KernelRuns KernelReducers KernelDurability KernelReplay KernelSteps KernelLive KernelLiveRuns
  KernelRestores KernelTerminal

variable {Ext : Type} {ExtAnswer : Ext → Type}
variable {kernel : RuntimeKernel ExtAnswer} {identity : RunIdentity}

private theorem replayEvent_created
    (replayed : replayEvent kernel state pending event now = .ok (next, after))
    (created : next.status = .created) :
    state.status = .created ∧ event.eventType ≠ "node.completed" := by
  rcases replayEvent_cases replayed with ⟨kind, rfl, -⟩ |
    ⟨-, completed, node, -, -, -, reduces, -⟩ | ⟨kind, waiting, payload, -, -, -, reduces, -⟩ |
    ⟨unseen, rfl, -⟩
  · constructor
    · exact created
    · rw [kind]
      decide
  · exact absurd created (reduceCompletedNode_begun reduces)
  · constructor
    · by_contra begun
      exact reduceAfterMiddleware_begun begun reduces created
    · rw [kind]
      decide
  · constructor
    · exact created
    · intro completed
      simp [isNodeEvent, completed] at unseen

private theorem rebuild_created
    (rebuilt : rebuild kernel identity snapshot events = .ok (state, pending))
    (created : state.status = .created) :
    snapshot.status = .created ∧ ∀ event ∈ events,
      snapshot.cursor.checkpointSeq < event.seq → event.eventType ≠ "node.completed" := by
  have folded : ∀ (later : List RunEventEnvelope) (before : RunStateV3)
      (waiting : Option PendingAfterMiddleware),
      later.foldlM (rebuildStep kernel identity) (before, waiting) = .ok (state, pending) →
      before.status = .created ∧ ∀ event ∈ later, event.eventType ≠ "node.completed" := by
    intro later
    induction later with
    | nil =>
      intro before waiting ended
      cases ended
      exact ⟨created, fun _ found => by cases found⟩
    | cons event rest ih =>
      intro before waiting ended
      obtain ⟨⟨next, after⟩, stepped, others⟩ := except_bind ended
      obtain ⟨early, quiet⟩ := ih next after others
      obtain ⟨earlier, other⟩ := replayEvent_created (rebuildStep_ready stepped).2 early
      refine ⟨earlier, fun stored found => ?_⟩
      rcases List.mem_cons.mp found with rfl | found
      · exact other
      · exact quiet stored found
  obtain ⟨early, quiet⟩ := folded _ _ _ rebuilt
  refine ⟨early, fun event found later => ?_⟩
  apply quiet
  exact List.mem_filter.mpr ⟨found, by simpa using later⟩

/-- Every snapshot a run has saved, and every state its middleware is shown after it,
`onError` apart: the events stored after the snapshot's checkpoint, replayed as
`replayAfterCheckpoint` does, give that state. The first snapshot is still
`created`; it agrees from the first completion on. -/
theorem replay_agrees_with_live (kernel : RuntimeKernel ExtAnswer) (identity : RunIdentity)
    (graph : DurableGraph kernel.graph) (before : List (RunAttempt ExtAnswer))
    (last : RunAttempt ExtAnswer)
    (clean : Clean (attemptRuns kernel identity {} (before ++ [last])).trace)
    {earlier : List (Observation Ext)} {context : MiddlewareContext}
    (shown : (attemptRuns kernel identity {} (before ++ [last])).trace =
      earlier ++ [.hooked context]) (visible : context.hook ≠ .onError) {snapshot : RunStateV3}
    (saved : snapshot ∈ savedSince (attemptRuns kernel identity {} before).trace.length
      (attemptRuns kernel identity {} (before ++ [last])).trace)
    (begun : snapshot.status ≠ .created ∨
      ∃ event ∈ (attemptRuns kernel identity {} (before ++ [last])).events,
        event.eventType = "node.completed" ∧ snapshot.cursor.checkpointSeq < event.seq)
    {around : Surroundings ExtAnswer} (steady : Steady around)
    (fence : Option LeaseFence) :
    ∃ again pending after, execute (runHost around identity)
        (replayEvents kernel identity fence snapshot)
        (attemptRuns kernel identity {} (before ++ [last])) = (.returned (again, pending), after) ∧
      SameRun again context.state := by
  have whole : attemptRuns kernel identity {} (before ++ [last]) =
      attemptRun kernel identity (attemptRuns kernel identity {} before) last := by
    simp only [attemptRuns, List.foldl_append, List.foldl_cons, List.foldl_nil]
  have idle : Idle kernel identity (attemptRuns kernel identity {} before).trace.length
      (attemptRuns kernel identity {} (before ++ [last])) := by
    rw [whole]
    exact attemptRun_idle graph last (attemptRuns_journal graph before)
  obtain ⟨running, pending, rebuilds⟩ :=
    idle.shown clean earlier context shown visible snapshot saved
  obtain ⟨state, rebuilt, alike⟩ := rebuilds.rebuilt
  obtain ⟨again, after, executed, same⟩ := replayEvents_rebuilds steady idle.journal.ascending
    idle.journal.own rebuilds.closed rebuilt
  have status : state.status = context.state.status := by
    rcases alike.1 with equal | ⟨early, late⟩
    · exact equal
    rcases late with created | late
    · exact absurd created running
    rcases early with created | early
    · obtain ⟨fresh, quiet⟩ := rebuild_created rebuilt created
      rcases begun with begun | ⟨event, found, completed, later⟩
      · exact absurd fresh begun
      · exact absurd completed (quiet event found later)
    · exact early.trans late.symm
  exact ⟨again, pending, after, executed, same.trans_same (alike.sameRun status)⟩

/-- `first` completes with the value, `second` with none. -/
def valueKernel (value : JsValue) : RuntimeKernel (fun _ : Empty => Unit) where
  graph := twoNodes
  accepted := twoNodes_accepted
  nodes nodeId :=
    if nodeId = "first" then some fun _ => .pure (some { value := some value })
    else if nodeId = "second" then some fun _ => .pure none
    else none
  proposalIntents _ := none
  isTaskState _ := false

theorem twoNodes_durable : DurableGraph twoNodes := by
  refine ⟨⟨by decide, by decide⟩, fun node found => ?_⟩
  simp only [twoNodes, List.mem_cons, List.not_mem_nil, or_false] at found
  rcases found with rfl | rfl <;> exact ⟨by decide, by decide⟩

/-- A run that ends with the `afterNode` call of its first node. -/
def firstNodeRun : RunAttempt (fun _ : Empty => Unit) where
  surroundings := { calmRun.surroundings with alive := fun clock => clock < 28 }
  passes := 3

theorem calmRun_steady : Steady calmRun.surroundings :=
  ⟨fun _ => rfl, fun _ => rfl⟩

/-- The middleware call a trace ends with, if it does. -/
def lastHooked (trace : List (Observation Ext)) : Option MiddlewareContext :=
  match trace.getLast? with
  | some (.hooked context) => some context
  | _ => none

private theorem lastHooked_ends (hooked : lastHooked trace = some context) :
    trace = trace.dropLast ++ [.hooked context] := by
  unfold lastHooked at hooked
  split at hooked
  · rename_i found
    cases hooked
    exact (List.dropLast_append_getLast? _ found).symm
  · cases hooked

/-- A handler result is a text, if anything. -/
def plainResult : Observation Ext → Bool
  | .left _ (some { condition := none, outcome := none, commands := none, facts := none
                    value := some (.string _) }) => true
  | .left _ (some _) => false
  | _ => true

private theorem clean_plain (plain : trace.all plainResult = true) : Clean trace := by
  intro nodeId result found
  have textual := List.all_eq_true.mp plain _ found
  unfold plainResult at textual
  split at textual
  · rename_i same
    cases same
    refine ⟨?_, fun _ absurdity => by cases absurdity⟩
    rintro value ⟨⟩
    exact survives_iff.mpr ⟨.string _, rfl⟩
  · cases textual
  · rename_i other
    exact absurd rfl (other nodeId result)

/-- The first node's value is in the state that replay gives. -/
theorem replay_agrees_with_live_text : ∃ snapshot context, snapshot ∈ savedSince 0
        (attemptRuns (valueKernel (.string "done")) sampleIdentity {} [firstNodeRun]).trace ∧
      lastHooked (attemptRuns (valueKernel (.string "done")) sampleIdentity {}
        [firstNodeRun]).trace = some context ∧
      context.hook = .afterNode ∧
      ∃ again pending after, execute (runHost calmRun.surroundings sampleIdentity)
          (replayEvents (valueKernel (.string "done")) sampleIdentity none snapshot)
          (attemptRuns (valueKernel (.string "done")) sampleIdentity {} [firstNodeRun]) =
            (.returned (again, pending), after) ∧
        SameRun again context.state := by
  have hooked : ((lastHooked (attemptRuns (valueKernel (.string "done")) sampleIdentity {}
      [firstNodeRun]).trace).map MiddlewareContext.hook) = some .afterNode := by decide
  obtain ⟨context, found, visible⟩ := Option.map_eq_some_iff.mp hooked
  have plain : (attemptRuns (valueKernel (.string "done")) sampleIdentity {}
      [firstNodeRun]).trace.all plainResult = true := by decide
  have statuses : (savedSince 0 (attemptRuns (valueKernel (.string "done")) sampleIdentity {}
      [firstNodeRun]).trace).map RunStateV3.status = [.created, .running] := by decide
  have running : RunStatus.running ∈ (savedSince 0 (attemptRuns (valueKernel (.string "done"))
      sampleIdentity {} [firstNodeRun]).trace).map RunStateV3.status := by
    decide
  obtain ⟨snapshot, saved, status⟩ := List.mem_map.mp running
  refine ⟨snapshot, context, saved, found, visible, ?_⟩
  exact replay_agrees_with_live (valueKernel (.string "done")) sampleIdentity twoNodes_durable []
    firstNodeRun (clean_plain plain) (lastHooked_ends found) (by rw [visible]; decide) saved
    (.inl (by rw [status]; decide)) calmRun_steady none

/-- The value that a state has for `first`. -/
def firstValue (state : RunStateV3) : JsValue :=
  nodeDataAt state "first"

def isNaN : JsValue → Bool
  | .number .nan => true
  | _ => false

/-- A replay that ends with another value than `NaN` for `first`. -/
def endsWithoutNaN {ε : Type} : Ending ε (RunStateV3 × Option PendingAfterMiddleware) → Bool
  | .returned (again, _) => !isNaN (firstValue again)
  | _ => false

/-- `first` completes with `NaN`, which is `null` in the stored event: replay from
the running snapshot does not give the state in memory. -/
theorem nan_value_differs_after_replay : ∃ snapshot context, snapshot ∈ savedSince 0
        (attemptRuns (valueKernel (.number .nan)) sampleIdentity {} [firstNodeRun]).trace ∧
      lastHooked (attemptRuns (valueKernel (.number .nan)) sampleIdentity {}
        [firstNodeRun]).trace = some context ∧
      context.hook = .afterNode ∧
      ∃ again pending after, execute (runHost calmRun.surroundings sampleIdentity)
          (replayEvents (valueKernel (.number .nan)) sampleIdentity none snapshot)
          (attemptRuns (valueKernel (.number .nan)) sampleIdentity {} [firstNodeRun]) =
            (.returned (again, pending), after) ∧
        ¬ SameRun again context.state := by
  have hooked : ((lastHooked (attemptRuns (valueKernel (.number .nan)) sampleIdentity {}
      [firstNodeRun]).trace).map fun context =>
        (context.hook, isNaN (firstValue context.state))) = some (.afterNode, true) := by
    decide
  obtain ⟨context, found, shown⟩ := Option.map_eq_some_iff.mp hooked
  have replays : (savedSince 0 (attemptRuns (valueKernel (.number .nan)) sampleIdentity {}
      [firstNodeRun]).trace).getLast?.map (fun snapshot =>
        endsWithoutNaN (execute (runHost calmRun.surroundings sampleIdentity)
          (replayEvents (valueKernel (.number .nan)) sampleIdentity none snapshot)
          (attemptRuns (valueKernel (.number .nan)) sampleIdentity {} [firstNodeRun])).1) =
      some true := by
    decide
  obtain ⟨snapshot, last, replayed⟩ := Option.map_eq_some_iff.mp replays
  refine ⟨snapshot, context, List.mem_of_getLast? last, found, congrArg Prod.fst shown, ?_⟩
  cases executed : execute (runHost calmRun.surroundings sampleIdentity)
      (replayEvents (valueKernel (.number .nan)) sampleIdentity none snapshot)
      (attemptRuns (valueKernel (.number .nan)) sampleIdentity {} [firstNodeRun]) with
  | mk ending after =>
    rw [executed] at replayed
    cases ending with
    | threw error => cases replayed
    | stopped => cases replayed
    | returned replied =>
      refine ⟨replied.1, replied.2, after, rfl, ?_⟩
      rintro ⟨-, _, _, same⟩
      have value : firstValue replied.1 = firstValue context.state := by
        rw [same]
        rfl
      have live : isNaN (firstValue context.state) = true := congrArg Prod.snd shown
      simp only [endsWithoutNaN, value, live, Bool.not_true] at replayed
      cases replayed

end QiongQi.KernelAgreement
