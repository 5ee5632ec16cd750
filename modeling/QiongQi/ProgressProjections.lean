import QiongQi.KernelNodes
import QiongQi.LoopGovernors

/-! `task-progress-projector.ts`: a task state brought up to the thread's todos and to
the observations of a tool step. The projection decides by one test whether there is
a new state and by another whether it reports progress, and its callers store what it
reports. -/
namespace QiongQi.ProgressProjections
open JsonValues JsonSchemas RuntimeContracts RuntimeKernels TaskStates KernelNodes KeyedMaps List
  Machines LoopGovernors

def lastObservationDigests (current : TaskStateV1) : List NonEmptyString :=
  (current.progress.map TaskProgress.lastObservationDigests).getD []

/-- The observations that are new evidence. -/
def freshObservations (current : TaskStateV1) (observations : List ToolObservation) :
    List ToolObservation :=
  (observations.filter fun observation => !observation.failed).filter fun observation =>
    !observation.replayed && !(lastObservationDigests current).contains observation.resultDigest

/-- `[...new Set([...])].slice(-64)`. -/
def nextDigests (current : TaskStateV1) (fresh : List ToolObservation) : List NonEmptyString :=
  lastOf 64 (lastObservationDigests current ++ fresh.map ToolObservation.resultDigest).eraseDups

/-- An action before the schema has seen it. -/
structure ActionDraft where
  id : String
  text : String
  status : ActionStatus
  evidenceItemIds : List NonEmptyString
  deriving DecidableEq

def draftOf (action : TaskAction) : ActionDraft where
  id := action.id.text
  text := action.text.text
  status := action.status
  evidenceItemIds := action.evidenceItemIds

/-- `TaskActionSchema.parse`: a blank id or text is refused. -/
def ActionDraft.parse (draft : ActionDraft) : Option TaskAction := do
  let id ← NonEmptyString.parse draft.id
  let text ← NonEmptyString.parse draft.text
  some { id, text, status := draft.status, evidenceItemIds := draft.evidenceItemIds }

structure TaskActions where
  completed : List ActionDraft
  pending : List ActionDraft

def storedActions (current : TaskStateV1) : TaskActions where
  completed := current.completedActions.map draftOf
  pending := current.pendingActions.map draftOf

/-- The stored action of an id; a state has at most one. -/
def storedAction (current : TaskStateV1) (id : String) : Option TaskAction :=
  find (fun action : TaskAction => action.id.text) id
    (current.completedActions ++ current.pendingActions)

def actionOf (current : TaskStateV1) (todo : TaskTodoProjection) : ActionDraft where
  id := todo.id
  text := todo.content
  status := todo.status
  evidenceItemIds := ((storedAction current todo.id).map TaskAction.evidenceItemIds).getD []

def projectActions (current : TaskStateV1) (todos : List TaskTodoProjection) : TaskActions where
  completed := (todos.filter fun todo => todo.status = .completed).map (actionOf current)
  pending := (todos.filter fun todo => todo.status ≠ .completed).map (actionOf current)

def nextActions (current : TaskStateV1) : Option (List TaskTodoProjection) → TaskActions
  | none => storedActions current
  | some todos => projectActions current todos

/-- The stored status of the todo's id is another one, or there is none. -/
def statusMoved (current : TaskStateV1) (todo : TaskTodoProjection) : Bool :=
  (storedAction current todo.id).map TaskAction.status ≠ some todo.status

def artifactKey (artifact : TaskArtifactRef) : String :=
  artifact.kind.name ++ ":" ++ artifact.path.text ++ ":" ++
    (artifact.producedByCallId.map NonEmptyString.text).getD ""

/-- The map of the stored artifacts by their keys. -/
def storedArtifacts (current : TaskStateV1) : List TaskArtifactRef :=
  current.artifacts.foldl (fun known artifact => setEntry artifactKey artifact known) []

/-- The artifacts that are not known when their turn comes. -/
def newArtifacts (known : List TaskArtifactRef) : List TaskArtifactRef → List TaskArtifactRef
  | [] => []
  | artifact :: rest =>
    if known.any fun other => artifactKey other = artifactKey artifact then newArtifacts known rest
    else artifact :: newArtifacts (known ++ [artifact]) rest

structure TaskProgressDigest where
  level : ProgressLevel
  value : NonEmptyString
  reasons : List String

structure Projection where
  state : TaskStateV1
  digest : TaskProgressDigest

def actionJson (draft : ActionDraft) : Json :=
  .object [("id", .string draft.id), ("text", .string draft.text),
    ("status", actionStatus.write draft.status),
    ("evidenceItemIds", nonEmptyString.array.write draft.evidenceItemIds)]

/-- What the progress digest is taken of. -/
def digestJson (actions : TaskActions) (artifacts : List TaskArtifactRef)
    (digests : List NonEmptyString) : Json :=
  .object [("completedActions", .array (actions.completed.map actionJson)),
    ("pendingActions", .array (actions.pending.map actionJson)),
    ("artifacts", taskArtifactRef.array.write artifacts),
    ("observations", nonEmptyString.array.write digests)]

def safeNatOf (value : Nat) : Option SafeNat :=
  if safe : value ≤ maxSafeInteger then some ⟨value, safe⟩ else none

def safeRevision (value : Nat) : Option PositiveSafeInteger :=
  if safe : 0 < value ∧ value ≤ maxSafeInteger then some ⟨value, safe.1, safe.2⟩ else none

theorem length_lastOf (count : Nat) : (lastOf count values).length ≤ count := by
  rw [lastOf, length_drop]
  omega

theorem nextDigests_bounded : (nextDigests current fresh).length ≤ 64 :=
  length_lastOf 64

/-- The progress of the next state; the digest is kept under its own level. -/
def nextProgress (current : TaskStateV1) (fresh : List ToolObservation) (artifactCount : Nat)
    (level : ProgressLevel) (value : NonEmptyString) : Option TaskProgress := do
  let evidence :=
    (current.progress.map fun progress => progress.evidenceCount.value).getD 0 + fresh.length
  let evidenceCount ← safeNatOf evidence
  let artifactCount ← safeNatOf artifactCount
  let strongDigest := if level = .strong then some value
    else current.progress.bind TaskProgress.strongDigest
  let weakDigest := if level = .weak then some value
    else current.progress.bind TaskProgress.weakDigest
  some {
    strongDigest, weakDigest, evidenceCount, artifactCount
    lastObservationDigests := nextDigests current fresh
    bounded := nextDigests_bounded }

/-- `TaskStateV1Schema.parse` of the next state. -/
def nextState (current : TaskStateV1) (actions : TaskActions) (artifacts : List TaskArtifactRef)
    (progress : Option TaskProgress) (now : NonEmptyString) : Option TaskStateV1 := do
  let revision ← safeRevision (current.revision.value + 1)
  let completedActions ← actions.completed.mapM ActionDraft.parse
  let pendingActions ← actions.pending.mapM ActionDraft.parse
  let progress ← progress
  if distinct : ((completedActions ++ pendingActions).map TaskAction.id).Nodup then
    some { current with
      revision, completedActions, pendingActions, artifacts
      progress := some progress
      updatedAt := now
      actionsDistinct := distinct }
  else none

def progressLevel (strong : Bool) (fresh : List ToolObservation) : ProgressLevel :=
  if strong then .strong else if fresh.length > 0 then .weak else .none

/-- The next state with its digest, where the schema takes it. -/
def projected (digest : TaskProgressDigest) : Option TaskStateV1 → Except ForeignError Projection
  | none => .error (.error "invalid task state")
  | some state => .ok { state, digest }

/-- `projectTaskState`. The digest is SHA-256 of a canonical text. -/
def projectTaskState (digest : Json → NonEmptyString) (current : TaskStateV1)
    (todos : Option (List TaskTodoProjection)) (observations : List ToolObservation)
    (now : NonEmptyString) : Except ForeignError Projection :=
  let fresh := freshObservations current observations
  let actions := nextActions current todos
  let moved := (todos.getD []).filter (statusMoved current)
  let known := storedArtifacts current
  let added := newArtifacts known (fresh.flatMap ToolObservation.artifactRefs)
  let artifacts := known ++ added
  let strong := !moved.isEmpty || !added.isEmpty
  let reasons :=
    (moved.map fun todo => "action:" ++ todo.id ++ ":" ++ todo.status.name) ++
      (added.map fun artifact => "artifact:" ++ artifact.path.text) ++
      (if fresh.length > 0 then ["evidence:" ++ toString fresh.length] else [])
  let changed := strong || fresh.length > 0 ||
    actions.completed ≠ (storedActions current).completed ||
    actions.pending ≠ (storedActions current).pending ||
    artifacts.length ≠ current.artifacts.length
  let level := progressLevel strong fresh
  let value := digest (digestJson actions artifacts (nextDigests current fresh))
  let reported : TaskProgressDigest := { level, value, reasons }
  if changed then
    projected reported (nextState current actions artifacts
      (nextProgress current fresh artifacts.length level value) now)
  else .ok { state := current, digest := reported }

/-- What the projection changes is reported as progress, under a later revision. -/
def Reported (digest : Json → NonEmptyString) (current : TaskStateV1)
    (todos : Option (List TaskTodoProjection)) (observations : List ToolObservation)
    (now : NonEmptyString) : Prop :=
  ∀ projection, projectTaskState digest current todos observations now = .ok projection →
    projection.state ≠ current →
    projection.digest.level ≠ .none ∧ current.revision.value < projection.state.revision.value

/-- An observation that neither failed nor was replayed has a result of its own. -/
def FreshEvidence (current : TaskStateV1) (observations : List ToolObservation) : Prop :=
  ∃ observation ∈ observations, observation.failed = false ∧ observation.replayed = false ∧
    observation.resultDigest ∉ lastObservationDigests current

/-- A given todo has another status than the stored action of its id, if there is one. -/
def StatusGiven (current : TaskStateV1) (todos : Option (List TaskTodoProjection)) : Prop :=
  ∃ todo ∈ todos.getD [], (storedAction current todo.id).map TaskAction.status ≠ some todo.status

/-- The todos are the stored actions again, and no two stored artifacts have one key. -/
def AsStored (current : TaskStateV1) (todos : Option (List TaskTodoProjection)) : Prop :=
  nextActions current todos = storedActions current ∧ (current.artifacts.map artifactKey).Nodup

/-- The schema takes the todos, and the numbers of the next state are safe. -/
structure Acceptable (current : TaskStateV1) (todos : Option (List TaskTodoProjection)) : Prop where
  written : ∀ todo ∈ todos.getD [], jsTrim todo.content ≠ ""
  distinct : ((todos.getD []).map TaskTodoProjection.id).Nodup
  revision : current.revision.value < maxSafeInteger
  artifacts : (storedArtifacts current).length ≤ maxSafeInteger

section Projected

theorem freshObservations_nonempty :
    freshObservations current observations ≠ [] ↔ FreshEvidence current observations := by
  constructor
  · intro present
    obtain ⟨observation, found⟩ := exists_mem_of_ne_nil _ present
    simp only [freshObservations, mem_filter, Bool.and_eq_true, Bool.not_eq_true',
      contains_eq_mem, decide_eq_false_iff_not] at found
    obtain ⟨⟨held, worked⟩, own, unseen⟩ := found
    exact ⟨observation, held, worked, own, unseen⟩
  · rintro ⟨observation, held, worked, own, unseen⟩ empty
    have found : observation ∈ freshObservations current observations := by
      simp [freshObservations, held, worked, own, unseen]
    rw [empty] at found
    exact not_mem_nil found

theorem moved_nonempty :
    (todos.getD []).filter (statusMoved current) ≠ [] ↔ StatusGiven current todos := by
  rw [ne_eq, filter_eq_nil_iff, not_forall]
  simp only [statusMoved, StatusGiven, ne_eq, decide_not, Bool.not_eq_true',
    decide_eq_false_iff_not, Classical.not_imp, not_not]

theorem projected_ok (done : projected reported parsed = .ok projection) :
    parsed = some projection.state ∧ projection.digest = reported := by
  cases parsed with
  | none => cases done
  | some state =>
    cases done
    exact ⟨rfl, rfl⟩

/-- The state of a projection that is no error. -/
theorem projectTaskState_ok
    (done : projectTaskState digest current todos observations now = .ok projection) :
    projection.state = current ∨ ∃ actions artifacts progress,
      nextState current actions artifacts progress now = some projection.state := by
  unfold projectTaskState at done
  dsimp only at done
  split at done
  · exact .inr ⟨_, _, _, (projected_ok done).1⟩
  · cases done
    exact .inl rfl

theorem nextState_revision
    (parsed : nextState current actions artifacts progress now = some state) :
    state.revision.value = current.revision.value + 1 := by
  simp only [nextState, safeRevision, Option.bind_eq_bind, Option.bind_eq_some_iff] at parsed
  obtain ⟨revision, counted, completed, -, pending, -, progress, -, parsed⟩ := parsed
  split at parsed
  · cases parsed
    split at counted
    · cases counted
      rfl
    · cases counted
  · cases parsed

/-- A projection with evidence or a new status reports progress. -/
theorem level_ne_none (moves : FreshEvidence current observations ∨ StatusGiven current todos)
    (done : projectTaskState digest current todos observations now = .ok projection) :
    projection.digest.level ≠ .none := by
  have level : ∀ (moved : List TaskTodoProjection) (added : List TaskArtifactRef)
      (fresh : List ToolObservation), fresh ≠ [] ∨ moved ≠ [] →
      progressLevel (!moved.isEmpty || !added.isEmpty) fresh ≠ .none := by
    intro moved added fresh present
    unfold progressLevel
    split
    · nofun
    · rename_i weak
      rcases present with present | present
      · rw [if_pos (length_pos_of_ne_nil present)]
        nofun
      · simp [isEmpty_eq_false_iff.mpr present] at weak
  have present := moves.imp freshObservations_nonempty.mpr moved_nonempty.mpr
  unfold projectTaskState at done
  dsimp only at done
  split at done
  · rw [(projected_ok done).2]
    exact level _ _ _ present
  · cases done
    exact level _ _ _ present

/-- Drafts whose ids are names are parsed where no text is blank, and keep their ids. -/
theorem mapM_parse {drafts : List ActionDraft}
    (named : ∀ draft ∈ drafts, ∃ id : NonEmptyString, id.text = draft.id) :
    ((drafts.mapM ActionDraft.parse).isSome = true ↔ ∀ draft ∈ drafts, jsTrim draft.text ≠ "") ∧
      ∀ actions, drafts.mapM ActionDraft.parse = some actions →
        actions.map (fun action => action.id.text) = drafts.map ActionDraft.id := by
  induction drafts with
  | nil => exact ⟨by simp, fun actions parsed => by cases parsed; rfl⟩
  | cons draft rest ih =>
    obtain ⟨whole, kept⟩ := ih fun other found => named other (mem_cons_of_mem _ found)
    obtain ⟨id, same⟩ := named draft mem_cons_self
    have first : draft.parse = (NonEmptyString.parse draft.text).map fun text =>
        { id, text, status := draft.status, evidenceItemIds := draft.evidenceItemIds } := by
      rw [ActionDraft.parse, ← same, NonEmptyString.parse_text]
      cases NonEmptyString.parse draft.text <;> rfl
    rw [mapM_cons, first, forall_mem_cons, ← whole]
    by_cases blank : jsTrim draft.text ≠ ""
    · simp only [NonEmptyString.parse, dif_pos blank, Option.map_some, Option.bind_eq_bind, Option.bind_some]
      constructor
      · cases rest.mapM ActionDraft.parse with
        | none => simp
        | some others => simp [blank]
      · intro actions parsed
        obtain ⟨others, found, parsed⟩ := Option.bind_eq_some_iff.mp parsed
        cases parsed
        rw [map_cons, map_cons, kept others found, same]
    · simp only [NonEmptyString.parse, dif_neg blank, Option.map_none, Option.bind_eq_bind, Option.bind_none]
      refine ⟨⟨fun held => ?_, fun both => absurd both.1 blank⟩, fun _ parsed => ?_⟩
      · cases held
      · cases parsed

theorem mem_storedActions
    (found : draft ∈ (storedActions current).completed ++ (storedActions current).pending) :
    ∃ action : TaskAction, draftOf action = draft := by
  rcases mem_append.mp found with found | found
  all_goals
    obtain ⟨action, -, same⟩ := mem_map.mp found
    exact ⟨action, same⟩

/-- Every todo stands for a stored action, whose id is a name. -/
theorem nextActions_named (unmoved : ¬ StatusGiven current todos) :
    ∀ draft ∈ (nextActions current todos).completed ++ (nextActions current todos).pending,
      ∃ id : NonEmptyString, id.text = draft.id := by
  cases todos with
  | none =>
    intro draft found
    obtain ⟨action, rfl⟩ := mem_storedActions found
    exact ⟨action.id, rfl⟩
  | some todos =>
    intro draft found
    have given : ∃ todo ∈ todos, actionOf current todo = draft := by
      rcases mem_append.mp found with found | found
      all_goals
        obtain ⟨todo, held, same⟩ := mem_map.mp found
        exact ⟨todo, (mem_filter.mp held).1, same⟩
    obtain ⟨todo, held, rfl⟩ := given
    have kept : (storedAction current todo.id).map TaskAction.status = some todo.status :=
      Classical.not_not.mp fun other => unmoved ⟨todo, held, other⟩
    obtain ⟨action, stored, -⟩ := Option.map_eq_some_iff.mp kept
    exact ⟨action.id, (find_mem stored).2⟩

theorem nextActions_texts (current : TaskStateV1) (todos : Option (List TaskTodoProjection)) :
    (∀ draft ∈ (nextActions current todos).completed ++ (nextActions current todos).pending,
        jsTrim draft.text ≠ "") ↔
      ∀ todo ∈ todos.getD [], jsTrim todo.content ≠ "" := by
  cases todos with
  | none =>
    refine ⟨fun _ todo found => absurd found not_mem_nil, fun _ draft found => ?_⟩
    obtain ⟨action, rfl⟩ := mem_storedActions found
    have text : (draftOf action).text = action.text.text := rfl
    rw [text, action.text.trimmed]
    exact action.text.nonempty
  | some todos =>
    simp only [nextActions, projectActions, mem_append, mem_map, mem_filter,
      Option.getD_some, decide_eq_true_eq]
    constructor
    · intro written todo held
      by_cases done : todo.status = .completed
      · exact written (actionOf current todo) (.inl ⟨todo, ⟨held, done⟩, rfl⟩)
      · exact written (actionOf current todo) (.inr ⟨todo, ⟨held, done⟩, rfl⟩)
    · rintro written draft (⟨todo, ⟨held, -⟩, rfl⟩ | ⟨todo, ⟨held, -⟩, rfl⟩)
      all_goals exact written todo held

theorem text_injective : Function.Injective NonEmptyString.text := by
  rintro ⟨left, _, _⟩ ⟨right, _, _⟩ same
  cases same
  rfl

theorem nextActions_ids (current : TaskStateV1) (todos : Option (List TaskTodoProjection)) :
    (((nextActions current todos).completed ++ (nextActions current todos).pending).map
        ActionDraft.id).Nodup ↔ ((todos.getD []).map TaskTodoProjection.id).Nodup := by
  cases todos with
  | none =>
    have stored : ((storedActions current).completed ++ (storedActions current).pending).map
        ActionDraft.id = ((current.completedActions ++ current.pendingActions).map
          TaskAction.id).map NonEmptyString.text := by
      simp [storedActions, draftOf, Function.comp_def]
    refine ⟨fun _ => nodup_nil, fun _ => ?_⟩
    rw [nextActions, stored]
    exact current.actionsDistinct.map text_injective
  | some todos =>
    have ids : ((projectActions current todos).completed ++
        (projectActions current todos).pending).map ActionDraft.id =
          ((todos.filter fun todo => todo.status = .completed) ++
            todos.filter fun todo => !decide (todo.status = .completed)).map
              TaskTodoProjection.id := by
      simp [projectActions, actionOf, Function.comp_def]
    rw [nextActions, ids, Option.getD_some]
    exact ((filter_append_perm _ todos).map _).nodup_iff

theorem nextProgress_isSome (current : TaskStateV1) (value : NonEmptyString) (count : Nat) :
    (nextProgress current [] count .none value).isSome = true ↔ count ≤ maxSafeInteger := by
  have evidence : (current.progress.map fun progress => progress.evidenceCount.value).getD 0 +
      ([] : List ToolObservation).length ≤ maxSafeInteger := by
    cases current.progress with
    | none => exact Nat.zero_le _
    | some progress => exact progress.evidenceCount.safe
  unfold nextProgress safeNatOf
  dsimp only
  rw [dif_pos evidence]
  by_cases safe : count ≤ maxSafeInteger
  · simp [safe]
  · simp [safe]

/-- Where no status moved, the schema takes the next state exactly if it is acceptable. -/
theorem nextState_isSome (unmoved : ¬ StatusGiven current todos) :
    (nextState current (nextActions current todos) (storedArtifacts current)
        (nextProgress current [] (storedArtifacts current).length .none value) now).isSome = true ↔
      Acceptable current todos := by
  have named := nextActions_named unmoved
  obtain ⟨completedParse, completedIds⟩ :=
    mapM_parse fun draft found => named draft (mem_append_left _ found)
  obtain ⟨pendingParse, pendingIds⟩ :=
    mapM_parse fun draft found => named draft (mem_append_right _ found)
  have texts := nextActions_texts current todos
  have ids := nextActions_ids current todos
  rw [forall_mem_append, ← completedParse, ← pendingParse] at texts
  have counted := nextProgress_isSome current value (storedArtifacts current).length
  unfold nextState safeRevision
  constructor
  · intro parsed
    obtain ⟨state, parsed⟩ := Option.isSome_iff_exists.mp parsed
    simp only [Option.bind_eq_bind, Option.bind_eq_some_iff] at parsed
    obtain ⟨revision, safe, completed, parsedCompleted, pending, parsedPending, progress, made,
      parsed⟩ := parsed
    split at parsed
    · rename_i distinct
      split at safe
      · rename_i below
        refine ⟨texts.mp ⟨by rw [parsedCompleted]; rfl, by rw [parsedPending]; rfl⟩, ids.mp ?_,
          Nat.lt_of_succ_le below.2, counted.mp (by rw [made]; rfl)⟩
        rw [map_append, ← completedIds completed parsedCompleted,
          ← pendingIds pending parsedPending, ← map_append]
        have kept := distinct.map text_injective
        rwa [map_map] at kept
      · cases safe
    · cases parsed
  · rintro ⟨written, distinct, revision, artifacts⟩
    obtain ⟨completed, parsedCompleted⟩ :=
      Option.isSome_iff_exists.mp (texts.mpr written).1
    obtain ⟨pending, parsedPending⟩ := Option.isSome_iff_exists.mp (texts.mpr written).2
    obtain ⟨progress, made⟩ := Option.isSome_iff_exists.mp (counted.mpr artifacts)
    have apart : ((completed ++ pending).map TaskAction.id).Nodup := by
      have texts := ids.mpr distinct
      rw [map_append, ← completedIds completed parsedCompleted,
        ← pendingIds pending parsedPending, ← map_append] at texts
      refine List.Nodup.of_map NonEmptyString.text ?_
      rwa [map_map]
    rw [dif_pos ⟨Nat.succ_pos _, revision⟩, parsedCompleted, parsedPending, made]
    simp only [Option.bind_eq_bind, Option.bind_some, dif_pos apart]
    rfl

/-- Without evidence and a new status the projection only looks for edits, and calls
them no progress. -/
theorem projectTaskState_quiet (stale : ¬ FreshEvidence current observations)
    (unmoved : ¬ StatusGiven current todos) :
    ∃ reported : TaskProgressDigest, reported.level = .none ∧
      (AsStored current todos → projectTaskState digest current todos observations now =
        .ok { state := current, digest := reported }) ∧
      (¬ AsStored current todos → projectTaskState digest current todos observations now =
        projected reported (nextState current (nextActions current todos) (storedArtifacts current)
          (nextProgress current [] (storedArtifacts current).length .none reported.value)
          now)) := by
  have fresh : freshObservations current observations = [] :=
    Classical.not_not.mp (freshObservations_nonempty.not.mpr stale)
  have moved : (todos.getD []).filter (statusMoved current) = [] :=
    Classical.not_not.mp (moved_nonempty.not.mpr unmoved)
  have keyed := length_foldl_setEntry artifactKey current.artifacts
  refine ⟨⟨.none, digest (digestJson (nextActions current todos) (storedArtifacts current)
    (nextDigests current [])), []⟩, rfl, ?_⟩
  unfold projectTaskState
  simp only [fresh, moved, flatMap_nil, newArtifacts, append_nil, isEmpty_nil,
    Bool.not_true, Bool.or_false, Bool.false_or, length_nil, gt_iff_lt, Nat.lt_irrefl,
    decide_false, map_nil, progressLevel, if_false, Bool.false_eq_true]
  constructor
  · intro stored
    simp [stored.1, storedArtifacts, keyed.mpr stored.2]
  · intro edited
    rw [if_pos]
    by_contra same
    simp only [Bool.or_eq_true, decide_eq_true_eq, not_or, not_not] at same
    refine edited ⟨?_, keyed.mp same.2⟩
    calc nextActions current todos
        = ⟨(nextActions current todos).completed, (nextActions current todos).pending⟩ := rfl
      _ = storedActions current := by rw [same.1.1, same.1.2]

theorem not_reported (stale : ¬ FreshEvidence current observations)
    (unmoved : ¬ StatusGiven current todos) (edited : ¬ AsStored current todos)
    (acceptable : Acceptable current todos) : ¬ Reported digest current todos observations now := by
  intro reports
  obtain ⟨reported, level, -, changed⟩ := projectTaskState_quiet stale unmoved
  obtain ⟨state, parsed⟩ := Option.isSome_iff_exists.mp ((nextState_isSome unmoved).mpr acceptable)
  have done := changed edited
  rw [parsed] at done
  have later := nextState_revision parsed
  have differs : state ≠ current := fun same => by
    rw [same] at later
    omega
  exact (reports ⟨state, reported⟩ done differs).1 level

end Projected

/-- Changes go unreported exactly where there is neither evidence nor a new status, and
the todos are acceptable and not what is stored. -/
theorem reported_iff (digest : Json → NonEmptyString) (current : TaskStateV1)
    (todos : Option (List TaskTodoProjection)) (observations : List ToolObservation)
    (now : NonEmptyString) :
    Reported digest current todos observations now ↔
      FreshEvidence current observations ∨ StatusGiven current todos ∨ AsStored current todos ∨
        ¬ Acceptable current todos := by
  constructor
  · intro reports
    by_contra none
    simp only [not_or, not_not] at none
    obtain ⟨stale, unmoved, edited, acceptable⟩ := none
    exact not_reported stale unmoved edited acceptable reports
  · intro holds projection done differs
    by_cases moves : FreshEvidence current observations ∨ StatusGiven current todos
    · refine ⟨level_ne_none moves done, ?_⟩
      rcases projectTaskState_ok done with same | ⟨_, _, _, parsed⟩
      · exact absurd same differs
      · rw [nextState_revision parsed]
        exact Nat.lt_succ_self _
    · obtain ⟨stale, unmoved⟩ := not_or.mp moves
      obtain ⟨reported, -, kept, changed⟩ := projectTaskState_quiet stale unmoved
      by_cases stored : AsStored current todos
      · rw [kept stored] at done
        cases done
        exact absurd rfl differs
      · rw [changed stored] at done
        have acceptable := (nextState_isSome unmoved).mp
          (Option.isSome_iff_exists.mpr ⟨_, (projected_ok done).1⟩)
        rcases holds with evidence | moved | same | refused
        · exact absurd evidence stale
        · exact absurd moved unmoved
        · exact absurd same stored
        · exact absurd acceptable refused

/-- A task with one action that is under way. -/
def readTask : TaskStateV1 where
  identity := KernelRuns.sampleIdentity
  revision := ⟨2, Nat.two_pos, by decide⟩
  source := {
    objectiveItemId := named "u1"
    sourceItemIds := ⟨[named "u1"], List.cons_ne_nil _ _⟩
    sourceDigest := named "source" }
  objective := named "report"
  constraints := []
  completedActions := []
  pendingActions := [{ id := named "a1", text := named "read", status := .inProgress }]
  activeSkillIds := []
  artifacts := []
  toolLedger := []
  createdAt := named "now"
  updatedAt := named "now"
  actionsDistinct := nodup_singleton _
  ledgerDistinct := nodup_nil

/-- The user words the todo anew. -/
def rewordedTodos : List TaskTodoProjection :=
  [{ id := (named "a1").text, content := "read all", status := .inProgress }]

theorem reworded_unreported :
    ¬ Reported (fun _ => named "digest") readTask (some rewordedTodos) [] (named "later") := by
  refine not_reported ?_ ?_ ?_ ⟨?_, ?_, by decide, by decide⟩
  · rintro ⟨observation, found, -⟩
    exact not_mem_nil found
  · rintro ⟨todo, found, moved⟩
    rw [mem_singleton.mp found] at moved
    exact moved (by decide)
  · rintro ⟨same, -⟩
    exact absurd (congrArg TaskActions.pending same) (by decide)
  · intro todo found
    rw [mem_singleton.mp found]
    decide
  · exact nodup_singleton _

end QiongQi.ProgressProjections
