import QiongQi.KernelReducers

/-! What survives storage: payloads that read back as themselves, states that a
snapshot store returns unchanged, and the reducers that keep them so. A handler's
value and outcome are the only data that reach a payload unchecked. -/
namespace QiongQi.KernelDurability
open JsonValues Programs RuntimeContracts MiddlewareCommands ExecutionGraphs RuntimeKernels
  KernelRuns KernelReducers

variable {Ext : Type} {ExtAnswer : Ext → Type}

/-- A handler result that JSON and the outcome schema leave alone. -/
structure Lasting (result : RuntimeNodeResult) : Prop where
  value : ∀ value, result.value = some value → value.Survives
  outcome : ∀ outcome, result.outcome = some outcome → RunOutcome.persist outcome = some outcome

variable {outcome : RunOutcome} {fields : List (String × JsValue)}
variable {commands : List MiddlewareCommand} {payload : CompletedNodePayload}
variable {state next : RunStateV3} {node : RuntimeNode}

private theorem persisted_details (stable : RunOutcome.persist outcome = some outcome) :
    outcome.details.map (fun details => fieldsToJs (serializeFields details)) = outcome.details := by
  obtain ⟨_, _, same⟩ := RunOutcome.persist_some_iff.mp stable
  exact (congrArg RunOutcome.details same).symm

theorem outcomeToJs_json (stable : RunOutcome.persist outcome = some outcome) :
    outcomeToJs outcome = (outcomeJson outcome).toJs := by
  have details := persisted_details stable
  simp only [outcomeToJs, outcomeJson, outcomeFields, Json.toJs, fieldsToJs_map, List.map_append,
    List.map_cons, List.map_nil]
  cases outcome.userVisibleItemId <;> cases kept : outcome.details with
  | none => rfl
  | some fields =>
    rw [kept] at details
    have same : fieldsToJs (serializeFields fields) = fields := Option.some.inj details
    simp only [optionalJson, List.map_cons, List.map_nil, Json.toJs, same]

theorem outcomeFromJs_toJs : outcomeFromJs (outcomeToJs outcome) = some outcome := by
  obtain ⟨status, reason, itemId, retryable, details⟩ := outcome
  cases itemId <;> cases details <;>
    simp [outcomeToJs, outcomeFromJs, List.lookup_cons, parseEnum_status, parseEnum_reason]

private theorem requireName_ok {key name read : String} (present : fields.lookup key = some (.string name))
    (found : requireName fields key message = .ok read) : read = name := by
  simp only [requireName, present] at found
  split at found
  · cases found
  · exact (Except.ok.inj found).symm

private theorem requireStepIndex_ok {stepIndex read : Nat}
    (present : fields.lookup "stepIndex" = some (.number (.finite stepIndex)))
    (found : requireStepIndex fields message = .ok read) : read = stepIndex := by
  simpa [requireStepIndex, present, eq_comm] using found

private theorem requireCommands_ok {read : List MiddlewareCommand}
    (present : fields.lookup "commands" = some (commandsJson commands).toJs)
    (found : requireCommands fields message = .ok raw)
    (accepted : canonicalizeMiddlewareCommands (.array raw) = .ok read) : read = commands := by
  have shape : (commandsJson commands).toJs = .array (listToJs (commands.map MiddlewareCommand.toJson)) := rfl
  simp only [requireCommands, present, shape] at found
  cases found
  rw [← shape, canonicalize_commandsJson] at accepted
  exact (Except.ok.inj accepted).symm

/-- A `node.completed` payload in memory is parsed back to itself. -/
theorem parseCompletedNodePayload_toJs {parsed : CompletedNodePayload}
    (found : parseCompletedNodePayload payload.toJs = .ok parsed) : parsed = payload := by
  have facts : optionalFacts payload.fields = .ok payload.facts := by
    cases facts : payload.facts <;> cases value : payload.value <;>
      cases outcome : payload.outcome <;>
      simp [optionalFacts, CompletedNodePayload.fields, presentField, facts, value, outcome,
        List.lookup_cons, Json.toJs]
  have value : payload.fields.lookup "value" = payload.value := by
    cases facts : payload.facts <;> cases value : payload.value <;>
      cases outcome : payload.outcome <;>
      simp [CompletedNodePayload.fields, presentField, facts, value, outcome, List.lookup_cons]
  have outcome : (payload.fields.lookup "outcome").bind outcomeFromJs = payload.outcome := by
    cases facts : payload.facts <;> cases value : payload.value <;>
      cases outcome : payload.outcome <;>
      simp [CompletedNodePayload.fields, presentField, facts, value, outcome, List.lookup_cons,
        outcomeFromJs_toJs]
  obtain ⟨nodeId, named, found⟩ := except_bind found
  obtain ⟨stepIndex, numbered, found⟩ := except_bind found
  obtain ⟨condition, conditioned, found⟩ := except_bind found
  obtain ⟨raw, listed, found⟩ := except_bind found
  obtain ⟨_, same, found⟩ := except_bind found
  obtain ⟨commands, accepted, found⟩ := except_bind found
  cases found
  rw [requireName_ok rfl named, requireStepIndex_ok rfl numbered, requireName_ok rfl conditioned,
    requireCommands_ok rfl listed accepted, value, outcome]
  rw [facts] at same
  cases same
  rfl

private theorem storedFields : ∃ rest, fieldsToJs (serializeFields payload.fields) =
        [("nodeId", .string payload.nodeId), ("stepIndex", .number (.finite payload.stepIndex)),
          ("condition", .string payload.condition),
          ("commands", (commandsJson payload.commands).toJs)] ++
        presentField "facts" (fun facts => (Json.object facts).toJs) payload.facts ++ rest ∧
      (rest.lookup "facts" = none) ∧
      rest.lookup "value" = (payload.value.bind JsValue.serialize).map Json.toJs := by
  refine ⟨fieldsToJs (serializeFields (presentField "value" id payload.value ++
    presentField "outcome" outcomeToJs payload.outcome)), ?_, ?_, ?_⟩
  · cases facts : payload.facts <;>
      simp [CompletedNodePayload.fields, presentField, facts, serializeFields, JsValue.serialize,
        JsNumber.toJson, fieldsToJs, Json.toJs]
  all_goals
    cases value : payload.value with
    | none =>
      cases outcome : payload.outcome <;>
        simp [presentField, serializeFields, fieldsToJs, outcomeToJs, JsValue.serialize, List.lookup_cons]
    | some found =>
      cases written : found.serialize <;> cases outcome : payload.outcome <;>
        simp [presentField, serializeFields, fieldsToJs, outcomeToJs, JsValue.serialize, List.lookup_cons,
          written]

/-- A stored completion keeps its node and its commands; its value is what JSON
keeps of it. -/
theorem parseCompletedNodePayload_stored {again : CompletedNodePayload}
    (found : parseCompletedNodePayload (.object (fieldsToJs (serializeFields payload.fields))) =
      .ok again) : again.nodeId = payload.nodeId ∧ again.commands = payload.commands ∧
      again.value = (payload.value.bind JsValue.serialize).map Json.toJs := by
  obtain ⟨rest, shape, -, value⟩ := storedFields
  rw [shape] at found
  obtain ⟨nodeId, named, found⟩ := except_bind found
  obtain ⟨stepIndex, _, found⟩ := except_bind found
  obtain ⟨condition, _, found⟩ := except_bind found
  obtain ⟨raw, listed, found⟩ := except_bind found
  obtain ⟨_, _, found⟩ := except_bind found
  obtain ⟨commands, accepted, found⟩ := except_bind found
  cases found
  refine ⟨requireName_ok rfl named, requireCommands_ok rfl listed accepted, ?_⟩
  rw [← value]
  cases payload.facts <;> simp [presentField, List.lookup_cons]

private theorem outcomeFromJs_stored :
    (((outcomeToJs outcome).serialize.map Json.toJs).bind outcomeFromJs).isSome := by
  obtain ⟨status, reason, itemId, retryable, details⟩ := outcome
  cases itemId <;> cases details <;>
    simp [outcomeToJs, outcomeFromJs, JsValue.serialize, serializeFields, fieldsToJs, Json.toJs,
      List.lookup_cons, parseEnum_status, parseEnum_reason]

/-- So it does its condition, and whether it ends the run. -/
theorem parseCompletedNodePayload_continues {again : CompletedNodePayload}
    (found : parseCompletedNodePayload (.object (fieldsToJs (serializeFields payload.fields))) = .ok again) :
    again.condition = payload.condition ∧ again.outcome.isSome = payload.outcome.isSome := by
  have outcome : (((fieldsToJs (serializeFields payload.fields)).lookup "outcome").bind
      outcomeFromJs).isSome = payload.outcome.isSome := by
    have stored : (fieldsToJs (serializeFields payload.fields)).lookup "outcome" =
        (payload.outcome.map outcomeToJs).bind fun value => value.serialize.map Json.toJs := by
      cases facts : payload.facts <;> cases value : payload.value with
      | none =>
        cases outcome : payload.outcome <;>
          simp [CompletedNodePayload.fields, presentField, facts, value, outcome, serializeFields,
            fieldsToJs, outcomeToJs, JsValue.serialize, JsNumber.toJson, Json.toJs,
            List.lookup_cons]
      | some found =>
        cases written : found.serialize <;> cases outcome : payload.outcome <;>
          simp [CompletedNodePayload.fields, presentField, facts, value, outcome, serializeFields,
            fieldsToJs, outcomeToJs, JsValue.serialize, JsNumber.toJson, Json.toJs,
            List.lookup_cons, written]
    rw [stored]
    cases payload.outcome with
    | none => rfl
    | some outcome => exact outcomeFromJs_stored
  obtain ⟨rest, shape, -, -⟩ := storedFields
  obtain ⟨nodeId, named, found⟩ := except_bind found
  obtain ⟨stepIndex, _, found⟩ := except_bind found
  obtain ⟨condition, conditioned, found⟩ := except_bind found
  obtain ⟨raw, listed, found⟩ := except_bind found
  obtain ⟨_, _, found⟩ := except_bind found
  obtain ⟨commands, accepted, found⟩ := except_bind found
  cases found
  refine ⟨?_, outcome⟩
  rw [shape] at conditioned
  exact requireName_ok rfl conditioned

/-- A completion that is read at all is read back from its line. -/
theorem parseCompletedNodePayload_readable
    (found : parseCompletedNodePayload payload.toJs = .ok parsed) :
    ∃ again, parseCompletedNodePayload (.object (fieldsToJs (serializeFields payload.fields))) =
      .ok again := by
  obtain ⟨rest, shape, facts, -⟩ := storedFields
  obtain ⟨nodeId, named, found⟩ := except_bind found
  obtain ⟨stepIndex, numbered, found⟩ := except_bind found
  obtain ⟨condition, conditioned, found⟩ := except_bind found
  obtain ⟨raw, listed, found⟩ := except_bind found
  obtain ⟨read, factual, found⟩ := except_bind found
  obtain ⟨commands, accepted, found⟩ := except_bind found
  have sameFacts : optionalFacts (fieldsToJs (serializeFields payload.fields)) = .ok payload.facts := by
    rw [shape]
    cases present : payload.facts <;>
      simp [optionalFacts, presentField, List.lookup_cons, facts, Json.toJs]
  have listed : requireCommands (fieldsToJs (serializeFields payload.fields))
      "invalid node.completed commands" = .ok raw := by
    rw [shape]
    exact listed
  refine ⟨{ nodeId, stepIndex, condition, commands, facts := payload.facts
            value := (fieldsToJs (serializeFields payload.fields)).lookup "value"
            outcome := ((fieldsToJs (serializeFields payload.fields)).lookup "outcome").bind
              outcomeFromJs }, ?_⟩
  have named : requireName (fieldsToJs (serializeFields payload.fields)) "nodeId"
      "invalid node.completed nodeId" = .ok nodeId := by
    exact named
  have numbered : requireStepIndex (fieldsToJs (serializeFields payload.fields))
      "invalid node.completed stepIndex" = .ok stepIndex := by
    exact numbered
  have conditioned : requireName (fieldsToJs (serializeFields payload.fields)) "condition"
      "invalid node.completed condition" = .ok condition := by
    exact conditioned
  simp only [parseCompletedNodePayload, named, numbered, conditioned, listed, sameFacts, accepted,
    bind, Except.bind]
  rfl

theorem parseAfterMiddlewarePayload_toJs {payload parsed : AfterMiddlewarePayload}
    (found : parseAfterMiddlewarePayload payload.toJs = .ok parsed) : parsed = payload := by
  have outcome : (payload.fields.lookup "outcome").bind outcomeFromJs = payload.outcome := by
    cases outcome : payload.outcome <;>
      simp [AfterMiddlewarePayload.fields, presentField, outcome, List.lookup_cons, outcomeFromJs_toJs]
  obtain ⟨nodeId, named, found⟩ := except_bind found
  obtain ⟨stepIndex, numbered, found⟩ := except_bind found
  obtain ⟨raw, listed, found⟩ := except_bind found
  obtain ⟨commands, accepted, found⟩ := except_bind found
  cases found
  rw [requireName_ok rfl named, requireStepIndex_ok rfl numbered,
    requireCommands_ok rfl listed accepted, outcome]

private theorem presentField_json (toJs : α → JsValue) (value : Option α)
    (survives : ∀ found, value = some found → (toJs found).Survives) :
    ∃ fields, presentField key toJs value = fieldsToJs fields := by
  cases value with
  | none => exact ⟨[], rfl⟩
  | some found =>
    obtain ⟨document, same⟩ := survives_iff.mp (survives found rfl)
    exact ⟨[(key, document)], by simp only [presentField, same, fieldsToJs]⟩

private theorem fieldsToJs_append :
    fieldsToJs (left ++ right) = fieldsToJs left ++ fieldsToJs right := by
  simp only [fieldsToJs_map, List.map_append]

theorem outcomeToJs_survives (stable : RunOutcome.persist outcome = some outcome) :
    (outcomeToJs outcome).Survives :=
  survives_iff.mpr ⟨_, outcomeToJs_json stable⟩

/-- A completion reads back from its line unchanged when its value and outcome do. -/
theorem completedPayload_survives (value : ∀ value, payload.value = some value → value.Survives)
    (outcome : ∀ outcome, payload.outcome = some outcome → RunOutcome.persist outcome = some outcome) :
    payload.toJs.Survives := by
  obtain ⟨facts, sameFacts⟩ := presentField_json (fun facts => (Json.object facts).toJs)
    payload.facts fun facts _ => survives_iff.mpr ⟨_, rfl⟩
  obtain ⟨values, sameValue⟩ := presentField_json id payload.value value
  obtain ⟨outcomes, sameOutcome⟩ := presentField_json outcomeToJs payload.outcome
    fun found present => outcomeToJs_survives (outcome found present)
  refine survives_iff.mpr ⟨.object ([("nodeId", .string payload.nodeId),
    ("stepIndex", .number payload.stepIndex), ("condition", .string payload.condition),
    ("commands", commandsJson payload.commands)] ++ facts ++ values ++ outcomes), ?_⟩
  rw [CompletedNodePayload.toJs, CompletedNodePayload.fields, sameFacts, sameValue, sameOutcome]
  simp only [Json.toJs, fieldsToJs_append]
  rfl

theorem afterMiddlewarePayload_survives {payload : AfterMiddlewarePayload}
    (outcome : ∀ outcome, payload.outcome = some outcome → RunOutcome.persist outcome = some outcome) :
    payload.toJs.Survives := by
  obtain ⟨outcomes, sameOutcome⟩ := presentField_json outcomeToJs payload.outcome
    fun found present => outcomeToJs_survives (outcome found present)
  refine survives_iff.mpr ⟨.object ([("nodeId", .string payload.nodeId),
    ("stepIndex", .number payload.stepIndex),
    ("commands", commandsJson payload.commands)] ++ outcomes), ?_⟩
  rw [AfterMiddlewarePayload.toJs, AfterMiddlewarePayload.fields, sameOutcome]
  rfl

theorem canonicalizeJsonObject_survives (survives : value.Survives) :
    canonicalizeJsonObject value = value := by
  obtain ⟨document, rfl⟩ := survives_iff.mp survives
  cases document <;> simp [canonicalizeJsonObject, Json.toJs]

theorem readBack_survives {event : RunEventEnvelope} (survives : event.payload.Survives) :
    event.readBack = event := by
  have same : event.payload.serialize.map Json.toJs = some event.payload := survives
  simp only [RunEventEnvelope.readBack, same, Option.getD_some]

/-- The outcome a command list carries has passed the schema. -/
theorem commandOutcome_stable (found : commandOutcome commands = some outcome) :
    RunOutcome.persist outcome = some outcome := by
  induction commands with
  | nil => cases found
  | cons command rest ih =>
    cases command with
    | terminate stored final | suspend stored waiting =>
      cases found
      exact stored.stable
    | _ => exact ih found

/-- A name its schema leaves alone. -/
structure Trimmed (name : String) : Prop where
  trimmed : jsTrim name = name
  nonempty : name ≠ ""

theorem Trimmed.parse (trimmed : Trimmed name) :
    NonEmptyString.parse name = some ⟨name, trimmed.trimmed, trimmed.nonempty⟩ :=
  NonEmptyString.parse_text ⟨name, trimmed.trimmed, trimmed.nonempty⟩

theorem NonEmptyString.isTrimmed (name : NonEmptyString) : Trimmed name.text :=
  ⟨name.trimmed, name.nonempty⟩

/-- A graph whose version and node ids the snapshot schema leaves alone. -/
structure DurableGraph (graph : ExecutionGraph) : Prop where
  version : Trimmed graph.version
  nodes : ∀ node ∈ graph.nodes, Trimmed node.id

/-- A state that a snapshot store hands back unchanged. -/
structure Durable (state : RunStateV3) : Prop where
  graphVersion : Trimmed state.graphVersion
  nodeId : Trimmed state.cursor.nodeId
  nodeData : ∃ fields, state.nodeData = fieldsToJs fields
  outcome : ∀ outcome, state.outcome = some outcome → RunOutcome.persist outcome = some outcome

theorem durable_iff : Durable state ↔ RunStateV3.persist state = some state := by
  constructor
  · rintro ⟨graphVersion, nodeId, ⟨fields, nodeData⟩, outcome⟩
    refine RunStateV3.persist_some_iff.mpr
      ⟨_, _, state.outcome, graphVersion.parse, nodeId.parse, ?_, ?_⟩
    · cases found : state.outcome with
      | none => rfl
      | some found => simp [optionalField, outcome _ found]
    · simp only [nodeData, serializeFields_toJs]
      rw [← nodeData]
  · intro persisted
    obtain ⟨graphVersion, nodeId, outcome, _, _, kept, same⟩ :=
      RunStateV3.persist_some_iff.mp persisted
    refine ⟨?_, ?_, ⟨serializeFields state.nodeData, congrArg RunStateV3.nodeData same⟩, ?_⟩
    · rw [congrArg RunStateV3.graphVersion same]
      exact NonEmptyString.isTrimmed graphVersion
    · rw [congrArg (fun state => state.cursor.nodeId) same]
      exact NonEmptyString.isTrimmed nodeId
    · intro found present
      have kind : state.outcome = outcome := congrArg RunStateV3.outcome same
      rw [← kind, present] at kept
      rcases optionalField_some_iff.mp kept with ⟨absurdity, _⟩ | ⟨value, result, first, parsed, last⟩
      · cases absurdity
      · cases first
        cases last
        exact parsed

private theorem assign_json (kept : ∃ documents, fields = fieldsToJs documents)
    (survives : value.Survives) : ∃ documents, assign fields key value = fieldsToJs documents := by
  obtain ⟨documents, rfl⟩ := kept
  obtain ⟨document, rfl⟩ := survives_iff.mp survives
  exact ⟨assign documents key document, by simp only [fieldsToJs_map, map_assign]⟩

private theorem applyCommand_nodeData
    (applied : applyCommand state processed command = .ok (next, after))
    (kept : ∃ documents, state.nodeData = fieldsToJs documents) :
    ∃ documents, next.nodeData = fieldsToJs documents := by
  cases command with
  | setNodeData nodeId value =>
    cases applied
    exact assign_json kept (survives_iff.mpr ⟨value, rfl⟩)
  | addBudget delta usageId =>
    obtain ⟨ids, _, rest⟩ := except_bind applied
    obtain ⟨⟨added, extended⟩, found, final⟩ := except_bind rest
    cases final
    obtain ⟨budgets, middleware, rfl⟩ := addBudget_only found
    exact kept
  | setTaskRevision revision =>
    simp only [applyCommand] at applied
    split at applied <;> cases applied
    exact kept
  | _ =>
    cases applied
    exact kept

private theorem applyCommandList_nodeData :
    ∀ {state next : RunStateV3} {processed : Option (List String)},
      applyCommandList state processed commands = .ok next →
      (∃ documents, state.nodeData = fieldsToJs documents) →
      ∃ documents, next.nodeData = fieldsToJs documents := by
  induction commands with
  | nil =>
    intro state next processed applied kept
    cases applied
    exact kept
  | cons command rest ih =>
    intro state next processed applied kept
    obtain ⟨⟨middle, after⟩, first, others⟩ := except_bind applied
    exact ih others (applyCommand_nodeData first kept)

theorem applyCommands_durable (applied : applyCommands state commands = .ok next)
    (durable : Durable state) : Durable next := by
  have header := applyCommands_header applied
  rw [applyCommands_eq] at applied
  exact ⟨header.graphVersion ▸ durable.graphVersion, header.cursor ▸ durable.nodeId,
    applyCommandList_nodeData applied durable.nodeData, header.outcome ▸ durable.outcome⟩

theorem withOutcome_durable (stable : RunOutcome.persist outcome = some outcome)
    (durable : Durable state) : Durable (withOutcome state outcome now) := by
  unfold withOutcome
  split
  · exact durable
  · refine ⟨durable.graphVersion, durable.nodeId, durable.nodeData, ?_⟩
    rintro found ⟨⟩
    exact stable

variable {kernel : RuntimeKernel ExtAnswer}

theorem nodeFor_mem (found : nodeFor graph nodeId = .ok node) :
    node ∈ graph.nodes ∧ node.id = nodeId := by
  unfold nodeFor at found
  cases known : graph.nodes.find? fun candidate => candidate.id = nodeId with
  | none =>
    rw [known] at found
    cases found
  | some candidate =>
    rw [known] at found
    cases found
    exact ⟨List.mem_of_find?_eq_some known, by simpa using List.find?_some known⟩

section
variable (graph : DurableGraph kernel.graph)
include graph

private theorem nodeFor_trimmed
    (found : nodeFor kernel.graph nodeId = .ok node) : Trimmed nodeId := by
  obtain ⟨member, rfl⟩ := nodeFor_mem found
  exact graph.nodes node member

/-- A completion that lasts leaves a durable state durable. -/
theorem reduceCompletedNode_durable
    (value : ∀ value, payload.value = some value → value.Survives)
    (stable : ∀ outcome, payload.outcome = some outcome → RunOutcome.persist outcome = some outcome)
    (reduced : reduceCompletedNode kernel state node payload seq now = .ok next)
    (durable : Durable state) : Durable next := by
  obtain ⟨applied, commands, rest⟩ := except_bind reduced
  have header := withNodeValue_header applied node.id payload.value
  have appliedDurable := applyCommands_durable commands durable
  have recorded : Durable (withNodeValue applied node.id payload.value) := by
    refine ⟨header.graphVersion ▸ appliedDurable.graphVersion,
      header.cursor ▸ appliedDurable.nodeId, ?_, header.outcome ▸ appliedDurable.outcome⟩
    cases present : payload.value with
    | none => exact appliedDurable.nodeData
    | some found => exact assign_json appliedDurable.nodeData (value found present)
  cases present : payload.outcome with
  | some outcome =>
    rw [present] at rest
    cases rest
    have outcomed : Durable (withOutcome (withNodeValue applied node.id payload.value) outcome
        now) := withOutcome_durable (stable outcome present) recorded
    exact ⟨outcomed.graphVersion, recorded.nodeId, outcomed.nodeData, outcomed.outcome⟩
  | none =>
    rw [present] at rest
    obtain ⟨target, _, rest⟩ := except_bind rest
    obtain ⟨found, known, final⟩ := except_bind rest
    cases final
    exact ⟨recorded.graphVersion, nodeFor_trimmed graph known, recorded.nodeData, recorded.outcome⟩

theorem reduceAfterMiddleware_durable {payload : AfterMiddlewarePayload}
    (stable : ∀ outcome, payload.outcome = some outcome → RunOutcome.persist outcome = some outcome)
    (reduced : reduceAfterMiddleware kernel state payload seq now = .ok next)
    (durable : Durable state) : Durable next := by
  obtain ⟨outcomed, settled, rest⟩ := except_bind reduced
  obtain ⟨moved, controlled, final⟩ := except_bind rest
  cases final
  have outcomedDurable : Durable outcomed := by
    simp only [afterMiddlewareState] at settled
    split at settled
    · cases settled
      exact durable
    · obtain ⟨applied, commands, final⟩ := except_bind settled
      cases final
      have appliedDurable := applyCommands_durable commands durable
      split
      · rename_i outcome found
        refine withOutcome_durable ?_ appliedDurable
        cases present : payload.outcome with
        | some first =>
          rw [present] at found
          cases found
          exact stable _ present
        | none =>
          rw [present] at found
          exact commandOutcome_stable found
      · exact appliedDurable
  have movedDurable : Durable moved := by
    simp only [afterMiddlewareCursor] at controlled
    split at controlled
    · cases controlled
      exact outcomedDurable
    · simp only [applyControl] at controlled
      split at controlled
      · cases controlled
        exact outcomedDurable
      · obtain ⟨found, known, final⟩ := except_bind controlled
        cases final
        exact ⟨outcomedDurable.graphVersion, nodeFor_trimmed graph known, outcomedDurable.nodeData,
          outcomedDurable.outcome⟩
  exact ⟨movedDurable.graphVersion, movedDurable.nodeId, movedDurable.nodeData, movedDurable.outcome⟩

end

private theorem accountingDetour_durable (trimmed : Trimmed version) (durable : Durable state) :
    Durable (accountingDetour state version marker resumeNodeId) := by
  have nodeId : Trimmed "account-model" := ⟨by decide, by decide⟩
  unfold accountingDetour
  split
  · exact ⟨trimmed, nodeId, durable.nodeData, durable.outcome⟩
  · refine ⟨trimmed, nodeId, assign_json durable.nodeData ?_, durable.outcome⟩
    exact survives_iff.mpr ⟨.object [("resumeNodeId", .string resumeNodeId), ("consumed", .bool false)], rfl⟩

private theorem revalidateProposal_durable (trimmed : Trimmed version) (durable : Durable state) :
    Durable (revalidateProposal state version prepared now) := by
  have nodeId : Trimmed (if version = productionV3 then "account-model" else "evaluate") := by
    split <;> exact ⟨by decide, by decide⟩
  unfold revalidateProposal
  simp only
  split
  · exact ⟨trimmed, nodeId, durable.nodeData, durable.outcome⟩
  · refine ⟨trimmed, nodeId, assign_json durable.nodeData ?_, durable.outcome⟩
    refine survives_iff.mpr ⟨.object [("sourceNodeId", .string state.cursor.nodeId),
      ("preparedCallIds", .array (prepared.map Json.string)), ("reconciled", .bool false),
      ("abortFinishedAt", .string now.text)], ?_⟩
    simp only [Json.toJs, fieldsToJs, listToJs_map, List.map_map]
    rfl

private theorem migrateV1Proposal_durable (graph : DurableGraph kernel.graph)
    (migrated : migrateV1Proposal kernel state now = .ok next) (durable : Durable state) :
    Durable next := by
  simp only [migrateV1Proposal] at migrated
  split at migrated
  · cases migrated
  · split at migrated
    · cases migrated
    · split at migrated
      · cases migrated
      · cases migrated
        exact revalidateProposal_durable graph.version durable

theorem migrateGraphState_durable (graph : DurableGraph kernel.graph)
    (migrated : migrateGraphState kernel state now = .ok next) (durable : Durable state) :
    Durable next := by
  have upgraded : Durable { state with graphVersion := kernel.graph.version } :=
    ⟨graph.version, durable.nodeId, durable.nodeData, durable.outcome⟩
  unfold migrateGraphState at migrated
  simp only at migrated
  split at migrated
  · cases migrated
    exact durable
  · split at migrated
    · split at migrated
      · cases migrated
        exact upgraded
      · obtain ⟨_, _, final⟩ := except_bind migrated
        cases final
        exact accountingDetour_durable graph.version durable
    · split at migrated
      · cases migrated
        exact durable
      · split at migrated
        · exact migrateV1Proposal_durable graph migrated durable
        · split at migrated
          · obtain ⟨_, _, final⟩ := except_bind migrated
            cases final
            exact accountingDetour_durable graph.version durable
          · cases migrated
            exact upgraded

theorem accepted_start (kernel : RuntimeKernel ExtAnswer) :
    ∃ node ∈ kernel.graph.nodes, node.id = kernel.graph.startNodeId := by
  have accepted := kernel.accepted
  unfold validateExecutionGraph at accepted
  split at accepted
  · rename_i valid
    unfold graphError at valid
    split at valid
    · cases valid
    · cases duplicate : duplicateNode kernel.graph.nodes [] with
      | some message =>
        rw [duplicate] at valid
        cases valid
      | none =>
        rw [duplicate] at valid
        by_cases known : (kernel.graph.nodes.map RuntimeNode.id).contains kernel.graph.startNodeId
        · simpa using known
        · simp only [Option.orElse, Bool.eq_false_of_not_eq_true known, Bool.not_false, if_true] at valid
          cases valid
  · cases accepted

theorem initialState_durable (graph : DurableGraph kernel.graph) :
    Durable (initialState kernel identity now) := by
  obtain ⟨node, member, start⟩ := accepted_start kernel
  have nodeId : Trimmed kernel.graph.startNodeId := start ▸ graph.nodes node member
  exact ⟨graph.version, nodeId, ⟨[], rfl⟩, fun _ found => by cases found⟩

end QiongQi.KernelDurability
