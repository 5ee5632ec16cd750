import QiongQi.RuntimeKernels

/-! The readers of commands agree: what the validator returns is kept by JSON, is returned
again by the validator, and is what a replayed payload that carries it is read as. -/
namespace QiongQi.CanonicalCommands
open JsonValues MiddlewareCommands RuntimeKernels

/-- The list of command objects that `canonicalizeMiddlewareCommands` returns. -/
def canonicalList (value : JsValue) : Except String Json :=
  (canonicalizeMiddlewareCommands value).map commandsJson

/-- A `node.completed` payload whose other fields are in order. -/
def CompletedFields (fields : List (String × JsValue)) : Prop :=
  ∃ nodeId stepIndex condition facts,
    requireName fields "nodeId" "invalid node.completed nodeId" = .ok nodeId ∧
      requireStepIndex fields "invalid node.completed stepIndex" = .ok stepIndex ∧
      requireName fields "condition" "invalid node.completed condition" = .ok condition ∧
      optionalFacts fields = .ok facts

def AfterFields (fields : List (String × JsValue)) : Prop :=
  ∃ nodeId stepIndex, requireName fields "nodeId" "invalid node.after_middleware nodeId" = .ok nodeId ∧
    requireStepIndex fields "invalid node.after_middleware stepIndex" = .ok stepIndex

variable {commands : List MiddlewareCommand} {fields : List (String × JsValue)}

theorem requireCommands_canonical (message : String)
    (carried : fields.lookup "commands" = some (commandsJson commands).toJs) :
    ∃ raw, requireCommands fields message = .ok raw ∧
      canonicalizeMiddlewareCommands (.array raw) = .ok commands := by
  have shape : (commandsJson commands).toJs = .array (listToJs (commands.map MiddlewareCommand.toJson)) := by
    simp [commandsJson, Json.toJs]
  refine ⟨listToJs (commands.map MiddlewareCommand.toJson), ?_, ?_⟩
  · simp [requireCommands, carried, shape]
  · rw [← shape]
    exact canonicalize_commandsJson commands

theorem parseCompleted_canonical (ordered : CompletedFields fields)
    (carried : fields.lookup "commands" = some (commandsJson commands).toJs) :
    ∃ payload, parseCompletedNodePayload (.object fields) = .ok payload ∧ payload.commands = commands := by
  obtain ⟨nodeId, stepIndex, condition, facts, named, numbered, conditioned, stated⟩ := ordered
  obtain ⟨raw, listed, accepted⟩ :=
    requireCommands_canonical "invalid node.completed commands" carried
  simp only [parseCompletedNodePayload, named, numbered, conditioned, stated, listed, accepted,
    bind, Except.bind]
  exact ⟨_, rfl, rfl⟩

theorem parseAfter_canonical (ordered : AfterFields fields)
    (carried : fields.lookup "commands" = some (commandsJson commands).toJs) :
    ∃ payload, parseAfterMiddlewarePayload (.object fields) = .ok payload ∧ payload.commands = commands := by
  obtain ⟨nodeId, stepIndex, named, numbered⟩ := ordered
  obtain ⟨raw, listed, accepted⟩ :=
    requireCommands_canonical "invalid node.after_middleware commands" carried
  simp only [parseAfterMiddlewarePayload, named, numbered, listed, accepted, bind, Except.bind]
  exact ⟨_, rfl, rfl⟩

/-- Whatever was handed over, the list that is returned for it is a fixed point of JSON and of
the validator, and both replay parsers read its commands out of any payload that carries it. -/
theorem canonicalList_stable {value : JsValue} {document : Json}
    (accepted : canonicalList value = .ok document) :
    document.toJs.serialize = some document ∧ canonicalList document.toJs = .ok document ∧
      ∀ fields : List (String × JsValue), fields.lookup "commands" = some document.toJs →
        (CompletedFields fields → ∃ payload, parseCompletedNodePayload (.object fields) = .ok payload ∧
            commandsJson payload.commands = document) ∧
        (AfterFields fields → ∃ payload, parseAfterMiddlewarePayload (.object fields) = .ok payload ∧
            commandsJson payload.commands = document) := by
  obtain ⟨commands, -, rfl⟩ : ∃ commands, canonicalizeMiddlewareCommands value = .ok commands ∧
      commandsJson commands = document := by
    unfold canonicalList at accepted
    cases read : canonicalizeMiddlewareCommands value with
    | error message =>
      rw [read] at accepted
      cases accepted
    | ok commands =>
      rw [read] at accepted
      exact ⟨commands, rfl, Except.ok.inj accepted⟩
  refine ⟨serialize_toJs _, ?_, fun fields carried => ⟨fun ordered => ?_, fun ordered => ?_⟩⟩
  · rw [canonicalList, canonicalize_commandsJson]
    rfl
  · obtain ⟨payload, parsed, same⟩ := parseCompleted_canonical ordered carried
    exact ⟨payload, parsed, congrArg commandsJson same⟩
  · obtain ⟨payload, parsed, same⟩ := parseAfter_canonical ordered carried
    exact ⟨payload, parsed, congrArg commandsJson same⟩

/-- Values that JSON has no text for are gone once, and not a second time. -/
def looseData : JsValue :=
  .array [.object [("type", .string "set-node-data"), ("nodeId", .string "plan"),
    ("value", .object [("__proto__", .number .nan), ("kept", .undefined)]), ("gone", .undefined)]]

def strictData : Json :=
  .array [.object [("type", .string "set-node-data"), ("nodeId", .string "plan"),
    ("value", .object [("__proto__", .null)])]]

theorem canonicalList_stable_loose : strictData.toJs.serialize = some strictData ∧
      canonicalList strictData.toJs = .ok strictData := by
  have accepted : canonicalList looseData = .ok strictData := by rfl
  exact ⟨(canonicalList_stable accepted).1, (canonicalList_stable accepted).2.1⟩

end QiongQi.CanonicalCommands
