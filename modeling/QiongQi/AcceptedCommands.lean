import QiongQi.KernelNodes
import QiongQi.KernelReducers
import QiongQi.RuntimeMiddlewares

/-! What an accepted command has read from its document, and from it what the
kernel makes of the commands that handlers and middleware write. -/
namespace QiongQi.AcceptedCommands
open JsonValues RuntimeContracts MiddlewareCommands RuntimeKernels KernelRuns KernelReducers
  RuntimeMiddlewares

/-- The type a command is written under. -/
def MiddlewareCommand.typeName : MiddlewareCommand → String
  | .setMiddlewareState _ _ => "set-middleware-state"
  | .setBudget _ => "set-budget"
  | .addBudget _ _ => "add-budget"
  | .setNodeData _ _ => "set-node-data"
  | .setTaskRevision _ => "set-task-revision"
  | .setRecovery _ => "set-recovery"
  | .setEffects _ _ => "set-effects"
  | .jump _ _ _ => "jump"
  | .terminate _ _ => "terminate"
  | .suspend _ _ => "suspend"
  | .retry _ => "retry"
  | .repairHistory _ => "repair-history"
  | .recordWarning _ _ => "record-warning"

/-- The fields whose values matter later. -/
def ReadsFields (record : Fields) : MiddlewareCommand → Prop
  | .setMiddlewareState id state => record.lookup "id" = some (.string id.text) ∧
      ∃ fields, record.lookup "state" = some (.object fields) ∧ fields.lookup "data" = some state.data
  | .addBudget delta usageId =>
    record.lookup "usageId" = usageId.map (fun usageId => Json.string usageId.text) ∧
      parseBudgetDelta (record.lookup "delta") = .ok delta
  | .setNodeData nodeId value => record.lookup "nodeId" = some (.string nodeId.text) ∧
      record.lookup "value" = some value
  | .setRecovery recovery => (record.lookup "recovery").bind parseRecoveryState = some recovery
  | .jump nodeId _ _ => record.lookup "nodeId" = some (.string nodeId.text)
  | _ => True

private theorem requireNonEmptyString_reads (read : requireNonEmptyString value label = .ok text) :
    value = some (.string text.text) := by
  unfold requireNonEmptyString at read
  split at read
  · split at read
    · cases read
      rfl
    · cases read
  · cases read

private theorem requireRecord_reads (read : requireRecord value label = .ok fields) :
    value = some (.object fields) := by
  unfold requireRecord at read
  split at read
  · cases read
    rfl
  · cases read

private theorem orSchemaError_reads (read : orSchemaError schema parsed = .ok value) :
    parsed = some value := by
  cases parsed with
  | none => cases read
  | some found =>
    cases read
    rfl

variable {command : MiddlewareCommand}

/-- What is accepted was written under its own type. -/
theorem parse_reads (parsed : parseMiddlewareCommand document = .ok command) :
    ∃ record, document = .object record ∧
      record.lookup "type" = some (.string (MiddlewareCommand.typeName command)) ∧
      ReadsFields record command := by
  obtain ⟨record, isRecord, parsed⟩ := except_bind parsed
  have isRecord := Option.some.inj (requireRecord_reads isRecord)
  obtain ⟨rawType, typed, parsed⟩ := except_bind parsed
  have typed := requireNonEmptyString_reads typed
  refine ⟨record, isRecord, ?_⟩
  rw [typed]
  split at parsed
  next named =>
    obtain ⟨_, _, parsed⟩ := except_bind parsed
    obtain ⟨state, stated, parsed⟩ := except_bind parsed
    obtain ⟨_, _, parsed⟩ := except_bind parsed
    split at parsed
    · cases parsed
    next data held =>
      obtain ⟨id, identified, parsed⟩ := except_bind parsed
      obtain ⟨version, _, parsed⟩ := except_bind parsed
      cases parsed
      exact ⟨by rw [named]; rfl, requireNonEmptyString_reads identified, state,
        requireRecord_reads stated, held⟩
  next named =>
    obtain ⟨_, _, parsed⟩ := except_bind parsed
    obtain ⟨key, _, parsed⟩ := except_bind parsed
    obtain ⟨entry, _, parsed⟩ := except_bind parsed
    cases parsed
    exact ⟨by rw [named]; rfl, trivial⟩
  next named =>
    obtain ⟨_, _, parsed⟩ := except_bind parsed
    split at parsed
    · obtain ⟨usageId, unused, parsed⟩ := except_bind parsed
      cases unused
      obtain ⟨delta, read, parsed⟩ := except_bind parsed
      cases parsed
      exact ⟨by rw [named]; rfl, by assumption, read⟩
    next raw present =>
      obtain ⟨usageId, used, parsed⟩ := except_bind parsed
      obtain ⟨delta, read, parsed⟩ := except_bind parsed
      cases parsed
      cases found : requireNonEmptyString (some raw) "budget usage id" with
      | error reason =>
        rw [found] at used
        cases used
      | ok text =>
        rw [found] at used
        cases used
        exact ⟨by rw [named]; rfl, present.trans (requireNonEmptyString_reads found), read⟩
  next named =>
    obtain ⟨_, _, parsed⟩ := except_bind parsed
    split at parsed
    · cases parsed
    next data held =>
      obtain ⟨nodeId, identified, parsed⟩ := except_bind parsed
      cases parsed
      exact ⟨by rw [named]; rfl, requireNonEmptyString_reads identified, held⟩
  next named =>
    obtain ⟨_, _, parsed⟩ := except_bind parsed
    obtain ⟨revision, _, parsed⟩ := except_bind parsed
    cases parsed
    exact ⟨by rw [named]; rfl, trivial⟩
  next named =>
    obtain ⟨_, _, parsed⟩ := except_bind parsed
    obtain ⟨recovery, read, parsed⟩ := except_bind parsed
    cases parsed
    exact ⟨by rw [named]; rfl, orSchemaError_reads read⟩
  next named =>
    obtain ⟨_, _, parsed⟩ := except_bind parsed
    obtain ⟨pending, _, parsed⟩ := except_bind parsed
    obtain ⟨committed, _, parsed⟩ := except_bind parsed
    cases parsed
    exact ⟨by rw [named]; rfl, trivial⟩
  next named =>
    obtain ⟨_, _, parsed⟩ := except_bind parsed
    obtain ⟨nodeId, identified, parsed⟩ := except_bind parsed
    obtain ⟨condition, _, parsed⟩ := except_bind parsed
    obtain ⟨reason, _, parsed⟩ := except_bind parsed
    cases parsed
    exact ⟨by rw [named]; rfl, requireNonEmptyString_reads identified⟩
  next named =>
    obtain ⟨_, _, parsed⟩ := except_bind parsed
    obtain ⟨outcome, _, parsed⟩ := except_bind parsed
    split at parsed
    · cases parsed
    · cases parsed
      exact ⟨by rw [named]; rfl, trivial⟩
  next named =>
    obtain ⟨_, _, parsed⟩ := except_bind parsed
    obtain ⟨outcome, _, parsed⟩ := except_bind parsed
    split at parsed
    · cases parsed
      exact ⟨by rw [named]; rfl, trivial⟩
    · cases parsed
  next named =>
    obtain ⟨_, _, parsed⟩ := except_bind parsed
    obtain ⟨reason, _, parsed⟩ := except_bind parsed
    cases parsed
    exact ⟨by rw [named]; rfl, trivial⟩
  next named =>
    obtain ⟨_, _, parsed⟩ := except_bind parsed
    split at parsed
    · cases parsed
      exact ⟨by rw [named]; rfl, trivial⟩
    · cases parsed
  next named =>
    obtain ⟨_, _, parsed⟩ := except_bind parsed
    obtain ⟨code, _, parsed⟩ := except_bind parsed
    obtain ⟨message, _, parsed⟩ := except_bind parsed
    cases parsed
    exact ⟨by rw [named]; rfl, trivial⟩
  next => cases parsed

/-- The kernel's parser makes this command of the value. -/
def Accepted (raw : JsValue) (command : MiddlewareCommand) : Prop :=
  ∃ document, raw.serialize = some document ∧ parseMiddlewareCommand document = .ok command

private theorem mapError_reads {parsed : Except ε α} {describe : ε → ε'}
    (read : parsed.mapError describe = .ok value) : parsed = .ok value := by
  cases parsed with
  | error reason => cases read
  | ok found =>
    cases read
    rfl

private theorem canonicalizeCommand_accepted {index : Nat} {raw : JsValue}
    (parsed : canonicalizeCommand index raw = .ok command) : Accepted raw command := by
  have parsed := mapError_reads parsed
  cases written : raw.serialize with
  | none =>
    rw [written] at parsed
    cases parsed
  | some document =>
    rw [written] at parsed
    exact ⟨document, written, parsed⟩

private theorem canonicalizeFrom_accepted : ∀ {index : Nat} {commands : List MiddlewareCommand},
      canonicalizeFrom index raws = .ok commands → List.Forall₂ Accepted raws commands := by
  induction raws with
  | nil =>
    intro index commands parsed
    cases parsed
    exact .nil
  | cons raw rest ih =>
    intro index commands parsed
    obtain ⟨command, first, parsed⟩ := except_bind parsed
    obtain ⟨others, remaining, parsed⟩ := except_bind parsed
    cases parsed
    exact .cons (canonicalizeCommand_accepted first) (ih remaining)

/-- Where nothing was commanded before a node, its commands are the handler's. -/
theorem nodeCommands_accepted (parsed : nodeCommands [] result = .ok commands) :
    List.Forall₂ Accepted ((result.bind RuntimeNodeResult.commands).getD []) commands :=
  canonicalizeFrom_accepted parsed

theorem acceptedCommands_accepted
    (parsed : acceptedCommands (some (commanded raws)) = .ok commands) :
    List.Forall₂ Accepted raws commands :=
  canonicalizeFrom_accepted parsed

theorem acceptedCommands_silent (parsed : acceptedCommands (some {}) = .ok commands) :
    commands = [] := by
  cases parsed
  rfl

theorem accepted_type (accepted : Accepted (.object (("type", .string name) :: fields)) command) :
    MiddlewareCommand.typeName command = name := by
  obtain ⟨document, written, parsed⟩ := accepted
  cases written
  obtain ⟨record, same, typed, -⟩ := parse_reads parsed
  cases same
  simpa [serializeFields, JsValue.serialize, List.lookup_cons, eq_comm] using typed

/-- The amount a raw delta has for a key. -/
def givenAmount (delta : List (String × ℚ)) (key : BudgetKey) : ℚ :=
  ((delta.find? fun entry => entry.1 = key.name).map Prod.snd).getD 0

private theorem requireBudgetKey_reads
    (read : requireBudgetKey (some (.string name)) label = .ok key) : key.name = name := by
  simp only [requireBudgetKey] at read
  split at read
  next found =>
    cases read
    simpa using List.find?_some found
  · cases read

private theorem requireBudgetValue_reads
    (read : requireBudgetValue key (some (.number value)) = .ok entry) :
    entry.key = key ∧ entry.value = value := by
  simp only [requireBudgetValue] at read
  split at read
  · cases read
    exact ⟨rfl, rfl⟩
  · split at read <;> cases read

private theorem budgetKey_name_injective {left right : BudgetKey} (same : left.name = right.name) :
    left = right := by
  revert same
  cases left <;> cases right <;> decide

private theorem parseDelta_amounts {delta : List (String × ℚ)} : ∀ {entries : List BudgetEntry},
      (delta.map fun entry => (entry.1, Json.number entry.2)).mapM (fun field : String × Json => do
        let key ← requireBudgetKey (some (.string field.1)) "budget delta key"
        requireBudgetValue key (some field.2)) = Except.ok entries →
      ∀ key, deltaFor entries key = givenAmount delta key := by
  induction delta with
  | nil =>
    intro entries parsed key
    cases parsed
    rfl
  | cons entry rest ih =>
    intro entries parsed key
    rw [List.map_cons, List.mapM_cons] at parsed
    obtain ⟨first, read, parsed⟩ := except_bind parsed
    obtain ⟨others, remaining, parsed⟩ := except_bind parsed
    cases parsed
    obtain ⟨named, keyed, valued⟩ := except_bind read
    have name := requireBudgetKey_reads keyed
    obtain ⟨same, value⟩ := requireBudgetValue_reads valued
    have others := ih remaining key
    unfold deltaFor givenAmount at others ⊢
    by_cases here : key = named
    · subst here
      simp [same, value, name]
    · have apart : entry.1 ≠ key.name := fun equal =>
        here (budgetKey_name_injective (name.trans equal).symm)
      have apartKey : first.key ≠ key := fun equal => here (equal.symm.trans same)
      simpa [apart, apartKey] using others

private theorem serializeDelta (delta : List (String × ℚ)) :
    serializeFields (delta.map fun entry => (entry.1, JsValue.number (.finite entry.2))) =
      delta.map fun entry => (entry.1, Json.number entry.2) := by
  induction delta with
  | nil => rfl
  | cons entry rest ih =>
    simp only [List.map_cons, serializeFields, JsValue.serialize, JsNumber.toJson, ih]

theorem accepted_addBudget {usageId : String}
    (accepted : Accepted (KernelNodes.addBudgetCommand usageId delta) command) :
    ∃ entries id, command = .addBudget entries (some id) ∧ id.text = usageId ∧
      ∀ key, deltaFor entries key = givenAmount delta key := by
  have typed := accepted_type accepted
  obtain ⟨document, written, parsed⟩ := accepted
  cases written
  obtain ⟨record, same, -, reads⟩ := parse_reads parsed
  cases same
  cases command with
  | addBudget entries id =>
    obtain ⟨named, read⟩ := reads
    simp only [serializeFields, JsValue.serialize, List.lookup_cons, List.lookup_nil, serializeDelta] at named read
    cases id with
    | none => simp at named
    | some id =>
      refine ⟨entries, id, rfl, by simpa [eq_comm] using named, ?_⟩
      exact parseDelta_amounts (mapError_reads read)
  | _ => simp [MiddlewareCommand.typeName] at typed

theorem accepted_setNodeData
    (accepted : Accepted (KernelNodes.setNodeDataCommand nodeId value) command) :
    ∃ id data, command = .setNodeData id data ∧ id.text = nodeId ∧ value.serialize = some data := by
  have typed := accepted_type accepted
  obtain ⟨document, written, parsed⟩ := accepted
  cases written
  obtain ⟨record, same, -, reads⟩ := parse_reads parsed
  cases same
  cases command with
  | setNodeData id data =>
    obtain ⟨named, held⟩ := reads
    refine ⟨id, data, rfl, ?_, ?_⟩
    · simpa [serializeFields, JsValue.serialize, List.lookup_cons, eq_comm] using named
    · cases written : value.serialize with
      | none => simp [serializeFields, JsValue.serialize, List.lookup_cons, written] at held
      | some found => simpa [serializeFields, JsValue.serialize, List.lookup_cons, written] using held
  | _ => simp [MiddlewareCommand.typeName] at typed

theorem accepted_setMiddlewareState {id : String}
    (accepted : Accepted (.object [("type", .string "set-middleware-state"), ("id", .string id),
      ("state", state)]) command) :
    ∃ id' written, command = .setMiddlewareState id' written ∧ id'.text = id := by
  have typed := accepted_type accepted
  obtain ⟨document, written, parsed⟩ := accepted
  cases written
  obtain ⟨record, same, -, reads⟩ := parse_reads parsed
  cases same
  cases command with
  | setMiddlewareState id' written =>
    refine ⟨id', written, rfl, ?_⟩
    simpa [serializeFields, JsValue.serialize, List.lookup_cons, eq_comm] using reads.1
  | _ => simp [MiddlewareCommand.typeName] at typed

end QiongQi.AcceptedCommands
