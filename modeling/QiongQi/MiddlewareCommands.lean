import QiongQi.RuntimeContracts

/-! `runtime-middleware-command-validator.ts`: middleware and node handlers hand
over commands as untyped values, and only what this parser accepts reaches the
kernel. An accepted command is a value of `MiddlewareCommand`; its fields carry
what the parser checked, so writing it out and parsing it again always gives the
same command. -/
namespace QiongQi.MiddlewareCommands
open JsonValues RuntimeContracts List

inductive BudgetKey where
  | stepsUsed | toolCallsUsed | inputTokens | outputTokens | costUsd
  deriving DecidableEq

def BudgetKey.name : BudgetKey → String
  | .stepsUsed => "stepsUsed"
  | .toolCallsUsed => "toolCallsUsed"
  | .inputTokens => "inputTokens"
  | .outputTokens => "outputTokens"
  | .costUsd => "costUsd"

def budgetKeys : List BudgetKey :=
  [.stepsUsed, .toolCallsUsed, .inputTokens, .outputTokens, .costUsd]

/-- The check of `requireBudgetValue`. -/
def validBudgetValue (key : BudgetKey) (value : ℚ) : Bool :=
  0 ≤ value && (key = .costUsd || isSafeInteger value)

structure BudgetEntry where
  key : BudgetKey
  value : ℚ
  valid : validBudgetValue key value = true

/-- What `requireNonEmptyString` lets through: not blank, and not trimmed. -/
structure NonBlankString where
  text : String
  nonblank : jsTrim text ≠ ""

/-- An outcome that `RunOutcomeSchema` and JSON leave alone. -/
structure StoredOutcome where
  outcome : RunOutcome
  stable : outcome.persist = some outcome

inductive MiddlewareCommand where
  | setMiddlewareState (id : NonBlankString) (state : MiddlewareState)
  | setBudget (entry : BudgetEntry)
  | addBudget (delta : List BudgetEntry) (usageId : Option NonBlankString)
  | setNodeData (nodeId : NonBlankString) (value : Json)
  | setTaskRevision (revision : SafeNat)
  | setRecovery (recovery : RecoveryState)
  | setEffects (pendingEffects : List EffectIntent) (committedEffects : List CommittedEffectRef)
  | jump (nodeId condition reason : NonBlankString)
  | terminate (outcome : StoredOutcome) (final : outcome.outcome.status ≠ .suspended)
  | suspend (outcome : StoredOutcome) (waiting : outcome.outcome.status = .suspended)
  | retry (reason : NonBlankString)
  | repairHistory (items : List Json)
  | recordWarning (code message : NonBlankString)

/-! ## Field checks

The texts of Zod's own errors are not modelled; a refused schema reports its name. -/

abbrev Fields := List (String × Json)

def requireRecord (value : Option Json) (label : String) : Except String Fields :=
  match value with
  | some (.object fields) => .ok fields
  | _ => .error s!"{label} must be an object"

def requireNonEmptyString (value : Option Json) (label : String) : Except String NonBlankString :=
  match value with
  | some (.string text) =>
    if nonblank : jsTrim text ≠ "" then .ok ⟨text, nonblank⟩
    else .error s!"{label} must be a nonempty string"
  | _ => .error s!"{label} must be a nonempty string"

def requirePositiveSafeInteger (value : Option Json) (label : String) :
    Except String PositiveSafeInteger :=
  match value with
  | some (.number number) =>
    match PositiveSafeInteger.parse number with
    | some parsed => .ok parsed
    | none => .error s!"{label} must be a positive safe integer"
  | _ => .error s!"{label} must be a positive safe integer"

def requireNonNegativeSafeInteger (value : Option Json) (label : String) : Except String SafeNat :=
  match value with
  | some (.number number) =>
    match SafeNat.parse number with
    | some parsed => .ok parsed
    | none => .error s!"{label} must be a nonnegative safe integer"
  | _ => .error s!"{label} must be a nonnegative safe integer"

mutual
/-- `String(value)`; a fraction prints as a quotient here. -/
def describe : Json → String
  | .null => "null"
  | .bool value => toString value
  | .number value => toString value
  | .string value => value
  | .array items => String.intercalate "," (describeItems items)
  | .object _ => "[object Object]"

def describeItems : List Json → List String
  | [] => []
  | .null :: rest => "" :: describeItems rest
  | item :: rest => describe item :: describeItems rest
end

def requireBudgetKey (value : Option Json) (label : String) : Except String BudgetKey :=
  match value with
  | some (.string text) =>
    match budgetKeys.find? fun key => key.name = text with
    | some key => .ok key
    | none => .error s!"{label} is invalid: {text}"
  | some other => .error s!"{label} is invalid: {describe other}"
  | none => .error s!"{label} is invalid: undefined"

def requireBudgetValue (key : BudgetKey) (value : Option Json) : Except String BudgetEntry :=
  match value with
  | some (.number number) =>
    if valid : validBudgetValue key number = true then .ok ⟨key, number, valid⟩
    else if number < 0 then .error s!"budget value is invalid: {key.name}"
    else .error s!"budget value must be a safe integer: {key.name}"
  | _ => .error s!"budget value is invalid: {key.name}"

def assertOnlyKeys (record : Fields) (allowed : List String) : Except String Unit :=
  match record.find? fun field => !allowed.contains field.1 with
  | some field => .error s!"unexpected command field: {field.1}"
  | none => .ok ()

def outcomeStatuses : List (String × OutcomeStatus) :=
  [("completed", .completed), ("degraded", .degraded), ("failed", .failed),
    ("aborted", .aborted), ("suspended", .suspended)]

def outcomeReasons : List (String × RunOutcomeReason) :=
  [("normal_stop", .normalStop), ("awaiting_user_input", .awaitingUserInput),
    ("tool_completed_no_final_text", .toolCompletedNoFinalText),
    ("context_capacity_exceeded", .contextCapacityExceeded),
    ("context_recovery_exhausted", .contextRecoveryExhausted), ("loop_capped", .loopCapped),
    ("step_capped", .stepCapped), ("token_capped", .tokenCapped), ("cost_capped", .costCapped),
    ("provider_safety_stop", .providerSafetyStop),
    ("provider_protocol_error", .providerProtocolError),
    ("required_action_missing", .requiredActionMissing), ("tool_failed", .toolFailed),
    ("user_aborted", .userAborted), ("runtime_error", .runtimeError)]

def effectKinds : List (String × EffectKind) :=
  [("model", .model), ("tool", .tool), ("approval", .approval), ("user-input", .userInput), ("item", .item)]

def effectClasses : List (String × EffectClass) :=
  [("read", .read), ("idempotent-write", .idempotentWrite), ("non-idempotent-write", .nonIdempotentWrite)]

def replayPolicies : List (String × ReplayPolicy) :=
  [("safe", .safe), ("verify-first", .verifyFirst), ("never", .never)]

def commitStatuses : List (String × CommitStatus) :=
  [("committed", .committed), ("verified", .verified), ("failed", .failed)]

/-- The wire name of an enumeration member. -/
def nameIn [DecidableEq α] (table : List (String × α)) (member : α) : String :=
  ((table.find? fun entry => entry.2 = member).map Prod.fst).getD ""

/-- `z.enum([...])`. -/
def parseEnum (table : List (String × α)) : Option Json → Option α
  | some (.string text) => table.lookup text
  | _ => none

def parseText : Option Json → Option String
  | some (.string text) => some text
  | _ => none

def parseNonEmpty (value : Option Json) : Option NonEmptyString := do
  NonEmptyString.parse (← parseText value)

/-- A field with `.optional()`. -/
def parseOptional (parse : Option Json → Option α) : Option Json → Option (Option α)
  | none => some none
  | some value => (parse (some value)).map some

/-- `.strict()`: no field beyond the schema's. -/
def strictRecord (value : Json) (allowed : List String) : Option Fields :=
  match value with
  | .object fields => if fields.all fun field => allowed.contains field.1 then some fields else none
  | _ => none

def parseFlag : Option Json → Option Bool
  | some (.bool flag) => some flag
  | _ => none

def parseDetails : Option Json → Option Fields
  | some (.object fields) => some fields
  | _ => none

/-- The outcome its schema builds from parsed fields. -/
def StoredOutcome.ofFields (status : OutcomeStatus) (reason : RunOutcomeReason)
    (itemId : Option NonEmptyString) (retryable : Bool) (details : Option Fields) :
    StoredOutcome where
  outcome := { status, reason, retryable
               userVisibleItemId := itemId.map NonEmptyString.text
               details := details.map fieldsToJs }
  stable := RunOutcome.persist_some_iff.mpr ⟨itemId, by cases itemId <;> simp [optionalField],
    by cases details <;> simp⟩

/-- `RunOutcomeSchema.parse`. -/
def parseRunOutcome (value : Json) : Option StoredOutcome := do
  let record ← strictRecord value ["status", "reason", "userVisibleItemId", "retryable", "details"]
  let status ← parseEnum outcomeStatuses (record.lookup "status")
  let reason ← parseEnum outcomeReasons (record.lookup "reason")
  let itemId ← parseOptional parseNonEmpty (record.lookup "userVisibleItemId")
  let retryable ← parseFlag (record.lookup "retryable")
  let details ← parseOptional parseDetails (record.lookup "details")
  some (.ofFields status reason itemId retryable details)

/-- `RecoveryStateSchema.parse`, with its defaults. -/
def parseRecoveryState (value : Json) : Option RecoveryState := do
  let record ← strictRecord value ["attempts", "maxAttempts", "lastReason"]
  let attempts ← match record.lookup "attempts" with
    | none => some ⟨0, by decide⟩
    | some (.number number) => SafeNat.parse number
    | _ => none
  let maxAttempts ← match record.lookup "maxAttempts" with
    | none => some ⟨3, by decide⟩
    | some (.number number) => SafeNat.parse number
    | _ => none
  let lastReason ← parseOptional parseText (record.lookup "lastReason")
  some { attempts, maxAttempts, lastReason }

/-- `EffectIntentSchema.parse`. -/
def parseEffectIntent (value : Json) : Option EffectIntent := do
  let record ← strictRecord value
    ["idempotencyKey", "kind", "effect", "replay", "target", "payloadDigest", "preparedAt"]
  some {
    idempotencyKey := ← parseNonEmpty (record.lookup "idempotencyKey")
    kind := ← parseEnum effectKinds (record.lookup "kind")
    effect := ← parseEnum effectClasses (record.lookup "effect")
    replay := ← parseEnum replayPolicies (record.lookup "replay")
    target := ← parseNonEmpty (record.lookup "target")
    payloadDigest := ← parseNonEmpty (record.lookup "payloadDigest")
    preparedAt := ← parseNonEmpty (record.lookup "preparedAt") }

/-- `CommittedEffectRefSchema.parse`. -/
def parseCommittedEffectRef (value : Json) : Option CommittedEffectRef := do
  let record ← strictRecord value
    ["idempotencyKey", "resultDigest", "status", "resultRef", "committedAt"]
  some {
    idempotencyKey := ← parseNonEmpty (record.lookup "idempotencyKey")
    resultDigest := ← parseNonEmpty (record.lookup "resultDigest")
    status := ← parseEnum commitStatuses (record.lookup "status")
    resultRef := ← parseOptional parseText (record.lookup "resultRef")
    committedAt := ← parseNonEmpty (record.lookup "committedAt") }

/-- `Schema.array().parse`. -/
def parseArray (parse : Json → Option α) : Option Json → Option (List α)
  | some (.array items) => items.mapM parse
  | _ => none

def orSchemaError (schema : String) : Option α → Except String α
  | some value => .ok value
  | none => .error s!"invalid {schema}"

def parseBudgetDelta (value : Option Json) : Except String (List BudgetEntry) :=
  (do
    let record ← requireRecord value "budget delta"
    record.mapM fun (rawKey, rawValue) => do
      let key ← requireBudgetKey (some (.string rawKey)) "budget delta key"
      requireBudgetValue key (some rawValue)).mapError
    fun message => s!"invalid budget delta: {message}"

def parseMiddlewareCommand (value : Json) : Except String MiddlewareCommand := do
  let record ← requireRecord (some value) "command"
  let rawType ← requireNonEmptyString (record.lookup "type") "command type"
  match rawType.text with
  | "set-middleware-state" =>
    assertOnlyKeys record ["type", "id", "state"]
    let state ← requireRecord (record.lookup "state") "middleware state"
    assertOnlyKeys state ["version", "data"]
    match state.lookup "data" with
    | none => throw "middleware state data is required"
    | some data =>
      let id ← requireNonEmptyString (record.lookup "id") "middleware id"
      let version ← requirePositiveSafeInteger (state.lookup "version") "middleware state version"
      return .setMiddlewareState id { version, data }
  | "set-budget" =>
    assertOnlyKeys record ["type", "key", "value"]
    let key ← requireBudgetKey (record.lookup "key") "budget key"
    return .setBudget (← requireBudgetValue key (record.lookup "value"))
  | "add-budget" =>
    assertOnlyKeys record ["type", "delta", "usageId"]
    let usageId ← match record.lookup "usageId" with
      | none => pure none
      | some usageId => some <$> requireNonEmptyString (some usageId) "budget usage id"
    return .addBudget (← parseBudgetDelta (record.lookup "delta")) usageId
  | "set-node-data" =>
    assertOnlyKeys record ["type", "nodeId", "value"]
    match record.lookup "value" with
    | none => throw "node data value is required"
    | some data =>
      return .setNodeData (← requireNonEmptyString (record.lookup "nodeId") "node data id") data
  | "set-task-revision" =>
    assertOnlyKeys record ["type", "revision"]
    return .setTaskRevision
      (← requireNonNegativeSafeInteger (record.lookup "revision") "task revision")
  | "set-recovery" =>
    assertOnlyKeys record ["type", "recovery"]
    return .setRecovery
      (← orSchemaError "recovery state" ((record.lookup "recovery").bind parseRecoveryState))
  | "set-effects" =>
    assertOnlyKeys record ["type", "pendingEffects", "committedEffects"]
    return .setEffects (← orSchemaError "pending effects"
        (parseArray parseEffectIntent (record.lookup "pendingEffects")))
      (← orSchemaError "committed effects"
        (parseArray parseCommittedEffectRef (record.lookup "committedEffects")))
  | "jump" =>
    assertOnlyKeys record ["type", "nodeId", "condition", "reason"]
    return .jump (← requireNonEmptyString (record.lookup "nodeId") "jump node id")
      (← requireNonEmptyString (record.lookup "condition") "jump condition")
      (← requireNonEmptyString (record.lookup "reason") "jump reason")
  | "terminate" =>
    assertOnlyKeys record ["type", "outcome"]
    let outcome ← orSchemaError "run outcome" ((record.lookup "outcome").bind parseRunOutcome)
    if waiting : outcome.outcome.status = .suspended then
      throw "terminate outcome must not be suspended"
    else return .terminate outcome waiting
  | "suspend" =>
    assertOnlyKeys record ["type", "outcome"]
    let outcome ← orSchemaError "run outcome" ((record.lookup "outcome").bind parseRunOutcome)
    if waiting : outcome.outcome.status = .suspended then return .suspend outcome waiting
    else throw "suspend outcome must be suspended"
  | "retry" =>
    assertOnlyKeys record ["type", "reason"]
    return .retry (← requireNonEmptyString (record.lookup "reason") "retry reason")
  | "repair-history" =>
    assertOnlyKeys record ["type", "items"]
    match record.lookup "items" with
    | some (.array items) => return .repairHistory items
    | _ => throw "history repair items must be an array"
  | "record-warning" =>
    assertOnlyKeys record ["type", "code", "message"]
    return .recordWarning (← requireNonEmptyString (record.lookup "code") "warning code")
      (← requireNonEmptyString (record.lookup "message") "warning message")
  | other => throw s!"unknown middleware command type: {other}"

/-- The type a refused command claimed to have. -/
def commandTypeLabel : JsValue → String
  | .object fields =>
    match fields.lookup "type" with
    | some (.string text) => if text = "" then "unknown" else text
    | _ => "unknown"
  | _ => "unknown"

/-- One command of the list, with the error `canonicalizeMiddlewareCommands`
reports for it. -/
def canonicalizeCommand (index : Nat) (command : JsValue) : Except String MiddlewareCommand :=
  (match command.serialize with
    | none => Except.error "middleware command must be JSON serializable"
    | some document => parseMiddlewareCommand document).mapError
  fun message =>
    s!"invalid middleware command at index {index} ({commandTypeLabel command}): {message}"

def canonicalizeFrom (index : Nat) : List JsValue → Except String (List MiddlewareCommand)
  | [] => .ok []
  | command :: rest => do
    let parsed ← canonicalizeCommand index command
    let others ← canonicalizeFrom (index + 1) rest
    return parsed :: others

def canonicalizeMiddlewareCommands : JsValue → Except String (List MiddlewareCommand)
  | .array items => canonicalizeFrom 0 items
  | _ => .error "invalid middleware commands: expected an array"

def namedJson [DecidableEq α] (table : List (String × α)) (member : α) : Json :=
  .string (nameIn table member)

/-- A field that is written only when present. -/
def optionalJson (key : String) (toJson : α → Json) : Option α → Fields
  | none => []
  | some value => [(key, toJson value)]

def outcomeFields (outcome : RunOutcome) : Fields :=
  [("status", namedJson outcomeStatuses outcome.status),
      ("reason", namedJson outcomeReasons outcome.reason)] ++
    optionalJson "userVisibleItemId" .string outcome.userVisibleItemId ++
    [("retryable", .bool outcome.retryable)] ++
    optionalJson "details" (fun details => .object (serializeFields details)) outcome.details

def outcomeJson (outcome : RunOutcome) : Json :=
  .object (outcomeFields outcome)

def recoveryJson (recovery : RecoveryState) : Json :=
  .object <| [("attempts", .number recovery.attempts.value),
      ("maxAttempts", .number recovery.maxAttempts.value)] ++
    optionalJson "lastReason" .string recovery.lastReason

def intentJson (intent : EffectIntent) : Json :=
  .object [("idempotencyKey", .string intent.idempotencyKey.text),
    ("kind", namedJson effectKinds intent.kind),
    ("effect", namedJson effectClasses intent.effect),
    ("replay", namedJson replayPolicies intent.replay),
    ("target", .string intent.target.text),
    ("payloadDigest", .string intent.payloadDigest.text),
    ("preparedAt", .string intent.preparedAt.text)]

def committedJson (ref : CommittedEffectRef) : Json :=
  .object <| [("idempotencyKey", .string ref.idempotencyKey.text),
      ("resultDigest", .string ref.resultDigest.text),
      ("status", namedJson commitStatuses ref.status)] ++
    optionalJson "resultRef" .string ref.resultRef ++
    [("committedAt", .string ref.committedAt.text)]

def deltaJson (delta : List BudgetEntry) : Json :=
  .object (delta.map fun entry => (entry.key.name, .number entry.value))

/-- The command object the parser returns. -/
def MiddlewareCommand.toJson : MiddlewareCommand → Json
  | .setMiddlewareState id state =>
    .object [("type", .string "set-middleware-state"), ("id", .string id.text),
      ("state", .object [("version", .number state.version.value), ("data", state.data)])]
  | .setBudget entry =>
    .object [("type", .string "set-budget"), ("key", .string entry.key.name), ("value", .number entry.value)]
  | .addBudget delta usageId =>
    .object <| [("type", .string "add-budget"), ("delta", deltaJson delta)] ++
      optionalJson "usageId" (fun usageId : NonBlankString => .string usageId.text) usageId
  | .setNodeData nodeId value =>
    .object [("type", .string "set-node-data"), ("nodeId", .string nodeId.text), ("value", value)]
  | .setTaskRevision revision =>
    .object [("type", .string "set-task-revision"), ("revision", .number revision.value)]
  | .setRecovery recovery =>
    .object [("type", .string "set-recovery"), ("recovery", recoveryJson recovery)]
  | .setEffects pending committed =>
    .object [("type", .string "set-effects"), ("pendingEffects", .array (pending.map intentJson)),
      ("committedEffects", .array (committed.map committedJson))]
  | .jump nodeId condition reason =>
    .object [("type", .string "jump"), ("nodeId", .string nodeId.text),
      ("condition", .string condition.text), ("reason", .string reason.text)]
  | .terminate outcome _ =>
    .object [("type", .string "terminate"), ("outcome", outcomeJson outcome.outcome)]
  | .suspend outcome _ =>
    .object [("type", .string "suspend"), ("outcome", outcomeJson outcome.outcome)]
  | .retry reason => .object [("type", .string "retry"), ("reason", .string reason.text)]
  | .repairHistory items => .object [("type", .string "repair-history"), ("items", .array items)]
  | .recordWarning code message =>
    .object [("type", .string "record-warning"), ("code", .string code.text),
      ("message", .string message.text)]

private theorem requireNonEmptyString_text (value : NonBlankString) :
    requireNonEmptyString (some (.string value.text)) label = .ok value := by
  simp [requireNonEmptyString, value.nonblank]

private theorem requireBudgetKey_name :
    requireBudgetKey (some (.string key.name)) label = .ok key := by
  cases key <;> rfl

private theorem requireBudgetValue_entry :
    requireBudgetValue entry.key (some (.number entry.value)) = .ok entry := by
  simp [requireBudgetValue, entry.valid]

private theorem parseBudgetDelta_json : parseBudgetDelta (some (deltaJson delta)) = .ok delta := by
  have entries : (delta.map fun entry => (entry.key.name, Json.number entry.value)).mapM
      (fun field : String × Json => do
        let key ← requireBudgetKey (some (.string field.1)) "budget delta key"
        requireBudgetValue key (some field.2)) = Except.ok delta := by
    induction delta with
    | nil => rfl
    | cons entry rest ih =>
      simp only [map_cons, mapM_cons, ih, requireBudgetKey_name]
      simp [bind, Except.bind, requireBudgetValue_entry, pure, Except.pure]
  exact congrArg (Except.mapError _) entries

private theorem parseNonEmpty_text : parseNonEmpty (some (.string value.text)) = some value := by
  simp [parseNonEmpty, parseText]

private theorem parseEnum_kind :
    parseEnum effectKinds (some (namedJson effectKinds kind)) = some kind := by
  cases kind <;> rfl

private theorem parseEnum_effect :
    parseEnum effectClasses (some (namedJson effectClasses effect)) = some effect := by
  cases effect <;> rfl

private theorem parseEnum_replay :
    parseEnum replayPolicies (some (namedJson replayPolicies replay)) = some replay := by
  cases replay <;> rfl

private theorem parseEnum_commit :
    parseEnum commitStatuses (some (namedJson commitStatuses status)) = some status := by
  cases status <;> rfl

theorem parseEnum_status (status : OutcomeStatus) :
    parseEnum outcomeStatuses (some (namedJson outcomeStatuses status)) = some status := by
  cases status <;> rfl

theorem parseEnum_reason (reason : RunOutcomeReason) :
    parseEnum outcomeReasons (some (namedJson outcomeReasons reason)) = some reason := by
  cases reason <;> rfl

private theorem parseEffectIntent_json (intent : EffectIntent) :
    parseEffectIntent (intentJson intent) = some intent := by
  simp [parseEffectIntent, intentJson, strictRecord, lookup_cons, parseNonEmpty_text,
    parseEnum_kind, parseEnum_effect, parseEnum_replay]

private theorem parseCommittedEffectRef_json (ref : CommittedEffectRef) :
    parseCommittedEffectRef (committedJson ref) = some ref := by
  obtain ⟨key, digest, status, resultRef, committedAt⟩ := ref
  cases resultRef <;>
    simp [parseCommittedEffectRef, committedJson, strictRecord, lookup_cons, parseNonEmpty_text,
      parseEnum_commit, optionalJson, parseOptional, parseText]

private theorem parseRecoveryState_json :
    parseRecoveryState (recoveryJson recovery) = some recovery := by
  obtain ⟨attempts, maxAttempts, lastReason⟩ := recovery
  cases lastReason <;>
    simp [parseRecoveryState, recoveryJson, strictRecord, lookup_cons, optionalJson, parseOptional, parseText]

private theorem StoredOutcome.eq_ofFields (stored : StoredOutcome) : ∃ itemId details, stored =
      .ofFields stored.outcome.status stored.outcome.reason itemId stored.outcome.retryable
        details := by
  obtain ⟨outcome, stable⟩ := stored
  obtain ⟨itemId, _, same⟩ := RunOutcome.persist_some_iff.mp stable
  refine ⟨itemId, outcome.details.map serializeFields, ?_⟩
  simp only [StoredOutcome.ofFields, StoredOutcome.mk.injEq, Option.map_map]
  exact same

private theorem outcomeFields_strict : strictRecord (outcomeJson outcome)
      ["status", "reason", "userVisibleItemId", "retryable", "details"] = some (outcomeFields outcome) := by
  obtain ⟨status, reason, itemId, retryable, details⟩ := outcome
  cases itemId <;> cases details <;> rfl

private theorem outcomeFields_lookup (outcome : RunOutcome) :
    (outcomeFields outcome).lookup "status" = some (namedJson outcomeStatuses outcome.status) ∧
      (outcomeFields outcome).lookup "reason" = some (namedJson outcomeReasons outcome.reason) ∧
      (outcomeFields outcome).lookup "userVisibleItemId" = outcome.userVisibleItemId.map Json.string ∧
      (outcomeFields outcome).lookup "retryable" = some (.bool outcome.retryable) ∧
      (outcomeFields outcome).lookup "details" =
        outcome.details.map fun details => .object (serializeFields details) := by
  obtain ⟨status, reason, itemId, retryable, details⟩ := outcome
  cases itemId <;> cases details <;> exact ⟨rfl, rfl, rfl, rfl, rfl⟩

private theorem parseRunOutcome_json :
    parseRunOutcome (outcomeJson stored.outcome) = some stored := by
  obtain ⟨itemId, details, same⟩ := stored.eq_ofFields
  obtain ⟨atStatus, atReason, atItem, atRetryable, atDetails⟩ :=
    outcomeFields_lookup stored.outcome
  have item : parseOptional parseNonEmpty (stored.outcome.userVisibleItemId.map Json.string) =
      some itemId := by
    rw [same]
    cases itemId with
    | none => rfl
    | some itemId => exact congrArg (Option.map some) parseNonEmpty_text
  have detail : parseOptional parseDetails
      (stored.outcome.details.map fun details => .object (serializeFields details)) = some details := by
    rw [same]
    cases details with
    | none => rfl
    | some details =>
      simp [StoredOutcome.ofFields, parseOptional, parseDetails]
  simp only [parseRunOutcome, outcomeFields_strict, atStatus, atReason, atItem, atRetryable,
    atDetails, item, detail, parseEnum_status, parseEnum_reason, parseFlag, Option.bind_eq_bind,
    Option.bind_some, ← same]

private theorem mapM_map_some {write : α → β} (each : ∀ item, parse (write item) = some item)
    (items : List α) : (items.map write).mapM parse = some items := by
  induction items with
  | nil => rfl
  | cons item rest ih => simp [mapM_cons, each, ih]

private theorem parseArray_map {write : α → Json} (each : ∀ item, parse (write item) = some item) :
    parseArray parse (some (.array (items.map write))) = some items :=
  mapM_map_some each items

private theorem requireType (name : String) (nonblank : jsTrim name ≠ "") :
    requireNonEmptyString (some (.string name)) label = .ok ⟨name, nonblank⟩ :=
  requireNonEmptyString_text ⟨name, nonblank⟩

/-- Writing an accepted command out and parsing it again gives it back. -/
theorem parse_toJson (command : MiddlewareCommand) :
    parseMiddlewareCommand command.toJson = .ok command := by
  cases command with
  | setMiddlewareState id state =>
    simp [parseMiddlewareCommand, MiddlewareCommand.toJson, requireRecord, lookup_cons,
      requireType "set-middleware-state" (by decide), bind, Except.bind, assertOnlyKeys,
      requireNonEmptyString_text, requirePositiveSafeInteger, pure, Except.pure]
  | setBudget entry =>
    simp [parseMiddlewareCommand, MiddlewareCommand.toJson, requireRecord, lookup_cons,
      requireType "set-budget" (by decide), bind, Except.bind, assertOnlyKeys,
      requireBudgetKey_name, requireBudgetValue_entry, pure, Except.pure]
  | addBudget delta usageId =>
    cases usageId <;>
      simp [parseMiddlewareCommand, MiddlewareCommand.toJson, requireRecord, lookup_cons,
        requireType "add-budget" (by decide), bind, Except.bind, assertOnlyKeys, optionalJson,
        parseBudgetDelta_json, requireNonEmptyString_text, pure, Except.pure]
  | setNodeData nodeId value =>
    simp [parseMiddlewareCommand, MiddlewareCommand.toJson, requireRecord, lookup_cons,
      requireType "set-node-data" (by decide), bind, Except.bind, assertOnlyKeys,
      requireNonEmptyString_text, pure, Except.pure]
  | setTaskRevision revision =>
    simp [parseMiddlewareCommand, MiddlewareCommand.toJson, requireRecord, lookup_cons,
      requireType "set-task-revision" (by decide), bind, Except.bind, assertOnlyKeys,
      requireNonNegativeSafeInteger, pure, Except.pure]
  | setRecovery recovery =>
    simp [parseMiddlewareCommand, MiddlewareCommand.toJson, requireRecord, lookup_cons,
      requireType "set-recovery" (by decide), bind, Except.bind, assertOnlyKeys,
      parseRecoveryState_json, orSchemaError, pure, Except.pure]
  | setEffects pending committed =>
    simp [parseMiddlewareCommand, MiddlewareCommand.toJson, requireRecord, lookup_cons,
      requireType "set-effects" (by decide), bind, Except.bind, assertOnlyKeys,
      parseArray_map parseEffectIntent_json, parseArray_map parseCommittedEffectRef_json,
      orSchemaError, pure, Except.pure]
  | jump nodeId condition reason =>
    simp [parseMiddlewareCommand, MiddlewareCommand.toJson, requireRecord, lookup_cons,
      requireType "jump" (by decide), bind, Except.bind, assertOnlyKeys,
      requireNonEmptyString_text, pure, Except.pure]
  | terminate outcome final =>
    simp [parseMiddlewareCommand, MiddlewareCommand.toJson, requireRecord, lookup_cons,
      requireType "terminate" (by decide), bind, Except.bind, assertOnlyKeys,
      parseRunOutcome_json, orSchemaError, final, pure, Except.pure]
  | suspend outcome waiting =>
    simp [parseMiddlewareCommand, MiddlewareCommand.toJson, requireRecord, lookup_cons,
      requireType "suspend" (by decide), bind, Except.bind, assertOnlyKeys,
      parseRunOutcome_json, orSchemaError, waiting, pure, Except.pure]
  | retry reason =>
    simp [parseMiddlewareCommand, MiddlewareCommand.toJson, requireRecord, lookup_cons,
      requireType "retry" (by decide), bind, Except.bind, assertOnlyKeys,
      requireNonEmptyString_text, pure, Except.pure]
  | repairHistory items =>
    simp [parseMiddlewareCommand, MiddlewareCommand.toJson, requireRecord, lookup_cons,
      requireType "repair-history" (by decide), bind, Except.bind, assertOnlyKeys,
      pure, Except.pure]
  | recordWarning code message =>
    simp [parseMiddlewareCommand, MiddlewareCommand.toJson, requireRecord, lookup_cons,
      requireType "record-warning" (by decide), bind, Except.bind, assertOnlyKeys,
      requireNonEmptyString_text, pure, Except.pure]

/-- The list the kernel writes into an event payload. -/
def commandsJson (commands : List MiddlewareCommand) : Json :=
  .array (commands.map MiddlewareCommand.toJson)

private theorem canonicalizeFrom_toJson :
    canonicalizeFrom index (listToJs (commands.map MiddlewareCommand.toJson)) = .ok commands := by
  induction commands generalizing index with
  | nil => rfl
  | cons command rest ih =>
    simp [listToJs, canonicalizeFrom, canonicalizeCommand, parse_toJson, ih, bind, Except.bind,
      Except.mapError, pure, Except.pure]

@[simp] theorem canonicalize_commandsJson (commands : List MiddlewareCommand) :
    canonicalizeMiddlewareCommands (commandsJson commands).toJs = .ok commands := by
  simpa [commandsJson, Json.toJs, canonicalizeMiddlewareCommands] using canonicalizeFrom_toJson

end QiongQi.MiddlewareCommands
