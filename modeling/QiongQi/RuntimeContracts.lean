import Mathlib.Data.Rat.Cast.Defs
import QiongQi.JsonValues

/-! The records of `contracts/src/runtime-kernel.ts`: run identity, outcome,
effects, run state and run events, with what their schemas do to a value on its
way to a store. `persist` is schema parse, JSON text and schema parse again; a
record it leaves alone is one that a later process sees unchanged. -/
namespace QiongQi.RuntimeContracts
open JsonValues

/-- The characters `String.prototype.trim` removes. -/
def isJsSpace (c : Char) : Bool :=
  (9 ≤ c.toNat && c.toNat ≤ 13) || c.toNat = 32 || c.toNat = 160 || c.toNat = 5760 ||
    (8192 ≤ c.toNat && c.toNat ≤ 8202) || c.toNat = 8232 || c.toNat = 8233 ||
    c.toNat = 8239 || c.toNat = 8287 || c.toNat = 12288 || c.toNat = 65279

def trimChars (chars : List Char) : List Char :=
  ((chars.dropWhile isJsSpace).reverse.dropWhile isJsSpace).reverse

/-- `text.trim()`. -/
def jsTrim (text : String) : String :=
  String.ofList (trimChars text.toList)

private theorem dropWhile_of_head {items : List α} (head : ∀ item ∈ items.head?, p item = false) :
    items.dropWhile p = items := by
  cases items with
  | nil => rfl
  | cons item rest => simp [List.dropWhile, head item (by simp)]

private theorem dropWhile_head {p : α → Bool} {items : List α} :
    ∀ item ∈ (items.dropWhile p).head?, p item = false := by
  induction items with
  | nil => simp
  | cons item rest ih =>
    simp only [List.dropWhile]
    split
    · exact ih
    · simp_all

private theorem trimChars_prefix : trimChars chars <+: chars.dropWhile isJsSpace := by
  have suffix := List.dropWhile_suffix isJsSpace (l := (chars.dropWhile isJsSpace).reverse)
  simpa [trimChars] using List.reverse_prefix.mpr suffix

private theorem trimChars_head (chars : List Char) :
    ∀ c ∈ (trimChars chars).head?, isJsSpace c = false := by
  intro c first
  obtain ⟨rest, whole⟩ := trimChars_prefix
  have head := @dropWhile_head _ isJsSpace chars c
  rw [← whole, List.head?_append, Option.mem_def.mp first] at head
  exact head rfl

private theorem trimChars_last (chars : List Char) :
    ∀ c ∈ (trimChars chars).reverse.head?, isJsSpace c = false := by
  simpa [trimChars] using @dropWhile_head _ isJsSpace (chars.dropWhile isJsSpace).reverse

theorem trimChars_idem (chars : List Char) : trimChars (trimChars chars) = trimChars chars := by
  have front : (trimChars chars).dropWhile isJsSpace = trimChars chars :=
    dropWhile_of_head (trimChars_head chars)
  have back : (trimChars chars).reverse.dropWhile isJsSpace = (trimChars chars).reverse :=
    dropWhile_of_head (trimChars_last chars)
  calc trimChars (trimChars chars)
      = ((trimChars chars).reverse.dropWhile isJsSpace).reverse := by rw [trimChars, front]
    _ = trimChars chars := by rw [back, List.reverse_reverse]

@[simp] theorem jsTrim_idem (text : String) : jsTrim (jsTrim text) = jsTrim text := by
  simp [jsTrim, trimChars_idem]

/-- `z.string().trim().min(1)`: a string its own schema leaves alone. -/
structure NonEmptyString where
  text : String
  trimmed : jsTrim text = text
  nonempty : text ≠ ""
  deriving DecidableEq

/-- The schema trims its input and refuses a blank one. -/
def NonEmptyString.parse (text : String) : Option NonEmptyString :=
  if nonempty : jsTrim text ≠ "" then some ⟨jsTrim text, jsTrim_idem text, nonempty⟩ else none

@[simp] theorem NonEmptyString.parse_text (value : NonEmptyString) :
    NonEmptyString.parse value.text = some value := by
  obtain ⟨text, trimmed, nonempty⟩ := value
  simp [NonEmptyString.parse, trimmed, nonempty]

private theorem head_of_trimmed (trimmed : trimChars chars = chars) :
    ∀ c ∈ chars.head?, isJsSpace c = false := by
  have head := trimChars_head chars
  rwa [trimmed] at head

private theorem last_of_trimmed (trimmed : trimChars chars = chars) :
    ∀ c ∈ chars.reverse.head?, isJsSpace c = false := by
  have last := trimChars_last chars
  rwa [trimmed] at last

theorem trimChars_join {front back : List Char} (frontTrimmed : trimChars front = front)
    (backTrimmed : trimChars back = back) (frontSome : front ≠ []) (backSome : back ≠ []) :
    trimChars (front ++ middle ++ back) = front ++ middle ++ back := by
  have first : (front ++ middle ++ back).dropWhile isJsSpace = front ++ middle ++ back := by
    have front := head_of_trimmed frontTrimmed
    obtain ⟨c, rest, rfl⟩ := List.exists_cons_of_ne_nil frontSome
    exact dropWhile_of_head front
  have last : (front ++ middle ++ back).reverse.dropWhile isJsSpace = (front ++ middle ++ back).reverse := by
    rw [List.reverse_append]
    obtain ⟨c, rest, reversed⟩ := List.exists_cons_of_ne_nil (List.reverse_ne_nil_iff.mpr backSome)
    have back := last_of_trimmed backTrimmed
    rw [reversed] at back ⊢
    exact dropWhile_of_head back
  rw [trimChars, first, last, List.reverse_reverse]

private theorem join_trimmed (front back : NonEmptyString) :
    jsTrim (front.text ++ middle ++ back.text) = front.text ++ middle ++ back.text := by
  have trimmed : ∀ value : NonEmptyString, trimChars value.text.toList = value.text.toList := by
    intro value
    have same := congrArg String.toList value.trimmed
    rwa [jsTrim, String.toList_ofList] at same
  have some_ : ∀ value : NonEmptyString, value.text.toList ≠ [] :=
    fun value none => value.nonempty (String.toList_eq_nil_iff.mp none)
  rw [jsTrim, String.toList_append, String.toList_append,
    trimChars_join (trimmed front) (trimmed back) (some_ front) (some_ back),
    ← String.toList_append, ← String.toList_append, String.ofList_toList]

private theorem join_nonempty (front back : NonEmptyString) :
    front.text ++ middle ++ back.text ≠ "" := by
  intro empty
  have none := String.append_eq_empty_iff.mp empty
  exact back.nonempty none.2

/-- A name that begins with one name and ends with another. -/
def NonEmptyString.join (front : NonEmptyString) (middle : String) (back : NonEmptyString) :
    NonEmptyString :=
  ⟨front.text ++ middle ++ back.text, join_trimmed front back, join_nonempty front back⟩

/-- The text as a name, or a dash where it is none. -/
def named (text : String) : NonEmptyString :=
  if fit : jsTrim text = text ∧ text ≠ "" then ⟨text, fit.1, fit.2⟩
  else ⟨"-", by decide, by decide⟩

/-- `schema.optional()`: an absent field stays absent. -/
def optionalField (parse : α → Option β) : Option α → Option (Option β)
  | none => some none
  | some value => (parse value).map some

theorem optionalField_some_iff : optionalField parse field = some parsed ↔ (field = none ∧ parsed = none) ∨
        ∃ value result, field = some value ∧ parse value = some result ∧ parsed = some result := by
  cases field with
  | none | some value => simp [optionalField, eq_comm]

theorem optionalField_idem
    (idem : ∀ value result, parse value = some result → parse result = some result)
    (found : optionalField parse field = some parsed) :
    optionalField parse parsed = some parsed := by
  rcases optionalField_some_iff.mp found with ⟨_, rfl⟩ | ⟨value, result, _, stored, rfl⟩
  · rfl
  · simp [optionalField, idem value result stored]

/-- `Number.MAX_SAFE_INTEGER`. -/
def maxSafeInteger : Nat := 9007199254740991

theorem one_safe : 1 ≤ maxSafeInteger := by decide

/-- `Number.isSafeInteger`. -/
def isSafeInteger (value : ℚ) : Bool :=
  value.den = 1 && value.num.natAbs ≤ maxSafeInteger

/-- `z.number().int().nonnegative()`. -/
structure SafeNat where
  value : Nat
  safe : value ≤ maxSafeInteger

/-- `z.number().int().positive()`. -/
structure PositiveSafeInteger where
  value : Nat
  positive : 0 < value
  safe : value ≤ maxSafeInteger

def SafeNat.parse (value : ℚ) : Option SafeNat :=
  if safe : value.den = 1 ∧ 0 ≤ value.num ∧ value.num.toNat ≤ maxSafeInteger then
    some ⟨value.num.toNat, safe.2.2⟩
  else none

def PositiveSafeInteger.parse (value : ℚ) : Option PositiveSafeInteger :=
  if safe : value.den = 1 ∧ 0 < value.num ∧ value.num.toNat ≤ maxSafeInteger then
    some ⟨value.num.toNat, by omega, safe.2.2⟩
  else none

@[simp] theorem SafeNat.parse_value (value : SafeNat) :
    SafeNat.parse (value.value : ℚ) = some value := by
  simp [SafeNat.parse, value.safe]

@[simp] theorem PositiveSafeInteger.parse_value (value : PositiveSafeInteger) :
    PositiveSafeInteger.parse (value.value : ℚ) = some value := by
  simp [PositiveSafeInteger.parse, value.safe, value.positive]

structure RunIdentity where
  ownerUserId : NonEmptyString
  threadId : NonEmptyString
  turnId : NonEmptyString
  runId : NonEmptyString
  workspaceKey : NonEmptyString
  deriving DecidableEq

inductive RunStatus where
  | created | running | suspended | completed | degraded | failed | aborted
  deriving DecidableEq

/-- The statuses an outcome can carry: exactly the terminal ones. -/
inductive OutcomeStatus where
  | completed | degraded | failed | aborted | suspended
  deriving DecidableEq

def OutcomeStatus.toRunStatus : OutcomeStatus → RunStatus
  | .completed => .completed
  | .degraded => .degraded
  | .failed => .failed
  | .aborted => .aborted
  | .suspended => .suspended

inductive RunOutcomeReason where
  | normalStop | awaitingUserInput | toolCompletedNoFinalText | contextCapacityExceeded
  | contextRecoveryExhausted | loopCapped | stepCapped | tokenCapped | costCapped
  | providerSafetyStop | providerProtocolError | requiredActionMissing | toolFailed
  | userAborted | runtimeError
  deriving DecidableEq

structure RunOutcome where
  status : OutcomeStatus
  reason : RunOutcomeReason
  userVisibleItemId : Option String := none
  retryable : Bool
  details : Option (List (String × JsValue)) := none

/-- An outcome as it comes back from a store. -/
def RunOutcome.persist (outcome : RunOutcome) : Option RunOutcome := do
  let userVisibleItemId ← optionalField NonEmptyString.parse outcome.userVisibleItemId
  pure { outcome with
    userVisibleItemId := userVisibleItemId.map NonEmptyString.text
    details := outcome.details.map fun details => fieldsToJs (serializeFields details) }

theorem RunOutcome.persist_some_iff {outcome stored : RunOutcome} : outcome.persist = some stored ↔
      ∃ itemId, optionalField NonEmptyString.parse outcome.userVisibleItemId = some itemId ∧
        stored = { outcome with
          userVisibleItemId := itemId.map NonEmptyString.text
          details := outcome.details.map fun details => fieldsToJs (serializeFields details) } := by
  simp only [RunOutcome.persist, Option.bind_eq_bind, Option.bind_eq_some_iff, Option.pure_def,
    Option.some.injEq]
  exact exists_congr fun itemId => and_congr Iff.rfl eq_comm

theorem RunOutcome.persist_idem {outcome stored : RunOutcome}
    (persisted : outcome.persist = some stored) : stored.persist = some stored := by
  obtain ⟨itemId, parsed, rfl⟩ := persist_some_iff.mp persisted
  refine persist_some_iff.mpr ⟨itemId, ?_, ?_⟩
  · cases itemId <;> simp [optionalField]
  · cases outcome.details <;> simp

inductive EffectKind where
  | model | tool | approval | userInput | item
  deriving DecidableEq

inductive EffectClass where
  | read | idempotentWrite | nonIdempotentWrite
  deriving DecidableEq

inductive ReplayPolicy where
  | safe | verifyFirst | never
  deriving DecidableEq

structure EffectIntent where
  idempotencyKey : NonEmptyString
  kind : EffectKind
  effect : EffectClass
  replay : ReplayPolicy
  target : NonEmptyString
  payloadDigest : NonEmptyString
  preparedAt : NonEmptyString

inductive CommitStatus where
  | committed | verified | failed
  deriving DecidableEq

structure CommittedEffectRef where
  idempotencyKey : NonEmptyString
  resultDigest : NonEmptyString
  status : CommitStatus
  resultRef : Option String := none
  committedAt : NonEmptyString

structure RunCursor where
  stepIndex : Nat
  nodeId : String
  attempt : Nat
  checkpointSeq : Nat

/-- JavaScript numbers; the kernel keeps every one but the cost a safe integer. -/
structure BudgetState where
  stepsUsed : ℚ := 0
  toolCallsUsed : ℚ := 0
  inputTokens : ℚ := 0
  outputTokens : ℚ := 0
  costUsd : ℚ := 0

structure RecoveryState where
  attempts : SafeNat
  maxAttempts : SafeNat
  lastReason : Option String := none

structure MiddlewareState where
  version : PositiveSafeInteger
  data : Json

/-- `RunStateV3`. The literals `version: 3` and `runtimeMode: 'kernel_v3'` carry
no information; `parentRunId` is never written by the kernel. -/
structure RunStateV3 where
  graphVersion : String
  identity : RunIdentity
  status : RunStatus
  cursor : RunCursor
  budgets : BudgetState
  recovery : RecoveryState
  middleware : List (String × MiddlewareState)
  nodeData : List (String × JsValue)
  taskRevision : SafeNat
  pendingEffects : List EffectIntent
  committedEffects : List CommittedEffectRef
  outcome : Option RunOutcome := none
  createdAt : NonEmptyString
  updatedAt : NonEmptyString

/-- The state a `RunSnapshotStore` hands back after saving this one; `none`
where `RunStateV3Schema.parse` throws. -/
def RunStateV3.persist (state : RunStateV3) : Option RunStateV3 := do
  let graphVersion ← NonEmptyString.parse state.graphVersion
  let nodeId ← NonEmptyString.parse state.cursor.nodeId
  let outcome ← optionalField RunOutcome.persist state.outcome
  pure { state with
    graphVersion := graphVersion.text
    cursor := { state.cursor with nodeId := nodeId.text }
    nodeData := fieldsToJs (serializeFields state.nodeData)
    outcome := outcome }

/-- What `persist` does, field by field. -/
theorem RunStateV3.persist_some_iff {state stored : RunStateV3} : state.persist = some stored ↔
      ∃ graphVersion nodeId outcome, NonEmptyString.parse state.graphVersion = some graphVersion ∧
        NonEmptyString.parse state.cursor.nodeId = some nodeId ∧
        optionalField RunOutcome.persist state.outcome = some outcome ∧
        stored = { state with
          graphVersion := graphVersion.text
          cursor := { state.cursor with nodeId := nodeId.text }
          nodeData := fieldsToJs (serializeFields state.nodeData)
          outcome := outcome } := by
  simp only [RunStateV3.persist, Option.bind_eq_bind, Option.bind_eq_some_iff, Option.pure_def,
    Option.some.injEq]
  constructor
  · rintro ⟨graphVersion, parsedVersion, nodeId, parsedNode, outcome, kept, rfl⟩
    exact ⟨graphVersion, nodeId, outcome, parsedVersion, parsedNode, kept, rfl⟩
  · rintro ⟨graphVersion, nodeId, outcome, parsedVersion, parsedNode, kept, rfl⟩
    exact ⟨graphVersion, parsedVersion, nodeId, parsedNode, outcome, kept, rfl⟩

theorem RunStateV3.persist_idem {state stored : RunStateV3}
    (persisted : state.persist = some stored) : stored.persist = some stored := by
  obtain ⟨graphVersion, nodeId, outcome, _, _, kept, rfl⟩ := persist_some_iff.mp persisted
  refine persist_some_iff.mpr
    ⟨graphVersion, nodeId, outcome, graphVersion.parse_text, nodeId.parse_text, ?_, ?_⟩
  · exact optionalField_idem (fun _ _ => RunOutcome.persist_idem) kept
  · simp

/-- `RunEventEnvelope`. Event ids are fresh `randomUUID`s and nothing reads
`idempotencyKey` back, so neither is kept. -/
structure RunEventEnvelope where
  seq : Nat
  identity : RunIdentity
  stepId : Option String := none
  nodeAttemptId : Option String := none
  eventType : String
  payload : JsValue
  timestamp : NonEmptyString

/-- An event as it is read back from its JSON line. -/
def RunEventEnvelope.readBack (event : RunEventEnvelope) : RunEventEnvelope :=
  { event with payload := (event.payload.serialize.map Json.toJs).getD .undefined }

end QiongQi.RuntimeContracts
