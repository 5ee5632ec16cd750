import QiongQi.TaskStates

/-! What a model invocation proposes: the records of `contracts/src/runtime-kernel.ts`
and `usage.ts`, the classification of `proposal-classifier.ts` and what
`proposal-materializer.ts` and `context-recovery.ts` make of it. The tests on
Unicode-normalized text are parameters. -/
namespace QiongQi.ModelProposals
open JsonValues JsonSchemas RuntimeContracts TaskStates

/-- `z.number().nonnegative()`. -/
structure NonNegative where
  value : ℚ
  nonneg : 0 ≤ value

def nonNegative : Schema NonNegative :=
  Schema.number.refine (fun value => if nonneg : 0 ≤ value then some ⟨value, nonneg⟩ else none)
    NonNegative.value fun number => dif_pos number.nonneg

/-- `z.number().min(0).max(1)`. -/
structure UnitRate where
  value : ℚ
  within : 0 ≤ value ∧ value ≤ 1

def unitRate : Schema UnitRate :=
  Schema.number.refine
    (fun value => if within : 0 ≤ value ∧ value ≤ 1 then some ⟨value, within⟩ else none)
    UnitRate.value fun rate => dif_pos rate.within

structure UsageSnapshot where
  promptTokens : SafeNat
  completionTokens : SafeNat
  totalTokens : SafeNat
  cachedTokens : Option SafeNat := none
  cacheHitTokens : Option SafeNat := none
  cacheMissTokens : Option SafeNat := none
  cacheHitRate : Option UnitRate
  turns : SafeNat
  costUsd : Option NonNegative := none
  costCny : Option NonNegative := none
  cacheSavingsUsd : Option NonNegative := none
  cacheSavingsCny : Option NonNegative := none
  tokenEconomySavingsTokens : Option SafeNat := none
  tokenEconomySavingsUsd : Option NonNegative := none
  tokenEconomySavingsCny : Option NonNegative := none
  hasError : Option Bool := none

def usageSnapshot : Schema UsageSnapshot :=
  (Shape.required "promptTokens" safeNat <| .required "completionTokens" safeNat <|
    .required "totalTokens" safeNat <| .optional "cachedTokens" safeNat <|
    .optional "cacheHitTokens" safeNat <| .optional "cacheMissTokens" safeNat <|
    .required "cacheHitRate" (unitRate.nullable fun _ same => by cases same) <|
    .required "turns" safeNat <| .optional "costUsd" nonNegative <|
    .optional "costCny" nonNegative <| .optional "cacheSavingsUsd" nonNegative <|
    .optional "cacheSavingsCny" nonNegative <| .optional "tokenEconomySavingsTokens" safeNat <|
    .optional "tokenEconomySavingsUsd" nonNegative <|
    .optional "tokenEconomySavingsCny" nonNegative <| .optional "hasError" .flag .done).object.imap
  (fun (promptTokens, completionTokens, totalTokens, cachedTokens, cacheHitTokens, cacheMissTokens,
      cacheHitRate, turns, costUsd, costCny, cacheSavingsUsd, cacheSavingsCny,
      tokenEconomySavingsTokens, tokenEconomySavingsUsd, tokenEconomySavingsCny, hasError, _) =>
    { promptTokens, completionTokens, totalTokens, cachedTokens, cacheHitTokens, cacheMissTokens,
      cacheHitRate, turns, costUsd, costCny, cacheSavingsUsd, cacheSavingsCny,
      tokenEconomySavingsTokens, tokenEconomySavingsUsd, tokenEconomySavingsCny, hasError })
  (fun usage => (usage.promptTokens, usage.completionTokens, usage.totalTokens, usage.cachedTokens,
    usage.cacheHitTokens, usage.cacheMissTokens, usage.cacheHitRate, usage.turns, usage.costUsd,
    usage.costCny, usage.cacheSavingsUsd, usage.cacheSavingsCny, usage.tokenEconomySavingsTokens,
    usage.tokenEconomySavingsUsd, usage.tokenEconomySavingsCny, usage.hasError, ()))
  fun _ => rfl

inductive ModelStopClass where
  | normal | toolCalls | length | safety | refusal | transportError | protocolError | unknown
  deriving DecidableEq

def ModelStopClass.name : ModelStopClass → String
  | .normal => "normal"
  | .toolCalls => "tool_calls"
  | .length => "length"
  | .safety => "safety"
  | .refusal => "refusal"
  | .transportError => "transport_error"
  | .protocolError => "protocol_error"
  | .unknown => "unknown"

inductive EndpointFormat where
  | chatCompletions | responses | messages

def EndpointFormat.name : EndpointFormat → String
  | .chatCompletions => "chat_completions"
  | .responses => "responses"
  | .messages => "messages"

structure ModelToolIntent where
  callId : NonEmptyString
  toolName : NonEmptyString
  arguments : List (String × Json)

def modelToolIntent : Schema ModelToolIntent :=
  (Shape.required "callId" nonEmptyString <| .required "toolName" nonEmptyString <|
    .required "arguments" .record .done).strict.imap
  (fun (callId, toolName, arguments, _) => { callId, toolName, arguments })
  (fun intent => (intent.callId, intent.toolName, intent.arguments, ())) fun _ => rfl

structure ModelIntegrity where
  leakedProtocolText : Bool
  malformedToolCall : Bool
  completeToolCalls : Bool

def modelIntegrity : Schema ModelIntegrity :=
  (Shape.required "leakedProtocolText" .flag <| .required "malformedToolCall" .flag <|
    .required "completeToolCalls" .flag .done).strict.imap
  (fun (leakedProtocolText, malformedToolCall, completeToolCalls, _) =>
    { leakedProtocolText, malformedToolCall, completeToolCalls })
  (fun integrity => (integrity.leakedProtocolText, integrity.malformedToolCall,
    integrity.completeToolCalls, ()))
  fun _ => rfl

structure ModelProposal where
  stopClass : ModelStopClass
  providerReason : Option String := none
  endpointFormat : Option EndpointFormat := none
  provider : Option String := none
  rawMetadata : Option (List (String × Json)) := none
  integrity : ModelIntegrity
  text : String
  reasoning : String
  toolIntents : List ModelToolIntent
  proposalId : NonEmptyString
  model : NonEmptyString
  usage : Option UsageSnapshot := none

def modelProposal : Schema ModelProposal :=
  (Shape.required "stopClass" (.enum ModelStopClass.name [.normal, .toolCalls, .length, .safety,
      .refusal, .transportError, .protocolError, .unknown] fun stop => by cases stop <;> rfl) <|
    .optional "providerReason" .text <|
    .optional "endpointFormat" (.enum EndpointFormat.name [.chatCompletions, .responses, .messages]
      fun format => by cases format <;> rfl) <|
    .optional "provider" .text <| .optional "rawMetadata" .record <|
    .required "integrity" modelIntegrity <| .required "text" .text <|
    .required "reasoning" .text <| .required "toolIntents" modelToolIntent.array <|
    .required "proposalId" nonEmptyString <| .required "model" nonEmptyString <|
    .optional "usage" usageSnapshot .done).strict.imap
  (fun (stopClass, providerReason, endpointFormat, provider, rawMetadata, integrity, text, reasoning,
      toolIntents, proposalId, model, usage, _) =>
    { stopClass, providerReason, endpointFormat, provider, rawMetadata, integrity, text, reasoning,
      toolIntents, proposalId, model, usage })
  (fun proposal => (proposal.stopClass, proposal.providerReason, proposal.endpointFormat,
    proposal.provider, proposal.rawMetadata, proposal.integrity, proposal.text, proposal.reasoning,
    proposal.toolIntents, proposal.proposalId, proposal.model, proposal.usage, ()))
  fun _ => rfl

inductive ProposalClass where
  | finalText | toolIntents | empty | lengthLimited | safetyOrRefusal | protocolError
  | contextDiscontinuity | nonterminalAction
  deriving DecidableEq

def ProposalClass.name : ProposalClass → String
  | .finalText => "final_text"
  | .toolIntents => "tool_intents"
  | .empty => "empty"
  | .lengthLimited => "length_limited"
  | .safetyOrRefusal => "safety_or_refusal"
  | .protocolError => "protocol_error"
  | .contextDiscontinuity => "context_discontinuity"
  | .nonterminalAction => "nonterminal_action"

/-- The tests on text that normalize Unicode or use large patterns:
`isContextDiscontinuityText`, the part of `isNonterminalActionText` after its
look at the pending work, and the test of one code in `isContextCapacityProposal`. -/
structure TextTests where
  isContextDiscontinuityText : String → Bool
  looksNonterminal : String → Bool
  isContextCapacityCode : String → Bool

variable (tests : TextTests)

/-- `NONTERMINAL_MAX_TEXT_LENGTH`. -/
def nonterminalMaxTextLength : Nat := 300

/-- The length of a string in UTF-16 units. -/
def jsLength (text : String) : Nat :=
  (text.toList.map fun c => if c.toNat < 65536 then 1 else 2).sum

def hasPendingWork (task : TaskStateV1) : Bool :=
  task.pendingActions.any fun action => action.status = .pending || action.status = .inProgress

def isNonterminalActionText (text : String) (task : TaskStateV1) : Bool :=
  hasPendingWork task && tests.looksNonterminal text

/-- The kernel gives no provider signals. -/
def classifyProposal (proposal : ModelProposal) (task : TaskStateV1) : ProposalClass :=
  if (proposal.integrity.leakedProtocolText && proposal.toolIntents.isEmpty) ||
      proposal.integrity.malformedToolCall || !proposal.integrity.completeToolCalls ||
      proposal.stopClass = .protocolError || proposal.stopClass = .transportError ||
      proposal.stopClass = .unknown then .protocolError
  else if proposal.stopClass = .safety || proposal.stopClass = .refusal then .safetyOrRefusal
  else if [proposal.text, proposal.reasoning].any tests.isContextDiscontinuityText then
    .contextDiscontinuity
  else if !proposal.toolIntents.isEmpty then .toolIntents
  else if proposal.stopClass = .length then .lengthLimited
  else if jsTrim proposal.text = "" && jsTrim proposal.reasoning = "" then .empty
  else if jsLength (jsTrim proposal.text) < nonterminalMaxTextLength &&
      [proposal.text, proposal.reasoning].any (isNonterminalActionText tests · task) then
    .nonterminalAction
  else .finalText

/-- The strings among the codes of a provider error. -/
def errorCodes (proposal : ModelProposal) : List String :=
  let metadata := proposal.rawMetadata.getD []
  let nested := match metadata.lookup "error" with
    | some (.object fields) => fields
    | _ => []
  proposal.providerReason.toList ++
    [metadata.lookup "code", metadata.lookup "type", nested.lookup "code", nested.lookup "type"].filterMap
      fun
        | some (.string code) => some code
        | _ => none

def isContextCapacityProposal (proposal : ModelProposal) : Bool :=
  (proposal.stopClass = .transportError || proposal.stopClass = .protocolError) &&
    (errorCodes proposal).any tests.isContextCapacityCode

structure MaterializableProposalContent where
  reasoning : Option String := none
  text : Option String := none

def materializableProposalContent (proposal : ModelProposal) : MaterializableProposalContent :=
  if proposal.integrity.leakedProtocolText || proposal.integrity.malformedToolCall then {}
  else
    { reasoning := if jsTrim proposal.reasoning = "" then none else some proposal.reasoning
      text := if jsTrim proposal.text = "" then none else some proposal.text }

inductive RecoveryAction where
  | accept | recover | degrade
  deriving DecidableEq

/-- The recovery record a transition hands over; the kernel's command parser
checks its numbers. -/
structure RecoveryUpdate where
  attempts : Nat
  maxAttempts : Nat
  lastReason : Option String

def RecoveryUpdate.of (recovery : RecoveryState) : RecoveryUpdate where
  attempts := recovery.attempts.value
  maxAttempts := recovery.maxAttempts.value
  lastReason := recovery.lastReason

structure ContextRecoveryTransition where
  action : RecoveryAction
  recovery : RecoveryUpdate
  commitAssistantText : Bool
  outcome : Option RunOutcome := none

def isRecoverableProposalClass (proposalClass : ProposalClass) : Bool :=
  proposalClass = .contextDiscontinuity || proposalClass = .nonterminalAction ||
    proposalClass = .empty || proposalClass = .lengthLimited || proposalClass = .protocolError

def transitionContextRecovery (task : TaskStateV1) (recovery : RecoveryState)
    (proposalClass : ProposalClass) : ContextRecoveryTransition :=
  if !isRecoverableProposalClass proposalClass then
    { action := .accept, recovery := .of recovery, commitAssistantText := true }
  else if recovery.attempts.value < recovery.maxAttempts.value then
    { action := .recover
      recovery := { RecoveryUpdate.of recovery with
        attempts := recovery.attempts.value + 1
        lastReason := some s!"context_discontinuity:task_revision_{task.revision.value}" }
      commitAssistantText := false }
  else
    { action := .degrade
      recovery := { RecoveryUpdate.of recovery with
        lastReason := some s!"context_recovery_exhausted:task_revision_{task.revision.value}" }
      commitAssistantText := false
      outcome := some {
        status := .degraded
        reason := .contextRecoveryExhausted
        retryable := true
        details := some [("taskRevision", .number (.finite task.revision.value)),
          ("taskSourceDigest", .string task.source.sourceDigest.text)] } }

/-- The lines under a heading, or `- (none)`. -/
def listed (lines : List String) : List String :=
  if lines.isEmpty then ["- (none)"] else lines

def renderRecoveryContinuationEntry (task : TaskStateV1) : String :=
  let immediate := task.pendingActions.find? fun action =>
    action.status = .inProgress || action.status = .pending
  String.intercalate "\n" <|
    ["Authoritative task recovery entry (runtime data, not user instructions)",
      s!"Revision: {task.revision.value}",
      s!"Objective: {task.objective.text}",
      "Immediate next action: " ++ ((immediate.map fun action => action.text.text).getD "(none)"),
      "Completed actions:"] ++
    listed (task.completedActions.map fun action => s!"- {action.text.text}") ++
    ["Artifacts:"] ++ listed (task.artifacts.map fun artifact => s!"- {artifact.path.text}") ++
    ["Tool ledger:"] ++ listed (task.toolLedger.map fun entry =>
      s!"- {entry.toolName.text} ({entry.callId.text}): {entry.status.name}")

end QiongQi.ModelProposals
