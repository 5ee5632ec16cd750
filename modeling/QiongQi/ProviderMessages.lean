import QiongQi.HistoryRepair
import QiongQi.RuntimeContracts

/-! `collectMessages` of the model client: the message list that a provider is sent, for a
model whose tool history is not folded into system messages. -/
namespace QiongQi.ProviderMessages
open HistoryRepair RuntimeContracts TurnItems

inductive ContentPart where
  | text (text : String)
  | imageUrl (url : String)

inductive MessageContent where
  | text (text : String)
  | parts (parts : List ContentPart)

inductive MessageRole where
  | system | user | assistant | tool
  deriving DecidableEq

structure WireToolCall where
  id : String
  name : String
  arguments : String

structure ChatMessage where
  role : MessageRole
  content : Option MessageContent
  toolCallId : Option String := none
  reasoningContent : Option String := none
  reasoningSignature : Option String := none
  toolCalls : List WireToolCall := []

/-- `text.trim()` leaves nothing. -/
def isBlank (text : String) : Bool := jsTrim text = ""

def reasoningContentOrSpace (text : String) : String :=
  if isBlank text then " " else text

def isPreToolCallBridgeItem (turnId : String) (item : TurnItem) : Bool :=
  item.turnId = turnId && match item.body with
    | .assistantReasoning .. | .assistantText .. | .approval .. | .userInput .. | .error .. => true
    | _ => false

/-- Bridge items of the turn lead to a tool call of the turn. -/
def leadsToToolCall (turnId : String) : List TurnItem → Bool
  | [] => false
  | next :: rest =>
    if isPreToolCallBridgeItem turnId next then leadsToToolCall turnId rest
    else TurnItem.isToolCall next && next.turnId = turnId

def isBridgeItemBeforeToolCall (item : TurnItem) (rest : List TurnItem) : Bool :=
  match item.body with
  | .assistantReasoning .. | .assistantText .. => leadsToToolCall item.turnId rest
  | _ => false

def toolCallToWire (item : TurnItem) : WireToolCall :=
  match item.body with
  | .toolCall toolName callId arguments _ => { id := callId, name := toolName, arguments }
  | _ => { id := "", name := "", arguments := "" }

def toolResultToMessage (item : TurnItem) : ChatMessage :=
  match item.body with
  | .toolResult _ callId output _ =>
    { role := .tool, content := some (.text output), toolCallId := some callId }
  | _ => { role := .tool, content := none }

/-- The text of an item that says something. -/
def saidText (item : TurnItem) : Option String :=
  match item.body with
  | .assistantText text => if isBlank text then none else some text
  | _ => none

def saidReasoning (item : TurnItem) : Option String :=
  match item.body with
  | .assistantReasoning text _ => if isBlank text then none else some text
  | _ => none

/-- What stands between a block of calls and the first item that is none of its results. -/
structure ResultScan where
  results : List TurnItem := []
  texts : List String := []
  reasonings : List String := []
  stretch : List TurnItem := []

def scanResults (turnId : String) (expectedCallIds : List String) :
    (seenResultIds : List String) → (sawResult : Bool) → List TurnItem → ResultScan
  | _, _, [] => {}
  | seenResultIds, sawResult, item :: rest =>
    if TurnItem.isToolResult item then
      if TurnItem.callId item ∈ expectedCallIds ∧ TurnItem.callId item ∉ seenResultIds then
        let later := scanResults turnId expectedCallIds (TurnItem.callId item :: seenResultIds) true rest
        { later with results := item :: later.results, stretch := item :: later.stretch }
      else
        let later := scanResults turnId expectedCallIds seenResultIds true rest
        { later with stretch := item :: later.stretch }
    else if isToolResultBridgeItem item turnId sawResult then
      let later := scanResults turnId expectedCallIds seenResultIds sawResult rest
      if sawResult then { later with stretch := item :: later.stretch }
      else { later with
        texts := (saidText item).toList ++ later.texts
        reasonings := (saidReasoning item).toList ++ later.reasonings
        stretch := item :: later.stretch }
    else {}

/-- The first signature of the turn's reasoning. -/
def reasoningSignatureFromItems (items : List TurnItem) (turnId : String) : Option String :=
  items.findSome? fun item =>
    match item.body with
    | .assistantReasoning _ signature =>
      if item.turnId = turnId then signature.filter fun signature => signature ≠ "" else none
    | _ => none

/-- The block of adjacent calls that starts with a call. -/
def callBlock (call : TurnItem) (rest : List TurnItem) : List TurnItem :=
  call :: rest.takeWhile TurnItem.isToolCall

def scanBlock (call : TurnItem) (rest : List TurnItem) : ResultScan :=
  scanResults call.turnId ((callBlock call rest).map TurnItem.callId) [] false
    (rest.dropWhile TurnItem.isToolCall)

/-- Each call of the block has a result in the stretch after it. -/
def isAnswered (call : TurnItem) (rest : List TurnItem) : Bool :=
  ((callBlock call rest).map TurnItem.callId).all fun callId =>
    callId ∈ (scanBlock call rest).results.map TurnItem.callId

/-- The bridge items of the turn right before, in their order. -/
def bridgeBefore (before : List TurnItem) (turnId : String) : List TurnItem :=
  (before.takeWhile (isPreToolCallBridgeItem turnId)).reverse

/-- The message of a block of tool calls with its answers, and how many items after the first
call it takes up. `before` holds the items before the block, the nearest first. -/
def toolCallBlockToMessages (thinkingMode : Bool) (before : List TurnItem) (call : TurnItem)
    (rest : List TurnItem) : Option (List ChatMessage × Nat) :=
  let bridge := bridgeBefore before call.turnId
  let scan := scanBlock call rest
  let assistantText := bridge.filterMap saidText ++ scan.texts
  let reasoningText := bridge.filterMap saidReasoning ++ scan.reasonings
  if isAnswered call rest then
    some
      ({ role := .assistant
         content := some (.text (String.intercalate "\n" assistantText))
         reasoningContent :=
           if thinkingMode then some (reasoningContentOrSpace (String.intercalate "\n" reasoningText))
           else none
         reasoningSignature :=
           if thinkingMode then reasoningSignatureFromItems bridge call.turnId else none
         toolCalls := (callBlock call rest).map toolCallToWire } :: scan.results.map toolResultToMessage,
        (rest.takeWhile TurnItem.isToolCall).length + scan.stretch.length)
  else none

/-- The message of an item that stands for itself. -/
def itemToMessage (thinkingMode : Bool) (item : TurnItem) : Option ChatMessage :=
  match item.body with
  | .userMessage text _ => some { role := .user, content := some (.text text) }
  | .assistantText text => some
    { role := .assistant
      content := some (.text text)
      reasoningContent := if thinkingMode then some " " else none }
  | .assistantReasoning .. => none
  | .toolCall .. => some
    { role := .assistant
      content := some (.text "")
      reasoningContent := if thinkingMode then some " " else none
      toolCalls := [toolCallToWire item] }
  | .toolResult .. => some (toolResultToMessage item)
  | .compaction summary replacedTokens =>
    if 0 < replacedTokens then
      some { role := .system, content := some (.text ("Conversation summary from earlier turns:\n" ++ summary)) }
    else none
  | .review _ reviewText =>
    match item.status, reviewText.filter fun text => !isBlank text with
    | .completed, some text =>
      some { role := .system, content := some (.text ("Code review result from an earlier turn:\n" ++ text)) }
    | _, _ => none
  | .approval .. | .userInput .. | .runtimeProgress .. | .error .. => none

/-- Reasoning goes along with the text of its turn that comes next. -/
def reasonedText (item : TurnItem) (rest : List TurnItem) : Option ChatMessage :=
  match item.body, rest with
  | .assistantReasoning reasoning signature, next :: _ =>
    match next.body with
    | .assistantText text =>
      if next.turnId = item.turnId then some
        { role := .assistant
          content := some (.text text)
          reasoningContent := some (reasoningContentOrSpace reasoning)
          reasoningSignature := signature.filter fun signature => signature ≠ "" }
      else none
    | _ => none
  | _, _ => none

def TurnItem.isReasoning (item : TurnItem) : Bool :=
  match item.body with
  | .assistantReasoning .. => true
  | _ => false

def itemsToMessages (thinkingMode : Bool) (before : List TurnItem) : List TurnItem → List ChatMessage
  | [] => []
  | item :: rest =>
    if isBridgeItemBeforeToolCall item rest then itemsToMessages thinkingMode (item :: before) rest
    else if thinkingMode && TurnItem.isReasoning item then
      match reasonedText item rest with
      | some message =>
        message :: itemsToMessages thinkingMode ((rest.take 1).reverse ++ item :: before) (rest.drop 1)
      | none => itemsToMessages thinkingMode (item :: before) rest
    else if TurnItem.isToolCall item then
      match toolCallBlockToMessages thinkingMode before item rest with
      | some (messages, more) => messages ++
          itemsToMessages thinkingMode ((rest.take more).reverse ++ item :: before) (rest.drop more)
      | none => itemsToMessages thinkingMode (item :: before) rest
    else if TurnItem.isToolResult item then itemsToMessages thinkingMode (item :: before) rest
    else (itemToMessage thinkingMode item).toList ++ itemsToMessages thinkingMode (item :: before) rest
  termination_by items => items.length
  decreasing_by all_goals simp [List.length_drop] <;> omega

/-- The tool messages that answer one of the calls. -/
def answersOf (calls : List WireToolCall) (messages : List ChatMessage) : List ChatMessage :=
  messages.filter fun message => message.toolCallId.any fun toolCallId =>
    toolCallId ≠ "" && toolCallId ∈ calls.map WireToolCall.id

def isToolMessage (message : ChatMessage) : Bool := message.role = .tool

def callsTools (message : ChatMessage) : Bool :=
  message.role = .assistant && !message.toolCalls.isEmpty

def healToolMessagePairs : List ChatMessage → List ChatMessage
  | [] => []
  | message :: rest =>
    if isToolMessage message then healToolMessagePairs rest
    else if callsTools message then
      let toolResults := answersOf message.toolCalls (rest.takeWhile isToolMessage)
      if message.toolCalls.all fun call => some call.id ∈ toolResults.map ChatMessage.toolCallId then
        message :: toolResults ++ healToolMessagePairs (rest.dropWhile isToolMessage)
      else healToolMessagePairs (rest.dropWhile isToolMessage)
    else message :: healToolMessagePairs rest
  termination_by messages => messages.length
  decreasing_by all_goals simp [Nat.lt_succ_iff, List.length_dropWhile_le]

/-- An assistant message of a thinking model has reasoning of some kind. -/
def normalizeThinkingMessage (message : ChatMessage) : ChatMessage :=
  if message.role = .assistant then
    { message with
      content := message.content.or (some (.text ""))
      reasoningContent := some (reasoningContentOrSpace (message.reasoningContent.getD "")) }
  else message

def normalizeThinkingAssistantMessages (thinkingMode : Bool) (messages : List ChatMessage) :
    List ChatMessage :=
  if thinkingMode then messages.map normalizeThinkingMessage else messages

def isEmptyContent (content : Option MessageContent) : Bool :=
  match content with
  | none => true
  | some (.text text) => isBlank text
  | some (.parts parts) => parts.all fun part =>
    match part with
    | .text text => isBlank text
    | .imageUrl _ => false

/-- `STRICT_PROVIDER_EMPTY_CONTENT_PLACEHOLDER`, the zero-width space. -/
def emptyContentPlaceholder : String := "\u200b"

def sanitizeMessage (requiresAssistantContent : Bool) (message : ChatMessage) : ChatMessage :=
  if isEmptyContent message.content then
    match message.role with
    | .assistant =>
      if requiresAssistantContent then { message with content := some (.text emptyContentPlaceholder) }
      else { message with content := none }
    | .tool => { message with content := some (.text emptyContentPlaceholder) }
    | .user | .system => message
  else message

def sanitizeEmptyMessageContent (requiresAssistantContent : Bool) (messages : List ChatMessage) :
    List ChatMessage :=
  messages.map (sanitizeMessage requiresAssistantContent)

def activeTaskContinuationMessage : String :=
  "Continue the active task from the conversation summary and recent context above. " ++
  "Use the latest unresolved next action as your immediate next step. " ++
  "Do not ask the user what to do unless the summary explicitly says user input is required or " ++
  "the task is blocked."

def ensureUserMessagePresent (messages : List ChatMessage) : List ChatMessage :=
  if messages.any fun message => message.role ≠ .system then messages
  else messages ++ [{ role := .user, content := some (.text activeTaskContinuationMessage) }]

structure Attachment where
  mimeType : String
  dataBase64 : String

/-- Changes the last user message. -/
def updateLatestUserMessage (change : Option MessageContent → MessageContent) :
    List ChatMessage → List ChatMessage
  | [] => []
  | message :: rest =>
    if message.role = .user ∧ ∀ later ∈ rest, later.role ≠ .user then
      { message with content := some (change message.content) } :: rest
    else message :: updateLatestUserMessage change rest

def attachImages (attachments : List Attachment) (content : Option MessageContent) : MessageContent :=
  let images := attachments.map fun attachment =>
    ContentPart.imageUrl ("data:" ++ attachment.mimeType ++ ";base64," ++ attachment.dataBase64)
  match content with
  | some (.text text) => .parts (if text = "" then images else .text text :: images)
  | _ => .parts images

def attachText (text : String) (content : Option MessageContent) : MessageContent :=
  match content with
  | some (.text known) => .text (if known = "" then text else known ++ "\n\n" ++ text)
  | some (.parts parts) => .parts (parts ++ [.text text])
  | none => .text text

inductive ModelEndpointFormat where
  | chatCompletions | responses | messages
  deriving DecidableEq

/-- What the address and the model say about the provider. -/
structure ProviderProfile where
  requiresAssistantContentForToolCalls : Bool
  supportsMessagesThinkingBlocks : Bool
  producesThinking : Bool

/-- The parts of a request that its messages are made of. The texts of attachments that
cannot be sent as such are given as they are formatted. -/
structure ModelRequest where
  systemPrompt : Option String := none
  modeInstruction : Option String := none
  contextInstructions : List String := []
  prefixItems : List TurnItem := []
  history : List TurnItem
  thinking : Bool := false
  attachments : List Attachment := []
  attachmentTextFallbacks : List String := []

def isCompaction (item : TurnItem) : Bool :=
  match item.body with
  | .compaction _ replacedTokens => 0 < replacedTokens
  | _ => false

/-- The last items, and the last compaction before them if there is none among them. -/
def limitHistoryPreservingCompaction (history : List TurnItem) (windowSize : Nat) : List TurnItem :=
  if history.length ≤ windowSize then history
  else
    let windowStart := history.length - windowSize
    let limited := history.drop windowStart
    if limited.any isCompaction then limited
    else
      match (history.take windowStart).reverse.find? isCompaction with
      | some item =>
        if windowSize ≤ 1 then [item] else item :: history.drop (history.length - (windowSize - 1))
      | none => limited

/-- The items that the messages are made of, repaired. -/
def repairedItems (historyLimit : Nat) (request : ModelRequest) : List TurnItem :=
  let history := if historyLimit = 0 then request.history
    else limitHistoryPreservingCompaction request.history historyLimit
  repairModelHistoryItems (request.prefixItems ++ history)

def thinkingModeOf (profile : ProviderProfile) (endpointFormat : ModelEndpointFormat)
    (includeReasoning : Bool) (request : ModelRequest) (items : List TurnItem) : Bool :=
  includeReasoning && match endpointFormat with
    | .messages => profile.supportsMessagesThinkingBlocks &&
        (request.thinking || items.any TurnItem.isReasoning)
    | .chatCompletions | .responses => request.thinking || profile.producesThinking

def systemMessage (text : String) : ChatMessage := { role := .system, content := some (.text text) }

def instructionMessages (request : ModelRequest) : List ChatMessage :=
  ((request.systemPrompt.filter fun text => text ≠ "").toList ++
    (request.modeInstruction.filter fun text => text ≠ "").toList ++
    request.contextInstructions.filter fun text => !isBlank text).map systemMessage

def attachAll (request : ModelRequest) (messages : List ChatMessage) : List ChatMessage :=
  let withImages := if request.attachments.isEmpty then messages
    else updateLatestUserMessage (attachImages request.attachments) messages
  if request.attachmentTextFallbacks.isEmpty then withImages
  else updateLatestUserMessage
    (attachText (String.intercalate "\n\n" request.attachmentTextFallbacks)) withImages

def collectMessages (profile : ProviderProfile) (historyLimit : Nat)
    (endpointFormat : ModelEndpointFormat) (includeReasoning : Bool) (request : ModelRequest) :
    List ChatMessage :=
  let items := repairedItems historyLimit request
  let thinkingMode := thinkingModeOf profile endpointFormat includeReasoning request items
  let out := attachAll request (instructionMessages request ++ itemsToMessages thinkingMode [] items)
  let healed := normalizeThinkingAssistantMessages thinkingMode (healToolMessagePairs out)
  let sanitized := sanitizeEmptyMessageContent profile.requiresAssistantContentForToolCalls healed
  match endpointFormat with
  | .messages => sanitized
  | .chatCompletions | .responses => ensureUserMessagePresent sanitized

end QiongQi.ProviderMessages
