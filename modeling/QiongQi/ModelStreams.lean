import QiongQi.ModelTexts
import QiongQi.ProviderMessages

/-! The model client's reading of an answer: `streamSse` over the frames of a stream in each
endpoint format, and `materializeNonStreaming` over a whole body. Usage numbers are left out. -/
namespace QiongQi.ModelStreams
open JsonTexts JsonValues ModelTexts ProviderMessages

inductive ModelStopReason where
  | stop | toolCalls | length | error

inductive ModelStreamChunk where
  | assistantTextDelta (text : String)
  | assistantReasoningDelta (text : String) (signature : Option String)
  | toolCallDelta (callId : String) (toolName : Option String) (argumentsDelta : String)
  | toolCallComplete (callId toolName : String) (arguments : List (String × Json))
  | error (message : String) (code : Option String)
  | completed (stopReason : ModelStopReason)

/-! ## What the frames hold

A field that the code reads with `recordString` is empty where it is missing or no string; an
index is missing where it is no integer from 0 on. -/

structure ToolCallDelta where
  index : Option Nat := none
  id : String := ""
  name : String := ""
  arguments : Option String := none

structure ChatDelta where
  content : String := ""
  reasoningContent : String := ""
  toolCalls : Option (List ToolCallDelta) := none

/-- The first choice of a frame. -/
structure ChatPayload where
  delta : Option ChatDelta := none
  finishReason : Option String := none

structure ResponsesItem where
  type : String
  callId : String := ""
  id : String := ""
  name : String := ""
  arguments : String := ""
  input : String := ""
  /-- The blocks of a message: their types and texts. -/
  content : List (String × String) := []

structure ResponsesApiResponse where
  outputText : Option String := none
  output : List ResponsesItem := []
  status : String := "completed"
  incompleteReason : String := ""
  errorMessage : String := ""
  errorType : Option String := none

structure ResponsesPayload where
  type : String
  outputIndex : Option Nat := none
  /-- `item`, or else `output_item`. -/
  item : Option ResponsesItem := none
  callId : String := ""
  itemId : String := ""
  delta : String := ""
  arguments : String := ""
  /-- `response`, or else the payload itself read as one. -/
  response : ResponsesApiResponse := {}
  errorMessage : String := ""

structure AnthropicBlock where
  type : String
  id : String := ""
  name : String := ""
  text : String := ""
  thinking : String := ""
  signature : String := ""
  data : String := ""
  input : List (String × Json) := []

structure AnthropicDelta where
  type : String := ""
  text : String := ""
  thinking : String := ""
  signature : String := ""
  partialJson : String := ""
  stopReason : String := ""

structure AnthropicPayload where
  type : String
  index : Option Nat := none
  contentBlock : Option AnthropicBlock := none
  delta : Option AnthropicDelta := none
  errorMessage : String := ""

/-- A frame's payload as the endpoint format reads it. -/
inductive StreamPayload where
  | chatCompletions (payload : ChatPayload)
  | responses (payload : ResponsesPayload)
  | messages (payload : AnthropicPayload)

inductive StreamFrame where
  | payload (payload : StreamPayload)
  | done

structure PendingToolCall where
  index : Option Nat
  name : Option String := none
  arguments : String := ""

abbrev PendingToolCalls := List (String × PendingToolCall)

def dropCall (callId : String) (pending : PendingToolCalls) : PendingToolCalls :=
  pending.filter fun entry => entry.1 ≠ callId

def setIndex (byIndex : List (Nat × String)) (index : Nat) (callId : String) : List (Nat × String) :=
  (index, callId) :: byIndex.filter fun entry => entry.1 ≠ index

def parseToolArguments (raw : String) : List (String × Json) := repairToolArguments raw

/-- `text || '{}'`. -/
def orEmptyObject (text : String) : String := if text = "" then "\x7b\x7d" else text

def findPendingToolCallIdByIndex (pending : PendingToolCalls) (index : Option Nat) : Option String :=
  index.bind fun index => (pending.find? fun entry => entry.2.index = some index).map Prod.fst

/-- The id of a delta's call; a call that was known by its index only gets the delta's id. -/
def resolveToolCallDeltaId (call : ToolCallDelta) (pending : PendingToolCalls) :
    PendingToolCalls × String :=
  let existingByIndex := findPendingToolCallIdByIndex pending call.index
  if call.id ≠ "" then
    match existingByIndex with
    | some existingId =>
      if existingId ≠ call.id then
        match pending.lookup existingId with
        | some existing => (assign (dropCall existingId pending) call.id existing, call.id)
        | none => (pending, call.id)
      else (pending, call.id)
    | none => (pending, call.id)
  else (pending, existingByIndex.getD ("call_" ++ toString (pending.length + 1)))

def indexFallbackCallId (index : Option Nat) (pending : PendingToolCalls) : String :=
  match index with
  | some index => "call_" ++ toString (index + 1)
  | none => "call_" ++ toString (pending.length + 1)

def indexedCallId (index : Option Nat) (pending : PendingToolCalls) (byIndex : List (Nat × String)) :
    String :=
  match index with
  | some _ => (index.bind fun index => byIndex.lookup index).getD (indexFallbackCallId index pending)
  | none =>
    match pending with
    | [(callId, _)] => callId
    | _ => indexFallbackCallId none pending

def responseStreamCallId (payload : ResponsesPayload) (pending : PendingToolCalls)
    (byIndex : List (Nat × String)) : String :=
  if payload.callId ≠ "" then payload.callId
  else if payload.itemId ≠ "" ∧ (pending.lookup payload.itemId).isSome then payload.itemId
  else indexedCallId payload.outputIndex pending byIndex

def anthropicStreamCallId (index : Option Nat) (pending : PendingToolCalls)
    (byIndex : List (Nat × String)) : String :=
  indexedCallId index pending byIndex

/-- The calls that have a name, completed. -/
def completeAll (pending : PendingToolCalls) : List ModelStreamChunk :=
  pending.filterMap fun entry =>
    match entry.2.name with
    | some name =>
      if name = "" then none
      else some (.toolCallComplete entry.1 name (parseToolArguments entry.2.arguments))
    | none => none

structure StreamState where
  pendingArguments : PendingToolCalls := []
  pendingByIndex : List (Nat × String) := []
  completedToolCalls : List String := []
  text : String := ""
  reasoningExtractor : InlineReasoningExtractor := {}
  inlineToolCallState : InlineToolCallState := {}
  finishReason : Option String := none

/-- What the consumption of a payload yields. -/
structure Consumed where
  state : StreamState
  chunks : List ModelStreamChunk := []
  finishReason : Option String := none

/-- The chunk of a text after it is cleaned, if anything is left of it. -/
def textChunks (text : String) : List ModelStreamChunk :=
  let cleaned := sanitizeModelText text
  if cleaned = "" then [] else [.assistantTextDelta cleaned]

def reasoningChunks (text : String) : List ModelStreamChunk :=
  if text = "" then [] else [.assistantReasoningDelta text none]

/-- The text of a delta: first the tool calls written into it, then its reasoning. -/
def consumeContent (state : StreamState) (content : String) : Consumed :=
  let (inline, found) := consumeInlineToolCallContent content.toList state.inlineToolCallState
  let calls := found.call.toList.map fun call =>
    ModelStreamChunk.toolCallComplete call.1 call.2.toolName call.2.arguments
  let (extractor, extracted) := state.reasoningExtractor.push found.visibleText
  let text := String.ofList extracted.text
  { state := { state with
      inlineToolCallState := inline
      reasoningExtractor := extractor
      text := state.text ++ sanitizeModelText text }
    chunks := calls ++ reasoningChunks (String.ofList extracted.reasoning) ++ textChunks text
    finishReason := if found.call.isSome then some "tool_calls" else none }

def consumeToolCallDelta (pending : PendingToolCalls) (call : ToolCallDelta) :
    PendingToolCalls × List ModelStreamChunk :=
  let (pending, id) := resolveToolCallDeltaId call pending
  let existing := (pending.lookup id).getD { index := call.index }
  let existing : PendingToolCall :=
    { index := call.index.or existing.index
      name := if call.name = "" then existing.name else some call.name
      arguments := existing.arguments ++ call.arguments.getD "" }
  (assign pending id existing, call.arguments.toList.map fun delta => .toolCallDelta id existing.name delta)

def consumeToolCallDeltas (pending : PendingToolCalls) :
    List ToolCallDelta → PendingToolCalls × List ModelStreamChunk
  | [] => (pending, [])
  | call :: rest =>
    let (pending, chunks) := consumeToolCallDelta pending call
    let (pending, later) := consumeToolCallDeltas pending rest
    (pending, chunks ++ later)

def consumeChatDelta (state : StreamState) (delta : ChatDelta) : Consumed :=
  let suppressContentForToolCall := delta.toolCalls.isSome || !state.pendingArguments.isEmpty
  let said : Consumed := if delta.content ≠ "" ∧ suppressContentForToolCall = false
    then consumeContent state delta.content else { state }
  let (pending, deltas) := consumeToolCallDeltas said.state.pendingArguments (delta.toolCalls.getD [])
  { state := { said.state with pendingArguments := pending }
    chunks := said.chunks ++ reasoningChunks delta.reasoningContent ++ deltas
    finishReason := said.finishReason }

def consumeChatPayload (state : StreamState) (payload : ChatPayload) : Consumed :=
  let read := match payload.delta with
    | some delta => consumeChatDelta state delta
    | none => { state }
  let finishReason := if read.finishReason = some "tool_calls" then read.finishReason
    else payload.finishReason.or read.finishReason
  if (finishReason.filter (· ≠ "")).isSome ∧ read.state.pendingArguments ≠ [] then
    { state := { read.state with pendingArguments := [] }
      chunks := read.chunks ++ completeAll read.state.pendingArguments
      finishReason := some "tool_calls" }
  else { read with finishReason }

def isToolCallItem (item : ResponsesItem) : Bool :=
  item.type = "function_call" || item.type = "custom_tool_call"

def firstFilled (first second : String) : String := if first = "" then second else first

/-- An item of a stream that is a tool call, as it is added or done. -/
def consumeResponsesItem (state : StreamState) (payload : ResponsesPayload) (item : ResponsesItem) :
    Consumed :=
  if isToolCallItem item then
    let known := firstFilled item.callId item.id
    let callId := if known = "" then indexFallbackCallId payload.outputIndex state.pendingArguments else known
    let existing := (state.pendingArguments.lookup callId).getD { index := payload.outputIndex }
    let byIndex := match payload.outputIndex with
      | some index => setIndex state.pendingByIndex index callId
      | none => state.pendingByIndex
    let initialArguments := firstFilled item.arguments item.input
    let existing : PendingToolCall :=
      { index := payload.outputIndex.or existing.index
        name := if item.name = "" then existing.name else some item.name
        arguments := if existing.arguments = "" then initialArguments else existing.arguments }
    let pending := assign state.pendingArguments callId existing
    match if payload.type = "response.output_item.done" then existing.name.filter (· ≠ "") else none with
    | some name =>
      { state := { state with
          pendingByIndex := byIndex
          pendingArguments := dropCall callId pending
          completedToolCalls := callId :: state.completedToolCalls }
        chunks := [.toolCallComplete callId name (parseToolArguments (orEmptyObject existing.arguments))] }
    | none => { state := { state with pendingByIndex := byIndex, pendingArguments := pending } }
  else { state }

def responsesOutputText (output : List ResponsesItem) : String :=
  String.join (output.flatMap fun item =>
    if item.type = "message" then
      item.content.filterMap fun block =>
        if (block.1 = "output_text" ∨ block.1 = "text") ∧ block.2 ≠ "" then some block.2 else none
    else [])

structure Materialized where
  chunks : List ModelStreamChunk := []
  pendingArguments : PendingToolCalls
  sawToolCall : Bool

/-- The tool calls of a body that the stream has not completed yet. -/
def materializeItems (completedToolCalls : List String) :
    PendingToolCalls → List ResponsesItem → Materialized
  | pendingArguments, [] => { pendingArguments, sawToolCall := false }
  | pendingArguments, item :: rest =>
    let callId := firstFilled item.callId item.id
    if isToolCallItem item ∧ callId ≠ "" ∧ item.name ≠ "" ∧ callId ∉ completedToolCalls then
      let later := materializeItems completedToolCalls (dropCall callId pendingArguments) rest
      { later with
        chunks := .toolCallComplete callId item.name
          (parseToolArguments (orEmptyObject (firstFilled item.arguments item.input))) :: later.chunks
        sawToolCall := true }
    else materializeItems completedToolCalls pendingArguments rest

/-- The calls and the stop reason of a body, and its text unless the stream has said some. -/
def materializeResponsesOutput (response : ResponsesApiResponse) (skipText : Bool)
    (pendingArguments : PendingToolCalls) (completedToolCalls : List String) :
    Materialized × ModelStopReason :=
  let outputText := response.outputText.getD (responsesOutputText response.output)
  let text := if skipText ∨ outputText = "" then [] else textChunks outputText
  let items := materializeItems completedToolCalls pendingArguments response.output
  ({ items with chunks := text ++ items.chunks }, if response.status = "incomplete" then
      if response.incompleteReason = "max_output_tokens" then .length else .error
    else if response.status = "failed" then .error
    else if items.sawToolCall ∨ completedToolCalls ≠ [] then .toolCalls else .stop)

def ModelStopReason.text : ModelStopReason → String
  | .stop => "stop"
  | .toolCalls => "tool_calls"
  | .length => "length"
  | .error => "error"

/-- `function_call_arguments` events name a call by its id, its item or its index. -/
def consumeArguments (state : StreamState) (payload : ResponsesPayload) : Consumed :=
  let callId := responseStreamCallId payload state.pendingArguments state.pendingByIndex
  let existing := (state.pendingArguments.lookup callId).getD { index := payload.outputIndex }
  if payload.type = "response.function_call_arguments.delta" then
    let existing : PendingToolCall :=
      { existing with
        index := payload.outputIndex.or existing.index
        arguments := existing.arguments ++ payload.delta }
    { state := { state with
        pendingByIndex := match payload.outputIndex with
          | some index => setIndex state.pendingByIndex index callId
          | none => state.pendingByIndex
        pendingArguments := assign state.pendingArguments callId existing }
      chunks := if payload.delta = "" then []
        else [.toolCallDelta callId existing.name payload.delta] }
  else
    let arguments := firstFilled payload.arguments existing.arguments
    { state := { state with
        pendingArguments := assign state.pendingArguments callId { existing with arguments } } }

def consumeResponsesEvent (state : StreamState) (payload : ResponsesPayload) : Consumed :=
  match payload.type with
  | "response.output_text.delta" =>
    { state := { state with text := state.text ++ sanitizeModelText payload.delta }
      chunks := textChunks payload.delta }
  | "response.reasoning_text.delta" | "response.reasoning_summary_text.delta"
  | "response.reasoning.delta" => { state, chunks := reasoningChunks payload.delta }
  | "response.function_call_arguments.delta" | "response.function_call_arguments.done" =>
    consumeArguments state payload
  | "response.completed" =>
    let (body, stopReason) := materializeResponsesOutput payload.response (state.text ≠ "")
      state.pendingArguments state.completedToolCalls
    { state := { state with pendingArguments := body.pendingArguments }
      chunks := body.chunks
      finishReason := some stopReason.text }
  | "response.failed" | "error" =>
    { state
      chunks := [.error payload.errorMessage (some "response_stream_error")]
      finishReason := some "error" }
  | _ => { state }

def consumeResponsesStreamPayload (state : StreamState) (payload : ResponsesPayload) : Consumed :=
  let item := match payload.item with
    | some item => consumeResponsesItem state payload item
    | none => { state }
  let event := consumeResponsesEvent item.state payload
  { event with chunks := item.chunks ++ event.chunks }

def redactedThinkingSignaturePrefix : String := "redacted:"

def anthropicStopReason (value : String) : Option ModelStopReason :=
  match value with
  | "tool_use" => some .toolCalls
  | "max_tokens" => some .length
  | "end_turn" | "stop_sequence" => some .stop
  | _ => none

def consumeContentBlockStart (state : StreamState) (index : Option Nat) (block : AnthropicBlock) :
    Consumed :=
  if block.type = "redacted_thinking" then
    { state
      chunks := if block.data = "" then []
        else [.assistantReasoningDelta "" (some (redactedThinkingSignaturePrefix ++ block.data))] }
  else if block.type = "tool_use" then
    let callId := if block.id = "" then indexFallbackCallId index state.pendingArguments else block.id
    let existing := (state.pendingArguments.lookup callId).getD { index }
    let existing : PendingToolCall :=
      { index := index.or existing.index
        name := if block.name = "" then existing.name else some block.name
        arguments := if block.input.isEmpty then existing.arguments else stringify (.object block.input) }
    { state := { state with
        pendingByIndex := match index with
          | some index => setIndex state.pendingByIndex index callId
          | none => state.pendingByIndex
        pendingArguments := assign state.pendingArguments callId existing } }
  else { state }

def consumeInputJsonDelta (state : StreamState) (index : Option Nat) (value : String) : Consumed :=
  let callId := anthropicStreamCallId index state.pendingArguments state.pendingByIndex
  let existing := (state.pendingArguments.lookup callId).getD { index }
  let existing : PendingToolCall :=
    { existing with index := index.or existing.index, arguments := existing.arguments ++ value }
  { state := { state with
      pendingByIndex := match index with
        | some index => setIndex state.pendingByIndex index callId
        | none => state.pendingByIndex
      pendingArguments := assign state.pendingArguments callId existing }
    chunks := if value = "" then [] else [.toolCallDelta callId existing.name value] }

def consumeContentBlockDelta (state : StreamState) (index : Option Nat) (delta : AnthropicDelta) :
    Consumed :=
  match delta.type with
  | "text_delta" =>
    { state := { state with text := state.text ++ sanitizeModelText delta.text }
      chunks := textChunks delta.text }
  | "thinking_delta" => { state, chunks := reasoningChunks delta.thinking }
  | "signature_delta" =>
    { state
      chunks := if delta.signature = "" then [] else [.assistantReasoningDelta "" (some delta.signature)] }
  | "input_json_delta" => consumeInputJsonDelta state index delta.partialJson
  | _ => { state }

/-- The end of a block completes the call that is pending at its index. -/
def consumeContentBlockStop (state : StreamState) (index : Option Nat) : Consumed :=
  match index with
  | none => { state }
  | some index =>
    match state.pendingByIndex.lookup index with
    | none => { state }
    | some callId =>
      match state.pendingArguments.lookup callId with
      | none => { state }
      | some pending =>
        match pending.name.filter (· ≠ "") with
        | none => { state }
        | some name =>
          { state := { state with
              completedToolCalls := callId :: state.completedToolCalls
              pendingArguments := dropCall callId state.pendingArguments
              pendingByIndex := state.pendingByIndex.filter fun entry => entry.1 ≠ index }
            chunks :=
              [.toolCallComplete callId name (parseToolArguments (orEmptyObject pending.arguments))] }

def consumeAnthropicMessagesStreamPayload (state : StreamState) (payload : AnthropicPayload) : Consumed :=
  match payload.type with
  | "content_block_start" =>
    match payload.contentBlock with
    | some block => consumeContentBlockStart state payload.index block
    | none => { state }
  | "content_block_delta" =>
    consumeContentBlockDelta state payload.index (payload.delta.getD {})
  | "content_block_stop" => consumeContentBlockStop state payload.index
  | "message_delta" =>
    { state
      finishReason := (anthropicStopReason (payload.delta.getD {}).stopReason).map ModelStopReason.text }
  | "message_stop" => { state, finishReason := some "stop" }
  | "error" =>
    { state
      chunks := [.error payload.errorMessage (some "messages_stream_error")]
      finishReason := some "error" }
  | _ => { state }

def consumeStreamPayload (state : StreamState) (payload : StreamPayload) : Consumed :=
  match payload with
  | .chatCompletions payload => consumeChatPayload state payload
  | .responses payload => consumeResponsesStreamPayload state payload
  | .messages payload => consumeAnthropicMessagesStreamPayload state payload

/-- The finish reason after a payload: a later one counts, unless calls were seen. -/
def laterFinishReason (known found : Option String) : Option String :=
  if known = some "tool_calls" then known else (found.filter (· ≠ "")).or known

def stopReasonOf (finishReason : Option String) : ModelStopReason :=
  match finishReason with
  | some "tool_calls" => .toolCalls
  | some "length" => .length
  | some "error" => .error
  | _ => .stop

/-- What is yielded after the last frame. -/
def finishStream (state : StreamState) : List ModelStreamChunk :=
  let flushed := state.reasoningExtractor.flush
  let finishReason := if state.pendingArguments = [] then state.finishReason else some "tool_calls"
  textChunks (String.ofList flushed.text) ++ reasoningChunks (String.ofList flushed.reasoning) ++
    completeAll state.pendingArguments ++ [.completed (stopReasonOf finishReason)]

def streamFrames (state : StreamState) : List StreamFrame → List ModelStreamChunk
  | [] => finishStream state
  | .done :: _ => finishStream { state with finishReason := state.finishReason.or (some "stop") }
  | .payload payload :: rest =>
    let consumed := consumeStreamPayload state payload
    consumed.chunks ++ streamFrames
      { consumed.state with finishReason := laterFinishReason state.finishReason consumed.finishReason } rest

/-- The chunks that a stream of frames yields. -/
def streamSse (frames : List StreamFrame) : List ModelStreamChunk := streamFrames {} frames

structure ChatToolCall where
  id : String
  name : String
  arguments : Option String

structure ChatResponseMessage where
  content : String := ""
  reasoningContent : Option String := none
  reasoning : Option String := none
  toolCalls : List ChatToolCall := []

structure ChatChoice where
  message : ChatResponseMessage := {}
  finishReason : Option String := none

structure AnthropicMessageResponse where
  content : List AnthropicBlock := []
  stopReason : String := ""

inductive ResponseBody where
  | chatCompletions (choice : Option ChatChoice)
  | responses (response : ResponsesApiResponse)
  | messages (response : AnthropicMessageResponse)

def materializeChatNonStreaming (choice : Option ChatChoice) : List ModelStreamChunk :=
  match choice with
  | none => [.error "model response contained no choices" none]
  | some choice =>
    let message := choice.message
    let reasoning := (message.reasoningContent.or message.reasoning).getD ""
    let text := if message.content = "" then [] else textChunks message.content
    let calls := message.toolCalls.map fun call =>
      ModelStreamChunk.toolCallComplete call.id call.name
        (parseToolArguments (call.arguments.getD "\x7b\x7d"))
    let stopReason : ModelStopReason :=
      if message.toolCalls ≠ [] ∨ choice.finishReason = some "tool_calls" then .toolCalls
      else if choice.finishReason = some "length" then .length
      else if choice.finishReason = some "error" then .error
      else .stop
    reasoningChunks reasoning ++ text ++ calls ++ [.completed stopReason]

def materializeResponsesNonStreaming (response : ResponsesApiResponse) : List ModelStreamChunk :=
  if response.errorMessage ≠ "" then [.error response.errorMessage response.errorType]
  else
    let (body, stopReason) := materializeResponsesOutput response false [] []
    body.chunks ++ [.completed stopReason]

def materializeAnthropicBlock (block : AnthropicBlock) : List ModelStreamChunk :=
  match block.type with
  | "text" => if block.text = "" then [] else textChunks block.text
  | "thinking" =>
    if block.thinking = "" ∧ block.signature = "" then []
    else [.assistantReasoningDelta block.thinking
      (if block.signature = "" then none else some block.signature)]
  | "redacted_thinking" =>
    if block.data = "" then []
    else [.assistantReasoningDelta "" (some (redactedThinkingSignaturePrefix ++ block.data))]
  | "tool_use" =>
    if block.id ≠ "" ∧ block.name ≠ "" then [.toolCallComplete block.id block.name block.input] else []
  | _ => []

def sawToolUse (content : List AnthropicBlock) : Bool :=
  content.any fun block => block.type = "tool_use" && block.id ≠ "" && block.name ≠ ""

def materializeAnthropicMessagesNonStreaming (response : AnthropicMessageResponse) :
    List ModelStreamChunk :=
  response.content.flatMap materializeAnthropicBlock ++
    [.completed ((anthropicStopReason response.stopReason).getD
      (if sawToolUse response.content then .toolCalls else .stop))]

def materializeNonStreaming (body : ResponseBody) : List ModelStreamChunk :=
  match body with
  | .chatCompletions choice => materializeChatNonStreaming choice
  | .responses response => materializeResponsesNonStreaming response
  | .messages response => materializeAnthropicMessagesNonStreaming response

end QiongQi.ModelStreams
