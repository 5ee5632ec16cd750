import QiongQi.ModelStreams
import QiongQi.ToolCallFragments

/-! Tool calls in a stream: in each of the three formats the client completes every call
once, with its own arguments, however the fragments of the calls are interleaved. -/
namespace QiongQi.StreamedCalls
open JsonTexts JsonValues ModelStreams ModelTexts ProviderMessages ToolCallFragments List
open scoped List

/-- What a provider sends: fragments of tool calls, a batch at a time, and parts of the
visible text and the reasoning, in the block of the given number. -/
inductive Event where
  | calls (fragments : List Fragment)
  | text (block : Nat) (content : String)
  | reasoning (block : Nat) (content : String)

def Event.fragments : Event → List Fragment
  | .calls fragments => fragments
  | .text .. | .reasoning .. => []

def Event.visibleText : Event → String
  | .text _ content => content
  | .calls _ | .reasoning .. => ""

def fragmentsOf (events : List Event) : List Fragment := events.flatMap Event.fragments

def visibleTextOf (events : List Event) : String := String.join (events.map Event.visibleText)

/-- No part of the text reads as the start of an inline tool call. -/
def NoInlineMarkup (text : String) : Prop :=
  ∀ part, part <:+: text.toList → inlineToolCallMarkerIndex part = none

def chatFragment : Fragment → Option ToolCallDelta
  | .first call part =>
    some { index := some call.index, id := call.id, name := call.name, arguments := some part }
  | .more index part => some { index := some index, arguments := some part }
  | .whole _ | .closed _ => none

def chatPayload : Event → ChatPayload
  | .calls fragments => { delta := some { toolCalls := some (fragments.filterMap chatFragment) } }
  | .text _ content => { delta := some { content } }
  | .reasoning _ content => { delta := some { reasoningContent := content } }

def responsesItem (call : ToolCall) (arguments : String) : ResponsesItem :=
  { type := "function_call", callId := call.id, name := call.name, arguments }

def responsesFragment : Fragment → ResponsesPayload
  | .first call part =>
    { type := "response.output_item.added"
      outputIndex := some call.index
      item := some (responsesItem call part) }
  | .more index part =>
    { type := "response.function_call_arguments.delta", outputIndex := some index, delta := part }
  | .whole call =>
    { type := "response.function_call_arguments.done"
      outputIndex := some call.index
      arguments := call.arguments }
  | .closed call =>
    { type := "response.output_item.done"
      outputIndex := some call.index
      item := some (responsesItem call call.arguments) }

def responsesPayloads : Event → List ResponsesPayload
  | .calls fragments => fragments.map responsesFragment
  | .text block content =>
    [{ type := "response.output_text.delta", outputIndex := some block, delta := content }]
  | .reasoning block content =>
    [{ type := "response.reasoning_text.delta", outputIndex := some block, delta := content }]

def inputJsonDelta (index : Nat) (part : String) : AnthropicPayload :=
  { type := "content_block_delta"
    index := some index
    delta := some { type := "input_json_delta", partialJson := part } }

def messagesFragment : Fragment → List AnthropicPayload
  | .first call part =>
    [{ type := "content_block_start"
       index := some call.index
       contentBlock := some { type := "tool_use", id := call.id, name := call.name } },
      inputJsonDelta call.index part]
  | .more index part => [inputJsonDelta index part]
  | .whole _ => []
  | .closed call => [{ type := "content_block_stop", index := some call.index }]

def messagesPayloads : Event → List AnthropicPayload
  | .calls fragments => fragments.flatMap messagesFragment
  | .text block content =>
    [{ type := "content_block_delta", index := some block, delta := some { type := "text_delta", text := content } }]
  | .reasoning block content =>
    [{ type := "content_block_delta"
       index := some block
       delta := some { type := "thinking_delta", thinking := content } }]

def eventPayloads (endpointFormat : ModelEndpointFormat) (event : Event) : List StreamPayload :=
  match endpointFormat with
  | .chatCompletions => [.chatCompletions (chatPayload event)]
  | .responses => (responsesPayloads event).map .responses
  | .messages => (messagesPayloads event).map .messages

/-- The end of a stream: the reason that the provider gives, and the calls that the final
body of a response lists again. -/
structure Finish (calls : List ToolCall) where
  reason : String
  listed : List ToolCall
  known : ∀ call ∈ listed, call ∈ calls
  once : listed.Nodup

def finishFrames (endpointFormat : ModelEndpointFormat) {calls : List ToolCall} (finish : Finish calls) :
    List StreamFrame :=
  match endpointFormat with
  | .chatCompletions =>
    [.payload (.chatCompletions { finishReason := some finish.reason }), .done]
  | .responses =>
    [.payload (.responses
      { type := "response.completed"
        response := { output := finish.listed.map fun call => responsesItem call call.arguments } })]
  | .messages =>
    [.payload (.messages { type := "message_delta", delta := some { stopReason := finish.reason } }),
      .payload (.messages { type := "message_stop" })]

def frames (endpointFormat : ModelEndpointFormat) {calls : List ToolCall} (events : List Event)
    (finish : Finish calls) : List StreamFrame :=
  (events.flatMap (eventPayloads endpointFormat)).map .payload ++ finishFrames endpointFormat finish

/-- The calls that the chunks complete. -/
def completedCalls (chunks : List ModelStreamChunk) : List (String × String × List (String × Json)) :=
  chunks.filterMap fun chunk =>
    match chunk with
    | .toolCallComplete callId toolName arguments => some (callId, toolName, arguments)
    | _ => none

/-- The argument fragments in the chunks, with the ids of the calls they are given to. -/
def argumentDeltas (chunks : List ModelStreamChunk) : List (String × String) :=
  chunks.filterMap fun chunk =>
    match chunk with
    | .toolCallDelta callId _ argumentsDelta => some (callId, argumentsDelta)
    | _ => none

def completion (call : ToolCall) : String × String × List (String × Json) :=
  (call.id, call.name, parseToolArguments call.arguments)

/-- The id of the call that has the index. -/
def idAt (calls : List ToolCall) (index : Nat) : Option String :=
  (calls.find? fun call => call.index = index).map ToolCall.id

/-- The fragment with the id of its own call, where the client passes it on: in the chat
format always, in the two others if it is not empty, in the responses format not the first. -/
def attributed (endpointFormat : ModelEndpointFormat) (calls : List ToolCall) (fragment : Fragment) :
    List (String × String) :=
  let passedOn := match endpointFormat, fragment with
    | .chatCompletions, .first .. | .chatCompletions, .more .. => true
    | .responses, .more _ part | .messages, .first _ part | .messages, .more _ part => part ≠ ""
    | _, _ => false
  if passedOn then (idAt calls fragment.index).toList.map fun id => (id, fragment.part) else []

variable {items : List α} {key : α → String} {front all : List Fragment} {call : ToolCall}
variable {fragment : Fragment} {state : StreamState} {endpointFormat : ModelEndpointFormat}
variable {part : String}

theorem lookup_keyed {value : α → β} (distinct : (items.map key).Nodup) (held : item ∈ items) :
    (items.map fun item => (key item, value item)).lookup (key item) = some (value item) := by
  induction items with
  | nil => cases held
  | cons head rest ih =>
    rw [map_cons, nodup_cons] at distinct
    rw [map_cons, lookup_cons]
    rcases mem_cons.mp held with rfl | inside
    · simp
    · have apart : key item ≠ key head := fun same =>
        distinct.1 (same ▸ mem_map_of_mem inside)
      rw [beq_eq_false_iff_ne.mpr apart]
      exact ih distinct.2 inside

theorem lookup_unkeyed {value : α → β} (fresh : callId ∉ items.map key) :
    (items.map fun item => (key item, value item)).lookup callId = none := by
  induction items with
  | nil => rfl
  | cons head rest ih =>
    rw [map_cons, mem_cons, not_or] at fresh
    rw [map_cons, lookup_cons, beq_eq_false_iff_ne.mpr fresh.1]
    exact ih fresh.2

theorem assign_unkeyed {value : α → β} (fresh : callId ∉ items.map key) :
    assign (items.map fun item => (key item, value item)) callId new =
      (items.map fun item => (key item, value item)) ++ [(callId, new)] := by
  have absent : (items.map fun item => (key item, value item)).any (fun field => field.1 == callId) =
      false := by
    rw [any_eq_false]
    rintro field held same
    obtain ⟨item, inside, rfl⟩ := mem_map.mp held
    exact fresh (beq_iff_eq.mp same ▸ mem_map_of_mem inside)
  rw [assign, absent]
  rfl

theorem assign_keyed {value : α → β} (held : item ∈ items) :
    assign (items.map fun item => (key item, value item)) (key item) new =
      items.map fun other => (key other, if key other = key item then new else value other) := by
  have present : (items.map fun item => (key item, value item)).any (fun field => field.1 == key item) =
      true := by
    rw [any_eq_true]
    exact ⟨_, mem_map_of_mem held, beq_self_eq_true _⟩
  rw [assign, present, if_pos rfl, map_map]
  apply map_congr_left
  intro other _
  by_cases same : key other = key item
  · simp [same]
  · simp [same]

def entryOf (front : List Fragment) (call : ToolCall) : PendingToolCall :=
  { index := some call.index, name := some call.name, arguments := gathered call.index front }

/-- The calls that are open, as the client holds them. -/
def pendingOf (front : List Fragment) : PendingToolCalls :=
  (openCalls front).map fun call => (call.id, entryOf front call)

/-- Entries of any calls. -/
def entriesOf (front : List Fragment) (items : List ToolCall) : PendingToolCalls :=
  items.map fun call => (call.id, entryOf front call)

theorem pendingOf_eq : pendingOf front = entriesOf front (openCalls front) :=
  rfl

/-- Calls with different ids and different indexes. -/
structure Distinct (calls : List ToolCall) : Prop where
  ids : (calls.map ToolCall.id).Nodup
  indexes : (calls.map ToolCall.index).Nodup

variable {calls : List ToolCall}

theorem Distinct.of_id (distinct : Distinct calls) (left : first ∈ calls) (right : second ∈ calls)
    (same : first.id = second.id) : first = second :=
  inj_on_of_nodup_map distinct.ids left right same

theorem Distinct.of_index (distinct : Distinct calls) (left : first ∈ calls)
    (right : second ∈ calls) (same : first.index = second.index) : first = second :=
  inj_on_of_nodup_map distinct.indexes left right same

theorem dropCall_entries (distinct : Distinct calls) {items : List ToolCall}
    (inside : ∀ other ∈ items, other ∈ calls) (known : call ∈ calls) :
    dropCall call.id (entriesOf front items) = entriesOf front (items.filter fun other => other ≠ call) := by
  rw [dropCall, entriesOf, filter_map, entriesOf]
  congr 1
  apply filter_congr
  intro other held
  rw [Function.comp_apply, decide_eq_decide]
  exact ⟨fun apart same => apart (congrArg ToolCall.id same),
    fun apart same => apart (distinct.of_id (inside other held) known same)⟩

theorem entriesOf_next {items : List ToolCall}
    (silent : ∀ other ∈ items, fragment.index = other.index → fragment.part = "") :
    entriesOf (front ++ [fragment]) items = entriesOf front items := by
  apply map_congr_left
  intro other held
  rw [entryOf, gathered_next, entryOf]
  split
  · rename_i same
    rw [silent other held same, String.append_empty]
  · rw [String.append_empty]

theorem pendingOf_first (fresh : ∀ fragment ∈ front, fragment.index ≠ call.index) :
    pendingOf (front ++ [.first call part]) = pendingOf front ++
      [(call.id, { index := some call.index, name := some call.name, arguments := part })] := by
  have nothing : front.filter (fun fragment => fragment.index = call.index) = [] := by
    rw [filter_eq_nil_iff]
    exact fun fragment held => by simpa using fresh fragment held
  have whole : gathered call.index (front ++ [.first call part]) = part := by
    have own := gathered_own front (.first call part)
    rw [Fragment.index, gathered_of_filter nothing] at own
    rw [own]
    simp [Fragment.part]
  have earlier : entriesOf (front ++ [.first call part]) (openCalls front) = pendingOf front := by
    refine entriesOf_next fun other running same => ?_
    obtain ⟨⟨part, held⟩, -⟩ := mem_openCalls.mp running
    exact absurd same.symm (fresh _ held)
  rw [pendingOf, openCalls_first fresh, map_append, ← entriesOf, earlier, map_singleton, entryOf, whole]

theorem pendingOf_whole : pendingOf (front ++ [.whole call]) = pendingOf front := by
  rw [pendingOf_eq, openCalls_kept rfl rfl, pendingOf_eq]
  exact entriesOf_next fun _ _ _ => rfl

theorem find_unique (held : item ∈ items) (passes : p item = true)
    (unique : ∀ other ∈ items, p other = true → other = item) : items.find? p = some item := by
  cases found : items.find? p with
  | none => exact absurd passes (by simpa using find?_eq_none.mp found item held)
  | some other =>
    rw [unique other (mem_of_find?_eq_some found) (find?_some found)]

theorem idAt_known (distinct : Distinct calls) (known : call ∈ calls) :
    idAt calls call.index = some call.id := by
  have found : calls.find? (fun other => other.index = call.index) = some call :=
    find_unique known (by simp) fun other held same =>
      distinct.of_index held known (by simpa using same)
  rw [idAt, found]
  rfl

theorem findByIndex_fresh (apart : ∀ call ∈ openCalls front, call.index ≠ index) :
    findPendingToolCallIdByIndex (pendingOf front) (some index) = none := by
  have nothing : (pendingOf front).find? (fun entry => entry.2.index = some index) = none := by
    rw [find?_eq_none]
    intro entry held
    obtain ⟨call, running, rfl⟩ := mem_map.mp held
    simpa [entryOf] using apart call running
  simp only [findPendingToolCallIdByIndex, Option.bind_some, nothing, Option.map_none]

section
variable (distinct : Distinct calls) (arrived : Arrived calls front)
include distinct arrived

theorem openIds_nodup : ((openCalls front).map ToolCall.id).Nodup := by
  obtain ⟨known, once⟩ := openCalls_known arrived
  exact once.map_on fun first left second right same =>
    distinct.of_id (known first left) (known second right) same

theorem fresh_call (known : call ∈ calls) (fresh : ∀ fragment ∈ front, fragment.index ≠ call.index) :
    call.id ∉ (openCalls front).map ToolCall.id ∧ ∀ other ∈ openCalls front, other.index ≠ call.index := by
  have apart : ∀ other ∈ openCalls front, other.index ≠ call.index := by
    intro other running same
    obtain ⟨⟨part, held⟩, -⟩ := mem_openCalls.mp running
    exact fresh _ held same
  refine ⟨fun again => ?_, apart⟩
  obtain ⟨other, running, same⟩ := mem_map.mp again
  have equal := distinct.of_id ((openCalls_known arrived).1 other running) known same
  exact apart other running (congrArg ToolCall.index equal)

variable (running : call ∈ openCalls front)
include running

theorem lookup_pending : (pendingOf front).lookup call.id = some (entryOf front call) :=
  lookup_keyed (openIds_nodup distinct arrived) running

theorem pendingOf_more (part : String) : pendingOf (front ++ [.more call.index part]) =
      assign (pendingOf front) call.id
        { index := some call.index, name := some call.name, arguments := gathered call.index front ++ part } := by
  rw [pendingOf, openCalls_kept rfl rfl, pendingOf, assign_keyed running]
  apply map_congr_left
  intro other held
  have known := (openCalls_known arrived).1
  by_cases same : other.id = call.id
  · have whole : gathered call.index (front ++ [.more call.index part]) =
        gathered call.index front ++ part := gathered_own front (.more call.index part)
    rw [if_pos same, distinct.of_id (known other held) (known call running) same, entryOf, whole]
  · have apart : (Fragment.more call.index part).index ≠ other.index := by
      intro equal
      apply same
      rw [distinct.of_index (known other held) (known call running) equal.symm]
    rw [if_neg same, entryOf, gathered_next, if_neg apart, String.append_empty, entryOf]

theorem pendingOf_closed :
    pendingOf (front ++ [.closed call]) = dropCall call.id (pendingOf front) := by
  have known := (openCalls_known arrived).1
  rw [pendingOf_eq, openCalls_closed, pendingOf_eq, dropCall_entries distinct known (known call running)]
  exact entriesOf_next fun _ _ _ => rfl

theorem findByIndex_open :
    findPendingToolCallIdByIndex (pendingOf front) (some call.index) = some call.id := by
  have known := (openCalls_known arrived).1
  have found : (pendingOf front).find? (fun entry => entry.2.index = some call.index) =
      some (call.id, entryOf front call) := by
    rw [pendingOf, find?_map]
    rw [find_unique running (by simp [entryOf]) fun other held same =>
      distinct.of_index (known other held) (known call running) (by simpa [entryOf] using same)]
    rfl
  simp only [findPendingToolCallIdByIndex, Option.bind_some, found, Option.map_some]

end

theorem completedCalls_append :
    completedCalls (first ++ second) = completedCalls first ++ completedCalls second := by
  simp [completedCalls]

theorem argumentDeltas_append :
    argumentDeltas (first ++ second) = argumentDeltas first ++ argumentDeltas second := by
  simp [argumentDeltas]

/-- Chunks of text and reasoning alone. -/
def Plain (chunks : List ModelStreamChunk) : Prop :=
  completedCalls chunks = [] ∧ argumentDeltas chunks = []

theorem textChunks_plain : Plain (textChunks text) := by
  unfold textChunks
  simp only
  split <;> exact ⟨rfl, rfl⟩

theorem reasoningChunks_plain : Plain (reasoningChunks text) := by
  unfold reasoningChunks
  split <;> exact ⟨rfl, rfl⟩

theorem Plain.append (left : Plain first) (right : Plain second) : Plain (first ++ second) := by
  constructor
  · rw [completedCalls_append, left.1, right.1, append_nil]
  · rw [argumentDeltas_append, left.2, right.2, append_nil]

theorem chat_fragment {delta : ToolCallDelta} (distinct : Distinct calls)
    (arrived : Arrived calls front) (legal : Legal calls front fragment)
    (carried : chatFragment fragment = some delta) :
    ∃ chunks, consumeToolCallDelta (pendingOf front) delta = (pendingOf (front ++ [fragment]), chunks) ∧
      completedCalls chunks = [] ∧
      argumentDeltas chunks = attributed .chatCompletions calls fragment := by
  cases legal with
  | @first call part known fresh =>
    cases carried
    obtain ⟨unkeyed, apart⟩ := fresh_call distinct arrived known fresh
    refine ⟨[.toolCallDelta call.id (some call.name) part], ?_, rfl, ?_⟩
    · have resolved : resolveToolCallDeltaId
          { index := some call.index, id := call.id, name := call.name, arguments := some part }
          (pendingOf front) = (pendingOf front, call.id) := by
        simp only [resolveToolCallDeltaId, findByIndex_fresh apart, ne_eq, call.id_filled,
          not_false_eq_true, if_true]
      have unknown : (pendingOf front).lookup call.id = none := lookup_unkeyed unkeyed
      rw [consumeToolCallDelta, resolved]
      simp only [unknown, Option.getD_none, Option.or_some, call.name_filled, if_false,
        Option.getD_some, String.empty_append, Option.toList_some, map_cons, map_nil]
      rw [pendingOf_first fresh, pendingOf, assign_unkeyed unkeyed]
    · simp [attributed, Fragment.index, Fragment.part, idAt_known distinct known, argumentDeltas]
  | @more call part running =>
    cases carried
    have known := (openCalls_known arrived).1 call running
    refine ⟨[.toolCallDelta call.id (some call.name) part], ?_, rfl, ?_⟩
    · have resolved : resolveToolCallDeltaId { index := some call.index, arguments := some part }
          (pendingOf front) = (pendingOf front, call.id) := by
        simp [resolveToolCallDeltaId, findByIndex_open distinct arrived running]
      rw [consumeToolCallDelta, resolved]
      simp only [lookup_pending distinct arrived running, Option.getD_some, entryOf, Option.or_some,
        if_true, Option.toList_some, map_cons, map_nil]
      rw [pendingOf_more distinct arrived running part]
    · simp [attributed, Fragment.index, Fragment.part, idAt_known distinct known, argumentDeltas]
  | whole => cases carried
  | closed => cases carried

/-- The client's maps after some fragments of a responses or messages stream. -/
structure Reads (front : List Fragment) (state : StreamState) : Prop where
  pending : state.pendingArguments = pendingOf front
  indexed : ∀ call ∈ openCalls front, state.pendingByIndex.lookup call.index = some call.id
  completed : ∀ callId, callId ∈ state.completedToolCalls ↔ callId ∈ (closedCalls front).map ToolCall.id

theorem lookup_dropIndex (byIndex : List (Nat × String)) (apart : other ≠ index) :
    (byIndex.filter fun entry => entry.1 ≠ index).lookup other = byIndex.lookup other := by
  induction byIndex with
  | nil => rfl
  | cons entry rest ih =>
    rw [filter_cons, lookup_cons]
    by_cases same : entry.1 = index
    · have unequal : (other == entry.1) = false := by simpa [same] using apart
      rw [if_neg (by simpa using same), unequal]
      exact ih
    · rw [if_pos (by simpa using same), lookup_cons]
      split
      · rfl
      · exact ih

theorem lookup_setIndex : (setIndex byIndex index callId).lookup index = some callId := by
  simp [setIndex]

theorem lookup_setIndex_other (apart : other ≠ index) :
    (setIndex byIndex index callId).lookup other = byIndex.lookup other := by
  rw [setIndex, lookup_cons, beq_eq_false_iff_ne.mpr apart]
  exact lookup_dropIndex byIndex apart

/-- An empty text is read as an empty object, and so is `'{}'`. -/
theorem parse_orEmptyObject :
    parseToolArguments (orEmptyObject text) = parseToolArguments text := by
  unfold orEmptyObject
  split
  · rename_i empty
    have object : (parseToolArguments "\x7b\x7d").isEmpty = true := by decide
    have nothing : (parseToolArguments "").isEmpty = true := by decide
    rw [empty, isEmpty_iff.mp object, isEmpty_iff.mp nothing]
  · rfl

theorem firstFilled_left (filled : first ≠ "") : firstFilled first second = first := by
  rw [firstFilled, if_neg filled]

theorem firstFilled_empty : firstFilled first "" = first := by
  unfold firstFilled
  split
  · rename_i empty
    exact empty.symm
  · rfl

theorem filter_name :
    (some call.name).filter (fun name => !decide (name = "")) = some call.name := by
  simp [Option.filter, call.name_filled]

theorem Reads.callId (running : call ∈ openCalls front) (reads : Reads front state) :
    indexedCallId (some call.index) state.pendingArguments state.pendingByIndex = call.id := by
  simp only [indexedCallId, Option.bind_some, reads.indexed call running, Option.getD_some]

theorem Reads.withFinish (reads : Reads front state) (finishReason : Option String) :
    Reads front { state with finishReason } :=
  ⟨reads.pending, reads.indexed, reads.completed⟩

theorem Reads.completed_next (reads : Reads front state) (going : fragment.ended = none)
    (callId : String) : callId ∈ state.completedToolCalls ↔
      callId ∈ (closedCalls (front ++ [fragment])).map ToolCall.id := by
  rw [closedCalls_next, going]
  simpa using reads.completed callId

theorem Reads.whole (reads : Reads front state) (call : ToolCall) :
    Reads (front ++ [.whole call]) state := by
  refine ⟨?_, ?_, reads.completed_next rfl⟩
  · rw [pendingOf_whole]
    exact reads.pending
  · rw [openCalls_kept rfl rfl]
    exact reads.indexed

/-- What a step of a stream has to do: keep the maps, complete the call that ends, and pass
the fragment on under the id of its call. -/
structure Reading (endpointFormat : ModelEndpointFormat) (calls : List ToolCall)
    (front : List Fragment) (fragment : Fragment) (state : StreamState)
    (chunks : List ModelStreamChunk) : Prop where
  reads : Reads (front ++ [fragment]) state
  completes : completedCalls chunks = fragment.ended.toList.map completion
  passes : argumentDeltas chunks = attributed endpointFormat calls fragment

section
variable (distinct : Distinct calls) (arrived : Arrived calls front)
include distinct arrived

section
variable (reads : Reads front state) (known : call ∈ calls)
variable (fresh : ∀ fragment ∈ front, fragment.index ≠ call.index)
include reads known fresh

theorem Reads.first (part : String) : Reads (front ++ [.first call part]) { state with
      pendingByIndex := setIndex state.pendingByIndex call.index call.id
      pendingArguments := assign state.pendingArguments call.id
        { index := some call.index, name := some call.name, arguments := part } } := by
  obtain ⟨unkeyed, apart⟩ := fresh_call distinct arrived known fresh
  refine ⟨?_, ?_, reads.completed_next rfl⟩
  · rw [reads.pending, pendingOf_first fresh, pendingOf, assign_unkeyed unkeyed]
  · intro other running
    rw [openCalls_first fresh] at running
    rcases mem_append.mp running with earlier | new
    · rw [lookup_setIndex_other (apart other earlier)]
      exact reads.indexed other earlier
    · rw [mem_singleton.mp new]
      exact lookup_setIndex

theorem Reads.no_entry : state.pendingArguments.lookup call.id = none := by
  rw [reads.pending]
  exact lookup_unkeyed (fresh_call distinct arrived known fresh).1

theorem responses_first :
    consumeResponsesStreamPayload state (responsesFragment (.first call part)) =
      { state := { state with
          pendingByIndex := setIndex state.pendingByIndex call.index call.id
          pendingArguments := assign state.pendingArguments call.id
            { index := some call.index, name := some call.name, arguments := part } } } := by
  simp [consumeResponsesStreamPayload, responsesFragment, consumeResponsesItem, isToolCallItem,
    responsesItem, firstFilled_left call.id_filled, firstFilled_empty, call.id_filled,
    call.name_filled, Reads.no_entry distinct arrived reads known fresh, consumeResponsesEvent]

theorem messages_start : consumeAnthropicMessagesStreamPayload state
        { type := "content_block_start"
          index := some call.index
          contentBlock := some { type := "tool_use", id := call.id, name := call.name } } =
      { state := { state with
          pendingByIndex := setIndex state.pendingByIndex call.index call.id
          pendingArguments := assign state.pendingArguments call.id
            { index := some call.index, name := some call.name, arguments := "" } } } := by
  simp [consumeAnthropicMessagesStreamPayload, consumeContentBlockStart, call.id_filled,
    call.name_filled, Reads.no_entry distinct arrived reads known fresh]

end

section
variable (running : call ∈ openCalls front)
include running

theorem attributed_open (part : String) (other : endpointFormat ≠ .chatCompletions) :
    attributed endpointFormat calls (.more call.index part) =
      if part = "" then [] else [(call.id, part)] := by
  have known := idAt_known distinct ((openCalls_known arrived).1 call running)
  cases endpointFormat with
  | chatCompletions => exact absurd rfl other
  | responses | messages =>
    by_cases empty : part = "" <;> simp [attributed, empty, Fragment.index, Fragment.part, known]

variable (reads : Reads front state)
include reads

theorem Reads.more (part : String) : Reads (front ++ [.more call.index part]) { state with
      pendingByIndex := setIndex state.pendingByIndex call.index call.id
      pendingArguments := assign state.pendingArguments call.id
        { index := some call.index, name := some call.name, arguments := gathered call.index front ++ part } } := by
  refine ⟨?_, ?_, reads.completed_next rfl⟩
  · rw [reads.pending, pendingOf_more distinct arrived running part]
  · intro other held
    rw [openCalls_kept rfl rfl] at held
    by_cases same : other.index = call.index
    · have known := (openCalls_known arrived).1
      rw [distinct.of_index (known other held) (known call running) same]
      exact lookup_setIndex
    · rw [lookup_setIndex_other same]
      exact reads.indexed other held

/-- A call leaves the pending ones when it is completed. Its index may go or stay. -/
theorem Reads.closed {byIndex : List (Nat × String)}
    (others : ∀ index, index ≠ call.index → byIndex.lookup index = state.pendingByIndex.lookup index) :
    Reads (front ++ [.closed call]) { state with
      pendingByIndex := byIndex
      pendingArguments := dropCall call.id state.pendingArguments
      completedToolCalls := call.id :: state.completedToolCalls } := by
  have known := (openCalls_known arrived).1
  constructor
  · rw [reads.pending, pendingOf_closed distinct arrived running]
  · intro other held
    rw [openCalls_closed, mem_filter, decide_eq_true_eq] at held
    have apart : other.index ≠ call.index := fun same =>
      held.2 (distinct.of_index (known other held.1) (known call running) same)
    exact (others other.index apart).trans (reads.indexed other held.1)
  · intro callId
    rw [closedCalls_next, mem_cons, reads.completed callId]
    simp [Fragment.ended, or_comm]

theorem Reads.entry : state.pendingArguments.lookup call.id = some (entryOf front call) := by
  rw [reads.pending]
  exact lookup_pending distinct arrived running

theorem Reads.assign_same :
    assign state.pendingArguments call.id (entryOf front call) = state.pendingArguments := by
  rw [reads.pending, pendingOf, assign_keyed running]
  apply map_congr_left
  intro other held
  split
  · rename_i same
    have known := (openCalls_known arrived).1
    rw [distinct.of_id (known other held) (known call running) same]
  · rfl

theorem responses_more :
    consumeResponsesStreamPayload state (responsesFragment (.more call.index part)) =
      { state := { state with
          pendingByIndex := setIndex state.pendingByIndex call.index call.id
          pendingArguments := assign state.pendingArguments call.id
            { index := some call.index
              name := some call.name
              arguments := gathered call.index front ++ part } }
        chunks := if part = "" then [] else [.toolCallDelta call.id (some call.name) part] } := by
  simp [consumeResponsesStreamPayload, responsesFragment, consumeResponsesEvent, consumeArguments,
    responseStreamCallId, reads.callId running, Reads.entry distinct arrived running reads, entryOf]

theorem messages_delta :
    consumeAnthropicMessagesStreamPayload state (inputJsonDelta call.index part) =
      { state := { state with
          pendingByIndex := setIndex state.pendingByIndex call.index call.id
          pendingArguments := assign state.pendingArguments call.id
            { index := some call.index
              name := some call.name
              arguments := gathered call.index front ++ part } }
        chunks := if part = "" then [] else [.toolCallDelta call.id (some call.name) part] } := by
  simp [consumeAnthropicMessagesStreamPayload, inputJsonDelta, consumeContentBlockDelta,
    consumeInputJsonDelta, anthropicStreamCallId, reads.callId running,
    Reads.entry distinct arrived running reads, entryOf]

variable (complete : gathered call.index front = call.arguments)
include complete

theorem responses_whole : consumeResponsesStreamPayload state (responsesFragment (.whole call)) =
      { state := { state with
          pendingArguments := assign state.pendingArguments call.id (entryOf front call) } } := by
  have same : firstFilled call.arguments (entryOf front call).arguments = call.arguments := by
    simp [firstFilled, entryOf, complete]
  simp only [consumeResponsesStreamPayload, responsesFragment, consumeResponsesEvent, consumeArguments,
    responseStreamCallId, ne_eq, not_true_eq_false, false_and, if_false, reads.callId running,
    Reads.entry distinct arrived running reads, Option.getD_some, same, nil_append,
    show ("response.function_call_arguments.done" = "response.function_call_arguments.delta") = False by
      decide]
  simp [entryOf, complete]

theorem responses_closed : consumeResponsesStreamPayload state (responsesFragment (.closed call)) =
      { state := { state with
          pendingByIndex := setIndex state.pendingByIndex call.index call.id
          pendingArguments := dropCall call.id (assign state.pendingArguments call.id (entryOf front call))
          completedToolCalls := call.id :: state.completedToolCalls }
        chunks := [.toolCallComplete call.id call.name (parseToolArguments call.arguments)] } := by
  simp [consumeResponsesStreamPayload, responsesFragment, consumeResponsesItem, isToolCallItem,
    responsesItem, firstFilled_left call.id_filled, firstFilled_empty, call.id_filled,
    call.name_filled, Reads.entry distinct arrived running reads, consumeResponsesEvent,
    parse_orEmptyObject, entryOf, complete, filter_name]

theorem messages_stop : consumeAnthropicMessagesStreamPayload state
        { type := "content_block_stop", index := some call.index } =
      { state := { state with
          pendingByIndex := state.pendingByIndex.filter fun entry => entry.1 ≠ call.index
          pendingArguments := dropCall call.id state.pendingArguments
          completedToolCalls := call.id :: state.completedToolCalls }
        chunks := [.toolCallComplete call.id call.name (parseToolArguments call.arguments)] } := by
  simp [consumeAnthropicMessagesStreamPayload, consumeContentBlockStop, reads.indexed call running,
    Reads.entry distinct arrived running reads, entryOf, filter_name, complete, parse_orEmptyObject]

end

theorem responses_fragment (legal : Legal calls front fragment) (reads : Reads front state) :
    Reading .responses calls front fragment
      (consumeResponsesStreamPayload state (responsesFragment fragment)).state
      (consumeResponsesStreamPayload state (responsesFragment fragment)).chunks := by
  cases legal with
  | @first call part known fresh =>
    rw [responses_first distinct arrived reads known fresh]
    exact ⟨Reads.first distinct arrived reads known fresh part, rfl, rfl⟩
  | @more call part running =>
    rw [responses_more distinct arrived running reads]
    refine ⟨Reads.more distinct arrived running reads part, ?_, ?_⟩
    · split <;> rfl
    · rw [attributed_open distinct arrived running part (by decide)]
      split <;> rfl
  | @whole call running complete =>
    rw [responses_whole distinct arrived running reads complete,
      Reads.assign_same distinct arrived running reads]
    exact ⟨reads.whole call, rfl, rfl⟩
  | @closed call running complete =>
    rw [responses_closed distinct arrived running reads complete,
      Reads.assign_same distinct arrived running reads]
    refine ⟨Reads.closed distinct arrived running reads fun index apart => ?_, rfl, rfl⟩
    exact lookup_setIndex_other apart

end

/-- The state and the chunks after some payloads. -/
def runPayloads (state : StreamState) : List StreamPayload → StreamState × List ModelStreamChunk
  | [] => (state, [])
  | payload :: rest =>
    let consumed := consumeStreamPayload state payload
    let later := runPayloads
      { consumed.state with finishReason := laterFinishReason state.finishReason consumed.finishReason } rest
    (later.1, consumed.chunks ++ later.2)

theorem streamFrames_run : ∀ state, streamFrames state (payloads.map .payload ++ rest) =
      (runPayloads state payloads).2 ++ streamFrames (runPayloads state payloads).1 rest := by
  induction payloads with
  | nil => exact fun _ => rfl
  | cons payload later ih =>
    intro state
    rw [map_cons, cons_append, streamFrames]
    simp only [ih, runPayloads, append_assoc]

theorem runPayloads_append : ∀ state, runPayloads state (first ++ second) =
      ((runPayloads (runPayloads state first).1 second).1,
        (runPayloads state first).2 ++ (runPayloads (runPayloads state first).1 second).2) := by
  induction first with
  | nil => exact fun _ => rfl
  | cons payload rest ih =>
    intro state
    rw [cons_append, runPayloads, runPayloads]
    simp only [ih, append_assoc]

theorem laterFinishReason_none : laterFinishReason known none = known := by
  unfold laterFinishReason
  split <;> rfl

theorem Reads.merge_first (fresh : ∀ fragment ∈ front, fragment.index ≠ call.index)
    (reads : Reads (front ++ [.first call ""] ++ [.more call.index part]) state) :
    Reads (front ++ [.first call part]) state := by
  have running : openCalls (front ++ [.first call ""] ++ [.more call.index part]) =
      openCalls (front ++ [.first call part]) := by
    rw [openCalls_kept rfl rfl, openCalls_first fresh, openCalls_first fresh]
  have parts : ∀ index, gathered index (front ++ [.first call ""] ++ [.more call.index part]) =
      gathered index (front ++ [.first call part]) := by
    intro index
    rw [gathered_next, gathered_next, gathered_next]
    by_cases same : call.index = index
    · simp [Fragment.index, Fragment.part, same]
    · simp [Fragment.index, same]
  constructor
  · rw [reads.pending, pendingOf, running, pendingOf]
    apply map_congr_left
    intro other _
    rw [entryOf, parts, entryOf]
  · rw [← running]
    exact reads.indexed
  · intro callId
    rw [reads.completed callId, closedCalls_next, closedCalls_next, closedCalls_next]
    simp [Fragment.ended]

theorem messages_fragment (distinct : Distinct calls) (arrived : Arrived calls front)
    (legal : Legal calls front fragment) (reads : Reads front state) :
    Reading .messages calls front fragment
      (runPayloads state ((messagesFragment fragment).map .messages)).1
      (runPayloads state ((messagesFragment fragment).map .messages)).2 := by
  cases legal with
  | @first call part known fresh =>
    have started := Arrived.next arrived (@Legal.first calls front call "" known fresh)
    have running : call ∈ openCalls (front ++ [.first call ""]) := by
      rw [openCalls_first fresh]
      exact mem_append_right _ mem_cons_self
    have entered := Reads.first distinct arrived reads known fresh ""
    have filled := Reads.more distinct started running entered part
    simp only [messagesFragment, map_cons, map_nil, runPayloads, consumeStreamPayload]
    rw [messages_start distinct arrived reads known fresh]
    simp only [laterFinishReason_none]
    rw [messages_delta distinct started running entered]
    refine ⟨(filled.merge_first fresh).withFinish _, ?_, ?_⟩
    · simp only [nil_append, append_nil]
      split <;> rfl
    · simp only [nil_append, append_nil]
      have same : attributed .messages calls (.first call part) =
          attributed .messages calls (.more call.index part) := rfl
      rw [same, attributed_open distinct started running part (by decide)]
      split <;> rfl
  | @more call part running =>
    simp only [messagesFragment, map_cons, map_nil, runPayloads, consumeStreamPayload]
    rw [messages_delta distinct arrived running reads]
    refine ⟨(Reads.more distinct arrived running reads part).withFinish _, ?_, ?_⟩
    · rw [append_nil]
      split <;> rfl
    · rw [append_nil, attributed_open distinct arrived running part (by decide)]
      split <;> rfl
  | @whole call running complete =>
    exact ⟨reads.whole call, rfl, rfl⟩
  | @closed call running complete =>
    simp only [messagesFragment, map_cons, map_nil, runPayloads, consumeStreamPayload]
    rw [messages_stop distinct arrived running reads complete]
    have dropped : ∀ index, index ≠ call.index →
        (state.pendingByIndex.filter fun entry => entry.1 ≠ call.index).lookup index =
          state.pendingByIndex.lookup index := fun index apart => lookup_dropIndex _ apart
    exact ⟨(Reads.closed distinct arrived running reads dropped).withFinish _, rfl, rfl⟩

/-- The fragments that the format has an event for. -/
def seen (endpointFormat : ModelEndpointFormat) (fragments : List Fragment) : List Fragment :=
  match endpointFormat with
  | .chatCompletions => fragments.filter fun fragment => (chatFragment fragment).isSome
  | .responses | .messages => fragments

def fragmentPayloads (endpointFormat : ModelEndpointFormat) (fragment : Fragment) : List StreamPayload :=
  match endpointFormat with
  | .chatCompletions => []
  | .responses => [.responses (responsesFragment fragment)]
  | .messages => (messagesFragment fragment).map .messages

/-- The client's state after some fragments. A chat stream keeps no index map. -/
def Follows (endpointFormat : ModelEndpointFormat) (front : List Fragment) (state : StreamState) : Prop :=
  match endpointFormat with
  | .chatCompletions =>
    state.pendingArguments = pendingOf front ∧ state.inlineToolCallState.buffer = []
  | .responses | .messages => Reads front state

/-- What the payloads of some fragments have to do. -/
structure ReadAll (endpointFormat : ModelEndpointFormat) (calls : List ToolCall)
    (front fragments : List Fragment) (result : StreamState × List ModelStreamChunk) : Prop where
  follows : Follows endpointFormat (front ++ fragments) result.1
  completes : completedCalls result.2 = (closedCalls fragments).map completion
  passes : argumentDeltas result.2 = fragments.flatMap (attributed endpointFormat calls)

theorem ReadAll.append (earlier : ReadAll endpointFormat calls front first left)
    (later : ReadAll endpointFormat calls (front ++ first) second right) :
    ReadAll endpointFormat calls front (first ++ second) (right.1, left.2 ++ right.2) := by
  constructor
  · rw [← append_assoc]
    exact later.follows
  · rw [completedCalls_append, earlier.completes, later.completes, closedCalls_append, map_append]
  · rw [argumentDeltas_append, earlier.passes, later.passes, flatMap_append]

theorem ReadAll.plain {chunks : List ModelStreamChunk}
    (follows : Follows endpointFormat front state) (plain : Plain chunks) :
    ReadAll endpointFormat calls front [] (state, chunks) := by
  refine ⟨?_, plain.1, plain.2⟩
  rw [append_nil]
  exact follows

theorem fragment_read (other : endpointFormat ≠ .chatCompletions) (distinct : Distinct calls)
    (arrived : Arrived calls front) (legal : Legal calls front fragment)
    (follows : Follows endpointFormat front state) : ReadAll endpointFormat calls front [fragment]
      (runPayloads state (fragmentPayloads endpointFormat fragment)) := by
  have ended : closedCalls [fragment] = fragment.ended.toList := by cases fragment <;> rfl
  cases endpointFormat with
  | chatCompletions => exact absurd rfl other
  | responses =>
    obtain ⟨reads, completes, passes⟩ := responses_fragment distinct arrived legal follows
    refine ⟨reads.withFinish _, ?_, ?_⟩
    · rw [ended, ← completes]
      simp [fragmentPayloads, runPayloads, consumeStreamPayload]
    · rw [flatMap_singleton, ← passes]
      simp [fragmentPayloads, runPayloads, consumeStreamPayload]
  | messages =>
    obtain ⟨reads, completes, passes⟩ := messages_fragment distinct arrived legal follows
    refine ⟨reads, ?_, ?_⟩
    · rw [ended]
      exact completes
    · rw [flatMap_singleton]
      exact passes

theorem fragments_read (other : endpointFormat ≠ .chatCompletions) (interleaves : Interleaves calls all) :
    ∀ {front back : List Fragment} {state : StreamState}, all = front ++ (fragments ++ back) →
      Follows endpointFormat front state →
      ReadAll endpointFormat calls front fragments
        (runPayloads state (fragments.flatMap (fragmentPayloads endpointFormat))) := by
  have distinct : Distinct calls := ⟨interleaves.ids, interleaves.indexes⟩
  induction fragments with
  | nil =>
    intro front back state _ follows
    exact .plain follows ⟨rfl, rfl⟩
  | cons fragment rest ih =>
    intro front back state split follows
    have arrived := arrived_of_interleaves interleaves split
    have legal : Legal calls front fragment :=
      @legal_of_interleaves front fragment calls (rest ++ back) (by rwa [split] at interleaves)
    have first := fragment_read other distinct arrived legal follows
    have split' : all = (front ++ [fragment]) ++ (rest ++ back) := by
      rw [split, append_assoc, cons_append, singleton_append]
    have later := ih split' first.follows
    rw [flatMap_cons, runPayloads_append]
    exact first.append later

theorem chat_fragments (interleaves : Interleaves calls all)
    (carried : ∀ fragment ∈ fragments, (chatFragment fragment).isSome) :
    ∀ {front back : List Fragment}, all = front ++ (fragments ++ back) →
      ∃ chunks, consumeToolCallDeltas (pendingOf front) (fragments.filterMap chatFragment) =
          (pendingOf (front ++ fragments), chunks) ∧
        completedCalls chunks = [] ∧
        argumentDeltas chunks = fragments.flatMap (attributed .chatCompletions calls) := by
  have distinct : Distinct calls := ⟨interleaves.ids, interleaves.indexes⟩
  induction fragments with
  | nil =>
    intro front back _
    exact ⟨[], by rw [append_nil]; rfl, rfl, rfl⟩
  | cons fragment rest ih =>
    intro front back split
    have arrived := arrived_of_interleaves interleaves split
    have legal : Legal calls front fragment :=
      @legal_of_interleaves front fragment calls (rest ++ back) (by rwa [split] at interleaves)
    obtain ⟨delta, isDelta⟩ := Option.isSome_iff_exists.mp (carried fragment mem_cons_self)
    obtain ⟨chunks, read, none, passes⟩ := chat_fragment distinct arrived legal isDelta
    have split' : all = (front ++ [fragment]) ++ (rest ++ back) := by
      rw [split, append_assoc, cons_append, singleton_append]
    obtain ⟨more, readMore, noneMore, passesMore⟩ :=
      ih (fun other held => carried other (mem_cons_of_mem _ held)) split'
    refine ⟨chunks ++ more, ?_, ?_, ?_⟩
    · rw [filterMap_cons_some isDelta, consumeToolCallDeltas, read]
      simp only
      rw [readMore, append_assoc, singleton_append]
    · rw [completedCalls_append, none, noneMore, append_nil]
    · rw [argumentDeltas_append, passes, passesMore, flatMap_cons]

/-- A content delta without markup leaves the inline state alone. -/
theorem consumeContent_plain (empty : state.inlineToolCallState.buffer = [])
    (unmarked : inlineToolCallMarkerIndex content.toList = none) :
    (consumeContent state content).state.pendingArguments = state.pendingArguments ∧
      (consumeContent state content).state.inlineToolCallState = state.inlineToolCallState ∧
      Plain (consumeContent state content).chunks ∧
      (consumeContent state content).finishReason = none := by
  have untouched : consumeInlineToolCallContent content.toList state.inlineToolCallState =
      (state.inlineToolCallState, { visibleText := content.toList }) := by
    simp only [consumeInlineToolCallContent, empty, nil_append, unmarked]
  refine ⟨rfl, ?_, ?_, ?_⟩
  · simp only [consumeContent, untouched]
  · simp only [consumeContent, untouched, Option.toList_none, map_nil, nil_append]
    exact reasoningChunks_plain.append textChunks_plain
  · simp only [consumeContent, untouched, Option.isSome_none, Bool.false_eq_true, if_false]

theorem chat_open (quiet : (consumeChatDelta state delta).finishReason = none) :
    runPayloads state [.chatCompletions { delta := some delta }] =
      ({ (consumeChatDelta state delta).state with finishReason := state.finishReason },
        (consumeChatDelta state delta).chunks) := by
  simp [runPayloads, consumeStreamPayload, consumeChatPayload, quiet, laterFinishReason_none]

theorem seen_deltas :
    (seen .chatCompletions fragments).filterMap chatFragment = fragments.filterMap chatFragment := by
  rw [seen, filterMap_filter]
  apply filterMap_congr
  intro fragment _
  cases chatFragment fragment <;> rfl

theorem chat_event (interleaves : Interleaves calls all)
    (split : all = front ++ (seen .chatCompletions event.fragments ++ back))
    (unmarked : inlineToolCallMarkerIndex event.visibleText.toList = none)
    (follows : Follows .chatCompletions front state) :
    ReadAll .chatCompletions calls front (seen .chatCompletions event.fragments)
      (runPayloads state (eventPayloads .chatCompletions event)) := by
  obtain ⟨pending, empty⟩ := follows
  cases event with
  | calls fragments =>
    have carried : ∀ fragment ∈ seen .chatCompletions fragments, (chatFragment fragment).isSome :=
      fun fragment held => (mem_filter.mp held).2
    obtain ⟨chunks, read, none, passes⟩ := chat_fragments interleaves carried split
    rw [seen_deltas] at read
    have consumed : consumeChatDelta state { toolCalls := some (fragments.filterMap chatFragment) } =
        { state := { state with pendingArguments := pendingOf (front ++ seen .chatCompletions fragments) }
          chunks } := by
      simp only [consumeChatDelta, ne_eq, not_true_eq_false, false_and, if_false, Option.getD_some,
        pending, read]
      rfl
    simp only [eventPayloads, chatPayload]
    rw [chat_open (by rw [consumed]), consumed]
    have ended : closedCalls (seen .chatCompletions fragments) = [] := by
      rw [closedCalls, filterMap_eq_nil_iff]
      intro fragment held
      have some := carried fragment held
      cases fragment <;> simp [chatFragment, Fragment.ended] at some ⊢
    refine ⟨⟨rfl, empty⟩, ?_, passes⟩
    rw [Event.fragments, ended]
    exact none
  | text block content =>
    simp only [eventPayloads, chatPayload, Event.fragments]
    by_cases said : content ≠ "" ∧ (!state.pendingArguments.isEmpty) = false
    · have consumed : consumeChatDelta state { content } =
          { consumeContent state content with
            state := { (consumeContent state content).state with
              pendingArguments := (consumeContent state content).state.pendingArguments }
            chunks := (consumeContent state content).chunks } := by
        simp [consumeChatDelta, said, consumeToolCallDeltas, reasoningChunks]
      obtain ⟨kept, inline, plain, quiet⟩ := consumeContent_plain empty unmarked
      rw [chat_open (by rw [consumed]; exact quiet), consumed]
      exact .plain ⟨kept.trans pending, (congrArg _ inline).trans empty⟩ plain
    · have consumed : consumeChatDelta state { content } = { state } := by
        simp only [consumeChatDelta, Option.isSome_none, Bool.false_or]
        rw [if_neg said]
        simp [consumeToolCallDeltas, reasoningChunks]
      rw [chat_open (by rw [consumed]), consumed]
      exact .plain ⟨pending, empty⟩ ⟨rfl, rfl⟩
  | reasoning block content =>
    have consumed : consumeChatDelta state { reasoningContent := content } =
        { state, chunks := reasoningChunks content } := by
      simp [consumeChatDelta, consumeToolCallDeltas]
    simp only [eventPayloads, chatPayload, Event.fragments]
    rw [chat_open (by rw [consumed]), consumed]
    exact .plain ⟨pending, empty⟩ reasoningChunks_plain

theorem Reads.said (reads : Reads front state) (text : String) (finishReason : Option String) :
    Reads front { state with text, finishReason } :=
  ⟨reads.pending, reads.indexed, reads.completed⟩

theorem event_read (interleaves : Interleaves calls all)
    (split : all = front ++ (seen endpointFormat event.fragments ++ back))
    (unmarked : inlineToolCallMarkerIndex event.visibleText.toList = none)
    (follows : Follows endpointFormat front state) :
    ReadAll endpointFormat calls front (seen endpointFormat event.fragments)
      (runPayloads state (eventPayloads endpointFormat event)) := by
  cases endpointFormat with
  | chatCompletions => exact chat_event interleaves split unmarked follows
  | responses =>
    cases event with
    | calls fragments =>
      have read := fragments_read (by decide) interleaves split follows
      have same : eventPayloads .responses (.calls fragments) =
          fragments.flatMap (fragmentPayloads .responses) := by
        simp only [eventPayloads, responsesPayloads, map_map]
        exact map_eq_flatMap
      rw [same]
      exact read
    | text block content =>
      simp only [eventPayloads, responsesPayloads, map_cons, map_nil, runPayloads,
        consumeStreamPayload, consumeResponsesStreamPayload, consumeResponsesEvent, nil_append,
        append_nil]
      exact .plain (follows.said _ _) textChunks_plain
    | reasoning block content =>
      simp only [eventPayloads, responsesPayloads, map_cons, map_nil, runPayloads,
        consumeStreamPayload, consumeResponsesStreamPayload, consumeResponsesEvent, nil_append,
        append_nil]
      exact .plain (follows.withFinish _) reasoningChunks_plain
  | messages =>
    cases event with
    | calls fragments =>
      have read := fragments_read (by decide) interleaves split follows
      have same : eventPayloads .messages (.calls fragments) =
          fragments.flatMap (fragmentPayloads .messages) := by
        simp only [eventPayloads, messagesPayloads, map_flatMap]
        rfl
      rw [same]
      exact read
    | text block content =>
      simp only [eventPayloads, messagesPayloads, map_cons, map_nil, runPayloads,
        consumeStreamPayload, consumeAnthropicMessagesStreamPayload, consumeContentBlockDelta,
        Option.getD_some, append_nil]
      exact .plain (follows.said _ _) textChunks_plain
    | reasoning block content =>
      simp only [eventPayloads, messagesPayloads, map_cons, map_nil, runPayloads,
        consumeStreamPayload, consumeAnthropicMessagesStreamPayload, consumeContentBlockDelta,
        Option.getD_some, append_nil]
      exact .plain (follows.withFinish _) reasoningChunks_plain

theorem seen_append :
    seen endpointFormat (first ++ second) = seen endpointFormat first ++ seen endpointFormat second := by
  cases endpointFormat with
  | chatCompletions => exact filter_append _ _
  | responses => rfl
  | messages => rfl

theorem events_read (interleaves : Interleaves calls all)
    (unmarked : ∀ event ∈ events, inlineToolCallMarkerIndex event.visibleText.toList = none) :
    ∀ {front : List Fragment} {state : StreamState},
      all = front ++ seen endpointFormat (fragmentsOf events) → Follows endpointFormat front state →
      ReadAll endpointFormat calls front (seen endpointFormat (fragmentsOf events))
        (runPayloads state (events.flatMap (eventPayloads endpointFormat))) := by
  induction events with
  | nil =>
    intro front state _ follows
    have nothing : seen endpointFormat (fragmentsOf []) = [] := by cases endpointFormat <;> rfl
    rw [nothing]
    exact .plain follows ⟨rfl, rfl⟩
  | cons event rest ih =>
    intro front state split follows
    have parts : seen endpointFormat (fragmentsOf (event :: rest)) =
        seen endpointFormat event.fragments ++ seen endpointFormat (fragmentsOf rest) := by
      rw [fragmentsOf, flatMap_cons, seen_append, ← fragmentsOf]
    rw [parts] at split ⊢
    have first := event_read interleaves split (unmarked event mem_cons_self) follows
    rw [← append_assoc] at split
    have later := ih (fun other held => unmarked other (mem_cons_of_mem _ held)) split first.follows
    rw [flatMap_cons, runPayloads_append]
    exact first.append later

theorem completedCalls_completed : Plain [.completed reason] := ⟨rfl, rfl⟩

theorem completeAll_deltas : argumentDeltas (completeAll pending) = [] := by
  rw [argumentDeltas, filterMap_eq_nil_iff]
  intro chunk held
  obtain ⟨entry, -, complete⟩ := mem_filterMap.mp held
  split at complete
  · split at complete
    · cases complete
    · cases complete
      rfl
  · cases complete

theorem completeAll_calls {items : List ToolCall}
    (whole : ∀ call ∈ items, gathered call.index front = call.arguments) :
    completedCalls (completeAll (entriesOf front items)) = items.map completion := by
  induction items with
  | nil => rfl
  | cons call rest ih =>
    have entry : completeAll (entriesOf front (call :: rest)) =
        .toolCallComplete call.id call.name (parseToolArguments call.arguments) ::
          completeAll (entriesOf front rest) := by
      simp [completeAll, entriesOf, entryOf, call.name_filled, whole call mem_cons_self]
    have later := ih fun other held => whole other (mem_cons_of_mem _ held)
    rw [entry, map_cons, ← later]
    rfl

theorem finishStream_calls {items : List ToolCall} (pending : state.pendingArguments = entriesOf front items)
    (whole : ∀ call ∈ items, gathered call.index front = call.arguments) :
    completedCalls (finishStream state) = items.map completion ∧ argumentDeltas (finishStream state) = [] := by
  simp only [finishStream, completedCalls_append, argumentDeltas_append, completeAll_deltas,
    textChunks_plain.1, textChunks_plain.2, reasoningChunks_plain.1,
    reasoningChunks_plain.2, completedCalls_completed.1, completedCalls_completed.2,
    nil_append, append_nil, and_true]
  rw [pending]
  exact completeAll_calls whole

theorem chat_finish (pending : state.pendingArguments = pendingOf front)
    (whole : ∀ call ∈ openCalls front, gathered call.index front = call.arguments) :
    completedCalls (streamFrames state (finishFrames .chatCompletions finish)) =
        (openCalls front).map completion ∧
      argumentDeltas (streamFrames state (finishFrames .chatCompletions finish)) = [] := by
  simp only [finishFrames, streamFrames, consumeStreamPayload, completedCalls_append, argumentDeltas_append]
  by_cases closing : finish.reason ≠ "" ∧ state.pendingArguments ≠ []
  · have consumed : consumeChatPayload state { finishReason := some finish.reason } =
        { state := { state with pendingArguments := [] }
          chunks := completeAll state.pendingArguments
          finishReason := some "tool_calls" } := by
      simp [consumeChatPayload, closing]
    have rest := @finishStream_calls front
      { state with pendingArguments := [], finishReason :=
          (laterFinishReason state.finishReason (some "tool_calls")).or (some "stop") } [] rfl
      (fun _ held => absurd held not_mem_nil)
    rw [consumed]
    simp only [completeAll_deltas, rest.1, rest.2, map_nil, append_nil, and_true]
    rw [pending]
    exact completeAll_calls whole
  · have consumed : consumeChatPayload state { finishReason := some finish.reason } =
        { state, finishReason := some finish.reason } := by
      simp only [consumeChatPayload, reduceCtorEq, if_false, Option.some_or]
      rw [if_neg]
      rintro ⟨filled, some⟩
      exact closing ⟨by simpa [Option.filter] using filled, some⟩
    obtain ⟨completes, passes⟩ := @finishStream_calls front
      { state with finishReason :=
          (laterFinishReason state.finishReason (some finish.reason)).or (some "stop") }
      (openCalls front) pending whole
    rw [consumed]
    constructor
    · exact (nil_append _).trans completes
    · exact (nil_append _).trans passes

/-- The calls of a final body, read over the entries of some calls. -/
def readBody (completed : List String) (front : List Fragment) (items listed : List ToolCall) :
    Materialized :=
  materializeItems completed (entriesOf front items)
    (listed.map fun call => responsesItem call call.arguments)

theorem readBody_done {items rest : List ToolCall} (done : call.id ∈ completed) :
    readBody completed front items (call :: rest) = readBody completed front items rest := by
  rw [readBody, map_cons, materializeItems]
  simp [responsesItem, firstFilled_left call.id_filled, done, readBody]

theorem readBody_next {items rest : List ToolCall} (distinct : Distinct calls)
    (inside : ∀ other ∈ items, other ∈ calls) (known : call ∈ calls) (fresh : call.id ∉ completed) :
    readBody completed front items (call :: rest) =
      { readBody completed front (items.filter fun other => other ≠ call) rest with
        chunks := .toolCallComplete call.id call.name (parseToolArguments call.arguments) ::
          (readBody completed front (items.filter fun other => other ≠ call) rest).chunks
        sawToolCall := true } := by
  rw [readBody, map_cons, materializeItems, readBody, ← dropCall_entries distinct inside known]
  simp [responsesItem, firstFilled_left call.id_filled, firstFilled_empty, fresh, isToolCallItem,
    call.id_filled, call.name_filled, parse_orEmptyObject]

theorem readBody_calls (completed : List String) (listed : List ToolCall)
    (distinct : Distinct calls) (known : ∀ call ∈ listed, call ∈ calls) :
    ∀ {items : List ToolCall}, (∀ call ∈ items, call ∈ calls) →
      completedCalls (readBody completed front items listed).chunks =
        (listed.filter fun call => call.id ∉ completed).map completion ∧
      argumentDeltas (readBody completed front items listed).chunks = [] ∧
      (readBody completed front items listed).pendingArguments =
        entriesOf front (items.filter fun call => call ∉ listed ∨ call.id ∈ completed) := by
  induction listed with
  | nil =>
    intro items _
    simp [readBody, materializeItems, completedCalls, argumentDeltas]
  | cons call rest ih =>
    intro items inside
    have later := fun items => @ih (fun other held => known other (mem_cons_of_mem _ held)) items
    by_cases done : call.id ∈ completed
    · obtain ⟨completes, passes, left⟩ := later items inside
      rw [readBody_done done, completes, passes, left, filter_cons_of_neg (by simpa using done)]
      refine ⟨rfl, rfl, ?_⟩
      congr 1
      apply filter_congr
      intro other held
      rw [decide_eq_decide, mem_cons, not_or]
      constructor
      · rintro (apart | closed)
        · by_cases same : other = call
          · exact .inr (same ▸ done)
          · exact .inl ⟨same, apart⟩
        · exact .inr closed
      · rintro (⟨-, apart⟩ | closed)
        · exact .inl apart
        · exact .inr closed
    · obtain ⟨completes, passes, left⟩ := later (items.filter fun other => other ≠ call)
        fun other held => inside other (mem_of_mem_filter held)
      rw [readBody_next distinct inside (known call mem_cons_self) done]
      refine ⟨?_, passes, ?_⟩
      · rw [filter_cons_of_pos (by simpa using done), map_cons, ← completes]
        rfl
      · simp only [left, filter_filter]
        congr 1
        apply filter_congr
        intro other held
        rw [← Bool.decide_and, decide_eq_decide, mem_cons, not_or]
        constructor
        · rintro ⟨apart | closed, unequal⟩
          · exact .inl ⟨unequal, apart⟩
          · exact .inr closed
        · rintro (⟨unequal, apart⟩ | closed)
          · exact ⟨.inl apart, unequal⟩
          · exact ⟨.inr closed, fun same => done (same ▸ closed)⟩

theorem responses_finish (finish : Finish calls) (distinct : Distinct calls)
    (arrived : Arrived calls front) (reads : Reads front state)
    (whole : ∀ call ∈ openCalls front, gathered call.index front = call.arguments) :
    completedCalls (streamFrames state (finishFrames .responses finish)) =
        ((finish.listed.filter fun call => call ∉ closedCalls front) ++
          (openCalls front).filter fun call => call ∉ finish.listed).map completion ∧
      argumentDeltas (streamFrames state (finishFrames .responses finish)) = [] := by
  obtain ⟨known, -⟩ := openCalls_known arrived
  obtain ⟨completes, passes, left⟩ := @readBody_calls front calls state.completedToolCalls
    finish.listed distinct finish.known (openCalls front) known
  have closed : ∀ call ∈ calls, (call.id ∈ state.completedToolCalls ↔ call ∈ closedCalls front) := by
    intro call held
    rw [reads.completed]
    constructor
    · intro again
      obtain ⟨other, inside, same⟩ := mem_map.mp again
      have ours := arrived.started.1 other (arrived.closed.1 other inside)
      rwa [← distinct.of_id ours held same]
    · exact fun inside => mem_map_of_mem inside
  have listed : finish.listed.filter (fun call => call.id ∉ state.completedToolCalls) =
      finish.listed.filter fun call => call ∉ closedCalls front := by
    apply filter_congr
    intro call held
    rw [decide_eq_decide, closed call (finish.known call held)]
  have remaining : (openCalls front).filter (fun call =>
      call ∉ finish.listed ∨ call.id ∈ state.completedToolCalls) =
      (openCalls front).filter fun call => call ∉ finish.listed := by
    apply filter_congr
    intro call held
    have running : call.id ∉ state.completedToolCalls := by
      rw [closed call (known call held)]
      exact fun ended => (mem_openCalls.mp held).2 (mem_closedCalls.mp ended)
    rw [decide_eq_decide]
    simp [running]
  rw [listed] at completes
  rw [remaining] at left
  have pending : state.pendingArguments = entriesOf front (openCalls front) := reads.pending
  let items := finish.listed.map fun call => responsesItem call call.arguments
  have nothing : responsesOutputText items = "" := by
    have silent : (items.flatMap fun item =>
        if item.type = "message" then
          item.content.filterMap fun block =>
            if (block.1 = "output_text" ∨ block.1 = "text") ∧ block.2 ≠ "" then some block.2 else none
        else []) = [] := by
      simp [items, responsesItem]
    rw [responsesOutputText, silent]
    rfl
  let payload : ResponsesPayload := { type := "response.completed", response := { output := items } }
  let body := readBody state.completedToolCalls front (openCalls front) finish.listed
  obtain ⟨reason, consumed⟩ : ∃ reason, consumeResponsesStreamPayload state payload =
      { state := { state with pendingArguments := body.pendingArguments }
        chunks := body.chunks
        finishReason := some reason } := by
    simp [payload, consumeResponsesStreamPayload, consumeResponsesEvent, materializeResponsesOutput,
      nothing, pending, body, readBody, items]
  have one : streamFrames state (finishFrames .responses finish) =
      (consumeResponsesStreamPayload state payload).chunks ++ finishStream
        { (consumeResponsesStreamPayload state payload).state with
          finishReason := laterFinishReason state.finishReason
            (consumeResponsesStreamPayload state payload).finishReason } := rfl
  have remainder : ∀ call ∈ (openCalls front).filter (fun call => call ∉ finish.listed),
      gathered call.index front = call.arguments :=
    fun call held => whole call (mem_of_mem_filter held)
  obtain ⟨rest, none⟩ := @finishStream_calls front
    { state with
      pendingArguments := body.pendingArguments
      finishReason := laterFinishReason state.finishReason (some reason) } _ left remainder
  rw [one, consumed, completedCalls_append, argumentDeltas_append, completes, passes, rest, none, map_append]
  exact ⟨rfl, rfl⟩

theorem messages_finish (reads : Reads front state)
    (whole : ∀ call ∈ openCalls front, gathered call.index front = call.arguments) :
    completedCalls (streamFrames state (finishFrames .messages finish)) = (openCalls front).map completion ∧
      argumentDeltas (streamFrames state (finishFrames .messages finish)) = [] := by
  simp only [finishFrames, streamFrames, consumeStreamPayload, consumeAnthropicMessagesStreamPayload,
    nil_append]
  exact finishStream_calls reads.pending whole

theorem finish_read (finish : Finish calls) (interleaves : Interleaves calls all)
    (follows : Follows endpointFormat all state) :
    ∃ last : List ToolCall, completedCalls (streamFrames state (finishFrames endpointFormat finish)) =
        last.map completion ∧ last.Perm (openCalls all) ∧
      argumentDeltas (streamFrames state (finishFrames endpointFormat finish)) = [] := by
  have distinct : Distinct calls := ⟨interleaves.ids, interleaves.indexes⟩
  have arrived := @arrived_of_interleaves all calls interleaves all [] (append_nil _).symm
  obtain ⟨known, once⟩ := openCalls_known arrived
  obtain ⟨started, parts⟩ := interleaves.all_arrived
  have whole : ∀ call ∈ openCalls all, gathered call.index all = call.arguments :=
    fun call running => parts call (known call running)
  cases endpointFormat with
  | chatCompletions =>
    obtain ⟨completes, none⟩ := chat_finish follows.1 whole
    exact ⟨_, completes, List.Perm.refl _, none⟩
  | responses =>
    obtain ⟨completes, none⟩ := responses_finish finish distinct arrived follows whole
    refine ⟨_, completes, ?_, none⟩
    -- a listed call that is not closed is open, since every call has started
    rw [perm_ext_iff_of_nodup _ once]
    · intro call
      simp only [mem_append, mem_filter, decide_eq_true_eq]
      constructor
      · rintro (⟨listed, running⟩ | ⟨running, -⟩)
        · have begun := started.mem_iff.mpr (finish.known call listed)
          exact mem_filter.mpr ⟨begun, decide_eq_true running⟩
        · exact running
      · intro running
        by_cases listed : call ∈ finish.listed
        · refine .inl ⟨listed, fun ended => ?_⟩
          exact (mem_openCalls.mp running).2 (mem_closedCalls.mp ended)
        · exact .inr ⟨running, listed⟩
    · apply List.Nodup.append (finish.once.filter _) (once.filter _)
      intro call left right
      have apart := (mem_filter.mp right).2
      rw [decide_eq_true_eq] at apart
      exact apart (mem_of_mem_filter left)
  | messages =>
    obtain ⟨completes, none⟩ := messages_finish follows whole
    exact ⟨_, completes, List.Perm.refl _, none⟩

/-- The fragments that a chat stream carries are an interleaving, too. -/
theorem seen_interleaves (endpointFormat : ModelEndpointFormat) (interleaves : Interleaves calls fragments) :
    Interleaves calls (seen endpointFormat fragments) := by
  cases endpointFormat with
  | chatCompletions =>
    refine ⟨interleaves.ids, interleaves.indexes, ?_, ?_⟩
    · exact fun fragment held => interleaves.own fragment (mem_of_mem_filter held)
    · intro call known
      obtain ⟨part, parts, ends, script, whole, sub⟩ := interleaves.each call known
      refine ⟨part, parts, [], ?_, whole, nil_sublist _⟩
      have quiet : ends.filter (fun fragment => (chatFragment fragment).isSome) = [] := by
        rw [filter_eq_nil_iff]
        intro fragment held
        have kind : fragment = .whole call ∨ fragment = .closed call := by
          simpa using sub.subset held
        rcases kind with rfl | rfl <;> simp [chatFragment]
      have carried : (parts.map (Fragment.more call.index)).filter
          (fun fragment => (chatFragment fragment).isSome) = parts.map (Fragment.more call.index) := by
        rw [filter_eq_self]
        intro fragment held
        obtain ⟨text, -, rfl⟩ := mem_map.mp held
        rfl
      rw [seen, filter_comm, script, filter_cons_of_pos rfl, filter_append, carried, quiet]
  | responses => exact interleaves
  | messages => exact interleaves

theorem attributed_unseen (unseen : chatFragment fragment = none) :
    attributed .chatCompletions calls fragment = [] := by
  cases fragment with
  | first _ _ => cases unseen
  | more _ _ => cases unseen
  | whole _ => rfl
  | closed _ => rfl

theorem seen_attributed :
    (seen endpointFormat fragments).flatMap (attributed endpointFormat calls) =
      fragments.flatMap (attributed endpointFormat calls) := by
  cases endpointFormat with
  | chatCompletions =>
    induction fragments with
    | nil => rfl
    | cons fragment rest ih =>
      rw [seen] at ih ⊢
      rw [filter_cons, flatMap_cons, ← ih]
      split
      · rw [flatMap_cons]
      · rename_i unseen
        rw [attributed_unseen (by simpa using unseen), nil_append]
  | responses => rfl
  | messages => rfl

theorem unmarked_event (plain : NoInlineMarkup (visibleTextOf events)) :
    ∀ event ∈ events, inlineToolCallMarkerIndex event.visibleText.toList = none := by
  intro event held
  apply plain
  obtain ⟨front, back, rfl⟩ := append_of_mem held
  rw [visibleTextOf, map_append, map_cons, String.join_append, String.join_cons,
    String.toList_append, String.toList_append]
  exact ⟨(String.join (front.map Event.visibleText)).toList,
    (String.join (back.map Event.visibleText)).toList, by rw [append_assoc]⟩

/-- In every format each call is completed once, with its id, its name and the repaired parse
of all its arguments, and each fragment that is passed on carries the id of its own call. -/
theorem streamed_calls_assembled (endpointFormat : ModelEndpointFormat) (calls : List ToolCall)
    (events : List Event) (finish : Finish calls)
    (interleaves : Interleaves calls (fragmentsOf events))
    (plain : NoInlineMarkup (visibleTextOf events)) :
    (completedCalls (streamSse (frames endpointFormat events finish))).Perm (calls.map completion) ∧
      argumentDeltas (streamSse (frames endpointFormat events finish)) =
        (fragmentsOf events).flatMap (attributed endpointFormat calls) := by
  have shown := seen_interleaves endpointFormat interleaves
  have start : Follows endpointFormat [] ({} : StreamState) := by
    cases endpointFormat with
    | chatCompletions => exact ⟨rfl, rfl⟩
    | responses | messages =>
      exact ⟨rfl, fun _ held => absurd held not_mem_nil, by simp [closedCalls]⟩
  obtain ⟨follows, completes, passes⟩ := events_read shown (unmarked_event plain) rfl start
  obtain ⟨last, final, same, none⟩ := finish_read finish shown follows
  have arrived := @arrived_of_interleaves _ calls shown _ [] (append_nil _).symm
  rw [streamSse, frames, streamFrames_run, completedCalls_append, argumentDeltas_append, completes,
    passes, final, none, append_nil, seen_attributed, ← map_append]
  refine ⟨List.Perm.map _ ?_, rfl⟩
  calc closedCalls (seen endpointFormat (fragmentsOf events)) ++ last
      _ ~ closedCalls (seen endpointFormat (fragmentsOf events)) ++
          openCalls (seen endpointFormat (fragmentsOf events)) := same.append_left _
      _ ~ startedCalls (seen endpointFormat (fragmentsOf events)) := arrived.closed_or_open
      _ ~ calls := shown.all_arrived.1

theorem noInlineMarkup_of_plain (plain : ∀ c ∈ text.toList, isMarkChar c = false) :
    NoInlineMarkup text :=
  fun _ inside => no_marker_of_plain fun c held => plain c (inside.subset held)

def readCall : ToolCall :=
  { index := 0, id := "a", name := "read", arguments := "\x7b\x7d"
    id_filled := by decide, name_filled := by decide }

def grepCall : ToolCall :=
  { index := 1, id := "b", name := "grep", arguments := ""
    id_filled := by decide, name_filled := by decide }

/-- Two calls in turns: the second starts before the first has all of its arguments, and is
closed before it. -/
def twoCallsInTurns : List Event :=
  [.text 2 "Looking.", .calls [.first readCall "\x7b"], .calls [.first grepCall "", .closed grepCall],
    .calls [.more 0 "\x7d", .whole readCall]]

theorem two_calls_assembled : (completedCalls (streamSse (frames .messages twoCallsInTurns
      (⟨"tool_use", [], by simp, by decide⟩ : Finish [readCall, grepCall])))).Perm
        [completion readCall, completion grepCall] := by
  have interleaves : Interleaves [readCall, grepCall] (fragmentsOf twoCallsInTurns) := by
    refine ⟨by decide, by decide, by decide, ?_⟩
    intro call held
    rcases mem_cons.mp held with rfl | held
    · exact ⟨"\x7b", ["\x7d"], [.whole readCall], by decide, by decide, by decide⟩
    · rw [mem_singleton] at held
      subst held
      exact ⟨"", [], [.closed grepCall], by decide, by decide, by decide⟩
  have shown : visibleTextOf twoCallsInTurns = "Looking." := by decide
  have plain : NoInlineMarkup (visibleTextOf twoCallsInTurns) := by
    rw [shown]
    refine noInlineMarkup_of_plain fun c held => ?_
    have all : "Looking.".toList.all (isMarkChar · = false) = true := by decide
    exact of_decide_eq_true (all_eq_true.mp all c held)
  exact (streamed_calls_assembled .messages _ twoCallsInTurns _ interleaves plain).1

end QiongQi.StreamedCalls
