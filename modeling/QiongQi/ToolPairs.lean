import QiongQi.ProviderMessages

/-! Tool messages in the list for the provider: they follow the assistant message with
their calls, one for each call, and stand nowhere else. -/
namespace QiongQi.ToolPairs
open HistoryRepair ProviderMessages TurnItems
open List hiding after

/-- The results answer exactly the calls, one for each call. -/
structure Answers (calls : List WireToolCall) (results : List ChatMessage) : Prop where
  tools : ∀ result ∈ results, isToolMessage result = true
  distinct : (calls.map WireToolCall.id).Nodup
  matched : (results.map ChatMessage.toolCallId).Perm (calls.map fun call => some call.id)

inductive WellFormed : List ChatMessage → Prop where
  | nil : WellFormed []
  | plain {message : ChatMessage} {rest : List ChatMessage} (notTool : isToolMessage message = false)
      (noCalls : callsTools message = false) (later : WellFormed rest) : WellFormed (message :: rest)
  | step {message : ChatMessage} {results rest : List ChatMessage} (calls : callsTools message = true)
      (answers : Answers message.toolCalls results) (later : WellFormed rest) :
      WellFormed (message :: (results ++ rest))

theorem WellFormed.append (left : WellFormed first) (right : WellFormed second) :
    WellFormed (first ++ second) := by
  induction left with
  | nil => exact right
  | plain notTool noCalls later ih => exact .plain notTool noCalls ih
  | step calls answers later ih =>
    rw [cons_append, append_assoc]
    exact .step calls answers ih

variable {message : ChatMessage} {calls : List WireToolCall}
variable {item call : TurnItem} {rest : List TurnItem}

theorem notTool_of_calls (calls : callsTools message = true) : isToolMessage message = false := by
  simp only [callsTools, Bool.and_eq_true, decide_eq_true_eq] at calls
  simp [isToolMessage, calls.1]

theorem WellFormed.no_tool_first (formed : WellFormed messages) :
    messages.takeWhile isToolMessage = [] ∧ messages.dropWhile isToolMessage = messages := by
  cases formed with
  | nil => exact ⟨rfl, rfl⟩
  | plain notTool => simp [notTool]
  | step calls => simp [notTool_of_calls calls]

/-- What pairs calls and results. -/
def shape (message : ChatMessage) : MessageRole × List WireToolCall × Option String :=
  (message.role, message.toolCalls, message.toolCallId)

theorem shape_parts (same : shape left = shape right) :
    isToolMessage left = isToolMessage right ∧ callsTools left = callsTools right ∧
      left.toolCalls = right.toolCalls ∧ left.toolCallId = right.toolCallId := by
  simp only [shape, Prod.mk.injEq] at same
  obtain ⟨role, calls, callId⟩ := same
  exact ⟨by rw [isToolMessage, isToolMessage, role], by rw [callsTools, callsTools, role, calls], calls, callId⟩

/-- Lists of one shape answer the same calls. -/
theorem Answers.of_shape (answers : Answers calls before)
    (same : after.map shape = before.map shape) : Answers calls after := by
  have ids : after.map ChatMessage.toolCallId = before.map ChatMessage.toolCallId := by
    have projected := congrArg (List.map fun parts => parts.2.2) same
    rw [map_map, map_map] at projected
    exact projected
  have roles : after.map isToolMessage = before.map isToolMessage := by
    have projected := congrArg (List.map fun parts => decide (parts.1 = MessageRole.tool)) same
    rw [map_map, map_map] at projected
    exact projected
  constructor
  · intro result held
    have known : isToolMessage result ∈ before.map isToolMessage :=
      roles ▸ mem_map_of_mem held
    obtain ⟨origin, inside, equal⟩ := mem_map.mp known
    exact equal ▸ answers.tools origin inside
  · exact answers.distinct
  · rw [ids]
    exact answers.matched

theorem WellFormed.of_shape (formed : WellFormed before) :
    ∀ {after : List ChatMessage}, after.map shape = before.map shape → WellFormed after := by
  induction formed with
  | nil =>
    intro after same
    rw [map_eq_nil_iff.mp same]
    exact .nil
  | plain notTool noCalls later ih =>
    intro after same
    obtain ⟨message, rest, rfl, head, tail⟩ := map_eq_cons_iff.mp same
    obtain ⟨tool, calls, -, -⟩ := shape_parts head
    exact .plain (tool.trans notTool) (calls.trans noCalls) (ih tail)
  | step calls answers later ih =>
    intro after same
    obtain ⟨message, others, rfl, head, tail⟩ := map_eq_cons_iff.mp same
    rw [map_append] at tail
    obtain ⟨results, rest, rfl, sameResults, sameRest⟩ := map_eq_append_iff.mp tail
    obtain ⟨-, sameCalls, wire, -⟩ := shape_parts head
    apply WellFormed.step (sameCalls.trans calls)
    · rw [wire]
      exact answers.of_shape sameResults
    · exact ih sameRest

theorem normalizeThinkingMessage_shape :
    shape (normalizeThinkingMessage message) = shape message := by
  unfold normalizeThinkingMessage
  split <;> rfl

theorem normalizeThinking_shape :
    (normalizeThinkingAssistantMessages thinkingMode messages).map shape = messages.map shape := by
  unfold normalizeThinkingAssistantMessages
  split
  · rw [map_map]
    exact map_congr_left fun message _ => normalizeThinkingMessage_shape
  · rfl

theorem sanitizeMessage_shape :
    shape (sanitizeMessage requiresAssistantContent message) = shape message := by
  rcases message with ⟨role, content, _, _, _, _⟩
  unfold sanitizeMessage
  split
  · cases role <;> cases requiresAssistantContent <;> rfl
  · rfl

theorem sanitize_shape : (sanitizeEmptyMessageContent requiresAssistantContent messages).map shape =
      messages.map shape := by
  rw [sanitizeEmptyMessageContent, map_map]
  exact map_congr_left fun message _ => sanitizeMessage_shape

theorem updateLatestUserMessage_shape :
    (updateLatestUserMessage change messages).map shape = messages.map shape := by
  induction messages with
  | nil => rfl
  | cons message rest ih =>
    unfold updateLatestUserMessage
    split
    · rfl
    · simp only [map_cons, ih]

theorem attachAll_shape (request : ModelRequest) :
    (attachAll request messages).map shape = messages.map shape := by
  unfold attachAll
  simp only
  split <;> split <;> simp only [updateLatestUserMessage_shape]

/-- A step is sent if all of its calls have an id. -/
def allNamed (calls : List WireToolCall) : Bool := calls.all fun call => call.id ≠ ""

theorem heal_plain {rest : List ChatMessage} (notTool : isToolMessage message = false)
    (noCalls : callsTools message = false) :
    healToolMessagePairs (message :: rest) = message :: healToolMessagePairs rest := by
  rw [healToolMessagePairs]
  simp [notTool, noCalls]

/-- The tool messages of a step stop where the rest of a well-formed list begins. -/
theorem takeWhile_results {rest : List ChatMessage} (answers : Answers calls results)
    (later : WellFormed rest) : (results ++ rest).takeWhile isToolMessage = results ∧
      (results ++ rest).dropWhile isToolMessage = rest := by
  obtain ⟨none, whole⟩ := later.no_tool_first
  constructor
  · rw [takeWhile_append_of_pos answers.tools, none, append_nil]
  · rw [dropWhile_append_of_pos answers.tools, whole]

/-- Where all calls have an id, the answers are the results. -/
theorem answersOf_named (answers : Answers calls results) (named : allNamed calls = true) :
    answersOf calls results = results := by
  unfold answersOf
  rw [filter_eq_self]
  intro result held
  have known : result.toolCallId ∈ calls.map fun call => some call.id :=
    answers.matched.mem_iff.mp (mem_map_of_mem held)
  obtain ⟨call, inside, same⟩ := mem_map.mp known
  have nonempty := all_eq_true.mp named call inside
  rw [← same]
  simp only [decide_eq_true_eq] at nonempty
  simp only [Option.any_some, Bool.and_eq_true, decide_eq_true_eq]
  exact ⟨nonempty, mem_map_of_mem inside⟩

theorem unnamed_unanswered (unnamed : allNamed calls = false) :
    (calls.all fun call => some call.id ∈ (answersOf calls messages).map ChatMessage.toolCallId) = false := by
  rw [all_eq_false]
  obtain ⟨call, inside, empty⟩ := all_eq_false.mp unnamed
  refine ⟨call, inside, ?_⟩
  simp only [decide_eq_true_eq, not_not] at empty
  simp only [empty, decide_eq_true_eq, mem_map, not_exists, not_and]
  intro message held same
  have passes := (mem_filter.mp held).2
  simp [same] at passes

theorem heal_step {rest : List ChatMessage} (calls : callsTools message = true)
    (answers : Answers message.toolCalls results) (later : WellFormed rest) :
    healToolMessagePairs (message :: (results ++ rest)) =
      if allNamed message.toolCalls then message :: (results ++ healToolMessagePairs rest)
      else healToolMessagePairs rest := by
  obtain ⟨taken, dropped⟩ := takeWhile_results answers later
  rw [healToolMessagePairs, notTool_of_calls calls, calls]
  simp only [Bool.false_eq_true, ↓reduceIte, taken, dropped]
  by_cases named : allNamed message.toolCalls = true
  · have seen : (message.toolCalls.all fun call =>
        some call.id ∈ (answersOf message.toolCalls results).map ChatMessage.toolCallId) = true := by
      rw [answersOf_named answers named, all_eq_true]
      intro call inside
      rw [decide_eq_true_eq, answers.matched.mem_iff]
      exact mem_map_of_mem inside
    rw [if_pos seen, if_pos named, answersOf_named answers named, cons_append]
  · have unnamed : allNamed message.toolCalls = false := by simpa using named
    rw [unnamed_unanswered unnamed]
    simp [unnamed]

theorem heal_wellFormed (formed : WellFormed messages) :
    WellFormed (healToolMessagePairs messages) := by
  induction formed with
  | nil =>
    rw [healToolMessagePairs]
    exact .nil
  | plain notTool noCalls later ih =>
    rw [heal_plain notTool noCalls]
    exact .plain notTool noCalls ih
  | step calls answers later ih =>
    rw [heal_step calls answers later]
    split
    · exact .step calls answers ih
    · exact ih

theorem heal_append (left : WellFormed first) (right : WellFormed second) :
    healToolMessagePairs (first ++ second) = healToolMessagePairs first ++ healToolMessagePairs second := by
  induction left with
  | nil => rw [healToolMessagePairs, nil_append, nil_append]
  | plain notTool noCalls later ih =>
    rw [cons_append, heal_plain notTool noCalls, heal_plain notTool noCalls, ih, cons_append]
  | step calls answers later ih =>
    rw [cons_append, append_assoc, heal_step calls answers (later.append right),
      heal_step calls answers later, ih]
    split
    · simp only [cons_append, append_assoc]
    · rfl

/-- The results of a scan answer expected ids, each once. -/
theorem scanResults_results {turnId : String} {expected : List String} (items : List TurnItem) :
    ∀ {seen : List String} {sawResult : Bool},
      (∀ result ∈ (scanResults turnId expected seen sawResult items).results,
        TurnItem.isToolResult result = true ∧ TurnItem.callId result ∈ expected ∧
          TurnItem.callId result ∉ seen) ∧
        ((scanResults turnId expected seen sawResult items).results.map TurnItem.callId).Nodup := by
  induction items with
  | nil => simp [scanResults]
  | cons item rest ih =>
    intro seen sawResult
    unfold scanResults
    split
    · rename_i result
      split
      · rename_i fresh
        obtain ⟨members, distinct⟩ := @ih (TurnItem.callId item :: seen) true
        constructor
        · intro other held
          rcases mem_cons.mp held with rfl | held
          · exact ⟨result, fresh⟩
          · obtain ⟨isResult, inside, apart⟩ := members other held
            exact ⟨isResult, inside, fun known => apart (mem_cons_of_mem _ known)⟩
        · rw [map_cons, nodup_cons]
          refine ⟨?_, distinct⟩
          intro again
          obtain ⟨other, held, same⟩ := mem_map.mp again
          exact (members other held).2.2 (same ▸ mem_cons_self)
      · exact ih
    · split
      · split
        · exact ih
        · exact ih
      · simp

/-- A scan goes over a stretch without tool calls. -/
theorem scanResults_stretch {turnId : String} {expected : List String} (items : List TurnItem) :
    ∀ {seen : List String} {sawResult : Bool},
      (∀ item ∈ (scanResults turnId expected seen sawResult items).stretch,
        TurnItem.isToolCall item = false) ∧
        (scanResults turnId expected seen sawResult items).stretch <+: items := by
  induction items with
  | nil => simp [scanResults]
  | cons item rest ih =>
    intro seen sawResult
    have grow : ∀ {seen sawResult}, TurnItem.isToolCall item = false →
        (∀ other ∈ item :: (scanResults turnId expected seen sawResult rest).stretch,
          TurnItem.isToolCall other = false) ∧
          item :: (scanResults turnId expected seen sawResult rest).stretch <+: item :: rest := by
      intro seen sawResult other
      obtain ⟨members, front⟩ := @ih seen sawResult
      constructor
      · intro next held
        rcases mem_cons.mp held with rfl | held
        · exact other
        · exact members next held
      · exact cons_prefix_cons.mpr ⟨rfl, front⟩
    unfold scanResults
    split
    · rename_i result
      split
      all_goals exact grow (isToolCall_of_result result)
    · split
      · rename_i bridge
        split
        all_goals exact grow (isToolCall_of_bridge bridge)
      · simp

theorem toolCallToWire_id (call : TurnItem.isToolCall item = true) :
    (toolCallToWire item).id = TurnItem.callId item := by
  unfold TurnItem.isToolCall at call
  split at call
  · rename_i body
    simp [toolCallToWire, TurnItem.callId, body]
  · cases call

theorem toolResultToMessage_result (result : TurnItem.isToolResult item = true) :
    isToolMessage (toolResultToMessage item) = true ∧
      (toolResultToMessage item).toolCallId = some (TurnItem.callId item) := by
  unfold TurnItem.isToolResult at result
  split at result
  · rename_i body
    simp [toolResultToMessage, TurnItem.callId, body, isToolMessage]
  · cases result

theorem callBlock_calls (first : TurnItem.isToolCall call = true) :
    ∀ item ∈ callBlock call rest, TurnItem.isToolCall item = true := by
  intro item held
  rcases mem_cons.mp held with rfl | held
  · exact first
  · exact mem_takeWhile_imp held

theorem wire_ids {items : List TurnItem} (all : ∀ item ∈ items, TurnItem.isToolCall item = true) :
    (items.map toolCallToWire).map WireToolCall.id = items.map TurnItem.callId := by
  rw [map_map]
  exact map_congr_left fun item held => toolCallToWire_id (all item held)

/-- The results of an answered block answer its calls. -/
theorem block_answers (first : TurnItem.isToolCall call = true)
    (distinct : ((callBlock call rest).map TurnItem.callId).Nodup)
    (answered : isAnswered call rest = true) : Answers ((callBlock call rest).map toolCallToWire)
      ((scanBlock call rest).results.map toolResultToMessage) := by
  obtain ⟨members, once⟩ := @scanResults_results call.turnId
    ((callBlock call rest).map TurnItem.callId) (rest.dropWhile TurnItem.isToolCall) [] false
  have messages : ((scanBlock call rest).results.map toolResultToMessage).map ChatMessage.toolCallId =
      ((scanBlock call rest).results.map TurnItem.callId).map some := by
    rw [map_map, map_map]
    exact map_congr_left fun item held => (toolResultToMessage_result (members item held).1).2
  have ids : ((callBlock call rest).map toolCallToWire).map (fun call => some call.id) =
      ((callBlock call rest).map TurnItem.callId).map some := by
    rw [← wire_ids (callBlock_calls first), map_map, map_map, map_map]
    rfl
  constructor
  · intro message held
    obtain ⟨item, inside, rfl⟩ := mem_map.mp held
    exact (toolResultToMessage_result (members item inside).1).1
  · rw [wire_ids (callBlock_calls first)]
    exact distinct
  · rw [messages, ids]
    apply List.Perm.map
    apply (perm_ext_iff_of_nodup once distinct).mpr
    intro callId
    constructor
    · intro held
      obtain ⟨item, inside, rfl⟩ := mem_map.mp held
      exact (members item inside).2.1
    · intro held
      exact of_decide_eq_true (all_eq_true.mp answered callId held)

/-- The items of a block's stretch are those that the block takes up. -/
theorem block_extent (call : TurnItem) (rest : List TurnItem) :
    rest = rest.takeWhile TurnItem.isToolCall ++ ((scanBlock call rest).stretch ++
      rest.drop ((rest.takeWhile TurnItem.isToolCall).length + (scanBlock call rest).stretch.length)) := by
  obtain ⟨-, after, whole⟩ := @scanResults_stretch call.turnId
    ((callBlock call rest).map TurnItem.callId) (rest.dropWhile TurnItem.isToolCall) [] false
  have split : rest = rest.takeWhile TurnItem.isToolCall ++ ((scanBlock call rest).stretch ++ after) := by
    rw [scanBlock, whole, takeWhile_append_dropWhile]
  have later : rest.drop ((rest.takeWhile TurnItem.isToolCall).length +
      (scanBlock call rest).stretch.length) = after := by
    conv_lhs =>
      arg 2
      rw [split]
    rw [← append_assoc, drop_left' (by rw [length_append])]
  rw [later]
  exact split

/-- Wherever one starts, adjacent calls have different ids. -/
def DistinctCalls (items : List TurnItem) : Prop :=
  ∀ front back, items = front ++ back → ((back.takeWhile TurnItem.isToolCall).map TurnItem.callId).Nodup

theorem DistinctCalls.of_append {front back : List TurnItem} (distinct : DistinctCalls (front ++ back)) :
    DistinctCalls back := by
  intro middle rest split
  exact distinct (front ++ middle) rest (by rw [split, append_assoc])

theorem DistinctCalls.tail (distinct : DistinctCalls (item :: rest)) : DistinctCalls rest :=
  @DistinctCalls.of_append [item] rest distinct

theorem DistinctCalls.drop (distinct : DistinctCalls items) (count : Nat) :
    DistinctCalls (items.drop count) :=
  @DistinctCalls.of_append (items.take count) _ (by rwa [take_append_drop])

theorem DistinctCalls.block (distinct : DistinctCalls (call :: rest))
    (first : TurnItem.isToolCall call = true) :
    ((callBlock call rest).map TurnItem.callId).Nodup := by
  have whole := distinct [] (call :: rest) rfl
  rwa [takeWhile_cons_of_pos first] at whole

theorem repairedItems_distinct (historyLimit : Nat) (request : ModelRequest) :
    DistinctCalls (repairedItems historyLimit request) :=
  fun _ _ split => (repairModelHistoryItems_repaired _).distinct_calls split

/-- The message of an item that stands for itself is no step and no answer. -/
theorem itemToMessage_plain (call : TurnItem.isToolCall item = false)
    (result : TurnItem.isToolResult item = false) : ∀ message ∈ itemToMessage thinkingMode item,
      isToolMessage message = false ∧ callsTools message = false := by
  intro message held
  unfold itemToMessage at held
  unfold TurnItem.isToolCall at call
  unfold TurnItem.isToolResult at result
  split at held
  · cases held
    exact ⟨rfl, rfl⟩
  · cases held
    exact ⟨rfl, rfl⟩
  · cases held
  · rename_i body
    simp [body] at call
  · rename_i body
    simp [body] at result
  · split at held
    · cases held
      exact ⟨rfl, rfl⟩
    · cases held
  · split at held
    · cases held
      exact ⟨rfl, rfl⟩
    · cases held
  all_goals cases held

theorem reasonedText_plain : ∀ message ∈ reasonedText item rest,
      isToolMessage message = false ∧ callsTools message = false := by
  intro message held
  unfold reasonedText at held
  split at held
  · split at held
    · split at held
      · cases held
        exact ⟨rfl, rfl⟩
      · cases held
    · cases held
  · cases held

theorem WellFormed.of_plain {found : Option ChatMessage} {rest : List ChatMessage}
    (all : ∀ message ∈ found, isToolMessage message = false ∧ callsTools message = false)
    (later : WellFormed rest) : WellFormed (found.toList ++ rest) := by
  cases found with
  | none => exact later
  | some message => exact .plain (all message rfl).1 (all message rfl).2 later

theorem itemsToMessages_wellFormed (thinkingMode : Bool) (before items : List TurnItem)
    (distinct : DistinctCalls items) : WellFormed (itemsToMessages thinkingMode before items) := by
  induction before, items using itemsToMessages.induct thinkingMode with
  | case1 before =>
    rw [itemsToMessages]
    exact .nil
  | case2 before item rest bridge ih =>
    rw [itemsToMessages, if_pos bridge]
    exact ih distinct.tail
  | case3 before item rest bridge reasoning message reasoned ih =>
    rw [itemsToMessages, if_neg bridge, if_pos reasoning, reasoned]
    obtain ⟨notTool, noCalls⟩ := reasonedText_plain message reasoned
    exact .plain notTool noCalls (ih (distinct.tail.drop 1))
  | case4 before item rest bridge reasoning reasoned ih =>
    rw [itemsToMessages, if_neg bridge, if_pos reasoning, reasoned]
    exact ih distinct.tail
  | case5 before item rest bridge reasoning call messages more block ih =>
    rw [itemsToMessages, if_neg bridge, if_neg reasoning, if_pos call, block]
    unfold toolCallBlockToMessages at block
    simp only [Option.ite_none_right_eq_some, Option.some.injEq, Prod.mk.injEq] at block
    obtain ⟨answered, rfl, rfl⟩ := block
    apply WellFormed.step
    · simp [callsTools, callBlock]
    · exact block_answers call (distinct.block call) answered
    · exact ih (distinct.tail.drop _)
  | case6 before item rest bridge reasoning call block ih =>
    rw [itemsToMessages, if_neg bridge, if_neg reasoning, if_pos call, block]
    exact ih distinct.tail
  | case7 before item rest bridge reasoning call result ih =>
    rw [itemsToMessages, if_neg bridge, if_neg reasoning, if_neg call, if_pos result]
    exact ih distinct.tail
  | case8 before item rest bridge reasoning call result ih =>
    rw [itemsToMessages, if_neg bridge, if_neg reasoning, if_neg call, if_neg result]
    exact WellFormed.of_plain (itemToMessage_plain (by simpa using call) (by simpa using result))
      (ih distinct.tail)

theorem instructions_wellFormed (request : ModelRequest) : WellFormed (instructionMessages request) := by
  unfold instructionMessages
  generalize (_ ++ _ : List String) = texts
  induction texts with
  | nil => exact .nil
  | cons text rest ih => exact .plain rfl rfl ih

theorem ensureUserMessagePresent_wellFormed (formed : WellFormed messages) :
    WellFormed (ensureUserMessagePresent messages) := by
  unfold ensureUserMessagePresent
  split
  · exact formed
  · exact formed.append (.plain rfl rfl .nil)

/-- Every message list for a provider pairs its calls and results. -/
theorem collectMessages_wellFormed (profile : ProviderProfile) (historyLimit : Nat)
    (endpointFormat : ModelEndpointFormat) (includeReasoning : Bool) (request : ModelRequest) :
    WellFormed (collectMessages profile historyLimit endpointFormat includeReasoning request) := by
  have sent : ∀ thinkingMode, WellFormed (sanitizeEmptyMessageContent
      profile.requiresAssistantContentForToolCalls (normalizeThinkingAssistantMessages thinkingMode
        (healToolMessagePairs (attachAll request (instructionMessages request ++
          itemsToMessages thinkingMode [] (repairedItems historyLimit request)))))) := by
    intro thinkingMode
    have collected := (instructions_wellFormed request).append
      (itemsToMessages_wellFormed thinkingMode [] _ (repairedItems_distinct historyLimit request))
    have healed := heal_wellFormed (collected.of_shape (attachAll_shape request))
    exact (healed.of_shape normalizeThinking_shape).of_shape sanitize_shape
  unfold collectMessages
  cases endpointFormat
  · exact ensureUserMessagePresent_wellFormed (sent _)
  · exact ensureUserMessagePresent_wellFormed (sent _)
  · exact sent _

end QiongQi.ToolPairs
