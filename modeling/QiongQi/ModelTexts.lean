import QiongQi.JsonTexts
import QiongQi.Regexes
import QiongQi.RuntimeContracts

/-! What the model client does to the text of a model: `sanitizeModelText`, the extractor of
inline reasoning, tool calls written into the text, and the repair of tool arguments. -/
namespace QiongQi.ModelTexts
open JsonTexts JsonValues Regexes RuntimeContracts

def spaces : Regex := .many true (.one isJsSpace)

def someSpaces : Regex := atLeastOne (.one isJsSpace)

def anyText (greedy : Bool) : Regex := .many greedy (.one anything)

def wordIn (words : List String) : Regex := choice (words.map (literal true))

/-- `(?:\s[^>]*)?` -/
def attributes : Regex := optional (.seq (.one isJsSpace) (.many true (.one fun c => c ≠ '>')))

/-- `"[^"]*"` -/
def quotedName : Regex := sequence [literal true "\"", .many true (.one fun c => c ≠ '"'), literal true "\""]

def isLineEnd (c : Char) : Bool := c = '\n' || c = '\r' || c.toNat = 0x2028 || c.toNat = 0x2029

/-- `/<\|[^|\n<]*\|>/g` -/
def specialTokenPattern : Regex :=
  sequence [literal false "<|", .many true (.one fun c => c ≠ '|' && c ≠ '\n' && c ≠ '<'), literal false "|>"]

def bracketMarkerPattern : Regex := .either (literal false "[gMASK]") (literal false "[MASK]")

def stripSpecialTokens (text : List Char) : List Char :=
  if !(literal false "<|").test text && !text.contains '[' then text
  else bracketMarkerPattern.replaceAll [] (specialTokenPattern.replaceAll [] text)

def reasoningTagNames : List String := ["think", "thinking", "reasoning", "reflection", "mm:think", "ask"]

def openerRe : Regex := sequence [literal true "<", wordIn reasoningTagNames, literal true ">"]

def closerRe : Regex := sequence [literal true "</", wordIn reasoningTagNames, literal true ">"]

def stripInlineReasoningTags (text : List Char) : List Char :=
  if (Regex.either openerRe closerRe).test text then
    let out := (sequence [openerRe, anyText false, closerRe]).replaceAll [] text
    let out := (Regex.seq openerRe (anyText true)).replaceAll [] out
    closerRe.replaceAll [] out
  else text

def minimaxInvokeTags : List String :=
  ["invoke", "command", "parameter", "tool_call", "function_calls", "action"]

def bracketAntmlTags : List String :=
  ["path", "invoke", "parameter", "function_calls", "command", "content", "antml:invoke", "antml:parameter"]

def minimaxDelimiterRe : Regex := literal false "<]minimax[>"

def invokeOpen : Regex := sequence [literal true "<", wordIn minimaxInvokeTags, attributes, literal true ">"]

def orphanedInvokeCloseRe : Regex := sequence [literal true "</", wordIn minimaxInvokeTags, literal true ">"]

def pairedInvokeRe : Regex := sequence [invokeOpen, anyText false, orphanedInvokeCloseRe]

def unclosedInvokeRe : Regex := sequence [optional (literal true "["), invokeOpen, anyText true]

def functionCallsOpen : Regex :=
  .seq (optional (.seq (literal true "(tool call") spaces)) (literal true "<function_calls>")

def bracketFunctionCallsRe : Regex :=
  sequence [functionCallsOpen, anyText false, literal true "</function_calls>", optional (literal true ")")]

def bracketFunctionCallsUnclosedRe : Regex := sequence [functionCallsOpen, anyText true, textEnd]

def bracketInvokeOpen : Regex :=
  sequence [literal true "[<invoke", someSpaces, literal true "name=", quotedName, literal true ">]"]

def bracketInvokeBlockRe : Regex := sequence [bracketInvokeOpen, anyText false, literal true "[</invoke>]"]

def bracketInvokeUnclosedRe : Regex := sequence [bracketInvokeOpen, anyText true, textEnd]

def bracketParameterBlockRe : Regex :=
  sequence [literal true "[<parameter", someSpaces, literal true "name=", quotedName, literal true ">",
    anyText false, literal true "]", spaces]

def bracketCloseRe : Regex :=
  sequence [literal true "[</", wordIn bracketAntmlTags, literal true ">]", spaces]

def bracketAntmlOpen : Regex :=
  sequence [literal true "[<", wordIn bracketAntmlTags, attributes, literal true ">"]

def bracketAntmlPairedRe : Regex := sequence [literal true "][", anyText false, bracketCloseRe]

def bracketAntmlOpenRe : Regex := sequence [bracketAntmlOpen, anyText false, bracketCloseRe]

def bracketAntmlUnclosedRe : Regex :=
  sequence [literal true "]", bracketAntmlOpen, anyText true, textEnd]

def strayBracketSpacesRe : Regex := sequence [literal false "[", spaces, literal false "]", spaces]

/-- `/(?<![a-zA-Z0-9])\]\[\/?\s*/g` -/
def strayBracketPairRe : Regex :=
  sequence [.here fun before _ => !before.any Char.isAlphanum, literal false "][",
    optional (literal false "/"), spaces]

/-- `/^\]\s+.+?\s+\]$/gm` -/
def bracketCommandLeakRe : Regex :=
  sequence [.here fun before _ => before.all isLineEnd, literal false "]", someSpaces,
    .one fun c => !isLineEnd c, .many false (.one fun c => !isLineEnd c), someSpaces, literal false "]",
    .here fun _ after => after.all isLineEnd]

def leakedToolCallRe : Regex :=
  sequence [literal true "(", spaces, literal true "tool", spaces, literal true "call", spaces,
    literal true ")", spaces]

def anthropicToOpen : Regex :=
  sequence [literal true "(", spaces, literal true "to", someSpaces, literal true "name=", quotedName,
    literal true ">]"]

def anthropicToLeakRe : Regex :=
  sequence [anthropicToOpen, anyText false, literal true "[</",
    wordIn ["command", "parameter", "invoke", "path", "content"], literal true ">]", spaces]

def anthropicToUnclosedRe : Regex := sequence [anthropicToOpen, anyText true, textEnd]

def proseToolCallRe : Regex :=
  sequence [literal true "(tool call", spaces, literal true "[Tool call:",
    .many true (.one fun c => c ≠ ']'), literal true "]", anyText false, literal true ")", spaces]

def hasMarkerRe : Regex :=
  choice [ literal true "<]minimax[>",
    sequence [literal true "<", optional (literal true "/"), wordIn minimaxInvokeTags, wordBoundary],
    sequence [literal true "(", spaces, .either (sequence [literal true "tool", spaces, literal true "call"])
        (sequence [literal true "to", someSpaces, literal true "name="])],
    literal true "<function_calls>",
    .seq (literal true "[<") (wordIn ["invoke", "parameter", "function_calls", "path", "command", "content"]),
    literal true "][",
    .seq (literal true "[</")
      (wordIn ["path", "invoke", "parameter", "command", "content", "function_calls", "antml", "action"]),
    .seq (.here fun before _ => before.isNone) (literal true "]"),
    .seq (.here fun before _ => before = some '\n') (literal true "]")]

/-- The replacements of `stripInlineToolCallMarkers`, in their order. -/
def markerReplacements : List (Regex × String) :=
  [(minimaxDelimiterRe, ""), (pairedInvokeRe, ""), (unclosedInvokeRe, ""), (orphanedInvokeCloseRe, ""),
    (bracketFunctionCallsRe, ""), (bracketFunctionCallsUnclosedRe, ""), (bracketInvokeBlockRe, ""),
    (bracketInvokeUnclosedRe, ""), (bracketParameterBlockRe, ""), (bracketAntmlPairedRe, ""),
    (bracketAntmlOpenRe, ""), (bracketAntmlUnclosedRe, ""), (bracketCloseRe, ""),
    (strayBracketSpacesRe, ""), (strayBracketPairRe, " "), (bracketCommandLeakRe, ""),
    (anthropicToLeakRe, ""), (anthropicToUnclosedRe, ""), (proseToolCallRe, ""), (leakedToolCallRe, "")]

def stripInlineToolCallMarkers (text : List Char) : List Char :=
  if hasMarkerRe.test text then
    markerReplacements.foldl (fun out step => step.1.replaceAll step.2.toList out) text
  else text

def sanitizeModelText (text : String) : String :=
  String.ofList (stripInlineToolCallMarkers (stripInlineReasoningTags (stripSpecialTokens text.toList)))

structure InlineReasoningExtractor where
  insideReasoning : Bool := false
  /-- The end of the last chunk, if it may be the start of a tag. -/
  pendingTail : List Char := []
  deriving DecidableEq

structure ExtractorOutput where
  text : List Char := []
  reasoning : List Char := []
  deriving DecidableEq

def maxTagLen : Nat := 2 + 10

def couldBeTagStart (fragment : List Char) : Bool :=
  let lower := fragment.map Char.toLower
  reasoningTagNames.any (fun name =>
    lower.isPrefixOf ('<' :: name.toList) || lower.isPrefixOf ('<' :: '/' :: name.toList)) ||
    lower = ['<'] || lower = ['<', '/']

/-- The part of the text that holds no start of a tag at its end, and that start. -/
def stripUnsafeTail (work : List Char) : List Char × List Char :=
  if work.contains '<' then
    let tail := '<' :: (work.reverse.takeWhile fun c => c ≠ '<').reverse
    if tail.length ≤ maxTagLen ∧ couldBeTagStart tail then (work.take (work.length - tail.length), tail)
    else (work, [])
  else (work, [])

def pushLoop : Nat → InlineReasoningExtractor → List Char → InlineReasoningExtractor × ExtractorOutput
  | 0, state, _ => (state, {})
  | more + 1, state, work =>
    if work.isEmpty then (state, {})
    else if state.insideReasoning then
      match closerRe.search [] work with
      | some (before, last) =>
        let later := pushLoop more { state with insideReasoning := false } last.rest
        (later.1, { later.2 with reasoning := before ++ later.2.reasoning })
      | none =>
        let (safe, tail) := stripUnsafeTail work
        ({ state with pendingTail := tail }, { reasoning := safe })
    else
      match openerRe.search [] work with
      | some (before, last) =>
        let later := pushLoop more { state with insideReasoning := true } last.rest
        (later.1, { later.2 with text := before ++ later.2.text })
      | none =>
        let (safe, tail) := stripUnsafeTail work
        ({ state with pendingTail := tail }, { text := safe })

def InlineReasoningExtractor.push (state : InlineReasoningExtractor) (chunk : List Char) :
    InlineReasoningExtractor × ExtractorOutput :=
  if chunk.isEmpty then (state, {})
  else
    let work := state.pendingTail ++ chunk
    pushLoop (work.length + 1) { state with pendingTail := [] } work

def InlineReasoningExtractor.flush (state : InlineReasoningExtractor) : ExtractorOutput :=
  if state.insideReasoning then { reasoning := state.pendingTail } else { text := state.pendingTail }

/-- From the first opening bracket to the one that closes it. -/
def balancedFrom (openBracket close : Char) : (depth : Nat) → (inString escaped : Bool) →
    List Char → Option (List Char)
  | _, _, _, [] => none
  | depth, inString, escaped, c :: rest =>
    let more := fun depth inString escaped =>
      (balancedFrom openBracket close depth inString escaped rest).map (c :: ·)
    if escaped then more depth inString false
    else if c = '\\' then more depth inString true
    else if c = '"' then more depth (!inString) false
    else if inString then more depth true false
    else if c = openBracket then more (depth + 1) false false
    else if c = close then if depth = 1 then some [c] else more (depth - 1) false false
    else more depth false false

def extractBalanced (text : List Char) (openBracket close : Char) : Option (List Char) :=
  balancedFrom openBracket close 0 false false (text.dropWhile fun c => c ≠ openBracket)

/-- `/^```(?:json|javascript|js)?\s*([\s\S]*?)\s*```$/i` -/
def fenceRe : Regex :=
  sequence [.here fun before _ => before.isNone, literal true "```",
    optional (wordIn ["json", "javascript", "js"]), spaces, .group 1 (anyText false), spaces,
    literal true "```", textEnd]

def stripMarkdownFence (text : List Char) : List Char :=
  match fenceRe.groupOf 1 text with
  | some inner => trimChars inner
  | none => text

/-- An object's fields are the arguments; another value becomes one argument. -/
def valueToArguments (value : Json) : List (String × Json) :=
  match value with
  | .object fields => fields
  | value => [("value", value)]

def repairToolArguments (raw : String) : List (String × Json) :=
  let trimmed := jsTrim raw
  if trimmed = "" then []
  else
    match parse trimmed with
    | some (.object fields) => fields
    | _ =>
      let candidates := [some (stripMarkdownFence trimmed.toList),
        extractBalanced trimmed.toList '{' '}', extractBalanced trimmed.toList '[' ']']
      let parsed := candidates.findSome? fun candidate => candidate.bind fun candidate =>
        if trimChars candidate = [] then none else parse (String.ofList candidate)
      match parsed with
      | some value => valueToArguments value
      | none => [("__raw", .string raw)]

structure InlineToolCallState where
  buffer : List Char := []
  nextId : Nat := 1

structure InlineToolCall where
  toolName : String
  arguments : List (String × Json)

def inlineMarkers : List Regex :=
  [sequence [literal true "(", spaces, literal true "tool", someSpaces, literal true "call", wordBoundary],
    literal true "<function_calls>",
    .seq (literal true "<tool_call") wordBoundary,
    sequence [literal true "<invoke", someSpaces, literal true "name="],
    sequence [literal true "<action>", spaces, atLeastOne (.one isWordChar)],
    sequence [literal true "[<invoke", someSpaces, literal true "name="],
    sequence [literal true "[<parameter", someSpaces, literal true "name="]]

/-- The first place where a marker starts. -/
def inlineToolCallMarkerIndex (text : List Char) : Option Nat :=
  (inlineMarkers.filterMap fun marker => marker.index text).min?

/-- The characters that a marker can begin with. -/
def isMarkChar (c : Char) : Bool := c = '(' || c = '<' || c = '['

theorem markLiteral_begins (spelled : text.toList = first :: rest)
    (mark : isMarkChar first = true) (low : first.toNat < 97 ∨ 122 < first.toNat) :
    (literal anyCase text).BeginsWith isMarkChar := by
  apply beginsWith_literal spelled
  rintro c (rfl | same)
  · exact mark
  · have unchanged : first.toLower = first := by
      simp only [isMarkChar, Bool.or_eq_true, decide_eq_true_eq] at mark
      rcases mark with (rfl | rfl) | rfl <;> decide
    rw [unchanged] at same
    rw [eq_of_toLower same low]
    exact mark

theorem inlineMarkers_begin : ∀ marker ∈ inlineMarkers, marker.BeginsWith isMarkChar := by
  have opens : ∀ {text : String} {first : Char} {rest : List Char}, text.toList = first :: rest →
      isMarkChar first = true → first.toNat < 97 ∨ 122 < first.toNat →
      (literal true text).BeginsWith isMarkChar := markLiteral_begins
  intro marker held
  simp only [inlineMarkers, List.mem_cons, List.not_mem_nil, or_false] at held
  rcases held with rfl | rfl | rfl | rfl | rfl | rfl | rfl
  · exact beginsWith_sequence (opens rfl (by decide) (by decide)) _
  · exact opens rfl (by decide) (by decide)
  · exact (opens rfl (by decide) (by decide)).seq _
  all_goals exact beginsWith_sequence (opens rfl (by decide) (by decide)) _

theorem no_marker_of_plain (plain : ∀ c ∈ text, isMarkChar c = false) :
    inlineToolCallMarkerIndex text = none := by
  have nothing : inlineMarkers.filterMap (fun marker => marker.index text) = [] := by
    rw [List.filterMap_eq_nil_iff]
    intro marker held
    rw [Regex.index, (inlineMarkers_begin marker held).search plain]
    rfl
  rw [inlineToolCallMarkerIndex, nothing]
  rfl

/-- A bracket in a string does not count; a backslash escapes in strings only. -/
def balancedObjectFrom : (depth : Nat) → (inString escape : Bool) → List Char → Option (List Char)
  | _, _, _, [] => none
  | depth, inString, escape, c :: rest =>
    let more := fun depth inString escape =>
      (balancedObjectFrom depth inString escape rest).map (c :: ·)
    if inString then
      if escape then more depth true false
      else if c = '\\' then more depth true true
      else if c = '"' then more depth false false
      else more depth true false
    else if c = '"' then more depth true false
    else if c = '{' then more (depth + 1) false false
    else if c = '}' then if depth = 1 then some [c] else more (depth - 1) false false
    else more depth false false

def extractFirstBalancedJsonObject (text : List Char) : Option (List Char) :=
  balancedObjectFrom 0 false false (text.dropWhile fun c => c ≠ '{')

def toolNameFromInlineToolCall (text : List Char) : Option (List Char) :=
  ((sequence [literal true "(", spaces, literal true "tool", someSpaces, literal true "call", someSpaces,
    .group 1 (atLeastOne (.one fun c => isWordChar c || c = '.' || c = '-')), spaces,
    literal true ":"]).groupOf 1 text).or
  ((sequence [optional (literal true "["), literal true "<invoke", someSpaces, literal true "name=\"",
    .group 1 (atLeastOne (.one fun c => c ≠ '"')), literal true "\">",
    optional (literal true "]")]).groupOf 1 text)

def cleanInlineToolCommand (value : List Char) : List Char :=
  let closing := wordIn ["action", "command", "parameter", "invoke", "tool_call", "function_calls"]
  let value := (sequence [literal true "[</", closing, literal true ">]"]).replaceAll [] value
  let value := (sequence [literal true "</", closing, literal true ">"]).replaceAll [] value
  let value := (literal true "<]minimax[>").replaceAll [] value
  let value := (sequence [literal false "]", spaces, textEnd]).replaceAll [] value
  trimChars value

def actionRe : Regex :=
  sequence [literal true "<action>", spaces, .group 1 (atLeastOne (.one fun c => isWordChar c || c = '-')),
    spaces, optional (literal true "]["), literal true "</action>", optional (literal true "]"), spaces,
    .group 2 (anyText true)]

def commandRe : Regex :=
  sequence [optional (literal true "["), literal true "<command>", .group 1 (anyText false),
    choice [.seq (literal true "</command>") (optional (literal true "]")), literal true "[</command>]",
      textEnd]]

def bracketParameterRe : Regex :=
  sequence [literal true "[<parameter", someSpaces, literal true "name=\"",
    .group 1 (atLeastOne (.one fun c => c ≠ '"')), literal true "\">", .group 2 (anyText false),
    .either (sequence [literal true "]", spaces, .either (literal true "[") textEnd]) textEnd]

/-- The argument that one of the patterns finds, if it is not empty. -/
def inlineArgument (text : List Char) : Option (List (String × Json)) :=
  let command := fun found : Option (List Char) => (found.map cleanInlineToolCommand).filter (· ≠ [])
  let string := fun chars => Json.string (String.ofList chars)
  let action := do
    let action ← actionRe.groupOf 1 text
    let command ← command (actionRe.groupOf 2 text)
    some [("action", string action), ("command", string command)]
  let run := do
    let command ← command ((commandRe.groupOf 1 text).filter (· ≠ []))
    some [("action", .string "run"), ("command", string command)]
  let parameter := do
    let name ← bracketParameterRe.groupOf 1 text
    let value ← command (bracketParameterRe.groupOf 2 text)
    some [(String.ofList name, string value)]
  (action.or run).or parameter

def parseInlineToolCallProtocol (text : List Char) : Option InlineToolCall :=
  let fromJson := ((extractFirstBalancedJsonObject text).map fun json =>
    repairToolArguments (String.ofList json)).filter fun arguments => !arguments.isEmpty
  (fromJson.or (inlineArgument text)).map fun arguments =>
    { toolName := String.ofList ((toolNameFromInlineToolCall text).getD "bash".toList), arguments }

structure InlineConsumption where
  visibleText : List Char
  call : Option (String × InlineToolCall) := none

def consumeInlineToolCallContent (content : List Char) (state : InlineToolCallState) :
    InlineToolCallState × InlineConsumption :=
  let combined := state.buffer ++ content
  match inlineToolCallMarkerIndex combined with
  | none => (state, { visibleText := content })
  | some markerIndex =>
    let visibleText := if state.buffer.isEmpty then combined.take markerIndex else []
    let protocolText := combined.drop markerIndex
    match parseInlineToolCallProtocol protocolText with
    | none =>
      ({ state with buffer := protocolText.drop (protocolText.length - 32768) }, { visibleText })
    | some parsed =>
      ({ buffer := [], nextId := state.nextId + 1 },
        { visibleText, call := some ("call_inline_" ++ toString state.nextId, parsed) })

end QiongQi.ModelTexts
