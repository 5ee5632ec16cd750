import QiongQi.Erasures
import QiongQi.JsonTexts
import QiongQi.KeyedMaps
import QiongQi.ModelProposals
import QiongQi.ModelStreams

/-! `model-protocol-normalizer.ts`: what a model's answer comes to when its stream has ended, and
the markers of a provider's protocol that are taken out of its text. -/
namespace QiongQi.ProtocolMarkers
open Erasures JsonValues KeyedMaps ModelProposals Regexes RuntimeContracts List
open ModelStreams (ModelStopReason)

inductive ModelStreamChunk where
  | assistantTextDelta (text : String)
  | assistantReasoningDelta (text : String)
  | toolCallDelta (callId : String) (toolName argumentsDelta : Option String)
  | toolCallComplete (callId toolName : String) (arguments : Json)
  | completed (stopReason : ModelStopReason) (stopClass : Option ModelStopClass)
      (providerReason : Option String) (endpointFormat : Option EndpointFormat)
      (provider : Option String) (rawMetadata : Option (List (String × Json)))
  | error (message : String) (code providerReason : Option String)
      (rawMetadata : Option (List (String × Json)))
  | usage

structure ModelProtocolNormalizerOptions where
  provider : Option String := none
  endpointFormat : Option EndpointFormat := none

structure NormalizedModelCompletion where
  stopClass : ModelStopClass
  providerReason : Option String
  endpointFormat : Option EndpointFormat
  provider : Option String
  rawMetadata : Option (List (String × Json))
  integrity : ModelIntegrity
  text : String
  reasoning : String
  toolIntents : List ModelToolIntent

def leakedProtocolMarkers : List String := [
  "<action>", "</action>", "<tool_call>", "</tool_call>", "(tool call)", "[tool call]", "<|tool|>",
  "<function_call>", "</function_call>", "<function_calls>", "</function_calls>",
  "<|function_call|>", "<|endoftext|>", "<|im_start|>", "<|im_end|>", "<|observation|>",
  "<|assistant|>", "<|user|>", "<|system|>", "[gMASK]", "[MASK]", "<|begin_of_sentence|>",
  "<|end_of_sentence|>", "<function_calls>", "</function_calls>", "<invoke>", "</invoke>",
  "<parameter>", "</parameter>", "<|python_tag|>", "<function=", "</function>",
  "<|start_header_id|>", "<|end_header_id|>", "<|eot_id|>"]

/-- As far as a letter of a marker can come of it: besides the capitals the Kelvin sign has such a
lower form. -/
def lowerChar (c : Char) : Char := if c = '\u212A' then 'k' else c.toLower

def toLowerCase (text : List Char) : List Char := text.map lowerChar

def hasLeakedProtocolText (text : List Char) : Bool :=
  leakedProtocolMarkers.any fun marker => marker.toList <:+: toLowerCase text

/-- `out.split(marker).join('')` -/
def markerAt (marker : String) (text : List Char) : Option Nat :=
  if marker.toList.isPrefixOf text then some marker.toList.length else none

def tagNames : List String :=
  ["action", "tool_call", "function_call", "function_calls", "invoke", "parameter", "python_tag"]

/-- `[a-z_]` -/
def isNameChar (c : Char) : Bool := c.isLower || c = '_'

/-- `(?:action|tool_call|function_calls?|invoke|parameter|antml:[a-z_]+|python_tag)` in either
case. -/
def isTagName (name : List Char) : Bool :=
  let lower := name.map Char.toLower
  tagNames.any (fun tag => tag.toList = lower) ||
    ("antml:".toList.isPrefixOf lower && 6 < lower.length && (lower.drop 6).all isNameChar)

/-- `/<\/?(?:...)>/gi` -/
def tagAt : List Char → Option Nat
  | '<' :: rest =>
    let body := rest.takeWhile (· ≠ '>')
    let name := if body.head? = some '/' then body.tail else body
    if body.length < rest.length ∧ isTagName name then some (body.length + 2) else none
  | _ => none

/-- `/<\|[^|>]*\|>/g` -/
def specialAt : List Char → Option Nat
  | '<' :: '|' :: rest =>
    let body := rest.takeWhile fun c => c ≠ '|' && c ≠ '>'
    if (rest.drop body.length).take 2 = ['|', '>'] then some (body.length + 4) else none
  | _ => none

/-- The passes before the last one. -/
def earlierPasses : List (WordAt Char) := leakedProtocolMarkers.map markerAt ++ [tagAt]

def stripProtocolMarkers (text : List Char) : List Char :=
  takeOut specialAt 0 (runPasses earlierPasses text)

structure PendingCall where
  callId : String
  toolName : Option String := none
  arguments : String := ""

structure ToolIntent where
  callId : String
  toolName : String
  arguments : List (String × Json)

/-- A chunk of kind `completed`. -/
structure Completed where
  stopReason : ModelStopReason
  stopClass : Option ModelStopClass := none
  endpointFormat : Option EndpointFormat := none
  provider : Option String := none

structure NormalizerState where
  text : String := ""
  reasoning : String := ""
  completed : Option Completed := none
  providerReason : Option String := none
  rawMetadata : Option (List (String × Json)) := none
  malformedToolCall : Bool := false
  pending : List PendingCall := []
  intents : List ToolIntent := []

def stopClassFor (chunk : Completed) : ModelStopClass :=
  match chunk.stopClass, chunk.stopReason with
  | some stopClass, _ => stopClass
  | none, .toolCalls => .toolCalls
  | none, .length => .length
  | none, .error => .protocolError
  | none, .stop => .normal

def NormalizerState.read (state : NormalizerState) : ModelStreamChunk → NormalizerState
  | .assistantTextDelta text => { state with text := state.text ++ text }
  | .assistantReasoningDelta text => { state with reasoning := state.reasoning ++ text }
  | .toolCallDelta callId toolName argumentsDelta =>
    let current := (state.pending.find? (·.callId = callId)).getD { callId }
    let call := { current with
      toolName := (toolName.filter (· ≠ "")).or current.toolName
      arguments := current.arguments ++ argumentsDelta.getD "" }
    { state with pending := setEntry PendingCall.callId call state.pending }
  | .toolCallComplete callId toolName (.object arguments) =>
    if callId = "" ∨ toolName = "" then { state with malformedToolCall := true }
    else
      let intent : ToolIntent := { callId, toolName, arguments }
      { state with
        intents := setEntry ToolIntent.callId intent state.intents
        pending := state.pending.filter (·.callId ≠ callId) }
  | .toolCallComplete .. => { state with malformedToolCall := true }
  | .completed stopReason stopClass providerReason endpointFormat provider rawMetadata =>
    { state with
      completed := some { stopReason, stopClass, endpointFormat, provider }
      providerReason, rawMetadata }
  | .error _ code providerReason rawMetadata =>
    { state with
      completed := some { stopReason := .error, stopClass := some .transportError }
      providerReason := providerReason.or code
      rawMetadata }
  | .usage => state

/-- The calls whose arguments have come in pieces. -/
def NormalizerState.finishCall (state : NormalizerState) (call : PendingCall) : NormalizerState :=
  match call.toolName, JsonTexts.parse call.arguments with
  | some toolName, some (.object arguments) =>
    let intent : ToolIntent := { callId := call.callId, toolName, arguments }
    { state with intents := setEntry ToolIntent.callId intent state.intents }
  | _, _ => { state with malformedToolCall := true }

/-- `ModelToolIntentSchema` -/
def ToolIntent.parse (intent : ToolIntent) : Option ModelToolIntent := do
  let callId ← NonEmptyString.parse intent.callId
  let toolName ← NonEmptyString.parse intent.toolName
  some { callId, toolName, arguments := intent.arguments }

def NormalizerState.toolIntents (state : NormalizerState) : Option (List ModelToolIntent) :=
  if state.malformedToolCall then some [] else state.intents.mapM ToolIntent.parse

/-- None where the schema of the completion refuses a tool intent. -/
def normalizeModelCompletion (input : List ModelStreamChunk)
    (options : ModelProtocolNormalizerOptions) : Option NormalizedModelCompletion := do
  let streamed := input.foldl NormalizerState.read {}
  let state := streamed.pending.foldl NormalizerState.finishCall streamed
  let stop := state.completed.getD { stopReason := .stop }
  let leakedProtocolText := hasLeakedProtocolText state.text.toList
  let cleanText :=
    if leakedProtocolText then String.ofList (stripProtocolMarkers state.text.toList)
    else state.text
  let toolIntents ← state.toolIntents
  some {
    stopClass := stopClassFor stop
    providerReason := state.providerReason
    endpointFormat := stop.endpointFormat.or options.endpointFormat
    provider := stop.provider.or options.provider
    rawMetadata := state.rawMetadata
    integrity := {
      leakedProtocolText
      malformedToolCall := state.malformedToolCall
      completeToolCalls := state.pending.isEmpty && !state.malformedToolCall }
    text := cleanText
    reasoning := state.reasoning
    toolIntents }

/-- What stands between the angle brackets of a tag. -/
def isTagBody (body : List Char) : Bool :=
  isTagName (if body.head? = some '/' then body.tail else body)

def IsTag (word : List Char) : Prop :=
  ∃ body, word = '<' :: (body ++ ['>']) ∧ '>' ∉ body ∧ isTagBody body = true

def IsSpecial (word : List Char) : Prop :=
  ∃ body, word = '<' :: '|' :: (body ++ ['|', '>']) ∧ ∀ c ∈ body, c ≠ '|' ∧ c ≠ '>'

theorem markerAt_iff (text : List Char) (size : Nat) :
    markerAt marker text = some size ↔ StartsWith (· = marker.toList) text size := by
  rw [markerAt, Option.ite_none_right_eq_some, Option.some_inj, isPrefixOf_iff_prefix]
  constructor
  · rintro ⟨⟨rest, whole⟩, same⟩
    exact ⟨_, rest, whole.symm, rfl, same⟩
  · rintro ⟨_, rest, whole, rfl, same⟩
    exact ⟨⟨rest, whole.symm⟩, same⟩

theorem takeWhile_ends (inside : ∀ c ∈ body, keep c = true) (ends : keep stop = false) :
    (body ++ stop :: rest).takeWhile keep = body := by
  rw [takeWhile_append_of_pos inside, takeWhile_cons_of_neg (by simp [ends]), append_nil]

variable {text : List Char}

theorem takeWhile_split (ends : (text.takeWhile keep).length < text.length) :
    ∃ stop rest, text = text.takeWhile keep ++ stop :: rest ∧ keep stop = false := by
  induction text with
  | nil => exact absurd ends (Nat.not_lt_zero _)
  | cons c others ih =>
    by_cases kept : keep c = true
    · rw [takeWhile_cons_of_pos kept] at ends ⊢
      obtain ⟨stop, rest, whole, out⟩ := ih (Nat.lt_of_succ_lt_succ ends)
      exact ⟨stop, rest, congrArg (c :: ·) whole, out⟩
    · rw [takeWhile_cons_of_neg kept]
      exact ⟨c, others, rfl, by simpa using kept⟩

theorem tagAt_iff (text : List Char) (size : Nat) :
    tagAt text = some size ↔ StartsWith IsTag text size := by
  constructor
  · intro here
    unfold tagAt at here
    split at here
    · next rest =>
      simp only [Option.ite_none_right_eq_some, Option.some_inj] at here
      obtain ⟨⟨ends, tag⟩, rfl⟩ := here
      obtain ⟨stop, more, whole, out⟩ := takeWhile_split ends
      obtain rfl : stop = '>' := by simpa using out
      refine ⟨'<' :: (rest.takeWhile (· ≠ '>') ++ ['>']), more, ?_, ⟨_, rfl, ?_, tag⟩, by simp⟩
      · rw [cons_append, append_assoc, singleton_append, ← whole]
      · intro held
        simpa using mem_takeWhile_imp held
    · cases here
  · rintro ⟨word, rest, rfl, ⟨body, rfl, inside, tag⟩, rfl⟩
    have ends : (body ++ '>' :: rest).takeWhile (· ≠ '>') = body :=
      takeWhile_ends (fun c held => by
        have other : c ≠ '>' := fun same => inside (same ▸ held)
        simpa using other) (by simp)
    rw [cons_append, append_assoc, singleton_append, tagAt]
    simp only [ends]
    rw [if_pos ⟨by simp, tag⟩]
    simp

theorem specialAt_iff (text : List Char) (size : Nat) :
    specialAt text = some size ↔ StartsWith IsSpecial text size := by
  constructor
  · intro here
    unfold specialAt at here
    split at here
    · next rest =>
      simp only [Option.ite_none_right_eq_some, Option.some_inj] at here
      obtain ⟨closing, rfl⟩ := here
      generalize body_ : rest.takeWhile (fun c => c ≠ '|' && c ≠ '>') = body at closing
      have front : body <+: rest := body_ ▸ takeWhile_prefix _
      obtain ⟨behind, rfl⟩ := front
      refine ⟨'<' :: '|' :: (body ++ ['|', '>']), behind.drop 2, ?_, ⟨body, rfl, ?_⟩, by simp⟩
      · rw [← closing]
        simp
      · intro c held
        rw [← body_] at held
        simpa using mem_takeWhile_imp held
    · cases here
  · rintro ⟨word, rest, rfl, ⟨body, rfl, inside⟩, rfl⟩
    have ends : (body ++ '|' :: '>' :: rest).takeWhile (fun c => c ≠ '|' && c ≠ '>') = body :=
      takeWhile_ends (fun c held => by simpa using inside c held) (by simp)
    have whole : '<' :: '|' :: (body ++ ['|', '>']) ++ rest
        = '<' :: '|' :: (body ++ '|' :: '>' :: rest) := by simp
    rw [whole, specialAt]
    simp only [ends, drop_left]
    simp

theorem specialAt_reading : Reading specialAt :=
  reading_of_words (by rintro _ ⟨_, rfl, _⟩; exact cons_ne_nil _ _) specialAt_iff

def openMarks : List Char := ['<', '(', '[']

def closeMarks : List Char := ['>', ')', ']', '=']

def opens (c : Char) : Bool := openMarks.contains c

def closes (c : Char) : Bool := closeMarks.contains c

theorem marker_brackets : ∀ marker ∈ leakedProtocolMarkers,
    marker.toList ≠ [] ∧ (∀ c ∈ marker.toList.tail, opens c = false) ∧
    (∀ c ∈ marker.toList.dropLast, closes c = false) ∧
    marker.toList.head?.any opens = true ∧ marker.toList.getLast?.any closes = true := by
  decide

theorem contains_toLower {marks : List Char}
    (fixed : ∀ mark ∈ marks, mark.toLower = mark ∧ (mark.toNat < 97 ∨ 122 < mark.toNat)) :
    marks.contains c.toLower = marks.contains c := by
  rw [Bool.eq_iff_iff, contains_iff_mem, contains_iff_mem]
  constructor
  · intro held
    rwa [eq_of_toLower rfl (fixed _ held).2]
  · intro held
    rwa [(fixed c held).1]

theorem opens_toLower : opens c.toLower = opens c :=
  contains_toLower (by decide)

theorem closes_toLower : closes c.toLower = closes c :=
  contains_toLower (by decide)

/-- A class of characters without the marks. -/
theorem not_mark {marks : List Char} (kind : Char → Bool) (inside : kind c = true)
    (apart : ∀ mark ∈ marks, kind mark = false) : marks.contains c = false := by
  rw [← Bool.not_eq_true, contains_iff_mem]
  intro held
  rw [apart c held] at inside
  cases inside

theorem tagName_plain {name : List Char} (tag : isTagName name = true) :
    ∀ c ∈ name, opens c = false ∧ closes c = false := by
  have plain_ : ∀ c ∈ name.map Char.toLower, opens c = false ∧ closes c = false := by
    simp only [isTagName, Bool.or_eq_true, Bool.and_eq_true, any_eq_true, decide_eq_true_eq] at tag
    rcases tag with ⟨known, listed, same⟩ | ⟨⟨front, -⟩, rest⟩
    · have names : ∀ tag ∈ tagNames, ∀ c ∈ tag.toList, opens c = false ∧ closes c = false := by
        decide
      exact same ▸ names known listed
    · obtain ⟨more, whole⟩ := List.isPrefixOf_iff_prefix.mp front
      rw [← whole] at rest ⊢
      intro c held
      rcases mem_append.mp held with inside | inside
      · have names : ∀ c ∈ "antml:".toList, opens c = false ∧ closes c = false := by
          decide
        exact names c inside
      · have letter : isNameChar c = true := all_eq_true.mp rest c (by simpa using inside)
        exact ⟨not_mark isNameChar letter (by decide), not_mark isNameChar letter (by decide)⟩
  intro c held
  have lower := plain_ _ (mem_map_of_mem held)
  rwa [opens_toLower, closes_toLower] at lower

theorem tagBody_plain (tag : isTagBody body = true) :
    ∀ c ∈ body, opens c = false ∧ closes c = false := by
  rw [isTagBody] at tag
  split at tag
  · next slash =>
    obtain ⟨name, rfl⟩ := head?_eq_some_iff.mp slash
    intro c held
    rcases mem_cons.mp held with rfl | inside
    · decide
    · exact tagName_plain tag c inside
  · exact tagName_plain tag

theorem earlier_reading : ∀ pass ∈ earlierPasses, Reading pass := by
  intro pass listed
  rcases mem_append.mp listed with listed | tag
  · obtain ⟨marker, known, rfl⟩ := mem_map.mp listed
    refine reading_of_words ?_ markerAt_iff
    rintro _ rfl
    exact (marker_brackets marker known).1
  · rw [mem_singleton.mp tag]
    exact reading_of_words (by rintro _ ⟨_, rfl, _⟩; exact cons_ne_nil _ _) tagAt_iff

theorem earlier_bracketed : ∀ pass ∈ earlierPasses, Bracketed opens closes pass := by
  intro pass listed
  rcases mem_append.mp listed with listed | tag
  · obtain ⟨marker, known, rfl⟩ := mem_map.mp listed
    obtain ⟨-, tail, front, -⟩ := marker_brackets marker known
    refine bracketed_of_words markerAt_iff ?_
    rintro _ rfl
    exact ⟨tail, front⟩
  · rw [mem_singleton.mp tag]
    refine bracketed_of_words tagAt_iff ?_
    rintro _ ⟨body, rfl, -, tag⟩
    have plain_ := tagBody_plain tag
    constructor
    · intro c held
      rcases mem_append.mp held with inside | last
      · exact (plain_ c inside).1
      · rw [mem_singleton.mp last]
        rfl
    · intro c held
      rw [← cons_append, dropLast_concat] at held
      rcases mem_cons.mp held with rfl | inside
      · rfl
      · exact (plain_ c inside).2

/-- A marker, letters in either case. -/
def IsMarker (text : List Char) : Prop :=
  ∃ marker ∈ leakedProtocolMarkers, toLowerCase text = toLowerCase marker.toList

def HoldsMarker (text : List Char) : Prop := ∃ stretch, IsMarker stretch ∧ stretch <:+: text

theorem stands_lower_iff : spelled <:+: toLowerCase text ↔
      ∃ stretch, toLowerCase stretch = spelled ∧ stretch <:+: text := by
  constructor
  · rintro ⟨front, back, whole⟩
    obtain ⟨start, rest, rfl, first, rfl⟩ := map_eq_append_iff.mp whole.symm
    obtain ⟨before, stretch, rfl, -, rfl⟩ := map_eq_append_iff.mp first
    exact ⟨stretch, rfl, before, rest, rfl⟩
  · rintro ⟨stretch, rfl, inside⟩
    exact inside.map lowerChar

theorem holdsMarker_iff : HoldsMarker text ↔
      ∃ marker ∈ leakedProtocolMarkers, toLowerCase marker.toList <:+: toLowerCase text := by
  constructor
  · rintro ⟨stretch, ⟨marker, known, same⟩, inside⟩
    exact ⟨marker, known, same ▸ inside.map lowerChar⟩
  · rintro ⟨marker, known, inside⟩
    obtain ⟨stretch, same, inside⟩ := stands_lower_iff.mp inside
    exact ⟨stretch, ⟨marker, known, same⟩, inside⟩

/-- The markers that are listed with capitals. -/
def capitalMarkers : List String := ["[gMASK]", "[MASK]"]

/-- A marker that is listed in lower case stands in the text, letters in either case. -/
def HoldsLowerMarker (text : List Char) : Prop :=
  ∃ marker ∈ leakedProtocolMarkers, marker ∉ capitalMarkers ∧
    ∃ stretch, toLowerCase stretch = marker.toList ∧ stretch <:+: text

theorem lowerChar_brackets : opens (lowerChar c) = opens c ∧ closes (lowerChar c) = closes c := by
  rw [lowerChar]
  split
  · next same =>
    rw [same]
    decide
  · exact ⟨opens_toLower, closes_toLower⟩

/-- Two texts of one lower form have an opening mark at the same place. -/
theorem same_edge {left right : Option Char} {kind : Char → Bool}
    (lower : ∀ c, kind (lowerChar c) = kind c) (same : left.map lowerChar = right.map lowerChar)
    (edge : ∃ c ∈ right, kind c = true) : ∃ c ∈ left, kind c = true := by
  obtain ⟨c, rfl, mark⟩ := edge
  obtain ⟨d, rfl, alike⟩ := Option.map_eq_some_iff.mp same
  exact ⟨d, rfl, by rw [← lower, alike, lower, mark]⟩

theorem marker_edges (marker : IsMarker text) :
    (∃ c ∈ text.head?, opens c = true) ∧ ∃ c ∈ text.getLast?, closes c = true := by
  obtain ⟨marker, known, same⟩ := marker
  obtain ⟨-, -, -, first, last⟩ := marker_brackets marker known
  constructor
  · refine same_edge (fun c => lowerChar_brackets.1) ?_ ((Option.any_eq_true ..).mp first)
    rw [← head?_map, ← head?_map]
    exact congrArg List.head? same
  · refine same_edge (fun c => lowerChar_brackets.2) ?_ ((Option.any_eq_true ..).mp last)
    rw [← getLast?_map, ← getLast?_map]
    exact congrArg List.getLast? same

theorem lowerChar_ne_capital : lowerChar c ≠ 'M' := by
  rw [lowerChar]
  split
  · decide
  · intro same
    obtain rfl := eq_of_toLower same (.inl (by decide))
    exact absurd same (by decide)

/-- The markers that are listed with capitals are never found. -/
theorem hasLeaked_iff : hasLeakedProtocolText text = true ↔ HoldsLowerMarker text := by
  have small : ∀ marker ∈ leakedProtocolMarkers, marker.toList <:+: toLowerCase text →
      marker ∉ capitalMarkers := by
    intro marker _ inside capital
    have capitals : ∀ marker ∈ capitalMarkers, 'M' ∈ marker.toList := by decide
    obtain ⟨c, -, same⟩ := mem_map.mp (inside.subset (capitals marker capital))
    exact lowerChar_ne_capital same
  rw [hasLeakedProtocolText, any_eq_true]
  constructor
  · rintro ⟨marker, known, inside⟩
    have inside := of_decide_eq_true inside
    exact ⟨marker, known, small marker known inside, stands_lower_iff.mp inside⟩
  · rintro ⟨marker, known, -, inside⟩
    exact ⟨marker, known, decide_eq_true (stands_lower_iff.mpr inside)⟩

theorem holdsMarker_of_lower (held : HoldsLowerMarker text) : HoldsMarker text := by
  obtain ⟨marker, known, other, stretch, same, inside⟩ := held
  have lower : ∀ marker ∈ leakedProtocolMarkers, marker ∉ capitalMarkers →
      toLowerCase marker.toList = marker.toList := by decide
  exact ⟨stretch, ⟨marker, known, same.trans (lower marker known other).symm⟩, inside⟩

/-- The text of the answer as it was streamed. -/
def rawText (input : List ModelStreamChunk) : List Char :=
  input.flatMap fun chunk =>
    match chunk with
    | .assistantTextDelta text => text.toList
    | _ => []

/-- No marker stands in the text of the completion, and the flag says whether one stood in the text
of the stream. -/
structure Unleaked (raw : List Char) (completion : NormalizedModelCompletion) : Prop where
  clean : ¬ HoldsMarker completion.text.toList
  flagged : completion.integrity.leakedProtocolText = true ↔ HoldsMarker raw

/-- The passes leave a marker of a stretch of the text. None of them before the last takes an edge
of the stretch, and the last one takes no `<|…|>` that reaches over an edge of what is left then. -/
def LeavesMarker (text : List Char) : Prop :=
  ∃ first stretch last worn marker, text = first ++ (stretch ++ last) ∧ IsMarker marker ∧
    Wears earlierPasses stretch worn ∧ Wears [specialAt] worn marker ∧
    Uncrossed specialAt 0 (runPasses earlierPasses first) (worn ++ runPasses earlierPasses last) ∧
    Uncrossed specialAt 0 worn (runPasses earlierPasses last)

theorem strip_holds_iff : HoldsMarker (stripProtocolMarkers text) ↔ LeavesMarker text := by
  rw [HoldsMarker, LeavesMarker, stripProtocolMarkers]
  constructor
  · rintro ⟨marker, known, inside⟩
    obtain ⟨opening, closing⟩ := marker_edges known
    rw [left_iff earlier_reading earlier_bracketed specialAt_reading opening closing] at inside
    obtain ⟨first, stretch, last, worn, whole, rest⟩ := inside
    exact ⟨first, stretch, last, worn, marker, whole, known, rest⟩
  · rintro ⟨first, stretch, last, worn, marker, whole, known, rest⟩
    obtain ⟨opening, closing⟩ := marker_edges known
    refine ⟨marker, known, ?_⟩
    rw [left_iff earlier_reading earlier_bracketed specialAt_reading opening closing]
    exact ⟨first, stretch, last, worn, whole, rest⟩

theorem read_text (state : NormalizerState) :
    (state.read chunk).text.toList = state.text.toList ++ rawText [chunk] := by
  cases chunk with
  | toolCallComplete callId toolName arguments =>
    have same : (state.read (.toolCallComplete callId toolName arguments)).text = state.text := by
      cases arguments with
      | object fields =>
        rw [NormalizerState.read]
        split <;> rfl
      | _ => rfl
    rw [same]
    simp [rawText]
  | _ => simp [NormalizerState.read, rawText]

theorem readAll_text (state : NormalizerState) (input : List ModelStreamChunk) :
    (input.foldl NormalizerState.read state).text.toList = state.text.toList ++ rawText input := by
  induction input generalizing state with
  | nil => exact (append_nil _).symm
  | cons chunk rest ih =>
    rw [foldl_cons, ih, read_text, append_assoc]
    simp [rawText]

theorem finishCalls_text (calls : List PendingCall) :
    (calls.foldl NormalizerState.finishCall state).text = state.text := by
  induction calls generalizing state with
  | nil => rfl
  | cons call rest ih =>
    rw [foldl_cons, ih, NormalizerState.finishCall]
    split <;> rfl

theorem normalized_text (normalized : normalizeModelCompletion input options = some completion) :
    completion.integrity.leakedProtocolText = hasLeakedProtocolText (rawText input) ∧
      completion.text.toList = if hasLeakedProtocolText (rawText input) then
        stripProtocolMarkers (rawText input) else rawText input := by
  obtain ⟨intents, -, same⟩ := Option.bind_eq_some_iff.mp normalized
  obtain rfl := Option.some.inj same
  have text := readAll_text {} input
  rw [show ({} : NormalizerState).text.toList = [] from rfl, nil_append] at text
  simp only [finishCalls_text, text]
  refine ⟨trivial, ?_⟩
  split
  · exact String.toList_ofList
  · exact text

/-- The completion is free of markers and flagged rightly if and only if the streamed text holds
no marker, or one that is listed in lower case and no stretch of which the passes leave one. -/
theorem unleaked_iff {input : List ModelStreamChunk} {options : ModelProtocolNormalizerOptions}
    {completion : NormalizedModelCompletion}
    (normalized : normalizeModelCompletion input options = some completion) :
    Unleaked (rawText input) completion ↔ ¬ HoldsMarker (rawText input) ∨
        HoldsLowerMarker (rawText input) ∧ ¬ LeavesMarker (rawText input) := by
  obtain ⟨flag, text⟩ := normalized_text normalized
  constructor
  · rintro ⟨clean, flagged⟩
    by_cases held : HoldsMarker (rawText input)
    · have leaked := flagged.mpr held
      rw [flag] at leaked
      rw [text, if_pos leaked, strip_holds_iff] at clean
      exact .inr ⟨hasLeaked_iff.mp leaked, clean⟩
    · exact .inl held
  · rintro (none_ | ⟨lower, clean⟩)
    · have unflagged : ¬ hasLeakedProtocolText (rawText input) = true :=
        fun leaked => none_ (holdsMarker_of_lower (hasLeaked_iff.mp leaked))
      refine ⟨?_, ?_⟩
      · rwa [text, if_neg unflagged]
      · rw [flag]
        exact iff_of_false unflagged none_
    · have leaked := hasLeaked_iff.mpr lower
      refine ⟨?_, ?_⟩
      · rwa [text, if_pos leaked, strip_holds_iff]
      · rw [flag]
        exact iff_of_true leaked (holdsMarker_of_lower lower)

theorem unleaked_action : ¬ HoldsMarker (rawText [.assistantTextDelta "a<action>b"]) ∨
      HoldsLowerMarker (rawText [.assistantTextDelta "a<action>b"]) ∧
        ¬ LeavesMarker (rawText [.assistantTextDelta "a<action>b"]) := by
  have normalized : normalizeModelCompletion [.assistantTextDelta "a<action>b"] {} = some
      ⟨.normal, none, none, none, none, ⟨true, false, true⟩, "ab", "", []⟩ := by rfl
  refine (unleaked_iff normalized).mp ⟨?_, ?_⟩
  · rw [holdsMarker_iff]
    decide
  · refine iff_of_true rfl (holdsMarker_iff.mpr ⟨"<action>", ?_, ?_⟩) <;> decide

/-- A marker with capitals is flagged, and stays. -/
theorem capitals_left :
    ∃ completion, normalizeModelCompletion [.assistantTextDelta "(Tool Call) ls"] {}
        = some completion ∧
      ¬ Unleaked (rawText [.assistantTextDelta "(Tool Call) ls"]) completion := by
  refine ⟨⟨.normal, none, none, none, none, ⟨true, false, true⟩, "(Tool Call) ls", "", []⟩, by rfl, ?_⟩
  rintro ⟨clean, -⟩
  refine clean (holdsMarker_iff.mpr ⟨"(tool call)", ?_, ?_⟩) <;> decide

/-- Three markers in one another: each of the two passes that know the marker takes out one. -/
example : stripProtocolMarkers "<a<a<action>ction>ction>".toList = "<action>".toList := by
  decide

end QiongQi.ProtocolMarkers
