import Mathlib.Algebra.Order.Ring.Rat
import Mathlib.Data.List.DropRight
import QiongQi.HistoryRepair
import QiongQi.RuntimeContracts

/-! The items of a model request with the texts that are sent: how many tokens they are taken
for, and the repair of a history of them. -/
namespace QiongQi.RequestItems
open HistoryRepair RuntimeContracts TurnItems

/-- A text, by its UTF-16 code units. -/
abbrev Text := List UInt16

/-- A text of the source, which has characters of ASCII only. -/
def ascii (text : String) : Text := text.toList.map fun c => c.toNat.toUInt16

def isSpaceUnit (unit : UInt16) : Bool := isJsSpace (Char.ofNat unit.toNat)

def trimStart (text : Text) : Text := text.dropWhile isSpaceUnit

def trimEnd (text : Text) : Text := text.rdropWhile isSpaceUnit

def trim (text : Text) : Text := trimEnd (trimStart text)

/-- `texts.join('\n')` -/
def joinLines (texts : List Text) : Text := List.intercalate [10] texts

/-- The output of a tool: a text, or anything else by its JSON text, which `undefined` has not. -/
inductive Output
  | undefined
  | null
  | text (text : Text)
  | value (json : Text)
  deriving DecidableEq

/-- What an item carries, by its kind, as far as its size is taken from it or it is cut short. The
arguments of a call, the output of a review, the questions and the details of an error are kept
as their JSON texts. -/
inductive Content
  | userMessage (text : Text)
  | assistantText (text : Text)
  | assistantReasoning (text : Text)
  | toolCall (toolName : Text) (callId : String) (arguments : Text)
  | toolResult (callId : String) (output : Output)
  | approval (toolName summary : Text)
  | userInput (prompt : Text) (questions : List Text)
  | compaction (summary : Text)
  | review (title : Text) (reviewText output : Option Text)
  | runtimeProgress
  | error (message : Text) (details : Option Text)
  deriving DecidableEq

/-- An item, with whatever else it has. -/
structure RequestItem (ρ : Type) where
  turnId : String
  content : Content
  rest : ρ
  deriving DecidableEq

section
variable {ρ : Type}

/-- The item as far as the repair of a history reads it. -/
def RequestItem.view (item : RequestItem ρ) : TurnItem :=
  { id := ""
    turnId := item.turnId
    status := .completed
    body :=
      match item.content with
      | .userMessage _ => .userMessage "" []
      | .assistantText _ => .assistantText ""
      | .assistantReasoning _ => .assistantReasoning "" none
      | .toolCall _ callId _ => .toolCall "" callId "" none
      | .toolResult callId _ => .toolResult "" callId "" false
      | .approval _ _ => .approval "" ""
      | .userInput _ _ => .userInput "" ""
      | .compaction _ => .compaction "" 0
      | .review _ _ _ => .review "" none
      | .runtimeProgress => .runtimeProgress ""
      | .error _ _ => .error "" none }

def RequestItem.isToolCall (item : RequestItem ρ) : Bool := TurnItem.isToolCall item.view

def RequestItem.isToolResult (item : RequestItem ρ) : Bool := TurnItem.isToolResult item.view

def RequestItem.callId (item : RequestItem ρ) : String := TurnItem.callId item.view

def firstCalls : (seenCallIds : List String) → List (RequestItem ρ) → List (RequestItem ρ)
  | _, [] => []
  | seenCallIds, call :: rest =>
    if call.callId ∈ seenCallIds then firstCalls seenCallIds rest
    else call :: firstCalls (call.callId :: seenCallIds) rest

def repairFrom (index : Nat) (keptResultIndexes : List Nat) :
    List (RequestItem ρ) → List (RequestItem ρ)
  | [] => []
  | item :: rest =>
    if item.isToolCall then
      let block := item :: rest.takeWhile RequestItem.isToolCall
      let calls := firstCalls [] block
      let cursor := index + block.length
      let after := rest.dropWhile RequestItem.isToolCall
      let result := findResultBlock item.turnId (calls.map RequestItem.callId) [] false cursor
        (after.map RequestItem.view)
      (calls.filter fun call => call.callId ∈ result.1) ++
        repairFrom cursor (keptResultIndexes ++ result.2) after
    else if item.isToolResult then
      if index ∈ keptResultIndexes then item :: repairFrom (index + 1) keptResultIndexes rest
      else repairFrom (index + 1) keptResultIndexes rest
    else item :: repairFrom (index + 1) keptResultIndexes rest
  termination_by items => items.length
  decreasing_by
    · exact Nat.lt_succ_of_le (List.length_dropWhile_le _ _)
    · exact Nat.lt_succ_self _
    · exact Nat.lt_succ_self _
    · exact Nat.lt_succ_self _

/-- `repairModelHistoryItems`, of items with their texts. -/
def repairModelHistoryItems (items : List (RequestItem ρ)) : List (RequestItem ρ) :=
  repairFrom 0 [] items

theorem firstCalls_sublist (seen : List String) (items : List (RequestItem ρ)) :
    (firstCalls seen items).Sublist items := by
  induction items generalizing seen with
  | nil => exact List.Sublist.refl []
  | cons call rest ih =>
    rw [firstCalls]
    split
    · exact (ih seen).cons call
    · exact (ih _).cons_cons call

theorem repairFrom_sublist (index : Nat) (kept : List Nat) (items : List (RequestItem ρ)) :
    (repairFrom index kept items).Sublist items := by
  induction index, kept, items using repairFrom.induct with
  | case1 index kept =>
    rw [repairFrom]
  | case2 index kept item rest call block calls cursor after result ih =>
    rw [repairFrom, if_pos call]
    have whole : item :: rest = block ++ after := by
      simp only [block, after, List.cons_append, List.takeWhile_append_dropWhile]
    have first : (calls.filter fun one => one.callId ∈ result.1).Sublist block :=
      List.filter_sublist.trans (firstCalls_sublist [] block)
    rw [whole]
    exact first.append ih
  | case3 index kept item rest call result found ih =>
    rw [repairFrom, if_neg call, if_pos result, if_pos found]
    exact ih.cons_cons item
  | case4 index kept item rest call result lost ih =>
    rw [repairFrom, if_neg call, if_pos result, if_neg lost]
    exact ih.cons item
  | case5 index kept item rest call result ih =>
    rw [repairFrom, if_neg call, if_neg result]
    exact ih.cons_cons item

def CHARS_PER_TOKEN : Nat := 4

/-- `Math.ceil(text.length / CHARS_PER_TOKEN)`, and one at least. -/
def tokensOf (text : Text) : Nat :=
  max 1 ((text.length + (CHARS_PER_TOKEN - 1)) / CHARS_PER_TOKEN)

def Output.json : Output → Option Text
  | .undefined => none
  | .null => some (ascii "null")
  | .text written | .value written => some written

/-- The text that an item is measured by. A result without an output has none: its length cannot
be read. -/
def collectText (item : RequestItem ρ) : Option Text :=
  match item.content with
  | .userMessage text | .assistantText text | .assistantReasoning text => some text
  | .toolCall toolName _ arguments => some (toolName ++ ascii " " ++ arguments)
  | .toolResult _ output => output.json
  | .approval toolName summary => some (toolName ++ ascii " " ++ summary)
  | .userInput prompt _ => some prompt
  | .compaction summary => some summary
  | .review title reviewText output =>
    some (title ++ ascii " " ++ reviewText.getD [] ++ ascii " " ++ output.getD [])
  | .runtimeProgress => some []
  | .error message _ => some message

def estimateItem (item : RequestItem ρ) : Option Nat := (collectText item).map tokensOf

def estimateItems : List (RequestItem ρ) → Option Nat
  | [] => some 0
  | item :: rest =>
    (estimateItem item).bind fun tokens => (estimateItems rest).map fun others => tokens + others

/-- Every item has a text to be measured by. -/
def Measured (items : List (RequestItem ρ)) : Prop := ∀ item ∈ items, (collectText item).isSome

theorem estimateItem_measured (measured : (collectText item).isSome) :
    ∃ tokens, estimateItem item = some tokens := by
  obtain ⟨text, has⟩ := Option.isSome_iff_exists.mp measured
  exact ⟨tokensOf text, by rw [estimateItem, has]; rfl⟩

theorem estimateItems_measured (measured : Measured items) :
    ∃ tokens, estimateItems items = some tokens := by
  induction items with
  | nil => exact ⟨0, rfl⟩
  | cons item rest ih =>
    obtain ⟨tokens, first⟩ := estimateItem_measured (measured item List.mem_cons_self)
    obtain ⟨others, later⟩ := ih fun other held => measured other (List.mem_cons_of_mem _ held)
    exact ⟨tokens + others, by rw [estimateItems, first, later]; rfl⟩

end

end QiongQi.RequestItems
