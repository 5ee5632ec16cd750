/-! The items of a turn, as threads and session logs hold them. -/
namespace QiongQi.TurnItems

inductive ItemStatus where
  | pending | running | completed | failed | aborted
  | allowed | denied | expired
  | submitted | cancelled
  deriving DecidableEq

/-- What an item carries, by its kind. Arguments and outputs are kept as the text that
a message has of them. -/
inductive ItemBody where
  | userMessage (text : String) (attachmentIds : List String)
  | assistantText (text : String)
  | assistantReasoning (text : String) (signature : Option String)
  | toolCall (toolName callId arguments : String) (summary : Option String)
  | toolResult (toolName callId output : String) (isError : Bool)
  | approval (approvalId toolName : String)
  | userInput (inputId prompt : String)
  | compaction (summary : String) (replacedTokens : Nat)
  | review (title : String) (reviewText : Option String)
  | runtimeProgress (summary : String)
  | error (message : String) (code : Option String)
  deriving DecidableEq

structure TurnItem where
  id : String
  turnId : String
  status : ItemStatus
  createdAt : String := ""
  finishedAt : Option String := none
  body : ItemBody
  deriving DecidableEq

/-- An item that is still being worked on or waits for an answer. -/
def TurnItem.isOpen (item : TurnItem) : Bool :=
  item.status = .pending || item.status = .running

end QiongQi.TurnItems
