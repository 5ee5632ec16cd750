import Mathlib.Algebra.BigOperators.Group.List.Basic
import Mathlib.Data.List.Forall2
import Mathlib.Data.List.Perm.Basic
import QiongQi.ToolPairs

/-! The texts of a history in the message list for the provider: each of them is said by
one assistant message, save those that lead to calls that are not sent. -/
namespace QiongQi.SpokenTexts
open HistoryRepair ProviderMessages RuntimeContracts ToolPairs TurnItems List
open scoped List

/-- A character to be seen. The placeholder for empty content has none. -/
def isVisible (c : Char) : Bool := !isJsSpace c && c.toNat ≠ 0x200b

def weight (text : String) : Nat := text.toList.countP isVisible

def isSpoken (text : String) : Bool := 0 < weight text

def partWeight (part : ContentPart) : Nat :=
  match part with
  | .text text => weight text
  | .imageUrl _ => 0

def contentWeight (content : Option MessageContent) : Nat :=
  match content with
  | none => 0
  | some (.text text) => weight text
  | some (.parts parts) => (parts.map partWeight).sum

/-- The texts that a message saying, joined line by line; only assistant messages say any. -/
def Carries (message : ChatMessage) (texts : List String) : Prop :=
  (message.role = .assistant ∧ message.content = some (.text (String.intercalate "\n" texts))) ∨
    (texts = [] ∧ (message.role = .assistant → contentWeight message.content = 0))

/-- Each text is said by one assistant message, in the order of the texts. -/
def CarriesTexts (messages : List ChatMessage) (texts : List String) : Prop :=
  ∃ groups, List.Forall₂ Carries messages groups ∧ groups.flatten.filter isSpoken = texts.filter isSpoken

def saidTexts (items : List TurnItem) : List String := items.filterMap saidText

/-- The texts that a block of calls brings along. -/
def blockTexts (before : List TurnItem) (call : TurnItem) (rest : List TurnItem) : List String :=
  saidTexts (bridgeBefore before call.turnId) ++ (scanBlock call rest).texts

/-- Texts of calls that are not sent: the ones that lead to a call that is the first of its
block or follows an unanswered one, where a result is missing, and those around an answered
block with a call that has no id. `inBlock` says that an answered block goes on. -/
def lostTexts (inBlock : Bool) (before : List TurnItem) : List TurnItem → List String
  | [] => []
  | item :: rest =>
    if TurnItem.isToolCall item && !inBlock then
      if isAnswered item rest then
        (if (callBlock item rest).all fun call => TurnItem.callId call ≠ "" then []
          else blockTexts before item rest) ++ lostTexts true (item :: before) rest
      else saidTexts (bridgeBefore before item.turnId) ++ lostTexts false (item :: before) rest
    else lostTexts (inBlock && TurnItem.isToolCall item) (item :: before) rest

theorem weight_append : weight (first ++ second) = weight first + weight second := by
  simp [weight]

theorem weight_joined : weight (String.intercalate "\n" texts) = (texts.map weight).sum := by
  induction texts with
  | nil => simp [weight]
  | cons text rest ih =>
    cases rest with
    | nil => simp
    | cons next rest =>
      have newline : weight "\n" = 0 := by decide
      rw [String.intercalate_cons_cons, weight_append, weight_append, ih, newline, map_cons,
        sum_cons, Nat.add_zero]
      rfl

theorem isBlank_iff : isBlank text = true ↔ ∀ c ∈ text.toList, isJsSpace c = true := by
  rw [isBlank, decide_eq_true_eq, jsTrim, ← String.toList_inj]
  simp only [trimChars, String.toList_ofList, String.toList_empty, reverse_eq_nil_iff,
    dropWhile_eq_nil_iff, mem_reverse]
  constructor
  · intro trimmed c held
    by_contra visible
    have kept : c ∈ text.toList.dropWhile isJsSpace := by
      have split := takeWhile_append_dropWhile (p := isJsSpace) (l := text.toList)
      rw [← split] at held
      rcases mem_append.mp held with front | back
      · exact absurd (mem_takeWhile_imp front) visible
      · exact back
    exact visible (trimmed c kept)
  · intro blank c held
    exact blank c ((dropWhile_sublist _).subset held)

variable {text turnId : String} {texts said lost : List String} {message : ChatMessage}
variable {messages : List ChatMessage} {item call : TurnItem} {before rest : List TurnItem}

theorem weight_blank (blank : isBlank text = true) : weight text = 0 := by
  rw [weight, countP_eq_zero]
  intro c held
  simp [isVisible, isBlank_iff.mp blank c held]

theorem mem_joined (inside : c ∈ text.toList) (held : text ∈ texts) :
    c ∈ (String.intercalate "\n" texts).toList := by
  induction texts with
  | nil => cases held
  | cons first rest ih =>
    cases rest with
    | nil =>
      rw [mem_singleton] at held
      rw [String.intercalate_singleton, ← held]
      exact inside
    | cons next rest =>
      rw [String.intercalate_cons_cons, String.toList_append, String.toList_append]
      rcases mem_cons.mp held with rfl | held
      · exact mem_append_left _ (mem_append_left _ inside)
      · exact mem_append_right _ (ih held)

theorem joined_not_blank (held : text ∈ texts) (said : isBlank text = false) :
    isBlank (String.intercalate "\n" texts) = false := by
  rw [← Bool.not_eq_true] at said ⊢
  intro blank
  apply said
  rw [isBlank_iff] at blank ⊢
  exact fun c inside => blank c (mem_joined inside held)

/-- What a message says is not blank, text by text. -/
def Says (message : ChatMessage) (texts : List String) : Prop :=
  Carries message texts ∧ ∀ text ∈ texts, isBlank text = false

/-- The messages say the texts in order, and what they do not say is lost. -/
def Delivered (messages : List ChatMessage) (texts lost : List String) : Prop :=
  ∃ groups, List.Forall₂ Says messages groups ∧ groups.flatten.Sublist texts ∧
    (groups.flatten ++ lost).Perm texts

theorem Delivered.nil : Delivered [] [] [] := ⟨[], .nil, List.Sublist.refl _, List.Perm.refl _⟩

theorem Delivered.cons (saying : Says message said) (later : Delivered messages texts lost) :
    Delivered (message :: messages) (said ++ texts) lost := by
  obtain ⟨groups, all, front, whole⟩ := later
  refine ⟨said :: groups, .cons saying all, ?_, ?_⟩
  · rw [flatten_cons]
    exact front.append_left said
  · rw [flatten_cons, append_assoc]
    exact whole.append_left said

theorem Delivered.silent {silent : List ChatMessage} (none : ∀ message ∈ silent, Says message [])
    (later : Delivered messages texts lost) : Delivered (silent ++ messages) texts lost := by
  induction silent with
  | nil => exact later
  | cons message rest ih =>
    exact Delivered.cons (none message mem_cons_self)
      (ih fun other held => none other (mem_cons_of_mem _ held))

theorem Delivered.lose (more : List String) (later : Delivered messages texts lost) :
    Delivered messages (more ++ texts) (more ++ lost) := by
  obtain ⟨groups, all, front, whole⟩ := later
  refine ⟨groups, all, front.trans (sublist_append_right more texts), ?_⟩
  calc groups.flatten ++ (more ++ lost)
      _ = (groups.flatten ++ more) ++ lost := (append_assoc _ _ _).symm
      _ ~ (more ++ groups.flatten) ++ lost := perm_append_comm.append_right lost
      _ = more ++ (groups.flatten ++ lost) := append_assoc _ _ _
      _ ~ more ++ texts := whole.append_left more

theorem Delivered.push (earlier : Delivered messages texts lost) (none : Says message []) :
    Delivered (messages ++ [message]) texts lost := by
  obtain ⟨groups, all, front, whole⟩ := earlier
  refine ⟨groups ++ [[]], rel_append all (.cons none .nil), ?_, ?_⟩
  · simpa using front
  · simpa using whole

theorem Delivered.map (earlier : Delivered messages texts lost)
    (keeps : ∀ {message said}, Says message said → Says (change message) said) :
    Delivered (messages.map change) texts lost := by
  obtain ⟨groups, all, front, whole⟩ := earlier
  exact ⟨groups, forall₂_map_left_iff.mpr (all.imp fun _ _ saying => keeps saying), front, whole⟩

theorem messages_weight (all : List.Forall₂ Carries messages groups) : (messages.map fun message =>
      if message.role = .assistant then contentWeight message.content else 0).sum =
      (groups.flatten.map weight).sum := by
  induction all with
  | nil => rfl
  | @cons message said messages groups carries all ih =>
    rw [map_cons, sum_cons, flatten_cons, map_append, sum_append, ih]
    rcases carries with ⟨role, content⟩ | ⟨rfl, silent⟩
    · rw [if_pos role, content]
      simp only [contentWeight, weight_joined]
    · split
      · rename_i role
        rw [silent role]
        rfl
      · rfl

theorem spoken_weight : ((texts.filter isSpoken).map weight).sum = (texts.map weight).sum := by
  induction texts with
  | nil => rfl
  | cons text rest ih =>
    by_cases spoken : isSpoken text = true
    · simp [spoken, ih]
    · have silent : weight text = 0 := by simpa [isSpoken] using spoken
      simp [spoken, ih, silent]

/-- The messages carry the texts exactly if no lost text says anything. -/
theorem Delivered.carries_iff (delivered : Delivered messages texts lost) :
    CarriesTexts messages texts ↔ ∀ text ∈ lost, isSpoken text = false := by
  obtain ⟨groups, all, front, whole⟩ := delivered
  have carried : List.Forall₂ Carries messages groups := all.imp fun _ _ saying => saying.1
  constructor
  · rintro ⟨others, same, equal⟩ text held
    have total : (groups.flatten.map weight).sum + (lost.map weight).sum = (texts.map weight).sum := by
      rw [← sum_append, ← map_append]
      exact (whole.map weight).sum_eq
    have said : (groups.flatten.map weight).sum = (texts.map weight).sum := by
      rw [← messages_weight carried, messages_weight same, ← spoken_weight, equal, spoken_weight]
    have none : (lost.map weight).sum = 0 := by omega
    have silent := List.sum_eq_zero_iff_forall_eq_nat.mp none (weight text) (mem_map_of_mem held)
    simp [isSpoken, silent]
  · intro silent
    refine ⟨groups, carried, ?_⟩
    apply (front.filter isSpoken).eq_of_length
    have lengths := (whole.filter isSpoken).length_eq
    have nothing : lost.filter isSpoken = [] := by
      simpa [filter_eq_nil_iff] using silent
    rwa [filter_append, nothing, append_nil] at lengths

/-- The turn of the tool call that the items lead to. -/
def leadTurn : List TurnItem → Option String
  | [] => none
  | item :: rest =>
    if TurnItem.isToolCall item then some item.turnId
    else (leadTurn rest).filter fun turnId => isPreToolCallBridgeItem turnId item

/-- The texts before that wait for the call. -/
def pendingTexts (before items : List TurnItem) : List String :=
  match leadTurn items with
  | some turnId => saidTexts (bridgeBefore before turnId)
  | none => []

theorem isPreToolCallBridgeItem_call (call : TurnItem.isToolCall item = true) :
    isPreToolCallBridgeItem turnId item = false := by
  unfold TurnItem.isToolCall at call
  split at call
  · rename_i body
    simp [isPreToolCallBridgeItem, body]
  · cases call

theorem isPreToolCallBridgeItem_turn (bridge : isPreToolCallBridgeItem turnId item = true) :
    item.turnId = turnId := by
  simp only [isPreToolCallBridgeItem, Bool.and_eq_true, decide_eq_true_eq] at bridge
  exact bridge.1

theorem leadsToToolCall_iff :
    leadsToToolCall turnId items = true ↔ leadTurn items = some turnId := by
  induction items with
  | nil => simp [leadsToToolCall, leadTurn]
  | cons item rest ih =>
    unfold leadsToToolCall leadTurn
    by_cases call : TurnItem.isToolCall item = true
    · simp [isPreToolCallBridgeItem_call call, call]
    · rw [if_neg call, Option.filter_eq_some_iff]
      by_cases bridge : isPreToolCallBridgeItem turnId item = true
      · simp [bridge, ih]
      · simp [bridge, call]

theorem bridgeBefore_cons : bridgeBefore (item :: before) turnId =
      if isPreToolCallBridgeItem turnId item then bridgeBefore before turnId ++ [item] else [] := by
  unfold bridgeBefore
  by_cases bridge : isPreToolCallBridgeItem turnId item = true
  · simp [bridge]
  · simp [bridge]

theorem saidTexts_cons : saidTexts (item :: rest) = (saidText item).toList ++ saidTexts rest := by
  unfold saidTexts
  cases said : saidText item with
  | none => simp [said]
  | some text => simp [said]

theorem saidTexts_append : saidTexts (first ++ second) = saidTexts first ++ saidTexts second := by
  simp [saidTexts]

theorem pendingTexts_lead (other : TurnItem.isToolCall item = false)
    (leads : leadTurn (item :: rest) = some turnId) :
    pendingTexts before (item :: rest) ++ (saidText item).toList = pendingTexts (item :: before) rest := by
  have parts := leads
  rw [leadTurn, if_neg (by simp [other]), Option.filter_eq_some_iff] at parts
  obtain ⟨later, bridge⟩ := parts
  simp only [pendingTexts, leads, later]
  rw [bridgeBefore_cons, if_pos bridge, saidTexts_append, saidTexts_cons]
  simp only [saidTexts, filterMap_nil, append_nil]

theorem pendingTexts_off (other : TurnItem.isToolCall item = false) (off : leadTurn (item :: rest) = none) :
    pendingTexts before (item :: rest) = [] ∧ pendingTexts (item :: before) rest = [] := by
  have parts := off
  rw [leadTurn, if_neg (by simp [other]), Option.filter_eq_none_iff] at parts
  constructor
  · simp only [pendingTexts, off]
  · unfold pendingTexts
    cases later : leadTurn rest with
    | none => rfl
    | some turnId =>
      simp only
      rw [bridgeBefore_cons, if_neg (parts turnId later)]
      rfl

theorem pendingTexts_after_call (first : TurnItem.isToolCall call = true) :
    pendingTexts (call :: before) rest = [] := by
  unfold pendingTexts
  cases leadTurn rest with
  | none => rfl
  | some turnId =>
    simp only
    rw [bridgeBefore_cons, if_neg (by simp [isPreToolCallBridgeItem_call first])]
    rfl

theorem pendingTexts_quiet (other : TurnItem.isToolCall item = false) (quiet : saidText item = none) :
    pendingTexts before (item :: rest) = pendingTexts (item :: before) rest := by
  cases leads : leadTurn (item :: rest) with
  | none =>
    obtain ⟨first, second⟩ := @pendingTexts_off item before rest other leads
    rw [first, second]
  | some turnId =>
    rw [← pendingTexts_lead other leads, quiet, Option.toList_none, append_nil]

theorem leadTurn_bridge (bridge : isBridgeItemBeforeToolCall item rest = true) :
    TurnItem.isToolCall item = false ∧ leadTurn (item :: rest) = some item.turnId := by
  unfold isBridgeItemBeforeToolCall at bridge
  have kind : TurnItem.isToolCall item = false ∧ isPreToolCallBridgeItem item.turnId item = true := by
    split at bridge
    · rename_i body
      simp [TurnItem.isToolCall, isPreToolCallBridgeItem, body]
    · rename_i body
      simp [TurnItem.isToolCall, isPreToolCallBridgeItem, body]
    · cases bridge
  have leads : leadsToToolCall item.turnId rest = true := by
    split at bridge
    · exact bridge
    · exact bridge
    · cases bridge
  refine ⟨kind.1, ?_⟩
  rw [leadTurn, if_neg (by simp [kind.1]), Option.filter_eq_some_iff]
  exact ⟨leadsToToolCall_iff.mp leads, kind.2⟩

theorem leadTurn_text (body : item.body = .assistantText text)
    (bridge : ¬isBridgeItemBeforeToolCall item rest = true) : leadTurn (item :: rest) = none := by
  simp only [isBridgeItemBeforeToolCall, body, leadsToToolCall_iff] at bridge
  rw [leadTurn, if_neg (by simp [TurnItem.isToolCall, body]), Option.filter_eq_none_iff]
  intro turnId later pre
  rw [← isPreToolCallBridgeItem_turn pre] at later
  exact bridge later

theorem saidText_call (call : TurnItem.isToolCall item = true) : saidText item = none := by
  unfold TurnItem.isToolCall at call
  split at call
  · rename_i body
    simp [saidText, body]
  · cases call

theorem saidText_result (result : TurnItem.isToolResult item = true) : saidText item = none := by
  unfold TurnItem.isToolResult at result
  split at result
  · rename_i body
    simp [saidText, body]
  · cases result

theorem saidTexts_silent (silent : ∀ item ∈ items, saidText item = none) :
    saidTexts items = [] := by
  rw [saidTexts, filterMap_eq_nil_iff]
  exact silent

theorem saidText_bridge (bridge : isToolResultBridgeItem item turnId true = true) :
    saidText item = none := by
  unfold saidText
  split
  · rename_i body
    simp [isToolResultBridgeItem, body] at bridge
  · rfl

theorem scanResults_quiet {expected : List String} (items : List TurnItem) :
    ∀ {seen : List String}, (scanResults turnId expected seen true items).texts = [] ∧
      ∀ item ∈ (scanResults turnId expected seen true items).stretch, saidText item = none := by
  induction items with
  | nil => simp [scanResults]
  | cons item rest ih =>
    intro seen
    unfold scanResults
    split
    · rename_i result
      split
      · obtain ⟨none, quiet⟩ := @ih (TurnItem.callId item :: seen)
        exact ⟨none, forall_mem_cons.mpr ⟨saidText_result result, quiet⟩⟩
      · obtain ⟨none, quiet⟩ := @ih seen
        exact ⟨none, forall_mem_cons.mpr ⟨saidText_result result, quiet⟩⟩
    · split
      · rename_i bridge
        obtain ⟨none, quiet⟩ := @ih seen
        rw [if_pos rfl]
        exact ⟨none, forall_mem_cons.mpr ⟨saidText_bridge bridge, quiet⟩⟩
      · exact ⟨rfl, fun item held => absurd held not_mem_nil⟩

/-- The texts of a scan are those of its stretch. A stretch with a result has it after its
last text. -/
theorem scanResults_texts {expected : List String} (items : List TurnItem) :
    (scanResults turnId expected [] false items).texts =
        saidTexts (scanResults turnId expected [] false items).stretch ∧
      ((scanResults turnId expected [] false items).results ≠ [] →
        ∃ front result back, (scanResults turnId expected [] false items).stretch =
          front ++ result :: back ∧ TurnItem.isToolResult result = true ∧
          ∀ item ∈ back, saidText item = none) := by
  induction items with
  | nil => simp [scanResults, saidTexts]
  | cons item rest ih =>
    unfold scanResults
    split
    · rename_i result
      have quiet : ∀ seen, (scanResults turnId expected seen true rest).texts =
            saidTexts (item :: (scanResults turnId expected seen true rest).stretch) ∧
          ∃ front result back, item :: (scanResults turnId expected seen true rest).stretch =
            front ++ result :: back ∧ TurnItem.isToolResult result = true ∧
            ∀ item ∈ back, saidText item = none := by
        intro seen
        obtain ⟨none, silent⟩ := @scanResults_quiet turnId expected rest seen
        constructor
        · rw [none, saidTexts_cons, saidText_result result, saidTexts_silent silent]
          rfl
        · exact ⟨[], item, _, rfl, result, silent⟩
      split
      all_goals exact ⟨(quiet _).1, fun _ => (quiet _).2⟩
    · split
      · rw [if_neg (by simp)]
        obtain ⟨texts, later⟩ := ih
        constructor
        · rw [saidTexts_cons, ← texts]
        · intro some
          obtain ⟨front, result, back, whole, isResult, silent⟩ := later some
          exact ⟨item :: front, result, back, by rw [whole, cons_append], isResult, silent⟩
      · exact ⟨rfl, fun some => absurd rfl some⟩

theorem mem_takeWhile_stop (stops : p stop = false)
    (held : item ∈ (front ++ stop :: back).takeWhile p) : item ∈ front := by
  induction front with
  | nil => simp [stops] at held
  | cons first rest ih =>
    rw [cons_append] at held
    by_cases passes : p first = true
    · rw [takeWhile_cons_of_pos passes] at held
      rcases mem_cons.mp held with rfl | held
      · exact mem_cons_self
      · exact mem_cons_of_mem _ (ih held)
    · simp [passes] at held

theorem pendingTexts_after_stretch (isResult : TurnItem.isToolResult result = true)
    (silent : ∀ item ∈ back, saidText item = none) :
    pendingTexts ((front ++ result :: back).reverse ++ before) rest = [] := by
  unfold pendingTexts
  cases leadTurn rest with
  | none => rfl
  | some turnId =>
    simp only
    apply saidTexts_silent
    intro item held
    have stop : isPreToolCallBridgeItem turnId result = false := by
      unfold TurnItem.isToolResult at isResult
      split at isResult
      · rename_i body
        simp [isPreToolCallBridgeItem, body]
      · cases isResult
    rw [bridgeBefore, mem_reverse, reverse_append, reverse_cons, append_assoc,
      append_assoc, singleton_append] at held
    exact silent item (mem_reverse.mp (mem_takeWhile_stop stop held))

theorem lostTexts_other (other : TurnItem.isToolCall item = false) :
    lostTexts inBlock before (item :: rest) = lostTexts false (item :: before) rest := by
  rw [lostTexts]
  simp [other]

theorem lostTexts_stretch (others : ∀ item ∈ stretch, TurnItem.isToolCall item = false) :
    lostTexts false before (stretch ++ rest) = lostTexts false (stretch.reverse ++ before) rest := by
  induction stretch generalizing before with
  | nil => rfl
  | cons item later ih =>
    rw [cons_append, lostTexts_other (others item mem_cons_self),
      ih (fun other held => others other (mem_cons_of_mem _ held)), reverse_cons,
      append_assoc]
    rfl

theorem lostTexts_block (all : ∀ call ∈ calls, TurnItem.isToolCall call = true) :
    lostTexts true before (calls ++ rest) = lostTexts true (calls.reverse ++ before) rest := by
  induction calls generalizing before with
  | nil => rfl
  | cons call later ih =>
    have first : TurnItem.isToolCall call = true := all call mem_cons_self
    rw [cons_append, lostTexts]
    simp only [first, Bool.not_true, Bool.and_false, Bool.false_eq_true, ↓reduceIte, Bool.and_true]
    rw [ih (fun other held => all other (mem_cons_of_mem _ held)), reverse_cons, append_assoc]
    rfl

theorem lostTexts_first (filled : stretch ≠ [])
    (others : ∀ item ∈ stretch, TurnItem.isToolCall item = false) :
    lostTexts true before (stretch ++ rest) = lostTexts false before (stretch ++ rest) := by
  cases stretch with
  | nil => exact absurd rfl filled
  | cons item later =>
    have other := others item mem_cons_self
    rw [cons_append, lostTexts_other other, lostTexts_other other]

/-- The items that an answered block takes up lose nothing, and no text waits behind them. -/
theorem answered_extent (answered : isAnswered call rest = true) :
    let more := (rest.takeWhile TurnItem.isToolCall).length + (scanBlock call rest).stretch.length
    let passed := (rest.take more).reverse ++ call :: before
    saidTexts rest = (scanBlock call rest).texts ++ saidTexts (rest.drop more) ∧
      lostTexts true (call :: before) rest = lostTexts false passed (rest.drop more) ∧
      pendingTexts passed (rest.drop more) = [] := by
  intro more passed
  obtain ⟨texts, later⟩ := @scanResults_texts call.turnId
    ((callBlock call rest).map TurnItem.callId) (rest.dropWhile TurnItem.isToolCall)
  obtain ⟨others, -⟩ := @scanResults_stretch call.turnId
    ((callBlock call rest).map TurnItem.callId) (rest.dropWhile TurnItem.isToolCall) [] false
  have some : (scanBlock call rest).results ≠ [] := by
    intro none
    have first := all_eq_true.mp answered (TurnItem.callId call) (by simp [callBlock])
    simp [none] at first
  obtain ⟨front, result, back, whole, isResult, silent⟩ := later some
  have whole : (scanBlock call rest).stretch = front ++ result :: back := whole
  have texts : (scanBlock call rest).texts = saidTexts (scanBlock call rest).stretch := texts
  have others : ∀ item ∈ (scanBlock call rest).stretch, TurnItem.isToolCall item = false := others
  have calls : ∀ item ∈ rest.takeWhile TurnItem.isToolCall, TurnItem.isToolCall item = true :=
    fun item held => mem_takeWhile_imp held
  have extent := block_extent call rest
  have taken : rest.take more = rest.takeWhile TurnItem.isToolCall ++ (scanBlock call rest).stretch := by
    conv_lhs =>
      arg 2
      rw [extent]
    rw [← append_assoc, take_left' (by rw [length_append])]
  have passed_eq : passed = (scanBlock call rest).stretch.reverse ++
      ((rest.takeWhile TurnItem.isToolCall).reverse ++ call :: before) := by
    simp only [passed]
    rw [taken, reverse_append, append_assoc]
  refine ⟨?_, ?_, ?_⟩
  · conv_lhs => rw [extent]
    rw [saidTexts_append, saidTexts_append, texts,
      saidTexts_silent fun item held => saidText_call (calls item held)]
    rfl
  · conv_lhs => rw [extent]
    have filled : (scanBlock call rest).stretch ≠ [] := by
      rw [whole]
      exact append_ne_nil_of_right_ne_nil _ (cons_ne_nil _ _)
    rw [lostTexts_block calls, lostTexts_first filled others, lostTexts_stretch others, passed_eq]
  · rw [passed_eq, whole]
    exact pendingTexts_after_stretch isResult silent

theorem says_nothing (role : message.role ≠ .assistant) : Says message [] :=
  ⟨.inr ⟨rfl, fun assistant => absurd assistant role⟩, fun _ held => absurd held not_mem_nil⟩

/-- An assistant message with the text of an item says it, if the text is not blank. -/
theorem says_text (body : item.body = .assistantText text) (role : message.role = .assistant)
    (content : message.content = some (.text text)) : Says message (saidText item).toList := by
  simp only [saidText, body]
  by_cases blank : isBlank text = true
  · rw [if_pos blank]
    constructor
    · right
      refine ⟨rfl, fun _ => ?_⟩
      rw [content]
      exact weight_blank blank
    · exact fun _ held => absurd held not_mem_nil
  · rw [if_neg blank]
    constructor
    · left
      exact ⟨role, by rw [content]; simp⟩
    · intro said held
      rw [Option.toList_some, mem_singleton] at held
      rw [held]
      simpa using blank

theorem saidTexts_said : ∀ text ∈ saidTexts items, isBlank text = false := by
  intro text held
  obtain ⟨item, -, said⟩ := mem_filterMap.mp held
  unfold saidText at said
  split at said
  · split at said
    · cases said
    · rename_i blank
      cases said
      simpa using blank
  · cases said

theorem blockTexts_said : ∀ text ∈ blockTexts before call rest, isBlank text = false := by
  intro text held
  rcases mem_append.mp held with inside | inside
  · exact saidTexts_said text inside
  · rw [scanBlock, scanResults_texts _ |>.1] at inside
    exact saidTexts_said text inside

/-- A step says the texts of its block, and is sent if all its calls have an id. -/
theorem block_delivered {results later : List ChatMessage} (first : TurnItem.isToolCall call = true)
    (role : message.role = .assistant)
    (content : message.content = some (.text (String.intercalate "\n" (blockTexts before call rest))))
    (wire : message.toolCalls = (callBlock call rest).map toolCallToWire)
    (answers : Answers message.toolCalls results) (formed : WellFormed later)
    (delivered : Delivered (healToolMessagePairs later) texts lost) :
    Delivered (healToolMessagePairs (message :: (results ++ later)))
      (blockTexts before call rest ++ texts)
      ((if (callBlock call rest).all fun call => TurnItem.callId call ≠ "" then []
        else blockTexts before call rest) ++ lost) := by
  have calls : callsTools message = true := by simp [callsTools, role, wire, callBlock]
  have named : allNamed message.toolCalls =
      (callBlock call rest).all fun call => TurnItem.callId call ≠ "" := by
    rw [allNamed, wire, all_map, Bool.eq_iff_iff, all_eq_true, all_eq_true]
    refine forall₂_congr fun item held => ?_
    rw [Function.comp_apply, toolCallToWire_id (callBlock_calls first item held)]
  rw [heal_step calls answers formed, named]
  split
  · apply Delivered.cons
    · exact ⟨.inl ⟨role, content⟩, blockTexts_said⟩
    · apply Delivered.silent
      · intro result held
        have tool := answers.tools result held
        simp only [isToolMessage, decide_eq_true_eq] at tool
        exact says_nothing (by rw [tool]; decide)
      · exact delivered
  · exact delivered.lose _

theorem reasonedText_spec (bridge : ¬isBridgeItemBeforeToolCall item rest = true)
    (reasoned : reasonedText item rest = some message) :
    ∃ next later, rest = next :: later ∧ TurnItem.isToolCall item = false ∧
      TurnItem.isToolCall next = false ∧ saidText item = none ∧
      Says message (saidText next).toList ∧ pendingTexts before (item :: next :: later) = [] ∧
      pendingTexts (next :: item :: before) later = [] := by
  unfold reasonedText at reasoned
  split at reasoned
  · rename_i reasoning signature next later body
    split at reasoned
    · rename_i text nextBody
      split at reasoned
      · rename_i same
        cases reasoned
        have notCall : TurnItem.isToolCall item = false := by simp [TurnItem.isToolCall, body]
        have nextNotCall : TurnItem.isToolCall next = false := by simp [TurnItem.isToolCall, nextBody]
        simp only [isBridgeItemBeforeToolCall, body, leadsToToolCall_iff] at bridge
        have off : leadTurn (item :: next :: later) = none := by
          rw [leadTurn, if_neg (by simp [notCall]), Option.filter_eq_none_iff]
          intro turnId leads pre
          rw [← isPreToolCallBridgeItem_turn pre] at leads
          exact bridge leads
        have nextOff : leadTurn (next :: later) = none := by
          rw [leadTurn, if_neg (by simp [nextNotCall]), Option.filter_eq_none_iff]
          intro turnId leads pre
          apply bridge
          rw [leadTurn, if_neg (by simp [nextNotCall]), Option.filter_eq_some_iff, ← same,
            isPreToolCallBridgeItem_turn pre]
          exact ⟨leads, pre⟩
        exact ⟨next, later, rfl, notCall, nextNotCall, by simp [saidText, body],
          says_text nextBody rfl rfl, (pendingTexts_off notCall off).1,
          (pendingTexts_off nextNotCall nextOff).2⟩
      · cases reasoned
    · cases reasoned
  · cases reasoned

/-- The message of an item that stands for itself says the item's text. -/
theorem itemToMessage_speaks (call : TurnItem.isToolCall item = false)
    (found : itemToMessage thinkingMode item = some message) :
    Says message (saidText item).toList := by
  unfold itemToMessage at found
  split at found
  · rename_i body
    cases found
    rw [show saidText item = none by simp [saidText, body]]
    exact says_nothing (by simp)
  · rename_i body
    cases found
    exact says_text body rfl rfl
  · cases found
  · rename_i body
    simp [TurnItem.isToolCall, body] at call
  · rename_i body
    cases found
    rw [saidText_result (by simp [TurnItem.isToolResult, body])]
    exact says_nothing (by simp [toolResultToMessage, body])
  · rename_i body
    split at found
    · cases found
      rw [show saidText item = none by simp [saidText, body]]
      exact says_nothing (by simp)
    · cases found
  · rename_i body
    split at found
    · cases found
      rw [show saidText item = none by simp [saidText, body]]
      exact says_nothing (by simp)
    · cases found
  all_goals cases found

theorem itemToMessage_none (silent : itemToMessage thinkingMode item = none) :
    saidText item = none := by
  unfold itemToMessage at silent
  unfold saidText
  split
  · rename_i body
    simp [body] at silent
  · rfl

theorem pendingTexts_own (call : TurnItem.isToolCall item = false)
    (bridge : ¬isBridgeItemBeforeToolCall item rest = true) :
    pendingTexts before (item :: rest) ++ (saidText item).toList =
      (saidText item).toList ++ pendingTexts (item :: before) rest := by
  cases said : saidText item with
  | none =>
    rw [pendingTexts_quiet call said]
    simp
  | some text =>
    unfold saidText at said
    split at said
    · rename_i body
      obtain ⟨first, second⟩ := @pendingTexts_off item before rest call (leadTurn_text body bridge)
      rw [first, second]
      simp
    · cases said

/-- What the healed messages of a history say: the texts that wait and those of the items,
save the lost ones. -/
theorem items_delivered (thinkingMode : Bool) (before items : List TurnItem)
    (distinct : DistinctCalls items) :
    Delivered (healToolMessagePairs (itemsToMessages thinkingMode before items))
      (pendingTexts before items ++ saidTexts items) (lostTexts false before items) := by
  induction before, items using itemsToMessages.induct thinkingMode with
  | case1 before =>
    rw [itemsToMessages, healToolMessagePairs]
    exact .nil
  | case2 before item rest bridge ih =>
    obtain ⟨other, leads⟩ := leadTurn_bridge bridge
    rw [itemsToMessages, if_pos bridge, saidTexts_cons, ← append_assoc,
      pendingTexts_lead other leads, lostTexts_other other]
    exact ih distinct.tail
  | case3 before item rest bridge reasoning message reasoned ih =>
    obtain ⟨next, later, rfl, other, nextOther, quiet, saying, none, noneLater⟩ :=
      reasonedText_spec bridge reasoned
    obtain ⟨notTool, noCalls⟩ := reasonedText_plain message reasoned
    have delivered := ih (distinct.tail.drop 1)
    rw [itemsToMessages, if_neg bridge, if_pos reasoning, reasoned, heal_plain notTool noCalls, none,
      saidTexts_cons, quiet, saidTexts_cons, lostTexts_other other, lostTexts_other nextOther]
    simp only [take_one, drop_one, head?_cons, Option.toList_some,
      reverse_singleton, singleton_append, tail_cons, Option.toList_none,
      nil_append, noneLater] at delivered ⊢
    exact Delivered.cons saying delivered
  | case4 before item rest bridge reasoning reasoned ih =>
    have kind : TurnItem.isToolCall item = false ∧ saidText item = none := by
      simp only [Bool.and_eq_true, TurnItem.isReasoning] at reasoning
      obtain ⟨-, reasoning⟩ := reasoning
      split at reasoning
      · rename_i body
        simp [TurnItem.isToolCall, saidText, body]
      · cases reasoning
    rw [itemsToMessages, if_neg bridge, if_pos reasoning, reasoned, pendingTexts_quiet kind.1 kind.2,
      saidTexts_cons, kind.2, lostTexts_other kind.1]
    exact ih distinct.tail
  | case5 before item rest bridge reasoning call messages more block ih =>
    have formed := itemsToMessages_wellFormed thinkingMode ((rest.take more).reverse ++ item :: before)
      (rest.drop more) (distinct.tail.drop _)
    have delivered := ih (distinct.tail.drop _)
    rw [itemsToMessages, if_neg bridge, if_neg reasoning, if_pos call, block]
    unfold toolCallBlockToMessages at block
    simp only [Option.ite_none_right_eq_some, Option.some.injEq, Prod.mk.injEq] at block
    obtain ⟨answered, rfl, rfl⟩ := block
    obtain ⟨texts, lost, none⟩ := @answered_extent item before rest answered
    rw [none, nil_append] at delivered
    have waiting : pendingTexts before (item :: rest) = saidTexts (bridgeBefore before item.turnId) := by
      rw [pendingTexts, leadTurn, if_pos call]
    have whole : pendingTexts before (item :: rest) ++ saidTexts (item :: rest) =
        blockTexts before item rest ++ saidTexts (rest.drop ((rest.takeWhile TurnItem.isToolCall).length +
          (scanBlock item rest).stretch.length)) := by
      rw [waiting, saidTexts_cons, saidText_call call, texts, blockTexts, append_assoc]
      rfl
    rw [whole, lostTexts]
    simp only [call, Bool.not_false, Bool.and_true, ↓reduceIte, answered]
    rw [lost]
    exact block_delivered call rfl rfl rfl (block_answers call (distinct.block call) answered) formed
      delivered
  | case6 before item rest bridge reasoning call block ih =>
    have unanswered : isAnswered item rest = false := by
      unfold toolCallBlockToMessages at block
      simpa using block
    have delivered := ih distinct.tail
    rw [pendingTexts_after_call call, nil_append] at delivered
    rw [itemsToMessages, if_neg bridge, if_neg reasoning, if_pos call, block, saidTexts_cons,
      saidText_call call, pendingTexts, leadTurn, if_pos call, lostTexts]
    simp only [call, Bool.not_false, Bool.and_true, ↓reduceIte, unanswered, Bool.false_eq_true]
    exact delivered.lose _
  | case7 before item rest bridge reasoning call result ih =>
    have other : TurnItem.isToolCall item = false := by simpa using call
    rw [itemsToMessages, if_neg bridge, if_neg reasoning, if_neg call, if_pos result,
      pendingTexts_quiet other (saidText_result result), saidTexts_cons, saidText_result result,
      lostTexts_other other]
    exact ih distinct.tail
  | case8 before item rest bridge reasoning call result ih =>
    have other : TurnItem.isToolCall item = false := by simpa using call
    have delivered := ih distinct.tail
    rw [itemsToMessages, if_neg bridge, if_neg reasoning, if_neg call, if_neg result, saidTexts_cons,
      ← append_assoc, pendingTexts_own other bridge, append_assoc, lostTexts_other other]
    cases found : itemToMessage thinkingMode item with
    | none =>
      rw [itemToMessage_none found]
      exact delivered
    | some message =>
      obtain ⟨notTool, noCalls⟩ := itemToMessage_plain other (by simpa using result) message found
      rw [Option.toList_some, singleton_append, heal_plain notTool noCalls]
      exact Delivered.cons (itemToMessage_speaks other found) delivered

/-- What a message says and answers. -/
def voice (message : ChatMessage) :
    (MessageRole × List WireToolCall × Option String) × Option MessageContent :=
  (shape message, if message.role = .assistant then message.content else none)

theorem Says.of_voice (saying : Says left said) (same : voice right = voice left) :
    Says right said := by
  simp only [voice, shape, Prod.mk.injEq] at same
  obtain ⟨⟨role, -, -⟩, content⟩ := same
  rw [role] at content
  obtain ⟨carries, nonblank⟩ := saying
  refine ⟨?_, nonblank⟩
  rcases carries with ⟨assistant, joined⟩ | ⟨nothing, silent⟩
  · rw [if_pos assistant, if_pos assistant] at content
    exact .inl ⟨role.trans assistant, content.trans joined⟩
  · refine .inr ⟨nothing, fun assistant => ?_⟩
    rw [role] at assistant
    rw [if_pos assistant, if_pos assistant] at content
    rw [content]
    exact silent assistant

theorem Delivered.of_voice {before after : List ChatMessage}
    (delivered : Delivered before texts lost) (same : after.map voice = before.map voice) :
    Delivered after texts lost := by
  obtain ⟨groups, all, front, whole⟩ := delivered
  refine ⟨groups, ?_, front, whole⟩
  clear front whole
  induction all generalizing after with
  | nil =>
    rw [map_eq_nil_iff.mp same]
    exact .nil
  | cons saying all ih =>
    obtain ⟨message, rest, rfl, head, tail⟩ := map_eq_cons_iff.mp same
    exact .cons (saying.of_voice head) (ih tail)

theorem updateLatestUserMessage_voice :
    (updateLatestUserMessage change messages).map voice = messages.map voice := by
  induction messages with
  | nil => rfl
  | cons message rest ih =>
    unfold updateLatestUserMessage
    split
    · rename_i latest
      simp [voice, shape, latest.1]
    · simp only [map_cons, ih]

theorem attachAll_voice (request : ModelRequest) :
    (attachAll request messages).map voice = messages.map voice := by
  unfold attachAll
  simp only
  split <;> split <;> simp only [updateLatestUserMessage_voice]

theorem shapes_of_voices {before after : List ChatMessage}
    (same : after.map voice = before.map voice) : after.map shape = before.map shape := by
  have projected := congrArg (List.map Prod.fst) same
  rw [map_map, map_map] at projected
  exact projected

theorem heal_voice {before : List ChatMessage} (formed : WellFormed before) :
    ∀ {after : List ChatMessage}, after.map voice = before.map voice →
      (healToolMessagePairs after).map voice = (healToolMessagePairs before).map voice := by
  induction formed with
  | nil =>
    intro after same
    rw [map_eq_nil_iff.mp same]
  | plain notTool noCalls later ih =>
    intro after same
    obtain ⟨message, rest, rfl, head, tail⟩ := map_eq_cons_iff.mp same
    obtain ⟨tool, calls, -, -⟩ := shape_parts (Prod.mk.inj head).1
    rw [heal_plain notTool noCalls, heal_plain (tool.trans notTool) (calls.trans noCalls),
      map_cons, map_cons, head, ih tail]
  | step calls answers later ih =>
    intro after same
    obtain ⟨message, others, rfl, head, tail⟩ := map_eq_cons_iff.mp same
    rw [map_append] at tail
    obtain ⟨results, rest, rfl, sameResults, sameRest⟩ := map_eq_append_iff.mp tail
    obtain ⟨-, sameCalls, wire, -⟩ := shape_parts (Prod.mk.inj head).1
    have sameAnswers := answers.of_shape (shapes_of_voices sameResults)
    rw [heal_step calls answers later, heal_step (sameCalls.trans calls) (wire ▸ sameAnswers)
      (later.of_shape (shapes_of_voices sameRest)), wire]
    split
    · rw [map_cons, map_cons, map_append, map_append, head, sameResults, ih sameRest]
    · exact ih sameRest

theorem normalizeThinkingMessage_speaks (saying : Says message said) :
    Says (normalizeThinkingMessage message) said := by
  unfold normalizeThinkingMessage
  split
  · rename_i assistant
    obtain ⟨carries, nonblank⟩ := saying
    refine ⟨?_, nonblank⟩
    rcases carries with ⟨-, joined⟩ | ⟨nothing, silent⟩
    · exact .inl ⟨assistant, by rw [joined]; rfl⟩
    · refine .inr ⟨nothing, fun _ => ?_⟩
      cases content : message.content with
      | none => exact weight_blank (by decide)
      | some content' =>
        rw [← silent assistant, content]
        rfl
  · exact saying

/-- A placeholder stands only where nothing is said. -/
theorem sanitizeMessage_speaks (saying : Says message said) :
    Says (sanitizeMessage requiresAssistantContent message) said := by
  unfold sanitizeMessage
  split
  · rename_i empty
    obtain ⟨carries, nonblank⟩ := saying
    have nothing : said = [] := by
      rcases carries with ⟨-, joined⟩ | ⟨nothing, -⟩
      · rw [joined] at empty
        cases said with
        | nil => rfl
        | cons text rest =>
          have filled : isBlank (String.intercalate "\n" (text :: rest)) = false :=
            joined_not_blank mem_cons_self (nonblank text mem_cons_self)
          simp only [isEmptyContent, filled, Bool.false_eq_true] at empty
      · exact nothing
    rw [nothing]
    rcases message with ⟨role, content, _, _, _, _⟩
    cases role with
    | system | user | tool => exact says_nothing (by simp)
    | assistant =>
      refine ⟨.inr ⟨rfl, fun _ => ?_⟩, fun _ held => absurd held not_mem_nil⟩
      have placeholder : weight emptyContentPlaceholder = 0 := by decide
      cases requiresAssistantContent
      · rfl
      · exact placeholder
  · exact saying

theorem instructions_silent (request : ModelRequest) :
    ∀ message ∈ instructionMessages request, Says message [] := by
  intro message held
  obtain ⟨text, -, rfl⟩ := mem_map.mp held
  exact says_nothing (by simp [systemMessage])

theorem heal_instructions :
    healToolMessagePairs (instructionMessages request) = instructionMessages request := by
  unfold instructionMessages
  generalize (_ ++ _ : List String) = texts
  induction texts with
  | nil => rw [map_nil, healToolMessagePairs]
  | cons text rest ih =>
    rw [map_cons, heal_plain rfl rfl, ih]

theorem ensureUserMessagePresent_delivered (delivered : Delivered messages texts lost) :
    Delivered (ensureUserMessagePresent messages) texts lost := by
  unfold ensureUserMessagePresent
  split
  · exact delivered
  · exact delivered.push (says_nothing (by simp))

theorem collectMessages_delivered :
    Delivered (collectMessages profile historyLimit endpointFormat includeReasoning request)
      (saidTexts (repairedItems historyLimit request))
      (lostTexts false [] (repairedItems historyLimit request)) := by
  have distinct := repairedItems_distinct historyLimit request
  have sent : ∀ thinkingMode, Delivered (sanitizeEmptyMessageContent
      profile.requiresAssistantContentForToolCalls (normalizeThinkingAssistantMessages thinkingMode
        (healToolMessagePairs (attachAll request (instructionMessages request ++
          itemsToMessages thinkingMode [] (repairedItems historyLimit request))))))
      (saidTexts (repairedItems historyLimit request))
      (lostTexts false [] (repairedItems historyLimit request)) := by
    intro thinkingMode
    have formed := itemsToMessages_wellFormed thinkingMode [] _ distinct
    have waiting : pendingTexts [] (repairedItems historyLimit request) = [] := by
      unfold pendingTexts
      cases leadTurn (repairedItems historyLimit request) <;> rfl
    have said := items_delivered thinkingMode [] _ distinct
    rw [waiting, nil_append] at said
    have collected := said.silent (instructions_silent request)
    rw [← heal_instructions, ← heal_append (instructions_wellFormed request) formed] at collected
    have healed := collected.of_voice (heal_voice ((instructions_wellFormed request).append formed)
      (attachAll_voice request))
    have normalized : Delivered (normalizeThinkingAssistantMessages thinkingMode
        (healToolMessagePairs (attachAll request (instructionMessages request ++
          itemsToMessages thinkingMode [] (repairedItems historyLimit request)))))
        (saidTexts (repairedItems historyLimit request))
        (lostTexts false [] (repairedItems historyLimit request)) := by
      unfold normalizeThinkingAssistantMessages
      split
      · exact healed.map normalizeThinkingMessage_speaks
      · exact healed
    exact normalized.map sanitizeMessage_speaks
  unfold collectMessages
  cases endpointFormat
  · exact ensureUserMessagePresent_delivered (sent _)
  · exact ensureUserMessagePresent_delivered (sent _)
  · exact sent _

/-- Calls and results are always paired. The texts of the repaired history are all said, each
by one assistant message and in order, exactly if no text belongs to calls that are not sent. -/
theorem collected_texts_said_iff (profile : ProviderProfile) (historyLimit : Nat)
    (endpointFormat : ModelEndpointFormat) (includeReasoning : Bool) (request : ModelRequest) :
    WellFormed (collectMessages profile historyLimit endpointFormat includeReasoning request) ∧
      (CarriesTexts (collectMessages profile historyLimit endpointFormat includeReasoning request)
          (saidTexts (repairedItems historyLimit request)) ↔
        ∀ text ∈ lostTexts false [] (repairedItems historyLimit request), isSpoken text = false) :=
  ⟨collectMessages_wellFormed profile historyLimit endpointFormat includeReasoning request,
    collectMessages_delivered.carries_iff⟩

/-- A text of one turn, calls of two turns side by side, a text of the other turn and one
result: the repair keeps the second call, but its result is out of its reach. -/
def twoTurnsHistory : List TurnItem :=
  let item (id turnId : String) (body : ItemBody) : TurnItem :=
    { id, turnId, status := .completed, body }
  [item "i1" "t2" (.assistantText "I will look it up."),
    item "i2" "t1" (.toolCall "read" "c1" "\x7b\x7d" none),
    item "i3" "t2" (.toolCall "grep" "c2" "\x7b\x7d" none),
    item "i4" "t1" (.assistantText "Done."),
    item "i5" "t2" (.toolResult "grep" "c2" "three matches" false)]

/-- The first text is kept in the repaired history and said by no message. -/
theorem text_before_unsent_call_lost : let request : ModelRequest := { history := twoTurnsHistory }
    let profile : ProviderProfile := ⟨false, false, false⟩
    saidTexts (repairedItems 0 request) = ["I will look it up.", "Done."] ∧
      ¬CarriesTexts (collectMessages profile 0 .chatCompletions true request)
        (saidTexts (repairedItems 0 request)) := by
  intro request profile
  refine ⟨by decide +kernel, ?_⟩
  rw [collectMessages_delivered.carries_iff]
  decide +kernel

end QiongQi.SpokenTexts
