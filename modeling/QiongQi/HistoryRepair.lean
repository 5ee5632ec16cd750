import Mathlib.Data.List.Infix
import Mathlib.Data.List.TakeWhile
import QiongQi.TurnItems

/-! `repairModelHistoryItems`: of a stored history, the tool calls that have a result near
by and those results are kept, and everything that is neither. -/
namespace QiongQi.HistoryRepair
open TurnItems

def TurnItem.isToolCall (item : TurnItem) : Bool :=
  match item.body with
  | .toolCall .. => true
  | _ => false

def TurnItem.isToolResult (item : TurnItem) : Bool :=
  match item.body with
  | .toolResult .. => true
  | _ => false

/-- The id that ties a tool call to its result. -/
def TurnItem.callId (item : TurnItem) : String :=
  match item.body with
  | .toolCall _ callId _ _ => callId
  | .toolResult _ callId _ _ => callId
  | _ => ""

/-- An item that may stand between a block of tool calls and their results. -/
def isToolResultBridgeItem (item : TurnItem) (turnId : String) (sawResult : Bool) : Bool :=
  match item.body with
  | .assistantReasoning .. | .approval .. | .userInput .. | .runtimeProgress .. | .error .. => true
  | .assistantText .. => !sawResult && item.turnId = turnId
  | .userMessage .. | .toolCall .. | .toolResult .. | .compaction .. | .review .. => false

/-- The ids that are answered and the indexes of the items that answer them. -/
def findResultBlock (turnId : String) (expectedCallIds : List String) :
    (seenResultIds : List String) → (sawResult : Bool) → (index : Nat) → List TurnItem →
      List String × List Nat
  | seenResultIds, _, _, [] => (seenResultIds, [])
  | seenResultIds, sawResult, index, item :: rest =>
    if TurnItem.isToolResult item then
      if TurnItem.callId item ∈ expectedCallIds ∧ TurnItem.callId item ∉ seenResultIds then
        let later := findResultBlock turnId expectedCallIds (TurnItem.callId item :: seenResultIds) true
          (index + 1) rest
        (later.1, index :: later.2)
      else findResultBlock turnId expectedCallIds seenResultIds true (index + 1) rest
    else if isToolResultBridgeItem item turnId sawResult then
      findResultBlock turnId expectedCallIds seenResultIds sawResult (index + 1) rest
    else (seenResultIds, [])

/-- The first call of each id. -/
def firstCalls : (seenCallIds : List String) → List TurnItem → List TurnItem
  | _, [] => []
  | seenCallIds, call :: rest =>
    if TurnItem.callId call ∈ seenCallIds then firstCalls seenCallIds rest
    else call :: firstCalls (TurnItem.callId call :: seenCallIds) rest

/-- The history from an index on, where `keptResultIndexes` holds the results that the
blocks before have claimed. -/
def repairFrom (index : Nat) (keptResultIndexes : List Nat) : List TurnItem → List TurnItem
  | [] => []
  | item :: rest =>
    if TurnItem.isToolCall item then
      let block := item :: rest.takeWhile TurnItem.isToolCall
      let calls := firstCalls [] block
      let cursor := index + block.length
      let after := rest.dropWhile TurnItem.isToolCall
      let result := findResultBlock item.turnId (calls.map TurnItem.callId) [] false cursor after
      (calls.filter fun call => TurnItem.callId call ∈ result.1) ++
        repairFrom cursor (keptResultIndexes ++ result.2) after
    else if TurnItem.isToolResult item then
      if index ∈ keptResultIndexes then item :: repairFrom (index + 1) keptResultIndexes rest
      else repairFrom (index + 1) keptResultIndexes rest
    else item :: repairFrom (index + 1) keptResultIndexes rest
  termination_by items => items.length
  decreasing_by
    · exact Nat.lt_succ_of_le (List.length_dropWhile_le _ _)
    · exact Nat.lt_succ_self _
    · exact Nat.lt_succ_self _
    · exact Nat.lt_succ_self _

def repairModelHistoryItems (items : List TurnItem) : List TurnItem := repairFrom 0 [] items

variable {item : TurnItem} {rest : List TurnItem}

theorem isToolCall_of_result (result : TurnItem.isToolResult item = true) :
    TurnItem.isToolCall item = false := by
  unfold TurnItem.isToolResult at result
  unfold TurnItem.isToolCall
  split at result
  · rename_i body
    rw [body]
  · cases result

theorem isToolCall_of_bridge (bridge : isToolResultBridgeItem item turnId sawResult = true) :
    TurnItem.isToolCall item = false := by
  unfold TurnItem.isToolCall
  split
  · rename_i body
    simp [isToolResultBridgeItem, body] at bridge
  · rfl

/-- The items before the next tool call. -/
def beforeNextCall (items : List TurnItem) : List TurnItem :=
  items.takeWhile fun item => !TurnItem.isToolCall item

theorem beforeNextCall_cons (other : TurnItem.isToolCall item = false) :
    beforeNextCall (item :: rest) = item :: beforeNextCall rest := by
  simp [beforeNextCall, other]

/-- Adjacent tool calls have different ids, and a result before the next block of them. -/
inductive Repaired : List TurnItem → Prop where
  | nil : Repaired []
  | pass {item : TurnItem} {rest : List TurnItem} (other : TurnItem.isToolCall item = false)
      (later : Repaired rest) : Repaired (item :: rest)
  | block {calls rest : List TurnItem} (all : ∀ call ∈ calls, TurnItem.isToolCall call = true)
      (distinct : (calls.map TurnItem.callId).Nodup)
      (answered : ∃ result ∈ beforeNextCall rest, TurnItem.isToolResult result = true)
      (later : Repaired rest) : Repaired (calls ++ rest)

theorem repairFrom_call (call : TurnItem.isToolCall item = true) :
    repairFrom index kept (item :: rest) = let block := item :: rest.takeWhile TurnItem.isToolCall
      let calls := firstCalls [] block
      let cursor := index + block.length
      let after := rest.dropWhile TurnItem.isToolCall
      let result := findResultBlock item.turnId (calls.map TurnItem.callId) [] false cursor after
      (calls.filter fun call => TurnItem.callId call ∈ result.1) ++
        repairFrom cursor (kept ++ result.2) after := by
  rw [repairFrom, if_pos call]

theorem repairFrom_result (result : TurnItem.isToolResult item = true) :
    repairFrom index kept (item :: rest) = if index ∈ kept then item :: repairFrom (index + 1) kept rest
      else repairFrom (index + 1) kept rest := by
  rw [repairFrom, if_neg (by simp [isToolCall_of_result result]), if_pos result]

theorem repairFrom_other (call : TurnItem.isToolCall item = false)
    (result : TurnItem.isToolResult item = false) :
    repairFrom index kept (item :: rest) = item :: repairFrom (index + 1) kept rest := by
  rw [repairFrom, if_neg (by simp [call]), if_neg (by simp [result])]

/-- The calls that are kept once each are calls of the block, one for each id. -/
theorem firstCalls_spec (block : List TurnItem) :
    ∀ {seen : List String}, (∀ call ∈ firstCalls seen block, call ∈ block ∧ TurnItem.callId call ∉ seen) ∧
      ((firstCalls seen block).map TurnItem.callId).Nodup := by
  induction block with
  | nil => simp [firstCalls]
  | cons call rest ih =>
    intro seen
    unfold firstCalls
    by_cases known : TurnItem.callId call ∈ seen
    · rw [if_pos known]
      obtain ⟨members, distinct⟩ := @ih seen
      constructor
      · intro other held
        exact ⟨List.mem_cons_of_mem _ (members other held).1, (members other held).2⟩
      · exact distinct
    · rw [if_neg known]
      obtain ⟨members, distinct⟩ := @ih (TurnItem.callId call :: seen)
      constructor
      · intro other held
        rcases List.mem_cons.mp held with rfl | held
        · exact ⟨List.mem_cons_self, known⟩
        · obtain ⟨inside, apart⟩ := members other held
          exact ⟨List.mem_cons_of_mem _ inside, fun seen => apart (List.mem_cons_of_mem _ seen)⟩
      · simp only [List.map_cons, List.nodup_cons, List.mem_map, not_exists, not_and]
        constructor
        · intro other held same
          exact (members other held).2 (by simp [same])
        · exact distinct

theorem findResultBlock_claims : ∀ {seen : List String} {sawResult : Bool} {index : Nat},
      (findResultBlock turnId expected seen sawResult index items).2 = [] →
      (findResultBlock turnId expected seen sawResult index items).1 = seen := by
  induction items with
  | nil => exact fun _ => rfl
  | cons item rest ih =>
    intro seen sawResult index none
    unfold findResultBlock at none ⊢
    split at none
    · rename_i result
      rw [if_pos result]
      split at none
      · cases none
      · rename_i known
        rw [if_neg known]
        exact ih none
    · rename_i result
      rw [if_neg result]
      split at none
      · rename_i bridge
        rw [if_pos bridge]
        exact ih none
      · rename_i ends
        rw [if_neg ends]

/-- A claimed result is kept, and it stands before the next tool call. -/
theorem claimed_result_kept :
    ∀ {seen : List String} {sawResult : Bool} {index : Nat} {kept : List Nat},
      (findResultBlock turnId expected seen sawResult index items).2 ≠ [] →
      (∀ claimed ∈ (findResultBlock turnId expected seen sawResult index items).2, claimed ∈ kept) →
      ∃ result ∈ beforeNextCall (repairFrom index kept items), TurnItem.isToolResult result = true := by
  induction items with
  | nil =>
    intro seen sawResult index kept some _
    exact absurd rfl some
  | cons item rest ih =>
    intro seen sawResult index kept some claims
    unfold findResultBlock at some claims
    by_cases result : TurnItem.isToolResult item = true
    · rw [if_pos result] at some claims
      by_cases fresh : TurnItem.callId item ∈ expected ∧ TurnItem.callId item ∉ seen
      · rw [if_pos fresh] at claims
        have here : index ∈ kept := claims index (by simp)
        rw [repairFrom_result result, if_pos here, beforeNextCall_cons (isToolCall_of_result result)]
        exact ⟨item, List.mem_cons_self, result⟩
      · rw [if_neg fresh] at some claims
        obtain ⟨answer, held, isResult⟩ := ih some claims
        rw [repairFrom_result result]
        split
        · rw [beforeNextCall_cons (isToolCall_of_result result)]
          exact ⟨answer, List.mem_cons_of_mem _ held, isResult⟩
        · exact ⟨answer, held, isResult⟩
    · rw [if_neg result] at some claims
      by_cases bridge : isToolResultBridgeItem item turnId sawResult = true
      · rw [if_pos bridge] at some claims
        obtain ⟨answer, held, isResult⟩ := ih some claims
        rw [repairFrom_other (isToolCall_of_bridge bridge) (by simpa using result),
          beforeNextCall_cons (isToolCall_of_bridge bridge)]
        exact ⟨answer, List.mem_cons_of_mem _ held, isResult⟩
      · rw [if_neg bridge] at some
        exact absurd rfl some

/-- The calls of a block that are kept are answered before the next block. -/
theorem repaired_block (call : TurnItem.isToolCall item = true)
    (later : ∀ cursor kept, Repaired (repairFrom cursor kept (rest.dropWhile TurnItem.isToolCall))) :
    Repaired (repairFrom index kept (item :: rest)) := by
  rw [repairFrom_call call]
  simp only
  generalize result : findResultBlock item.turnId
    ((firstCalls [] (item :: rest.takeWhile TurnItem.isToolCall)).map TurnItem.callId) [] false
    (index + (item :: rest.takeWhile TurnItem.isToolCall).length)
    (rest.dropWhile TurnItem.isToolCall) = found
  by_cases claimed : found.2 = []
  · have nothing : found.1 = [] := by
      rw [← result] at claimed ⊢
      exact findResultBlock_claims claimed
    simp only [nothing, List.not_mem_nil, decide_false, List.filter_false, List.nil_append]
    exact later _ _
  · obtain ⟨members, distinct⟩ :=
      @firstCalls_spec (item :: rest.takeWhile TurnItem.isToolCall) []
    apply Repaired.block
    · intro other held
      rcases List.mem_cons.mp (members other (List.mem_filter.mp held).1).1 with rfl | inside
      · exact call
      · exact List.mem_takeWhile_imp inside
    · exact distinct.sublist (List.filter_sublist.map _)
    · apply claimed_result_kept
      · rw [result]
        exact claimed
      · rw [result]
        exact fun _ held => List.mem_append_right _ held
    · exact later _ _

theorem repairFrom_repaired :
    ∀ {items : List TurnItem}, items.length ≤ length → ∀ (index : Nat) (kept : List Nat),
      Repaired (repairFrom index kept items) := by
  induction length with
  | zero =>
    intro items short index kept
    have empty : items = [] := List.length_eq_zero_iff.mp (Nat.le_zero.mp short)
    rw [empty, repairFrom]
    exact .nil
  | succ length ih =>
    intro items short index kept
    cases items with
    | nil =>
      rw [repairFrom]
      exact .nil
    | cons item rest =>
      have shorter : rest.length ≤ length := Nat.le_of_succ_le_succ short
      by_cases call : TurnItem.isToolCall item = true
      · apply repaired_block call
        exact ih ((List.length_dropWhile_le _ _).trans shorter)
      · by_cases result : TurnItem.isToolResult item = true
        · rw [repairFrom_result result]
          split
          · exact .pass (isToolCall_of_result result) (ih shorter _ _)
          · exact ih shorter _ _
        · rw [repairFrom_other (by simpa using call) (by simpa using result)]
          exact .pass (by simpa using call) (ih shorter _ _)

theorem repairModelHistoryItems_repaired (items : List TurnItem) :
    Repaired (repairModelHistoryItems items) :=
  repairFrom_repaired (le_refl _) 0 []

theorem starts_with_other
    (answered : ∃ result ∈ beforeNextCall items, TurnItem.isToolResult result = true) :
    items.takeWhile TurnItem.isToolCall = [] := by
  obtain ⟨result, held, -⟩ := answered
  cases items with
  | nil => rfl
  | cons item rest =>
    by_cases call : TurnItem.isToolCall item = true
    · simp [beforeNextCall, call] at held
    · simp [call]

theorem Repaired.distinct_calls (repaired : Repaired items) :
    ∀ {front back : List TurnItem}, items = front ++ back →
      ((back.takeWhile TurnItem.isToolCall).map TurnItem.callId).Nodup := by
  induction repaired with
  | nil =>
    intro front back split
    obtain ⟨-, rfl⟩ := List.append_eq_nil_iff.mp split.symm
    simp
  | @pass item rest other later ih =>
    intro front back split
    cases front with
    | nil =>
      cases split
      simp [other]
    | cons head front =>
      cases split
      exact ih rfl
  | @block calls rest all distinct answered later ih =>
    intro front back split
    rcases List.append_eq_append_iff.mp split with ⟨middle, -, rest_split⟩ | ⟨middle, calls_split, rfl⟩
    · exact ih rest_split
    · have stops : (middle ++ rest).takeWhile TurnItem.isToolCall = middle := by
        have others : ∀ call ∈ middle, TurnItem.isToolCall call = true := fun call held =>
          all call (calls_split ▸ List.mem_append_right _ held)
        rw [List.takeWhile_append_of_pos others, starts_with_other answered, List.append_nil]
      rw [stops]
      exact distinct.sublist ((calls_split ▸ List.sublist_append_right front middle).map _)

end QiongQi.HistoryRepair
