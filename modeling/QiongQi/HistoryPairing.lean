import QiongQi.HistoryRepair

/-! How well `repairModelHistoryItems` pairs the tool calls of a history with their results. The
repair of a block of calls is read here without the indexes of the items: what the search for
results reads behind the block, what it keeps of that, and the repair of what is left. -/
namespace QiongQi.HistoryPairing
open HistoryRepair TurnItems List

def isAssistantText (item : TurnItem) : Bool :=
  match item.body with
  | .assistantText .. => true
  | _ => false

/-- Neither a tool call nor a tool result. -/
def isPlain (item : TurnItem) : Bool := !TurnItem.isToolCall item && !TurnItem.isToolResult item

def resultIds (items : List TurnItem) : List String :=
  (items.filter TurnItem.isToolResult).map TurnItem.callId

variable {item first : TurnItem} {turnId : String} {sawResult : Bool} {expected seen : List String}
variable {items rest between block front back after others : List TurnItem}

theorem resultIds_result (result : TurnItem.isToolResult item = true) :
    resultIds (item :: rest) = TurnItem.callId item :: resultIds rest := by
  simp [resultIds, result]

theorem resultIds_other (other : ¬ TurnItem.isToolResult item = true) :
    resultIds (item :: rest) = resultIds rest := by
  simp [resultIds, other]

/-- Results, and between them items that may stand there behind calls of the turn. -/
def Bridged (turnId : String) : (sawResult : Bool) → List TurnItem → Prop
  | _, [] => True
  | sawResult, item :: rest =>
    (TurnItem.isToolResult item = true ∧ Bridged turnId true rest) ∨
      (isToolResultBridgeItem item turnId sawResult = true ∧ Bridged turnId sawResult rest)

/-- Every block of calls has one result for each of its calls behind it, before anything else but
bridge items, and there are no other results. -/
inductive Paired : List TurnItem → Prop where
  | nil : Paired []
  | pass {item : TurnItem} {rest : List TurnItem} (plain_ : isPlain item = true)
      (later : Paired rest) : Paired (item :: rest)
  | block {call : TurnItem} {calls between rest : List TurnItem}
      (all : ∀ other ∈ call :: calls, TurnItem.isToolCall other = true)
      (distinct : ((call :: calls).map TurnItem.callId).Nodup)
      (bridged : Bridged call.turnId false between)
      (answers : (resultIds between).Perm ((call :: calls).map TurnItem.callId))
      (later : Paired rest) : Paired (call :: calls ++ (between ++ rest))

structure WellRepaired (items repaired : List TurnItem) : Prop where
  subsequence : repaired.Sublist items
  plainKept : repaired.filter isPlain = items.filter isPlain
  paired : Paired repaired
  again : repairModelHistoryItems repaired = repaired

/-- What the search for results reads. -/
def answerStretch (turnId : String) : (sawResult : Bool) → List TurnItem → List TurnItem
  | _, [] => []
  | sawResult, item :: rest =>
    if TurnItem.isToolResult item then item :: answerStretch turnId true rest
    else if isToolResultBridgeItem item turnId sawResult then
      item :: answerStretch turnId sawResult rest
    else []

/-- What is kept of it: the first result of each expected call, and every other item. -/
def keptAnswers (expected : List String) : (seen : List String) → List TurnItem → List TurnItem
  | _, [] => []
  | seen, item :: rest =>
    if TurnItem.isToolResult item then
      if TurnItem.callId item ∈ expected ∧ TurnItem.callId item ∉ seen then
        item :: keptAnswers expected (TurnItem.callId item :: seen) rest
      else keptAnswers expected seen rest
    else item :: keptAnswers expected seen rest

/-- What is left behind it. -/
def behindStretch (turnId : String) (after : List TurnItem) : List TurnItem :=
  after.drop (answerStretch turnId false after).length

example : answerStretch turnId false [] = keptAnswers [] [] [] := by
  rw [answerStretch, keptAnswers]

theorem plain_of_bridge (bridge : isToolResultBridgeItem item turnId sawResult = true) :
    isPlain item = true := by
  rw [isPlain, isToolCall_of_bridge bridge]
  unfold TurnItem.isToolResult
  split
  · next body => simp [isToolResultBridgeItem, body] at bridge
  · rfl

theorem plain_parts (plain_ : isPlain item = true) :
    TurnItem.isToolCall item = false ∧ TurnItem.isToolResult item = false := by
  simpa [isPlain] using plain_

theorem answerStretch_starts (sawResult : Bool) :
    answerStretch turnId sawResult items <+: items := by
  induction items generalizing sawResult with
  | nil => exact nil_prefix
  | cons item rest ih =>
    rw [answerStretch]
    split
    · exact prefix_cons_inj item |>.mpr (ih true)
    · split
      · exact prefix_cons_inj item |>.mpr (ih sawResult)
      · exact nil_prefix

theorem stretch_append (turnId : String) (items : List TurnItem) :
    answerStretch turnId false items ++ behindStretch turnId items = items :=
  prefix_iff_eq_append.mp (answerStretch_starts false)

theorem answerStretch_bridged (turnId : String) (sawResult : Bool) (items : List TurnItem) :
    Bridged turnId sawResult (answerStretch turnId sawResult items) := by
  induction items generalizing sawResult with
  | nil => trivial
  | cons item rest ih =>
    rw [answerStretch]
    split
    · next result => exact .inl ⟨result, ih true⟩
    · split
      · next bridge => exact .inr ⟨bridge, ih sawResult⟩
      · trivial

theorem findResultBlock_range
    (held : claimed ∈ (findResultBlock turnId expected seen sawResult index items).2) :
    index ≤ claimed ∧ claimed < index + (answerStretch turnId sawResult items).length := by
  induction items generalizing seen sawResult index with
  | nil => cases held
  | cons item rest ih =>
    rw [findResultBlock] at held
    rw [answerStretch]
    split at held
    · next result =>
      rw [if_pos result, length_cons]
      split at held
      · rcases mem_cons.mp held with rfl | later
        · omega
        · have range := ih later
          omega
      · have range := ih held
        omega
    · next other =>
      rw [if_neg other]
      split at held
      · next bridge =>
        have range := ih held
        rw [if_pos bridge, length_cons]
        omega
      · cases held

theorem repairFrom_stretch (claims : ∀ i, index ≤ i →
      (i ∈ kept ↔ i ∈ (findResultBlock turnId expected seen sawResult index items).2)) :
    repairFrom index kept items = keptAnswers expected seen (answerStretch turnId sawResult items) ++
        repairFrom (index + (answerStretch turnId sawResult items).length) kept
          (items.drop (answerStretch turnId sawResult items).length) := by
  induction items generalizing seen sawResult index with
  | nil => rfl
  | cons item rest ih =>
    rw [findResultBlock] at claims
    rw [answerStretch]
    by_cases result : TurnItem.isToolResult item = true
    · rw [if_pos result] at claims ⊢
      rw [repairFrom_result result, keptAnswers, if_pos result, length_cons,
        drop_succ_cons, ← Nat.add_assoc, Nat.add_right_comm]
      by_cases fresh : TurnItem.callId item ∈ expected ∧ TurnItem.callId item ∉ seen
      · rw [if_pos fresh] at claims ⊢
        rw [if_pos ((claims index le_rfl).mpr mem_cons_self), cons_append, ih]
        intro i later
        rw [claims i (by omega), mem_cons, or_iff_right (by omega)]
      · rw [if_neg fresh] at claims ⊢
        have unclaimed : index ∉ kept := by
          intro held
          have range := findResultBlock_range ((claims index le_rfl).mp held)
          omega
        rw [if_neg unclaimed, ih]
        exact fun i later => claims i (by omega)
    · rw [if_neg result] at claims ⊢
      by_cases bridge : isToolResultBridgeItem item turnId sawResult = true
      · rw [if_pos bridge] at claims ⊢
        rw [repairFrom_other (isToolCall_of_bridge bridge) (by simpa using result), keptAnswers,
          if_neg result, length_cons, drop_succ_cons, ← Nat.add_assoc,
          Nat.add_right_comm, cons_append, ih]
        exact fun i later => claims i (by omega)
      · rw [if_neg bridge]
        rfl

/-- The ids that the search answers are those of the results that are kept. -/
theorem findResultBlock_ids :
    callId ∈ (findResultBlock turnId expected seen sawResult index items).1 ↔ callId ∈ seen ∨
        callId ∈ resultIds (keptAnswers expected seen (answerStretch turnId sawResult items)) := by
  induction items generalizing seen sawResult index with
  | nil => simp [findResultBlock, answerStretch, keptAnswers, resultIds]
  | cons item rest ih =>
    rw [findResultBlock, answerStretch]
    by_cases result : TurnItem.isToolResult item = true
    · rw [if_pos result, if_pos result, keptAnswers, if_pos result]
      split
      · rw [ih, resultIds_result result]
        simp only [mem_cons, or_assoc, or_comm]
      · exact ih
    · rw [if_neg result, if_neg result]
      split
      · rw [keptAnswers, if_neg result, resultIds_other result]
        exact ih
      · simp [keptAnswers, resultIds]

theorem keptAnswers_ids : callId ∈ resultIds (keptAnswers expected seen items) ↔
      callId ∈ expected ∧ callId ∉ seen ∧ callId ∈ resultIds items := by
  induction items generalizing seen with
  | nil => simp [keptAnswers, resultIds]
  | cons item rest ih =>
    rw [keptAnswers]
    by_cases result : TurnItem.isToolResult item = true
    · rw [if_pos result, resultIds_result result, mem_cons]
      split
      · next fresh =>
        rw [resultIds_result result, mem_cons, ih, mem_cons]
        constructor
        · rintro (rfl | ⟨wanted, apart, later⟩)
          · exact ⟨fresh.1, fresh.2, .inl rfl⟩
          · exact ⟨wanted, fun held => apart (.inr held), .inr later⟩
        · rintro ⟨wanted, apart, same | later⟩
          · exact .inl same
          · by_cases same : callId = TurnItem.callId item
            · exact .inl same
            · exact .inr ⟨wanted, by simp [same, apart], later⟩
      · next stale =>
        rw [ih]
        constructor
        · rintro ⟨wanted, apart, later⟩
          exact ⟨wanted, apart, .inr later⟩
        · rintro ⟨wanted, apart, rfl | later⟩
          · exact absurd ⟨wanted, apart⟩ stale
          · exact ⟨wanted, apart, later⟩
    · rw [if_neg result, resultIds_other result, resultIds_other result, ih]

theorem keptAnswers_nodup : (resultIds (keptAnswers expected seen items)).Nodup := by
  induction items generalizing seen with
  | nil => exact nodup_nil
  | cons item rest ih =>
    rw [keptAnswers]
    by_cases result : TurnItem.isToolResult item = true
    · rw [if_pos result]
      split
      · rw [resultIds_result result]
        refine nodup_cons.mpr ⟨fun held => ?_, ih⟩
        exact (keptAnswers_ids.mp held).2.1 mem_cons_self
      · exact ih
    · rw [if_neg result, resultIds_other result]
      exact ih

theorem keptAnswers_sublist : (keptAnswers expected seen items).Sublist items := by
  induction items generalizing seen with
  | nil => exact List.Sublist.slnil
  | cons item rest ih =>
    rw [keptAnswers]
    split
    · split
      · exact ih.cons_cons item
      · exact ih.cons item
    · exact ih.cons_cons item

theorem keptAnswers_plain :
    (keptAnswers expected seen items).filter isPlain = items.filter isPlain := by
  induction items generalizing seen with
  | nil => rfl
  | cons item rest ih =>
    rw [keptAnswers]
    by_cases result : TurnItem.isToolResult item = true
    · have other : ¬ isPlain item = true := by simp [isPlain, result]
      rw [if_pos result, filter_cons_of_neg other]
      split
      · rw [filter_cons_of_neg other, ih]
      · exact ih
    · rw [if_neg result, filter_cons, filter_cons, ih]

theorem findResultBlock_shift :
    findResultBlock turnId expected seen sawResult (index + distance) items =
      ((findResultBlock turnId expected seen sawResult index items).1,
        (findResultBlock turnId expected seen sawResult index items).2.map (· + distance)) := by
  induction items generalizing seen sawResult index with
  | nil => rfl
  | cons item rest ih =>
    rw [findResultBlock, findResultBlock, Nat.add_right_comm]
    split
    · split
      · rw [ih]
        rfl
      · exact ih
    · split
      · exact ih
      · rfl

/-- What comes of a history depends on the claimed indexes that are not behind. -/
theorem repairFrom_congr (same : ∀ i, index + i ∈ kept ↔ other + i ∈ claimed) :
    repairFrom index kept items = repairFrom other claimed items := by
  induction size : items.length using Nat.strong_induction_on
    generalizing index other kept claimed items with
  | h size_ ih =>
    cases items with
    | nil => rw [repairFrom, repairFrom]
    | cons item rest =>
      rw [length_cons] at size
      have ahead : ∀ i, index + 1 + i ∈ kept ↔ other + 1 + i ∈ claimed := by
        intro i
        rw [Nat.add_assoc, Nat.add_assoc]
        exact same (1 + i)
      by_cases call : TurnItem.isToolCall item = true
      · have read : ∀ expected cursor, findResultBlock item.turnId expected [] false cursor
                (rest.dropWhile TurnItem.isToolCall) =
              ((findResultBlock item.turnId expected [] false 0
                  (rest.dropWhile TurnItem.isToolCall)).1,
                (findResultBlock item.turnId expected [] false 0
                  (rest.dropWhile TurnItem.isToolCall)).2.map (· + cursor)) := by
          intro expected cursor
          rw [← findResultBlock_shift, Nat.zero_add]
        have shorter := length_dropWhile_le TurnItem.isToolCall rest
        rw [repairFrom_call call, repairFrom_call call]
        simp only
        rw [read _ (index + _), read _ (other + _)]
        congr 1
        refine ih _ (by omega) (fun i => ?_) rfl
        simp only [mem_append, mem_map]
        refine or_congr ?_ (exists_congr fun claim => and_congr_right fun _ => by omega)
        rw [Nat.add_assoc, Nat.add_assoc]
        exact same _
      · by_cases result : TurnItem.isToolResult item = true
        · rw [repairFrom_result result, repairFrom_result result]
          have here : index ∈ kept ↔ other ∈ claimed := same 0
          rw [ih rest.length (by omega) ahead rfl]
          simp only [here]
        · rw [repairFrom_other (by simpa using call) (by simpa using result),
            repairFrom_other (by simpa using call) (by simpa using result),
            ih rest.length (by omega) ahead rfl]

/-- The calls of a block that are kept: the first of each id that has a result. -/
def keptCalls (block after : List TurnItem) (turnId : String) : List TurnItem :=
  (firstCalls [] block).filter fun call =>
    TurnItem.callId call ∈ resultIds (answerStretch turnId false after)

theorem repair_call (call : TurnItem.isToolCall item = true) :
    repairModelHistoryItems (item :: rest) =
      keptCalls (item :: rest.takeWhile TurnItem.isToolCall) (rest.dropWhile TurnItem.isToolCall)
          item.turnId ++
        (keptAnswers ((firstCalls [] (item :: rest.takeWhile TurnItem.isToolCall)).map
            TurnItem.callId) []
          (answerStretch item.turnId false (rest.dropWhile TurnItem.isToolCall)) ++
          repairModelHistoryItems
            (behindStretch item.turnId (rest.dropWhile TurnItem.isToolCall))) := by
  rw [repairModelHistoryItems, repairFrom_call call]
  simp only [nil_append]
  congr 1
  · refine filter_congr fun other held => ?_
    rw [decide_eq_decide, findResultBlock_ids, keptAnswers_ids]
    simp [mem_map_of_mem held]
  · rw [repairFrom_stretch fun _ _ => Iff.rfl]
    congr 1
    refine repairFrom_congr fun i => ?_
    constructor
    · intro held
      have range := findResultBlock_range held
      omega
    · exact fun held => absurd held (not_mem_nil)

theorem repair_result (result : TurnItem.isToolResult item = true) :
    repairModelHistoryItems (item :: rest) = repairModelHistoryItems rest := by
  rw [repairModelHistoryItems, repairFrom_result result, if_neg not_mem_nil]
  exact repairFrom_congr fun i => by simp

theorem repair_plain (plain_ : isPlain item = true) :
    repairModelHistoryItems (item :: rest) = item :: repairModelHistoryItems rest := by
  obtain ⟨call, result⟩ := plain_parts plain_
  rw [repairModelHistoryItems, repairFrom_other call result]
  exact congrArg _ (repairFrom_congr fun i => by simp)

theorem repair_nil : repairModelHistoryItems [] = [] := by
  rw [repairModelHistoryItems, repairFrom]

/-- By the blocks of calls: a block is followed by what the repair finds behind it. -/
@[elab_as_elim]
theorem history_induction {motive : List TurnItem → Prop} (nil : motive [])
    (result : ∀ item rest, TurnItem.isToolResult item = true → motive rest → motive (item :: rest))
    (pass : ∀ item rest, isPlain item = true → motive rest → motive (item :: rest))
    (block : ∀ item rest, TurnItem.isToolCall item = true →
      motive (behindStretch item.turnId (rest.dropWhile TurnItem.isToolCall)) →
      motive (item :: rest)) (items : List TurnItem) : motive items := by
  induction size : items.length using Nat.strong_induction_on generalizing items with
  | h size_ ih =>
    cases items with
    | nil => exact nil
    | cons item rest =>
      rw [length_cons] at size
      by_cases call : TurnItem.isToolCall item = true
      · refine block item rest call (ih _ ?_ _ rfl)
        have shorter := length_dropWhile_le TurnItem.isToolCall rest
        rw [behindStretch, length_drop]
        omega
      · by_cases answer : TurnItem.isToolResult item = true
        · exact result item rest answer (ih _ (by omega) _ rfl)
        · exact pass item rest (by simp [isPlain, call, answer]) (ih _ (by omega) _ rfl)

theorem firstCalls_sublist (seen : List String) (block : List TurnItem) :
    (firstCalls seen block).Sublist block := by
  induction block generalizing seen with
  | nil => exact List.Sublist.slnil
  | cons call rest ih =>
    rw [firstCalls]
    split
    · exact (ih seen).cons call
    · exact (ih _).cons_cons call

theorem keptCalls_sublist (block after : List TurnItem) (turnId : String) :
    (keptCalls block after turnId).Sublist block :=
  filter_sublist.trans (firstCalls_sublist [] block)

theorem block_split (rest : List TurnItem) : (item :: rest.takeWhile TurnItem.isToolCall) ++
      (answerStretch turnId false (rest.dropWhile TurnItem.isToolCall) ++
        behindStretch turnId (rest.dropWhile TurnItem.isToolCall)) = item :: rest := by
  rw [stretch_append, cons_append, takeWhile_append_dropWhile]

theorem block_calls (call : TurnItem.isToolCall item = true) :
    ∀ other ∈ item :: rest.takeWhile TurnItem.isToolCall, TurnItem.isToolCall other = true := by
  intro other held
  rcases mem_cons.mp held with rfl | inside
  · exact call
  · exact mem_takeWhile_imp inside

theorem repair_sublist : (repairModelHistoryItems items).Sublist items := by
  induction items using history_induction with
  | nil =>
    rw [repair_nil]
  | result item rest result ih =>
    rw [repair_result result]
    exact ih.cons item
  | pass item rest plain_ ih =>
    rw [repair_plain plain_]
    exact ih.cons_cons item
  | block item rest call ih =>
    rw [repair_call call, ← block_split rest]
    exact (keptCalls_sublist _ _ _).append (keptAnswers_sublist.append ih)

theorem filter_calls {calls : List TurnItem}
    (all : ∀ call ∈ calls, TurnItem.isToolCall call = true) : calls.filter isPlain = [] :=
  filter_eq_nil_iff.mpr fun call held => by simp [isPlain, all call held]

theorem repair_keeps_plain :
    (repairModelHistoryItems items).filter isPlain = items.filter isPlain := by
  induction items using history_induction with
  | nil => rw [repair_nil]
  | result item rest result ih =>
    rw [repair_result result, ih, filter_cons_of_neg (by simp [isPlain, result])]
  | pass item rest plain_ ih =>
    rw [repair_plain plain_, filter_cons_of_pos plain_, filter_cons_of_pos plain_, ih]
  | block item rest call ih =>
    have calls := @block_calls item rest call
    rw [repair_call call, ← block_split rest]
    simp only [filter_append, keptAnswers_plain, ih, filter_calls calls]
    rw [filter_calls fun other held =>
      calls other ((keptCalls_sublist _ _ _).subset held)]

theorem Bridged.not_call (bridged : Bridged turnId sawResult items) :
    ∀ item ∈ items, TurnItem.isToolCall item = false := by
  induction items generalizing sawResult with
  | nil => exact fun _ held => nomatch held
  | cons item rest ih =>
    intro other held
    rcases mem_cons.mp held with rfl | inside
    · rcases bridged with ⟨result, -⟩ | ⟨bridge, -⟩
      · exact isToolCall_of_result result
      · exact isToolCall_of_bridge bridge
    · rcases bridged with ⟨-, later⟩ | ⟨-, later⟩
      all_goals exact ih later other inside

theorem answerStretch_append (bridged : Bridged turnId sawResult between) :
    answerStretch turnId sawResult (between ++ rest) = between ++
      answerStretch turnId (sawResult || between.any TurnItem.isToolResult) rest := by
  induction between generalizing sawResult with
  | nil => simp
  | cons item others ih =>
    rw [cons_append, answerStretch]
    rcases bridged with ⟨result, later⟩ | ⟨bridge, later⟩
    · rw [if_pos result, ih later]
      simp [result]
    · have other := (plain_parts (plain_of_bridge bridge)).2
      rw [if_neg (by simp [other]), if_pos bridge, ih later]
      simp [other]

/-- Before the next call of a paired history there is no result. -/
theorem Paired.stretch_plain (paired : Paired items) (turnId : String) (sawResult : Bool) :
    ∀ item ∈ answerStretch turnId sawResult items, isPlain item = true := by
  induction paired with
  | nil => exact fun _ held => nomatch held
  | pass plain_ later ih =>
    rw [answerStretch, if_neg (by simp [(plain_parts plain_).2])]
    split
    · exact forall_mem_cons.mpr ⟨plain_, ih⟩
    · exact fun _ held => nomatch held
  | @block call calls between rest all distinct bridged answers later ih =>
    have here := all call mem_cons_self
    have result : ¬ TurnItem.isToolResult call = true := fun result => by
      rw [isToolCall_of_result result] at here
      cases here
    have bridge : ¬ isToolResultBridgeItem call turnId sawResult = true := fun bridge => by
      rw [isToolCall_of_bridge bridge] at here
      cases here
    rw [cons_append, answerStretch, if_neg result, if_neg bridge]
    exact fun _ held => nomatch held

theorem firstCalls_distinct (distinct : (block.map TurnItem.callId).Nodup)
    (apart : ∀ call ∈ block, TurnItem.callId call ∉ seen) : firstCalls seen block = block := by
  induction block generalizing seen with
  | nil => rfl
  | cons call rest ih =>
    obtain ⟨new, others⟩ := nodup_cons.mp distinct
    rw [firstCalls, if_neg (apart call mem_cons_self), ih others]
    intro other held known
    rcases mem_cons.mp known with same | known
    · exact new (same ▸ mem_map_of_mem held)
    · exact apart other (mem_cons_of_mem _ held) known

theorem keptAnswers_all (wanted : ∀ id ∈ resultIds items, id ∈ expected ∧ id ∉ seen)
    (distinct : (resultIds items).Nodup) : keptAnswers expected seen items = items := by
  induction items generalizing seen with
  | nil => rfl
  | cons item rest ih =>
    rw [keptAnswers]
    by_cases result : TurnItem.isToolResult item = true
    · rw [resultIds_result result] at wanted distinct
      obtain ⟨new, others⟩ := nodup_cons.mp distinct
      obtain ⟨here, later⟩ := forall_mem_cons.mp wanted
      rw [if_pos result, if_pos here, ih _ others]
      intro id held
      refine ⟨(later id held).1, fun known => ?_⟩
      rcases mem_cons.mp known with rfl | known
      · exact new held
      · exact (later id held).2 known
    · rw [resultIds_other result] at wanted distinct
      rw [if_neg result, ih wanted distinct]

theorem resultIds_append : resultIds (front ++ back) = resultIds front ++ resultIds back := by
  rw [resultIds, filter_append, map_append]
  rfl

theorem resultIds_plain (plain_ : ∀ item ∈ items, isPlain item = true) : resultIds items = [] := by
  rw [resultIds, filter_eq_nil_iff.mpr, map_nil]
  intro item held
  simp [(plain_parts (plain_ item held)).2]

theorem repair_plain_append (plain_ : ∀ item ∈ front, isPlain item = true) :
    repairModelHistoryItems (front ++ back) = front ++ repairModelHistoryItems back := by
  induction front with
  | nil => rfl
  | cons item rest ih =>
    obtain ⟨here, later⟩ := forall_mem_cons.mp plain_
    rw [cons_append, repair_plain here, ih later, cons_append]

theorem paired_append (plain_ : ∀ item ∈ front, isPlain item = true) (later : Paired back) :
    Paired (front ++ back) := by
  induction front with
  | nil => exact later
  | cons item rest ih =>
    obtain ⟨here, others⟩ := forall_mem_cons.mp plain_
    exact .pass here (ih others)

theorem calls_end (all : ∀ call ∈ calls, TurnItem.isToolCall call = true)
    (bridged : Bridged turnId false between) (some_ : between ≠ []) :
    (calls ++ (between ++ rest)).takeWhile TurnItem.isToolCall = calls ∧
      (calls ++ (between ++ rest)).dropWhile TurnItem.isToolCall = between ++ rest := by
  obtain ⟨item, others, rfl⟩ := exists_cons_of_ne_nil some_
  have stops := bridged.not_call item mem_cons_self
  rw [takeWhile_append_of_pos all, dropWhile_append_of_pos all]
  simp [stops]

theorem repair_paired (paired : Paired items) : repairModelHistoryItems items = items := by
  induction paired with
  | nil => rw [repair_nil]
  | pass plain_ later ih => rw [repair_plain plain_, ih]
  | @block call calls between rest all distinct bridged answers later ih =>
    have some_ : between ≠ [] := by
      rintro rfl
      exact absurd answers.length_eq (by simp [resultIds])
    obtain ⟨here, others⟩ := forall_mem_cons.mp all
    obtain ⟨ends, starts⟩ := calls_end others bridged some_
    -- what the search reads behind the answers holds no result
    obtain ⟨extra, behind, whole, read, plain_⟩ : ∃ extra behind, extra ++ behind = rest ∧
        answerStretch call.turnId false (between ++ rest) = between ++ extra ∧
        ∀ item ∈ extra, isPlain item = true := by
      refine ⟨_, _, prefix_iff_eq_append.mp (answerStretch_starts
        (false || between.any TurnItem.isToolResult)), answerStretch_append bridged, ?_⟩
      exact later.stretch_plain _ _
    have left : behindStretch call.turnId (between ++ rest) = behind := by
      rw [behindStretch, read, ← whole, ← append_assoc, drop_left]
    have fixed : repairModelHistoryItems behind = behind := by
      rw [← whole, repair_plain_append plain_] at ih
      exact append_cancel_left ih
    have ids : resultIds (between ++ extra) = resultIds between := by
      rw [resultIds_append, resultIds_plain plain_, append_nil]
    have first : firstCalls [] (call :: calls) = call :: calls :=
      firstCalls_distinct distinct fun _ _ => not_mem_nil
    have calls_ : keptCalls (call :: calls) (between ++ rest) call.turnId = call :: calls := by
      rw [keptCalls, first, read, ids, filter_eq_self]
      exact fun other held => decide_eq_true (answers.mem_iff.mpr (mem_map_of_mem held))
    have results : keptAnswers ((call :: calls).map TurnItem.callId) [] (between ++ extra)
        = between ++ extra := by
      refine keptAnswers_all ?_ (ids ▸ answers.nodup_iff.mpr distinct)
      exact fun id held => ⟨answers.mem_iff.mp (ids ▸ held), not_mem_nil⟩
    rw [cons_append, repair_call here, ends, starts, calls_, first, read, results, left, fixed,
      append_assoc, whole, cons_append]

/-- The first call of the block that is answered belongs to the turn of the block's first call, or
no text of the model stands behind the block before the first result. -/
def BlockTurn (item : TurnItem) (rest : List TurnItem) : Prop :=
  ∀ first ∈ (item :: rest.takeWhile TurnItem.isToolCall).find? fun call =>
      TurnItem.callId call ∈
        resultIds (answerStretch item.turnId false (rest.dropWhile TurnItem.isToolCall)),
    first.turnId = item.turnId ∨ ∀ between ∈ (rest.dropWhile TurnItem.isToolCall).takeWhile
        (fun other => !TurnItem.isToolResult other), isAssistantText between = false

/-- It is so of every block of calls. -/
def OneTurn : (inBlock : Bool) → List TurnItem → Prop
  | _, [] => True
  | inBlock, item :: rest =>
    (TurnItem.isToolCall item = true → inBlock = false → BlockTurn item rest) ∧
      OneTurn (TurnItem.isToolCall item) rest

theorem oneTurn_other (others : ∀ item ∈ front, TurnItem.isToolCall item = false) :
    OneTurn false (front ++ back) ↔ OneTurn false back := by
  induction front with
  | nil => rfl
  | cons item rest ih =>
    obtain ⟨here, later⟩ := forall_mem_cons.mp others
    rw [cons_append, OneTurn, here, ih later]
    simp

theorem oneTurn_inside :
    OneTurn true rest ↔ OneTurn false (rest.dropWhile TurnItem.isToolCall) := by
  induction rest with
  | nil => exact Iff.rfl
  | cons item rest ih =>
    by_cases call : TurnItem.isToolCall item = true
    · rw [dropWhile_cons_of_pos call, ← ih, OneTurn, call]
      simp
    · rw [dropWhile_cons_of_neg call, OneTurn, OneTurn]
      simp [call]

theorem oneTurn_block (call : TurnItem.isToolCall item = true) :
    OneTurn false (item :: rest) ↔ BlockTurn item rest ∧
      OneTurn false (behindStretch item.turnId (rest.dropWhile TurnItem.isToolCall)) := by
  have others := (answerStretch_bridged item.turnId false
    (rest.dropWhile TurnItem.isToolCall)).not_call
  rw [OneTurn, call, oneTurn_inside]
  nth_rewrite 1 [← stretch_append item.turnId (rest.dropWhile TurnItem.isToolCall)]
  rw [oneTurn_other others]
  simp

theorem text_plain (text : isAssistantText item = true) : isPlain item = true := by
  unfold isAssistantText at text
  unfold isPlain TurnItem.isToolCall TurnItem.isToolResult
  cases body : item.body <;> simp_all

theorem bridge_quiet (bridge : isToolResultBridgeItem item turnId sawResult = true)
    (quiet : isAssistantText item = false) : isToolResultBridgeItem item other saw = true := by
  unfold isToolResultBridgeItem at bridge ⊢
  unfold isAssistantText at quiet
  cases body : item.body <;> simp_all

theorem bridge_text (bridge : isToolResultBridgeItem item turnId sawResult = true)
    (text : isAssistantText item = true) : sawResult = false ∧ item.turnId = turnId := by
  unfold isToolResultBridgeItem at bridge
  unfold isAssistantText at text
  cases body : item.body <;> simp_all

/-- Between the calls of another turn and their results the items of the stretch may stand as
well, when no text of the model is among them. -/
theorem Bridged.other_turn (bridged : Bridged turnId sawResult items)
    (quiet : ∀ item ∈ items, isAssistantText item = false) : Bridged other saw items := by
  induction items generalizing sawResult saw with
  | nil => trivial
  | cons item rest ih =>
    obtain ⟨here, others⟩ := forall_mem_cons.mp quiet
    rcases bridged with ⟨result, later⟩ | ⟨bridge, later⟩
    · exact .inl ⟨result, ih later others⟩
    · exact .inr ⟨bridge_quiet bridge here, ih later others⟩

theorem Bridged.kept {saw : Bool} (bridged : Bridged turnId sawResult items)
    (less : saw = true → sawResult = true) :
    Bridged turnId saw (keptAnswers expected seen items) := by
  induction items generalizing sawResult saw seen with
  | nil => trivial
  | cons item rest ih =>
    rw [keptAnswers]
    rcases bridged with ⟨result, later⟩ | ⟨bridge, later⟩
    · rw [if_pos result]
      split
      · exact .inl ⟨result, ih later fun _ => rfl⟩
      · exact ih later fun _ => rfl
    · rw [if_neg (by simp [(plain_parts (plain_of_bridge bridge)).2])]
      refine .inr ⟨?_, ih later less⟩
      by_cases text : isAssistantText item = true
      · obtain ⟨early, -⟩ := bridge_text bridge text
        have same : saw = sawResult := by cases saw <;> simp_all
        exact same ▸ bridge
      · exact bridge_quiet bridge (by simpa using text)

theorem Bridged.quiet (bridged : Bridged turnId true items) :
    ∀ item ∈ items, isAssistantText item = false := by
  induction items with
  | nil => exact fun _ held => nomatch held
  | cons item rest ih =>
    rcases bridged with ⟨result, later⟩ | ⟨bridge, later⟩
    · refine forall_mem_cons.mpr ⟨?_, ih later⟩
      unfold TurnItem.isToolResult at result
      unfold isAssistantText
      cases body : item.body <;> simp_all
    · refine forall_mem_cons.mpr ⟨?_, ih later⟩
      by_contra text
      exact absurd (bridge_text bridge (by simpa using text)).1 (by simp)

theorem Bridged.texts (bridged : Bridged turnId false items) (held : item ∈ items)
    (text : isAssistantText item = true) :
    item ∈ items.takeWhile (fun other => !TurnItem.isToolResult other) ∧ item.turnId = turnId := by
  induction items with
  | nil => exact nomatch held
  | cons first rest ih =>
    rcases bridged with ⟨result, later⟩ | ⟨bridge, later⟩
    · exfalso
      rcases mem_cons.mp held with rfl | inside
      · unfold TurnItem.isToolResult at result
        unfold isAssistantText at text
        cases body : item.body <;> simp_all
      · exact absurd (later.quiet item inside) (by simp [text])
    · rw [takeWhile_cons_of_pos (by simp [(plain_parts (plain_of_bridge bridge)).2])]
      rcases mem_cons.mp held with rfl | inside
      · exact ⟨mem_cons_self, (bridge_text bridge text).2⟩
      · obtain ⟨early, turn⟩ := ih later inside
        exact ⟨mem_cons_of_mem _ early, turn⟩

theorem firstCalls_find {ids : List String} (apart : ∀ id ∈ ids, id ∉ seen) :
    (firstCalls seen block).find? (fun call => TurnItem.callId call ∈ ids) =
      block.find? fun call => TurnItem.callId call ∈ ids := by
  induction block generalizing seen with
  | nil => rfl
  | cons call rest ih =>
    rw [firstCalls]
    by_cases wanted : TurnItem.callId call ∈ ids
    · rw [if_neg (apart _ wanted)]
      simp [wanted]
    · rw [find?_cons_of_neg (by simpa using wanted)]
      split
      · exact ih apart
      · rw [find?_cons_of_neg (by simpa using wanted)]
        refine ih fun id held known => ?_
        rcases mem_cons.mp known with rfl | known
        · exact wanted held
        · exact apart id held known

theorem keptCalls_head : (keptCalls block after turnId).head? = block.find? fun call =>
      TurnItem.callId call ∈ resultIds (answerStretch turnId false after) := by
  rw [keptCalls, head?_filter, firstCalls_find fun _ _ => not_mem_nil]

theorem keptCalls_distinct (block after : List TurnItem) (turnId : String) :
    ((keptCalls block after turnId).map TurnItem.callId).Nodup :=
  (@firstCalls_spec block []).2.sublist (filter_sublist.map _)

theorem kept_answers : (resultIds (keptAnswers ((firstCalls [] block).map TurnItem.callId) []
        (answerStretch turnId false after))).Perm
      ((keptCalls block after turnId).map TurnItem.callId) := by
  refine (perm_ext_iff_of_nodup keptAnswers_nodup
    (keptCalls_distinct block after turnId)).mpr fun id => ?_
  rw [keptAnswers_ids]
  constructor
  · rintro ⟨wanted, -, answered⟩
    obtain ⟨call, held, rfl⟩ := mem_map.mp wanted
    exact mem_map_of_mem (mem_filter.mpr ⟨held, decide_eq_true answered⟩)
  · intro kept
    obtain ⟨call, held, rfl⟩ := mem_map.mp kept
    obtain ⟨first, answered⟩ := mem_filter.mp held
    exact ⟨mem_map_of_mem first, not_mem_nil, of_decide_eq_true answered⟩

theorem keptAnswers_not_call : ∀ item ∈ keptAnswers expected [] (answerStretch turnId false after),
      TurnItem.isToolCall item = false :=
  fun item held => (answerStretch_bridged turnId false after).not_call item
    (keptAnswers_sublist.subset held)

theorem plain_of_ids (none_ : resultIds items = [])
    (others : ∀ item ∈ items, TurnItem.isToolCall item = false) :
    ∀ item ∈ items, isPlain item = true := by
  intro item held
  have result := filter_eq_nil_iff.mp (map_eq_nil_iff.mp none_) item held
  simp [isPlain, others item held, result]

/-- An item that is not kept ends the stretch wherever the list goes on. -/
theorem takeWhile_stops {front : List α} (stops : ∃ item ∈ front, keep item = false)
    (back : List α) : (front ++ back).takeWhile keep = front.takeWhile keep := by
  induction front with
  | nil => obtain ⟨_, held, _⟩ := stops; cases held
  | cons item rest ih =>
    by_cases here : keep item = true
    · rw [cons_append, takeWhile_cons_of_pos here, takeWhile_cons_of_pos here, ih]
      obtain ⟨other, held, out⟩ := stops
      rcases mem_cons.mp held with rfl | inside
      · rw [here] at out
        cases out
      · exact ⟨other, inside, out⟩
    · rw [cons_append, takeWhile_cons_of_neg here, takeWhile_cons_of_neg here]

theorem mem_takeWhile_append {front : List α} {item : α} (back : List α)
    (held : item ∈ front.takeWhile keep) : item ∈ (front ++ back).takeWhile keep := by
  by_cases stops : ∃ item ∈ front, keep item = false
  · rwa [takeWhile_stops stops]
  · rw [takeWhile_append_of_pos fun other inside => by
      by_contra out
      exact stops ⟨other, inside, by simpa using out⟩]
    exact mem_append_left _ ((List.takeWhile_prefix keep).subset held)

theorem paired_of_oneTurn (one : OneTurn false items) : Paired (repairModelHistoryItems items) := by
  induction items using history_induction with
  | nil =>
    rw [repair_nil]
    exact .nil
  | result item rest result ih =>
    rw [repair_result result]
    have other : ∀ first ∈ [item], TurnItem.isToolCall first = false := by
      simp [isToolCall_of_result result]
    exact ih ((oneTurn_other other).mp one)
  | pass item rest plain_ ih =>
    have other : ∀ first ∈ [item], TurnItem.isToolCall first = false := by
      simp [(plain_parts plain_).1]
    rw [repair_plain plain_]
    exact .pass plain_ (ih ((oneTurn_other other).mp one))
  | block item rest call ih =>
    obtain ⟨turn, later⟩ := (oneTurn_block call).mp one
    have stretch := answerStretch_bridged item.turnId false (rest.dropWhile TurnItem.isToolCall)
    have answers := @kept_answers item.turnId (item :: rest.takeWhile TurnItem.isToolCall)
      (rest.dropWhile TurnItem.isToolCall)
    have head := @keptCalls_head item.turnId (item :: rest.takeWhile TurnItem.isToolCall)
      (rest.dropWhile TurnItem.isToolCall)
    have inside := (keptCalls_sublist (item :: rest.takeWhile TurnItem.isToolCall)
      (rest.dropWhile TurnItem.isToolCall) item.turnId)
    have distinct := keptCalls_distinct (item :: rest.takeWhile TurnItem.isToolCall)
      (rest.dropWhile TurnItem.isToolCall) item.turnId
    rw [repair_call call]
    cases kept : keptCalls (item :: rest.takeWhile TurnItem.isToolCall)
        (rest.dropWhile TurnItem.isToolCall) item.turnId with
    | nil =>
      rw [kept] at answers
      rw [nil_append]
      exact paired_append (plain_of_ids answers.eq_nil keptAnswers_not_call) (ih later)
    | cons first others =>
      rw [kept] at answers head inside distinct
      refine .block (fun other held => block_calls call other (inside.subset held)) distinct ?_
        answers (ih later)
      rcases turn first head.symm with same | quiet
      · exact same ▸ stretch.kept id
      · refine (stretch.kept id).other_turn fun other held => ?_
        by_contra text
        obtain ⟨early, -⟩ := stretch.texts (keptAnswers_sublist.subset held) (by simpa using text)
        have whole := stretch_append item.turnId (rest.dropWhile TurnItem.isToolCall)
        exact text (quiet other (whole ▸ mem_takeWhile_append _ early))

theorem Paired.tail (paired : Paired (item :: rest)) (other : TurnItem.isToolCall item = false) :
    Paired rest := by
  cases paired with
  | pass _ later => exact later
  | block all =>
    rw [all item mem_cons_self] at other
    cases other

theorem Paired.behind (paired : Paired (front ++ back))
    (others : ∀ item ∈ front, TurnItem.isToolCall item = false) : Paired back := by
  induction front with
  | nil => exact paired
  | cons item rest ih =>
    obtain ⟨here, later⟩ := forall_mem_cons.mp others
    exact ih (paired.tail here) later

/-- What stands behind the block of calls with which a paired history starts. -/
theorem Paired.answered {behind : List TurnItem} (paired : Paired (first :: others ++ behind))
    (all : ∀ call ∈ first :: others, TurnItem.isToolCall call = true)
    (ends : behind.takeWhile TurnItem.isToolCall = []) :
    ∃ between rest, behind = between ++ rest ∧ Bridged first.turnId false between ∧
      (resultIds between).Perm ((first :: others).map TurnItem.callId) ∧ Paired rest := by
  have calls : (first :: others ++ behind).takeWhile TurnItem.isToolCall = first :: others := by
    rw [takeWhile_append_of_pos all, ends, append_nil]
  generalize whole : first :: others ++ behind = items at paired calls
  cases paired with
  | nil => cases whole
  | pass plain_ _ =>
    obtain ⟨rfl, -⟩ := List.cons.inj whole
    have call := all first mem_cons_self
    rw [(plain_parts plain_).1] at call
    cases call
  | @block call calls_ between rest blocks distinct bridged answers later =>
    have some_ : between ≠ [] := by
      rintro rfl
      exact absurd answers.length_eq (by simp [resultIds])
    rw [(calls_end blocks bridged some_).1] at calls
    obtain ⟨rfl, rfl⟩ := List.cons.inj calls
    exact ⟨between, rest, append_cancel_left whole, bridged, answers, later⟩

/-- A result of each call that is kept is among the items that are kept behind it. -/
theorem result_of_ids (answers : (resultIds found).Perm ((first :: others).map TurnItem.callId)) :
    ∃ result ∈ found, (!TurnItem.isToolResult result) = false := by
  have listed : TurnItem.callId first ∈ resultIds found :=
    answers.mem_iff.mpr mem_cons_self
  obtain ⟨result, held, -⟩ := mem_map.mp listed
  obtain ⟨among, answer⟩ := mem_filter.mp held
  exact ⟨result, among, by simp [answer]⟩

/-- Two readings of what stands behind a block of calls: that of the repair and the pairing. -/
theorem paired_readings (whole : found ++ behind = between ++ rest)
    (read : Bridged turnId false found) (bridged : Bridged first.turnId false between)
    (answers : (resultIds found).Perm ((first :: others).map TurnItem.callId))
    (same : (resultIds between).Perm ((first :: others).map TurnItem.callId)) (left : Paired rest) :
    Paired behind ∧ ∀ item ∈ found, isAssistantText item = true → first.turnId = turnId := by
  constructor
  · rcases append_eq_append_iff.mp whole with ⟨extra, rfl, rfl⟩ | ⟨extra, rfl, rfl⟩
    · have none_ : resultIds extra = [] := by
        have count := (same.trans answers.symm).length_eq
        rw [resultIds_append, length_append] at count
        exact length_eq_zero_iff.mp (by omega)
      exact paired_append (plain_of_ids none_ fun item held =>
        bridged.not_call item (mem_append_right _ held)) left
    · exact left.behind fun item held => read.not_call item (mem_append_right _ held)
  · intro item held text
    obtain ⟨early, turn⟩ := read.texts held text
    -- both readings begin with the same items up to the first result
    rw [← takeWhile_stops (result_of_ids answers) behind, whole,
      takeWhile_stops (result_of_ids same)] at early
    rw [← (bridged.texts ((List.takeWhile_prefix _).subset early) text).2, turn]

theorem oneTurn_of_paired (paired : Paired (repairModelHistoryItems items)) :
    OneTurn false items := by
  induction items using history_induction with
  | nil => trivial
  | result item rest result ih =>
    rw [repair_result result] at paired
    have other : ∀ first ∈ [item], TurnItem.isToolCall first = false := by
      simp [isToolCall_of_result result]
    exact (oneTurn_other other).mpr (ih paired)
  | pass item rest plain_ ih =>
    rw [repair_plain plain_] at paired
    have other : ∀ first ∈ [item], TurnItem.isToolCall first = false := by
      simp [(plain_parts plain_).1]
    exact (oneTurn_other other).mpr (ih (paired.tail (plain_parts plain_).1))
  | block item rest call ih =>
    have stretch := answerStretch_bridged item.turnId false (rest.dropWhile TurnItem.isToolCall)
    have answers := @kept_answers item.turnId (item :: rest.takeWhile TurnItem.isToolCall)
      (rest.dropWhile TurnItem.isToolCall)
    have head := @keptCalls_head item.turnId (item :: rest.takeWhile TurnItem.isToolCall)
      (rest.dropWhile TurnItem.isToolCall)
    have inside := keptCalls_sublist (item :: rest.takeWhile TurnItem.isToolCall)
      (rest.dropWhile TurnItem.isToolCall) item.turnId
    rw [repair_call call] at paired
    rw [oneTurn_block call, BlockTurn, ← head]
    generalize kept : keptCalls (item :: rest.takeWhile TurnItem.isToolCall)
        (rest.dropWhile TurnItem.isToolCall) item.turnId = calls at paired answers inside ⊢
    have others := @keptAnswers_not_call item.turnId
      ((firstCalls [] (item :: rest.takeWhile TurnItem.isToolCall)).map TurnItem.callId)
      (rest.dropWhile TurnItem.isToolCall)
    have read := @Bridged.kept _ _ ((firstCalls [] (item :: rest.takeWhile
      TurnItem.isToolCall)).map TurnItem.callId) [] _ false stretch id
    have plains := @keptAnswers_plain ((firstCalls [] (item :: rest.takeWhile
      TurnItem.isToolCall)).map TurnItem.callId) []
      (answerStretch item.turnId false (rest.dropWhile TurnItem.isToolCall))
    have subset := (@keptAnswers_sublist ((firstCalls [] (item :: rest.takeWhile
      TurnItem.isToolCall)).map TurnItem.callId) []
      (answerStretch item.turnId false (rest.dropWhile TurnItem.isToolCall))).subset
    generalize keptAnswers ((firstCalls [] (item :: rest.takeWhile TurnItem.isToolCall)).map
      TurnItem.callId) [] (answerStretch item.turnId false (rest.dropWhile TurnItem.isToolCall))
      = found at paired answers others read plains subset
    cases calls with
    | nil =>
      rw [nil_append] at paired
      exact ⟨fun _ held => (nomatch held), ih (paired.behind others)⟩
    | cons first later =>
      have all := fun other held => block_calls call other (inside.subset held)
      have ends : (found ++ repairModelHistoryItems (behindStretch item.turnId
          (rest.dropWhile TurnItem.isToolCall))).takeWhile TurnItem.isToolCall = [] := by
        obtain ⟨result, among, -⟩ := result_of_ids answers
        cases found with
        | nil => cases among
        | cons head tail => simp [others head mem_cons_self]
      obtain ⟨between, tail, whole, bridged, same, left⟩ := paired.answered all ends
      obtain ⟨behind, turn⟩ := paired_readings whole read bridged answers same left
      refine ⟨fun call_ held => ?_, ih behind⟩
      obtain rfl : first = call_ := by simpa using held
      by_cases quiet : ∃ text ∈ found, isAssistantText text = true
      · obtain ⟨text, among, spoken⟩ := quiet
        exact .inl (turn text among spoken)
      · refine .inr fun text early => ?_
        by_contra spoken
        obtain ⟨result, among, answer⟩ := result_of_ids answers
        rw [← stretch_append item.turnId (rest.dropWhile TurnItem.isToolCall),
          takeWhile_stops ⟨result, subset among, answer⟩] at early
        have spoken : isAssistantText text = true := by simpa using spoken
        have kept := mem_filter.mpr ⟨(List.takeWhile_prefix _).subset early, text_plain spoken⟩
        rw [← plains] at kept
        exact quiet ⟨text, (mem_filter.mp kept).1, spoken⟩

/-- The repair of a history is well paired, and a second repair changes nothing, if and only if no
text of the model stands between the calls of another turn than the one that spoke it and their
results. -/
theorem wellRepaired_iff (items : List TurnItem) :
    WellRepaired items (repairModelHistoryItems items) ↔ OneTurn false items := by
  constructor
  · exact fun repaired => oneTurn_of_paired repaired.paired
  · intro one
    have paired := paired_of_oneTurn one
    exact ⟨repair_sublist, repair_keeps_plain, paired, repair_paired paired⟩

/-- The calls of two turns in one block, and a text of the first turn before the result of the
second: a repair keeps the answered call, and the next one drops it. -/
def mixedTurns : List TurnItem := [
  { id := "a", turnId := "t1", status := .completed, body := .toolCall "read" "c1" "x" none },
  { id := "b", turnId := "t2", status := .completed, body := .toolCall "read" "c2" "y" none },
  { id := "c", turnId := "t1", status := .completed, body := .assistantText "waiting" },
  { id := "d", turnId := "t2", status := .completed, body := .toolResult "read" "c2" "ok" false }]

theorem mixedTurns_unpaired : ¬ WellRepaired mixedTurns (repairModelHistoryItems mixedTurns) := by
  intro repaired
  have once : repairModelHistoryItems mixedTurns = mixedTurns.drop 1 := by decide +kernel
  have twice : repairModelHistoryItems (mixedTurns.drop 1) = (mixedTurns.drop 2).take 1 := by
    decide +kernel
  have again := repaired.again
  exact absurd again (by decide +kernel)

end QiongQi.HistoryPairing
