import Mathlib.Algebra.Order.Ring.Cast
import QiongQi.RequestItems

/-! `ContextCompactor.compact`: a history whose older items are replaced by one summary item. -/
namespace QiongQi.ContextCompactions
open RequestItems
open List hiding head tail

/-- The fields of an item beside its turn and its content. -/
structure ItemFields (ρ : Type) where
  id : String
  others : ρ
  deriving DecidableEq

abbrev HistoryItem (ρ : Type) := RequestItem (ItemFields ρ)

/-- What `makeCompactionItem` is given. -/
structure CompactionItem where
  id : String
  turnId : String
  threadId : String
  summary : String
  replacedTokens : Nat
  pinnedConstraints : List String
  sourceDigest : Option String
  digestMarker : Option String
  sourceItemIds : Option (List String)
  deriving DecidableEq

/-- An item of the next history: one of the old items, or the summary. -/
inductive Entry (ρ : Type)
  | item (item : HistoryItem ρ)
  | summary (item : CompactionItem)
  deriving DecidableEq

inductive CompactionMode
  | normal
  | aggressive
  | force

/-- The input of `compact`. A number that is not finite counts as none where items are frozen. -/
structure Input (ρ κ : Type) where
  threadId : String
  turnId : String
  history : List (HistoryItem ρ)
  pinnedConstraints : List String
  budgetTokens : Option ℚ
  keepRecent : Option ℚ
  mode : Option CompactionMode
  reason : Option String
  summaryOverride : Option String
  frozenMessageCount : Option ℚ
  capsule : Option κ

/-- What goes into the summary item beside the items: the hash of the items that it replaces, the
marker for that hash, its text, and the time of the call. -/
structure Texts (ρ κ : Type) where
  shortHash : List (HistoryItem ρ) → String
  createToolDigestMarker : String → String
  summary : Input ρ κ → (history head tail : List (HistoryItem ρ)) → (digestMarker : String) → String
  now : String

structure Compacted (ρ : Type) where
  next : List (Entry ρ)
  summaryItem : CompactionItem
  replacedTokens : Nat
  deriving DecidableEq

section
variable {ρ κ : Type}

/-- The whole number that an index of a slice is taken for. -/
def toInteger (number : ℚ) : Int := if 0 ≤ number then number.floor else number.ceil

/-- The place of an index in a list of that length; a negative one counts from the end. -/
def placeOf (length : Nat) (index : ℚ) : Nat :=
  if 0 ≤ toInteger index then (toInteger index).toNat else (length + toInteger index).toNat

def sliceTo {α : Type} (items : List α) (stop : ℚ) : List α :=
  items.take (placeOf items.length stop)

def sliceFrom {α : Type} (items : List α) (start : ℚ) : List α :=
  items.drop (placeOf items.length start)

def trimTrailingToolCalls (history : List (HistoryItem ρ)) : List (HistoryItem ρ) :=
  history.rdropWhile RequestItem.isToolCall

def normalizeFrozenMessageCount (value : Option ℚ) (historyLength : Nat) : Nat :=
  match value with
  | none => 0
  | some value => (max 0 (min (historyLength : Int) value.floor)).toNat

def keptCount (keepRecent : Option ℚ) (length : Nat) : ℚ :=
  if length ≤ 1 then length else min (max 0 (keepRecent.getD 4)) (length - 1)

def noop (input : Input ρ κ) : CompactionItem :=
  { id := "compaction_" ++ input.turnId ++ "_noop"
    turnId := input.turnId
    threadId := input.threadId
    summary := "no compaction needed"
    replacedTokens := 0
    pinnedConstraints := input.pinnedConstraints
    sourceDigest := none
    digestMarker := none
    sourceItemIds := none }

def summaryItem (texts : Texts ρ κ) (input : Input ρ κ) (history head tail : List (HistoryItem ρ))
    (replacedTokens : Nat) : CompactionItem :=
  let sourceDigest := texts.shortHash head
  let digestMarker := texts.createToolDigestMarker sourceDigest
  { id := "compaction_" ++ input.turnId ++ "_" ++ texts.now
    turnId := input.turnId
    threadId := input.threadId
    summary := texts.summary input history head tail digestMarker
    replacedTokens
    pinnedConstraints := input.pinnedConstraints
    sourceDigest := some sourceDigest
    digestMarker := some digestMarker
    sourceItemIds := some (head.map fun item => item.rest.id) }

/-- Nothing is returned where the items that are replaced cannot be measured. -/
def compact (texts : Texts ρ κ) (input : Input ρ κ) : Option (Compacted ρ) :=
  let frozenMessageCount :=
    normalizeFrozenMessageCount input.frozenMessageCount input.history.length
  let frozen := input.history.take frozenMessageCount
  let history := trimTrailingToolCalls (input.history.drop frozenMessageCount)
  let keepRecent := keptCount input.keepRecent history.length
  if history.length ≤ 1 ∨ history.length - keepRecent ≤ 0 then
    some ⟨(frozen ++ history).map .item, noop input, 0⟩
  else
    let head := if keepRecent = 0 then history else sliceTo history (history.length - keepRecent)
    let tail := if keepRecent = 0 then [] else sliceFrom history (-keepRecent)
    (estimateItems head).map fun replacedTokens =>
      let summaryItem := summaryItem texts input history head tail replacedTokens
      ⟨frozen.map .item ++ [.summary summaryItem] ++ tail.map .item, summaryItem, replacedTokens⟩

/-- The call has put a summary in place of items. -/
def Summarized (result : Compacted ρ) : Prop := .summary result.summaryItem ∈ result.next

/-- The history is what is frozen, what the summary replaces and what is kept, and no result is
kept whose call is replaced. -/
def Accounted (input : Input ρ κ) (result : Compacted ρ) : Prop :=
  ∃ frozen head tail, input.history = frozen ++ head ++ tail ∧
    frozen.length = normalizeFrozenMessageCount input.frozenMessageCount input.history.length ∧
    result.next = frozen.map .item ++ [.summary result.summaryItem] ++ tail.map .item ∧
    result.summaryItem.sourceItemIds = some (head.map fun item => item.rest.id) ∧
    ∀ item ∈ tail, item.isToolResult = true → ∀ call ∈ head, call.isToolCall = true →
      call.callId ≠ item.callId

/-- The history is what is frozen, what the summary replaces, what is kept, and the calls at its
end. -/
structure Parts (input : Input ρ κ) (result : Compacted ρ)
    (frozen head tail calls : List (HistoryItem ρ)) : Prop where
  whole : input.history = frozen ++ head ++ tail ++ calls
  frozenCount : frozen.length = normalizeFrozenMessageCount input.frozenMessageCount input.history.length
  next : result.next = frozen.map .item ++ [.summary result.summaryItem] ++ tail.map .item
  sources : result.summaryItem.sourceItemIds = some (head.map fun item => item.rest.id)
  calls : ∀ call ∈ calls, call.isToolCall = true
  trimmed : ∀ last ∈ (head ++ tail).getLast?, last.isToolCall = false
  recent : (tail.length : ℚ) = keptCount input.keepRecent (head ++ tail).length

theorem toInteger_intCast (number : Int) : toInteger number = number := by
  unfold toInteger
  split
  · exact Rat.floor_intCast number
  · exact Rat.ceil_intCast number

variable {length kept : Nat}

/-- A whole number of kept items is one between none and all but one. -/
theorem keptCount_whole {keepRecent : Option ℚ}
    (whole : ∀ count ∈ keepRecent, ∃ number : Int, count = number) (long : ¬ length ≤ 1) :
    ∃ kept : Nat, keptCount keepRecent length = kept ∧ kept < length := by
  obtain ⟨asked, same⟩ : ∃ asked : Int, keepRecent.getD 4 = asked := by
    cases keepRecent with
    | none => exact ⟨4, rfl⟩
    | some count => exact whole count rfl
  refine ⟨(min (max 0 asked) (length - 1)).toNat, ?_, by omega⟩
  have counted : (((min (max 0 asked) (length - 1)).toNat : Nat) : ℚ) =
      ((min (max 0 asked) (length - 1) : Int) : ℚ) := by
    rw [← Int.cast_natCast, Int.toNat_of_nonneg (by omega)]
  rw [keptCount, if_neg long, same, counted]
  push_cast
  rfl

theorem frozen_bound : normalizeFrozenMessageCount value length ≤ length := by
  cases value with
  | none => exact Nat.zero_le length
  | some value =>
    unfold normalizeFrozenMessageCount
    dsimp only
    omega

/-- The calls at the end of a history are cut off, and no others. -/
theorem trim_split : ∃ calls, history = trimTrailingToolCalls history ++ calls ∧
      (∀ call ∈ calls, call.isToolCall = true) ∧
        ∀ last ∈ (trimTrailingToolCalls history).getLast?, last.isToolCall = false := by
  refine ⟨history.rtakeWhile RequestItem.isToolCall, ?_, fun call held => ?_, fun last ends => ?_⟩
  · exact rdropWhile_append_rtakeWhile.symm
  · exact mem_rtakeWhile_imp held
  · obtain ⟨some_, same⟩ := mem_getLast?_eq_getLast ends
    rw [same]
    exact Bool.eq_false_iff.mpr (rdropWhile_last_not _ _ some_)

theorem placeOf_behind (fewer : kept ≤ length) :
    placeOf length (length - kept) = length - kept := by
  have whole : ((length : ℚ) - kept) = ((length - kept : Int) : ℚ) := by push_cast; rfl
  rw [placeOf, whole, toInteger_intCast, if_pos (by omega)]
  omega

theorem placeOf_negative (some_ : 0 < kept) (fewer : kept ≤ length) :
    placeOf length (-kept) = length - kept := by
  have whole : (-(kept : ℚ)) = ((-kept : Int) : ℚ) := by push_cast; rfl
  rw [placeOf, whole, toInteger_intCast, if_neg (by omega)]
  omega

/-- What the summary replaces and what is kept of a history: its end is kept. -/
theorem slices_split (fewer : kept < items.length) :
    (if (kept : ℚ) = 0 then items else sliceTo items (items.length - kept)) =
        items.take (items.length - kept) ∧
      (if (kept : ℚ) = 0 then [] else sliceFrom items (-kept)) = items.drop (items.length - kept) := by
  by_cases none_ : kept = 0
  · subst none_
    simp
  · have apart : ¬ (kept : ℚ) = 0 := by exact_mod_cast none_
    rw [if_neg apart, if_neg apart, sliceTo, sliceFrom, placeOf_behind (by omega),
      placeOf_negative (by omega) (by omega)]
    exact ⟨rfl, rfl⟩

theorem compact_parts (texts : Texts ρ κ) (input : Input ρ κ) (result : Compacted ρ)
    (whole : ∀ count ∈ input.keepRecent, ∃ number : Int, count = number)
    (compacted : compact texts input = some result) (summarized : Summarized result) :
    ∃ frozen head tail calls, Parts input result frozen head tail calls := by
  let frozen := normalizeFrozenMessageCount input.frozenMessageCount input.history.length
  obtain ⟨calls, split, all, trimmed⟩ := trim_split
  let history := trimTrailingToolCalls (input.history.drop frozen)
  unfold compact at compacted
  dsimp only at compacted
  split at compacted
  · cases compacted
    obtain ⟨item, -, same⟩ := mem_map.mp summarized
    cases same
  · rename_i long
    obtain ⟨short, -⟩ := not_or.mp long
    obtain ⟨kept, counted, fewer⟩ := keptCount_whole whole short
    obtain ⟨head, tail⟩ := slices_split fewer
    rw [counted] at compacted
    rw [head, tail] at compacted
    obtain ⟨replacedTokens, -, rfl⟩ := Option.map_eq_some_iff.mp compacted
    refine ⟨input.history.take frozen, history.take (history.length - kept),
      history.drop (history.length - kept), calls, ?_, ?_, rfl, rfl, all, ?_, ?_⟩
    · rw [append_assoc (input.history.take frozen), take_append_drop, append_assoc, ← split, take_append_drop]
    · exact length_take_of_le frozen_bound
    · rw [take_append_drop]
      exact trimmed
    · rw [take_append_drop, length_drop]
      refine Eq.trans ?_ counted.symm
      congr 1
      have fewer_ : kept < history.length := fewer
      omega

end

section Example

private def texts : Texts Unit Unit :=
  { shortHash := fun _ => "0"
    createToolDigestMarker := id
    summary := fun _ _ _ _ _ => "Earlier"
    now := "1" }

private def entry (id : String) (content : Content) : HistoryItem Unit := ⟨"t1", content, ⟨id, ()⟩⟩

private def asked (history : List (HistoryItem Unit)) : Input Unit Unit :=
  { threadId := "thr_1"
    turnId := "t1"
    history := history
    pinnedConstraints := []
    budgetTokens := none
    keepRecent := some 1
    mode := none
    reason := none
    summaryOverride := none
    frozenMessageCount := none
    capsule := none }

private def question : HistoryItem Unit := entry "a" (.userMessage (ascii "list the files"))

private def call : HistoryItem Unit := entry "b" (.toolCall (ascii "ls") "c1" (ascii "\x7b\x7d"))

private def result : HistoryItem Unit := entry "c" (.toolResult "c1" (.text (ascii "src")))

private def answer : HistoryItem Unit := entry "d" (.assistantText (ascii "only src"))

private def summaryOf (head : List (HistoryItem Unit)) (tokens : Nat) : CompactionItem :=
  { id := "compaction_t1_1"
    turnId := "t1"
    threadId := "thr_1"
    summary := "Earlier"
    replacedTokens := tokens
    pinnedConstraints := []
    sourceDigest := some "0"
    digestMarker := some "0"
    sourceItemIds := some (head.map fun item => item.rest.id) }

private theorem tail_of_next (next : ([.summary summary, .item item] : List (Entry Unit)) =
      [].map .item ++ [.summary summary] ++ tail.map .item) : tail = [item] := by
  obtain ⟨-, same⟩ := List.cons.inj next
  apply map_injective_iff.mpr (fun _ _ => Entry.item.inj)
  exact same.symm

theorem compact_parts_pair : ∃ frozen head tail calls, Parts (asked [question, call, result, answer])
      ⟨[.summary (summaryOf [question, call, result] 7), .item answer],
        summaryOf [question, call, result] 7, 7⟩ frozen head tail calls :=
  compact_parts texts (asked [question, call, result, answer]) _
    (fun count held => ⟨1, by cases held; rfl⟩) (by decide +kernel) mem_cons_self

/-- A result is kept without its call, a call at the end of a history is lost, and so is an item
between the two slices where one item and a half are to be kept. -/
theorem pair_divided :
    (∃ compacted, compact texts (asked [question, call, result]) = some compacted ∧
      Summarized compacted ∧ ¬ Accounted (asked [question, call, result]) compacted) ∧
    (∃ compacted, compact texts (asked [question, answer, call]) = some compacted ∧
      Summarized compacted ∧ ¬ Accounted (asked [question, answer, call]) compacted) ∧
    ∃ compacted, compact texts { asked [question, answer, question] with
        keepRecent := some (3 / 2) } = some compacted ∧ Summarized compacted ∧
      ¬ Accounted { asked [question, answer, question] with keepRecent := some (3 / 2) }
        compacted := by
  refine ⟨?_, ?_, ?_⟩
  · refine ⟨⟨[.summary (summaryOf [question, call] 6), .item result],
      summaryOf [question, call] 6, 6⟩, by decide +kernel, mem_cons_self, ?_⟩
    rintro ⟨frozen, head, tail, whole, frozenCount, next, -, paired⟩
    cases eq_nil_of_length_eq_zero frozenCount
    cases tail_of_next next
    have split : [question, call] ++ [result] = head ++ [result] := whole
    obtain rfl := append_cancel_right split
    exact paired result mem_cons_self rfl call (by simp) rfl rfl
  · refine ⟨⟨[.summary (summaryOf [question] 4), .item answer],
      summaryOf [question] 4, 4⟩, by decide +kernel, mem_cons_self, ?_⟩
    rintro ⟨frozen, head, tail, whole, frozenCount, next, -, -⟩
    cases eq_nil_of_length_eq_zero frozenCount
    cases tail_of_next next
    have last := congrArg List.getLast? whole
    rw [nil_append, getLast?_concat] at last
    exact absurd last (by decide)
  · refine ⟨⟨[.summary (summaryOf [question] 4), .item question],
      summaryOf [question] 4, 4⟩, by decide +kernel, mem_cons_self, ?_⟩
    rintro ⟨frozen, head, tail, whole, frozenCount, next, sources, -⟩
    cases eq_nil_of_length_eq_zero frozenCount
    cases tail_of_next next
    have split : [question, answer] ++ [question] = head ++ [question] := whole
    obtain rfl := append_cancel_right split
    exact absurd sources (by decide)

end Example

end QiongQi.ContextCompactions
