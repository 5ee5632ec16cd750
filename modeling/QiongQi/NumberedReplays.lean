import Mathlib.Data.List.Dedup
import Mathlib.Data.List.Sort

/-! Replays of numbered items. A state knows the last number it has taken in and passes over
items up to that number, so that a replay in the order of the numbers depends only on which
items there are. -/
namespace QiongQi.NumberedReplays
open List

structure Replayer (σ α : Type) where
  seq : α → Nat
  last : σ → Nat
  take : σ → α → σ
  skips : ∀ state item, seq item ≤ last state → take state item = state
  advances : ∀ state item, last state < seq item → last (take state item) = seq item

namespace Replayer
variable {σ α : Type} (replayer : Replayer σ α)

/-- The items in the order of their numbers. -/
def sorted (items : List α) : List α :=
  items.insertionSort fun left right => replayer.seq left ≤ replayer.seq right

def replay (state : σ) (items : List α) : σ :=
  (replayer.sorted items).foldl replayer.take state

/-- Items with one number are one item. -/
def Distinct (items : List α) : Prop :=
  ∀ left ∈ items, ∀ right ∈ items, replayer.seq left = replayer.seq right → left = right

def InOrder (items : List α) : Prop :=
  items.Pairwise fun left right => replayer.seq left ≤ replayer.seq right

variable {replayer}

theorem inOrder_sorted (items : List α) : replayer.InOrder (replayer.sorted items) :=
  pairwise_insertionSort _ items

@[simp] theorem mem_sorted {items : List α} {item : α} :
    item ∈ replayer.sorted items ↔ item ∈ items :=
  mem_insertionSort _

theorem sorted_of_inOrder (ordered : replayer.InOrder items) : replayer.sorted items = items :=
  ordered.insertionSort_eq

theorem take_take (state : σ) (item : α) :
    replayer.take (replayer.take state item) item = replayer.take state item := by
  refine replayer.skips _ item ?_
  by_cases old : replayer.seq item ≤ replayer.last state
  · rw [replayer.skips state item old]
    exact old
  · exact (replayer.advances state item (Nat.lt_of_not_le old)).ge

/-- In the order of the numbers, repeated items stand side by side, and each counts once. -/
theorem foldl_dedup [DecidableEq α] (ordered : replayer.InOrder items) (distinct : replayer.Distinct items) :
    items.dedup.foldl replayer.take state = items.foldl replayer.take state := by
  induction items generalizing state with
  | nil => rfl
  | cons item rest ih =>
    obtain ⟨least, later⟩ := pairwise_cons.mp ordered
    have others : replayer.Distinct rest := fun left heldLeft right heldRight =>
      distinct left (mem_cons_of_mem _ heldLeft) right (mem_cons_of_mem _ heldRight)
    by_cases repeated : item ∈ rest
    · rw [dedup_cons_of_mem repeated, ih later others]
      cases rest with
      | nil => cases repeated
      | cons next rest =>
        have same : item = next := by
          refine distinct item mem_cons_self next (mem_cons_of_mem _ mem_cons_self) ?_
          have first := least next mem_cons_self
          rcases mem_cons.mp repeated with rfl | found
          · rfl
          · have back := (pairwise_cons.mp later).1 item found
            omega
        subst same
        rw [foldl_cons, foldl_cons, foldl_cons, take_take]
    · rw [dedup_cons_of_notMem repeated, foldl_cons, foldl_cons, ih later others]

/-- A replay depends only on which items there are. -/
theorem replay_congr (same : ∀ item, item ∈ left ↔ item ∈ right)
    (distinct : replayer.Distinct left) (state : σ) :
    replayer.replay state left = replayer.replay state right := by
  classical
  have distinctRight : replayer.Distinct right := fun first heldFirst second heldSecond =>
    distinct first ((same first).mpr heldFirst) second ((same second).mpr heldSecond)
  have distinctSorted : ∀ items, replayer.Distinct items →
      replayer.Distinct (replayer.sorted items) := fun items distinct first heldFirst second
        heldSecond => distinct first (mem_sorted.mp heldFirst) second (mem_sorted.mp heldSecond)
  have orderedDedup : ∀ items, replayer.InOrder (replayer.sorted items).dedup := fun items =>
    (inOrder_sorted items).sublist (dedup_sublist _)
  unfold replay
  rw [← foldl_dedup (inOrder_sorted left) (distinctSorted left distinct),
    ← foldl_dedup (inOrder_sorted right) (distinctSorted right distinctRight)]
  congr 1
  have permuted : (replayer.sorted left).dedup.Perm (replayer.sorted right).dedup := by
    rw [perm_ext_iff_of_nodup (nodup_dedup _) (nodup_dedup _)]
    intro item
    rw [mem_dedup, mem_dedup, mem_sorted, mem_sorted, same]
  refine permuted.eq_of_pairwise (fun first second heldFirst heldSecond below above => ?_)
    (orderedDedup left) (orderedDedup right)
  rw [mem_dedup, mem_sorted] at heldFirst heldSecond
  exact distinct first heldFirst second ((same second).mpr heldSecond) (Nat.le_antisymm below above)

/-- A replay in order can be taken up again where it stopped. -/
theorem replay_append (ordered : replayer.InOrder (front ++ back)) (state : σ) :
    replayer.replay (replayer.replay state front) back = replayer.replay state (front ++ back) := by
  obtain ⟨first, second, -⟩ := pairwise_append.mp ordered
  unfold replay
  rw [sorted_of_inOrder first, sorted_of_inOrder second, sorted_of_inOrder ordered, foldl_append]

end Replayer

end QiongQi.NumberedReplays
