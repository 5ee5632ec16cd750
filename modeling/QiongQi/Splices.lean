import Mathlib.Data.List.Chain
import Mathlib.Data.List.Forall2

/-! Stretches of a list replaced from the last to the first. A list and what it
becomes are read side by side as cuts: a gap that stays, and an old text in
whose place a new one stands. -/
namespace QiongQi.Splices
open List
variable {α : Type*}

structure Patch (α : Type*) where
  start : Nat
  length : Nat
  text : List α

/-- The first position behind the stretch. -/
def Patch.stop (patch : Patch α) : Nat := patch.start + patch.length

theorem Patch.start_le_stop (patch : Patch α) : patch.start ≤ patch.stop :=
  Nat.le_add_right patch.start patch.length

def Patch.splice (patch : Patch α) (items : List α) : List α :=
  items.take patch.start ++ patch.text ++ items.drop patch.stop

/-- From the last patch to the first, so that no splice moves what an earlier one is about. -/
def spliceAll (patches : List (Patch α)) (items : List α) : List α :=
  patches.foldr Patch.splice items

/-- The patches lie one behind the other between the two positions. -/
def Apart : Nat → List (Patch α) → Nat → Prop
  | position, [], size => position ≤ size
  | position, patch :: rest, size => position ≤ patch.start ∧ Apart patch.stop rest size

theorem Apart.le (apart : Apart position patches size) : position ≤ size := by
  induction patches generalizing position with
  | nil => exact apart
  | cons patch rest ih =>
    exact apart.1.trans (patch.start_le_stop.trans (ih apart.2))

theorem apart_of_neighbours {patches : List (Patch α)}
    (first : ∀ patch ∈ patches.head?, position ≤ patch.start) (bounded : position ≤ size)
    (inside : ∀ patch ∈ patches, patch.stop ≤ size)
    (neighbours : patches.IsChain fun left right => left.stop ≤ right.start) :
    Apart position patches size := by
  induction patches generalizing position with
  | nil => exact bounded
  | cons patch rest ih =>
    obtain ⟨next, chain⟩ := List.isChain_cons.mp neighbours
    have later : ∀ other ∈ rest, other.stop ≤ size :=
      fun other held => inside other (by simp [held])
    exact ⟨first patch rfl, ih next (inside patch (by simp)) later chain⟩

structure Cut (α : Type*) where
  gap : List α
  old : List α
  new : List α

def before (cuts : List (Cut α)) (tail : List α) : List α :=
  cuts.flatMap (fun cut => cut.gap ++ cut.old) ++ tail

def after (cuts : List (Cut α)) (tail : List α) : List α :=
  cuts.flatMap (fun cut => cut.gap ++ cut.new) ++ tail

@[simp] theorem before_cons (cut : Cut α) (cuts : List (Cut α)) (tail : List α) :
    before (cut :: cuts) tail = cut.gap ++ (cut.old ++ before cuts tail) := by
  simp [before]

@[simp] theorem after_cons (cut : Cut α) (cuts : List (Cut α)) (tail : List α) :
    after (cut :: cuts) tail = cut.gap ++ (cut.new ++ after cuts tail) := by
  simp [after]

theorem after_congr (tail : List α) (news : List.Forall₂ (fun cut other => cut.new = other.new) left right)
    (gaps : left.map (·.gap) = right.map (·.gap)) : after left tail = after right tail := by
  induction news with
  | nil => rfl
  | cons head _ ih =>
    simp only [map_cons, List.cons.injEq] at gaps
    simp [gaps.1, head, ih gaps.2]

/-- Gaps of the same lengths around the same new texts: they can be read off what has come of
the cuts. -/
theorem gaps_of_after {tail rest : List α}
    (news : List.Forall₂ (fun cut other => cut.new = other.new) left right)
    (lengths : left.map (·.gap.length) = right.map (·.gap.length))
    (same : after left tail = after right rest) :
    left.map (·.gap) = right.map (·.gap) ∧ tail = rest := by
  induction news with
  | nil => exact ⟨rfl, same⟩
  | @cons cut other cuts others head _ ih =>
    simp only [map_cons, List.cons.injEq] at lengths
    simp only [after_cons] at same
    obtain ⟨gaps, texts⟩ := append_inj same lengths.1
    rw [head] at texts
    obtain ⟨inner, tails⟩ := ih lengths.2 (append_cancel_left texts)
    exact ⟨by simp [gaps, inner], tails⟩

def cutsOf (items : List α) : Nat → List (Patch α) → List (Cut α)
  | _, [] => []
  | position, patch :: rest =>
    { gap := (items.drop position).take (patch.start - position)
      old := (items.drop patch.start).take patch.length
      new := patch.text } :: cutsOf items patch.stop rest

/-- What lies behind the last patch. -/
def tailOf (items : List α) : Nat → List (Patch α) → List α
  | position, [] => items.drop position
  | _, patch :: rest => tailOf items patch.stop rest

/-- How many items lie before each patch since the one before it. -/
def distances : Nat → List (Patch α) → List Nat
  | _, [] => []
  | position, patch :: rest => (patch.start - position) :: distances patch.stop rest

section
variable {items : List α} {position : Nat} {patches : List (Patch α)}

theorem cutsOf_forall₂ (items : List α) (position : Nat) (patches : List (Patch α)) :
    List.Forall₂ (fun cut patch => cut.new = patch.text ∧
      cut.old = (items.drop patch.start).take patch.length) (cutsOf items position patches)
      patches := by
  induction patches generalizing position with
  | nil => exact .nil
  | cons patch rest ih => exact .cons ⟨rfl, rfl⟩ (ih patch.stop)

section
variable (apart : Apart position patches items.length)
include apart

theorem gap_lengths :
    (cutsOf items position patches).map (·.gap.length) = distances position patches := by
  induction patches generalizing position with
  | nil => rfl
  | cons patch rest ih =>
    have inside := apart.2.le
    simp only [Patch.stop] at inside
    simp only [cutsOf, distances, map_cons, ih apart.2, length_take, length_drop, List.cons.injEq, and_true]
    omega

theorem before_cutsOf : before (cutsOf items position patches) (tailOf items position patches)
      = items.drop position := by
  induction patches generalizing position with
  | nil => rfl
  | cons patch rest ih =>
    have first := apart.1
    have front : items.drop position
        = (items.drop position).take (patch.start - position) ++ items.drop patch.start := by
      conv_lhs => rw [← take_append_drop (patch.start - position) (items.drop position)]
      rw [drop_drop, Nat.add_sub_cancel' first]
    have back : items.drop patch.start
        = (items.drop patch.start).take patch.length ++ items.drop patch.stop := by
      conv_lhs => rw [← take_append_drop patch.length (items.drop patch.start)]
      rw [drop_drop, Patch.stop]
    rw [cutsOf, tailOf, before_cons, ih apart.2, ← back, ← front]

/-- Patches that lie apart replace their stretches, and the rest of the list stays. -/
theorem spliceAll_eq : spliceAll patches items = items.take position ++
      after (cutsOf items position patches) (tailOf items position patches) := by
  induction patches generalizing position with
  | nil => exact (take_append_drop position items).symm
  | cons patch rest ih =>
    have first := apart.1
    have inside := apart.2.le
    have front : items.take patch.start
        = items.take position ++ (items.drop position).take (patch.start - position) := by
      rw [← take_add, Nat.add_sub_cancel' first]
    have long : (items.take patch.stop).length = patch.stop := by simp [inside]
    have reached : patch.start ≤ (items.take patch.stop).length := by
      rw [long]
      exact patch.start_le_stop
    calc spliceAll (patch :: rest) items = patch.splice (spliceAll rest items) := rfl
      _ = items.take patch.start ++ patch.text ++
            after (cutsOf items patch.stop rest) (tailOf items patch.stop rest) := by
          rw [ih apart.2, Patch.splice, take_append_of_le_length reached, take_take,
            Nat.min_eq_left patch.start_le_stop,
            drop_append_of_le_length long.ge, drop_eq_nil_of_le long.le, nil_append]
      _ = _ := by simp [front, cutsOf, tailOf]

end

end
end QiongQi.Splices
