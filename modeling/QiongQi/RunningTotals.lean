import Mathlib.Algebra.BigOperators.Group.List.Basic
import Mathlib.Algebra.Ring.Nat
import Mathlib.Data.List.Induction

/-! Running totals: how much each of them adds to the one before, and what that comes to. -/
namespace QiongQi.RunningTotals
open List

/-- How far each total is above the one before; one that falls adds nothing. -/
def growths (before : Nat) : List Nat → List Nat
  | [] => []
  | total :: rest => (total - before) :: growths total rest

/-- The last total, if there is one. -/
def final (before : Nat) (totals : List Nat) : Nat := totals.getLast?.getD before

@[simp] theorem final_concat (before : Nat) (totals : List Nat) (last : Nat) :
    final before (totals ++ [last]) = last := by
  simp [final]

theorem final_cons (before total : Nat) (rest : List Nat) :
    final before (total :: rest) = final total rest := by
  cases rest with
  | nil => rfl
  | cons next rest => simp [final, getLast?_cons]

/-- None of them falls below an earlier one. -/
def Rising (totals : List Nat) : Prop := totals.Pairwise (· ≤ ·)

theorem rising_concat :
    Rising (totals ++ [last]) ↔ Rising totals ∧ ∀ total ∈ totals, total ≤ last := by
  simp [Rising, pairwise_append]

theorem le_final (rising : Rising totals) (held : total ∈ totals) (before : Nat) :
    total ≤ final before totals := by
  cases totals using List.reverseRecOn with
  | nil => cases held
  | append_singleton totals last =>
    rw [final_concat]
    rcases mem_append.mp held with earlier | same
    · exact (rising_concat.mp rising).2 total earlier
    · exact Nat.le_of_eq (mem_singleton.mp same)

theorem sum_growths : ∀ before : Nat, (∀ total ∈ totals, before ≤ total) → Rising totals →
      before + (growths before totals).sum = final before totals := by
  induction totals with
  | nil => exact fun _ _ _ => rfl
  | cons total rest ih =>
    intro before above rising
    obtain ⟨least, others⟩ := pairwise_cons.mp rising
    have first := above total mem_cons_self
    have grown := ih total least others
    rw [final_cons]
    simp only [growths, sum_cons]
    omega

end QiongQi.RunningTotals
