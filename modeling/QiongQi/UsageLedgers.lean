import Mathlib.Algebra.BigOperators.Group.List.Basic
import Mathlib.Algebra.Order.Monoid.Defs
import Mathlib.Data.List.Induction
import Mathlib.Data.List.Nodup

/-! Ledgers of amounts under ids, in which an id counts once: only its first
entry is taken, whatever later ones say. -/
namespace QiongQi.UsageLedgers
open List

variable {κ α : Type}

/-- The ids of a ledger, with repetitions. -/
def ids (ledger : List (κ × α)) : List κ := ledger.map Prod.fst

@[simp] theorem ids_nil : ids ([] : List (κ × α)) = [] := rfl

@[simp] theorem ids_cons (entry : κ × α) (rest : List (κ × α)) :
    ids (entry :: rest) = entry.1 :: ids rest := rfl

@[simp] theorem ids_append (left right : List (κ × α)) :
    ids (left ++ right) = ids left ++ ids right :=
  map_append

variable [DecidableEq κ]

/-- The entries that count, after those of `before` have. -/
def counted (before : List κ) : List (κ × α) → List (κ × α)
  | [] => []
  | entry :: rest =>
    if entry.1 ∈ before then counted before rest
    else entry :: counted (before ++ [entry.1]) rest

/-- The first entry of every id. -/
def firstUses (ledger : List (κ × α)) : List (κ × α) := counted [] ledger

private theorem counted_append (before : List κ) :
    counted before (left ++ right) =
      counted before left ++ counted (before ++ ids (counted before left)) right := by
  induction left generalizing before with
  | nil => simp [counted]
  | cons entry rest ih =>
    by_cases known : entry.1 ∈ before
    · simp only [cons_append, counted, if_pos known, ih]
    · simp only [cons_append, counted, if_neg known, ih]
      simp

section
variable (ledger : List (κ × α))
include ledger

private theorem mem_counted (before : List κ) (id : κ) :
    id ∈ ids (counted before ledger) ↔ id ∈ ids ledger ∧ id ∉ before := by
  induction ledger generalizing before with
  | nil => simp [counted]
  | cons entry rest ih =>
    by_cases known : entry.1 ∈ before
    · simp only [counted, if_pos known, ih, ids_cons, mem_cons]
      constructor
      · exact fun found => ⟨.inr found.1, found.2⟩
      · rintro ⟨rfl | found, fresh⟩
        · exact absurd known fresh
        · exact ⟨found, fresh⟩
    · have others := ih (before ++ [entry.1])
      simp only [mem_append, mem_singleton, not_or] at others
      simp only [counted, if_neg known, ids_cons, mem_cons, others]
      constructor
      · rintro (rfl | ⟨found, fresh, -⟩)
        · exact ⟨.inl rfl, known⟩
        · exact ⟨.inr found, fresh⟩
      · rintro ⟨same | found, fresh⟩
        · exact .inl same
        · by_cases same : id = entry.1
          · exact .inl same
          · exact .inr ⟨found, fresh, same⟩

private theorem nodup_counted (before : List κ) :
    (ids (counted before ledger)).Nodup := by
  induction ledger generalizing before with
  | nil => exact nodup_nil
  | cons entry rest ih =>
    by_cases known : entry.1 ∈ before
    · simpa only [counted, if_pos known] using ih before
    · simp only [counted, if_neg known, ids_cons, nodup_cons]
      refine ⟨fun found => ?_, ih _⟩
      have fresh := ((mem_counted rest (before ++ [entry.1]) entry.1).mp found).2
      simp at fresh

theorem firstUses_concat :
    firstUses (ledger ++ [entry]) =
      if entry.1 ∈ ids ledger then firstUses ledger else firstUses ledger ++ [entry] := by
  unfold firstUses
  rw [counted_append]
  by_cases found : entry.1 ∈ ids ledger <;> simp [counted, mem_counted, found]

@[simp] theorem mem_firstUses (id : κ) :
    id ∈ ids (firstUses ledger) ↔ id ∈ ids ledger := by
  simp [firstUses, mem_counted]

theorem nodup_firstUses : (ids (firstUses ledger)).Nodup :=
  nodup_counted ledger []

end

/-- What an id counts for. -/
def amountOf [Zero α] (ledger : List (κ × α)) (id : κ) : α :=
  (ledger.lookup id).getD 0

private theorem amountOf_append [Zero α] {id : κ} (found : id ∈ ids left) (right : List (κ × α)) :
    amountOf (left ++ right) id = amountOf left id := by
  obtain ⟨entry, member, rfl⟩ := List.mem_map.mp found
  have present : (left.lookup entry.1).isSome := by
    clear found
    induction left with
    | nil => cases member
    | cons first rest ih =>
      by_cases same : entry.1 = first.1
      · simp [same]
      · rcases List.mem_cons.mp member with rfl | member
        · exact absurd rfl same
        · simpa [lookup_cons, same] using ih member
  obtain ⟨amount, first⟩ := Option.isSome_iff_exists.mp present
  have kept : (left ++ right).lookup entry.1 = some amount := by
    rw [lookup_append, first]
    rfl
  simp only [amountOf, first, kept]

private theorem amountOf_fresh [Zero α] {entry : κ × α} (fresh : entry.1 ∉ ids ledger) :
    amountOf (ledger ++ [entry]) entry.1 = entry.2 := by
  have absent : ledger.lookup entry.1 = none := by
    rw [lookup_eq_none_iff]
    intro found member
    have other : found.1 ≠ entry.1 := fun same => fresh (same ▸ mem_map_of_mem member)
    simpa using other.symm
  obtain ⟨key, amount⟩ := entry
  simp only at absent
  simp [amountOf, lookup_append, absent]

section
variable [AddCommMonoid α]

/-- The sum over the ids that have been used. -/
def total (ledger : List (κ × α)) : α := ((firstUses ledger).map Prod.snd).sum

@[simp] theorem total_nil : total ([] : List (κ × α)) = 0 := rfl

theorem total_concat (ledger : List (κ × α)) (entry : κ × α) :
    total (ledger ++ [entry]) = if entry.1 ∈ ids ledger then total ledger else total ledger + entry.2 := by
  unfold total
  rw [firstUses_concat]
  split
  · rfl
  · simp

private theorem total_eq_first (ledger : List (κ × α)) :
    total ledger = ((ids (firstUses ledger)).map (amountOf ledger)).sum := by
  induction ledger using List.reverseRecOn with
  | nil => rfl
  | append_singleton ledger entry ih =>
    have same : ∀ id ∈ ids (firstUses ledger), amountOf (ledger ++ [entry]) id = amountOf ledger id :=
      fun id found => amountOf_append ((mem_firstUses ledger id).mp found) [entry]
    rw [total_concat, firstUses_concat]
    by_cases known : entry.1 ∈ ids ledger
    · rw [if_pos known, if_pos known, ih, map_congr_left same]
    · rw [if_neg known, if_neg known, ids_append, map_append, sum_append, map_congr_left same, ← ih]
      simp [ids, amountOf_fresh known]

theorem total_eq_sum {ledger : List (κ × α)} {used : List κ} (distinct : used.Nodup)
    (same : ∀ id, id ∈ used ↔ id ∈ ids ledger) :
    total ledger = (used.map (amountOf ledger)).sum := by
  have permuted : (ids (firstUses ledger)).Perm used :=
    (perm_ext_iff_of_nodup (nodup_firstUses ledger) distinct).mpr fun id => by
      rw [mem_firstUses, same]
  rw [total_eq_first]
  exact (permuted.map _).sum_eq

end

theorem total_le_append [AddCommMonoid α] [PartialOrder α] [IsOrderedAddMonoid α]
    (nonneg : ∀ entry ∈ more, 0 ≤ entry.2) (ledger : List (κ × α)) :
    total ledger ≤ total (ledger ++ more) := by
  induction more using List.reverseRecOn with
  | nil => simp
  | append_singleton more entry ih =>
    have before := ih fun found member => nonneg found (mem_append_left _ member)
    rw [← append_assoc, total_concat]
    split
    · exact before
    · exact le_trans before (le_add_of_nonneg_right (nonneg entry (by simp)))

theorem total_append_le [AddCommMonoid α] [PartialOrder α] [IsOrderedAddMonoid α]
    (nonneg : ∀ entry ∈ more, 0 ≤ entry.2) (ledger : List (κ × α)) :
    total (ledger ++ more) ≤ total ledger + (more.map Prod.snd).sum := by
  induction more using List.reverseRecOn with
  | nil => simp
  | append_singleton more entry ih =>
    have before := ih fun found member => nonneg found (mem_append_left _ member)
    rw [← append_assoc, total_concat]
    simp only [map_append, map_cons, map_nil, sum_append, sum_singleton, ← add_assoc]
    split
    · exact le_trans before (le_add_of_nonneg_right (nonneg entry (by simp)))
    · exact add_le_add_left before _

end QiongQi.UsageLedgers
