import Mathlib.Data.List.Dedup
import QiongQi.Machines

/-! JavaScript's `Map` as the list of its entries in their order: an entry that is set
again keeps its place, and a new one comes last. -/
namespace QiongQi.KeyedMaps
open Machines List

variable {β κ : Type} [DecidableEq κ] {key : β → κ}

def setEntry (key : β → κ) (item : β) (items : List β) : List β :=
  if items.any fun other => key other = key item then
    items.map fun other => if key other = key item then item else other
  else items ++ [item]

@[simp] theorem mem_setEntry {other : β} :
    other ∈ setEntry key item items ↔ other = item ∨ other ∈ items ∧ key other ≠ key item := by
  unfold setEntry
  split
  · rename_i held
    obtain ⟨old, heldOld, same⟩ := any_eq_true.mp held
    rw [mem_map]
    constructor
    · rintro ⟨source, heldSource, rfl⟩
      by_cases here : key source = key item
      · exact .inl (if_pos here)
      · rw [if_neg here]
        exact .inr ⟨heldSource, here⟩
    · rintro (rfl | ⟨held, apart⟩)
      · exact ⟨old, heldOld, if_pos (of_decide_eq_true same)⟩
      · exact ⟨other, held, if_neg apart⟩
  · rename_i absent
    have apart : ∀ other ∈ items, key other ≠ key item := by simpa using absent
    rw [mem_append, mem_singleton]
    constructor
    · rintro (held | same)
      · exact .inr ⟨held, apart other held⟩
      · exact .inl same
    · rintro (same | ⟨held, -⟩)
      · exact .inr same
      · exact .inl held

theorem keyed_setEntry (keyed : Keyed key items) : Keyed key (setEntry key item items) := by
  have moved : ∀ other, other ∈ setEntry key item items ↔ other ∈ put key item items := by
    simp
  intro left foundLeft right foundRight same
  exact keyed_put keyed left ((moved left).mp foundLeft) right ((moved right).mp foundRight) same

theorem nodup_setEntry (distinct : (items.map key).Nodup) :
    ((setEntry key item items).map key).Nodup := by
  unfold setEntry
  split
  · have kept : (items.map fun other => if key other = key item then item else other).map key =
        items.map key := by
      rw [map_map]
      refine map_congr_left fun other _ => ?_
      by_cases same : key other = key item
      · simp [same]
      · simp [same]
    rw [kept]
    exact distinct
  · rename_i absent
    have apart : ∀ other ∈ items, key other ≠ key item := by simpa using absent
    rw [map_append, map_singleton]
    refine nodup_append.mpr ⟨distinct, by simp, ?_⟩
    rintro left found right last rfl
    obtain ⟨other, held, same⟩ := mem_map.mp found
    exact apart other held (same.trans (mem_singleton.mp last))

@[simp] theorem find_setEntry_self (item : β) (keyed : Keyed key items) :
    find key (key item) (setEntry key item items) = some item :=
  find_keyed (keyed_setEntry keyed) (mem_setEntry.mpr (.inl rfl))

theorem setEntry_held (keyed : Keyed key items) (held : item ∈ items) :
    setEntry key item items = items := by
  unfold setEntry
  rw [if_pos (any_eq_true.mpr ⟨item, held, by simp⟩)]
  have same : ∀ other ∈ items, (if key other = key item then item else other) = id other := by
    intro other heldOther
    by_cases same : key other = key item
    · rw [if_pos same, keyed other heldOther item held same]
      rfl
    · exact if_neg same
  rw [map_congr_left same, map_id]

/-- What is found under a name depends on the items of the name alone. -/
theorem find_congr (keyed : Keyed key items)
    (same : ∀ item, key item = name → (item ∈ items ↔ item ∈ others)) :
    find key name items = find key name others := by
  cases found : find key name others with
  | some item =>
    obtain ⟨held, named⟩ := find_mem found
    rw [← named]
    exact find_keyed keyed ((same item named).mpr held)
  | none =>
    cases own : find key name items with
    | none => rfl
    | some item =>
      obtain ⟨held, named⟩ := find_mem own
      have missing := find?_eq_none.mp found item ((same item named).mp held)
      simp [named] at missing

theorem find_setEntry_other (keyed : Keyed key items) (apart : key item ≠ name) :
    find key name (setEntry key item items) = find key name items := by
  apply find_congr (keyed_setEntry keyed)
  rintro other rfl
  rw [mem_setEntry]
  constructor
  · rintro (rfl | ⟨held, -⟩)
    · exact absurd rfl apart
    · exact held
  · exact fun held => .inr ⟨held, Ne.symm apart⟩

/-- Entries that are kept by their values are kept before and after one is set, where the
old value under its name is kept just as the new one is. -/
theorem filter_setEntry (held : keep item = true)
    (same : ∀ other ∈ items, key other = key item → keep other = true) :
    (setEntry key item items).filter keep = setEntry key item (items.filter keep) := by
  have known : (items.filter keep).any (fun other => key other = key item) =
      items.any fun other => key other = key item := by
    rw [Bool.eq_iff_iff]
    simp only [any_eq_true, mem_filter, decide_eq_true_eq]
    constructor
    · rintro ⟨other, ⟨found, -⟩, named⟩
      exact ⟨other, found, named⟩
    · rintro ⟨other, found, named⟩
      exact ⟨other, ⟨found, same other found named⟩, named⟩
  unfold setEntry
  rw [known]
  split
  · rw [filter_map]
    congr 1
    apply filter_congr
    intro other found
    by_cases named : key other = key item
    · simp [named, held, same other found named]
    · simp [named]
  · rw [filter_append, filter_cons_of_pos held, filter_nil]

/-- Setting an entry that is not kept changes nothing of what is kept, where the old value
under its name is not kept either. -/
theorem filter_setEntry_dropped (left : keep item = false)
    (same : ∀ other ∈ items, key other = key item → keep other = false) :
    (setEntry key item items).filter keep = items.filter keep := by
  unfold setEntry
  split
  · rename_i held
    clear held
    induction items with
    | nil => rfl
    | cons first rest ih =>
      have others := ih fun other found => same other (mem_cons_of_mem first found)
      rw [map_cons]
      by_cases named : key first = key item
      · rw [if_pos named, filter_cons_of_neg (by simp [left]),
          filter_cons_of_neg (by simp [same first mem_cons_self named])]
        exact others
      · rw [if_neg named, filter_cons, filter_cons, others]
  · rw [filter_append, filter_cons_of_neg (by simp [left]), filter_nil, append_nil]

/-- The keys of a map that is filled from a list: each of them once. -/
theorem foldl_setEntry (key : β → κ) (items : List β) : ∀ merged : List β, (merged.map key).Nodup →
      ((items.foldl (fun merged item => setEntry key item merged) merged).map key).Nodup ∧
        ∀ name, name ∈ (items.foldl (fun merged item => setEntry key item merged) merged).map key ↔
          name ∈ merged.map key ∨ name ∈ items.map key := by
  have added : ∀ (item : β) (merged : List β) (name : κ),
      name ∈ (setEntry key item merged).map key ↔ name ∈ merged.map key ∨ name = key item := by
    intro item merged name
    simp only [mem_map, mem_setEntry]
    constructor
    · rintro ⟨other, rfl | ⟨held, -⟩, rfl⟩
      · exact .inr rfl
      · exact .inl ⟨other, held, rfl⟩
    · rintro (⟨other, held, rfl⟩ | rfl)
      · by_cases same : key other = key item
        · exact ⟨item, .inl rfl, same.symm⟩
        · exact ⟨other, .inr ⟨held, same⟩, rfl⟩
      · exact ⟨item, .inl rfl, rfl⟩
  induction items with
  | nil => exact fun merged distinct => ⟨distinct, fun name => by simp⟩
  | cons item rest ih =>
    intro merged distinct
    obtain ⟨kept, covers⟩ := ih (setEntry key item merged) (nodup_setEntry distinct)
    refine ⟨kept, fun name => (covers name).trans ?_⟩
    rw [added, map_cons, mem_cons, or_assoc]

/-- A map that is filled from a list has as many entries as the list exactly where the
keys of the list are distinct. -/
theorem length_foldl_setEntry (key : β → κ) (items : List β) :
    (items.foldl (fun merged item => setEntry key item merged) []).length = items.length ↔
      (items.map key).Nodup := by
  obtain ⟨distinct, keys⟩ := foldl_setEntry key items [] nodup_nil
  have alike : ((items.foldl (fun merged item => setEntry key item merged) []).map key).Perm
      (items.map key).dedup := by
    rw [perm_ext_iff_of_nodup distinct (nodup_dedup _)]
    intro name
    simp [keys name]
  have lengths := alike.length_eq
  rw [length_map] at lengths
  constructor
  · intro same
    rw [← dedup_eq_self]
    refine (dedup_sublist _).eq_of_length ?_
    rw [← lengths, same, length_map]
  · intro apart
    rw [lengths, apart.dedup, length_map]

end QiongQi.KeyedMaps
