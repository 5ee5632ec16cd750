import QiongQi.KeyedMaps

/-! A bounded store by how recently its entries were used: the last one that was used comes first,
and what exceeds the limit at the end is given up. A map in the order of its insertions is such a
list backwards when it sets each used entry again. -/
namespace QiongQi.RecencyLists
open KeyedMaps Machines List

variable {κ β : Type} [DecidableEq κ] {items : List (κ × β)}

/-- An entry that is there is the most recent now. -/
def touch (name : κ) (items : List (κ × β)) : List (κ × β) :=
  (find Prod.fst name items).toList ++ drop Prod.fst name items

/-- A new entry replaces that of its name and is the most recent. -/
def record (limit : ℕ) (item : κ × β) (items : List (κ × β)) : List (κ × β) :=
  (item :: drop Prod.fst item.1 items).take limit

theorem drop_reverse : drop Prod.fst name items.reverse = (drop Prod.fst name items).reverse :=
  filter_reverse

omit [DecidableEq κ] in
theorem apart_of_absent (absent : name ∉ items.map Prod.fst) (held : item ∈ items) :
    item.1 ≠ name := by
  rintro rfl
  exact absent (mem_map_of_mem held)

theorem drop_absent (absent : name ∉ items.map Prod.fst) : drop Prod.fst name items = items := by
  refine filter_eq_self.mpr fun item held => ?_
  simpa using apart_of_absent absent held

theorem keys_drop_nodup (distinct : (items.map Prod.fst).Nodup) :
    ((drop Prod.fst name items).map Prod.fst).Nodup :=
  distinct.sublist (filter_sublist.map _)

theorem name_notMem_drop : name ∉ (drop Prod.fst name items).map Prod.fst := by
  rintro held
  obtain ⟨item, inside, same⟩ := mem_map.mp held
  exact (mem_drop.mp inside).2 same

theorem length_drop_lt (held : name ∈ items.map Prod.fst) :
    (drop Prod.fst name items).length < items.length := by
  obtain ⟨item, inside, same⟩ := mem_map.mp held
  exact length_filter_lt_length_iff_exists.mpr ⟨item, inside, by simpa using same⟩

theorem setEntry_absent (absent : name ∉ items.map Prod.fst) :
    setEntry Prod.fst (name, value) items = items ++ [(name, value)] := by
  refine if_neg ?_
  simp only [any_eq_true, decide_eq_true_eq, not_exists, not_and]
  exact fun other held => apart_of_absent absent held

omit [DecidableEq κ] in
theorem keys_append_nodup (distinct : (items.map Prod.fst).Nodup)
    (absent : name ∉ items.map Prod.fst) : ((items ++ [(name, value)]).map Prod.fst).Nodup := by
  rw [map_append, map_singleton, ← concat_eq_append]
  exact distinct.concat absent

theorem find_reverse (distinct : (items.map Prod.fst).Nodup) :
    find Prod.fst name items.reverse = find Prod.fst name items := by
  refine find_congr (fun left one right two same => ?_) fun item _ => mem_reverse
  exact inj_on_of_nodup_map distinct (mem_reverse.mp one) (mem_reverse.mp two) same

theorem touch_reverse (distinct : (items.map Prod.fst).Nodup)
    (held : find Prod.fst name items = some item) :
    (drop Prod.fst name items ++ [item]).reverse = touch name items.reverse := by
  rw [touch, find_reverse distinct, held, drop_reverse, reverse_append]
  rfl

theorem drop_touch : drop Prod.fst name (touch name items) = drop Prod.fst name items := by
  have found : drop Prod.fst name (find Prod.fst name items).toList = [] := by
    refine filter_eq_nil_iff.mpr fun item held => ?_
    simpa using (find_mem (Option.mem_toList.mp held)).2
  unfold touch Machines.drop at *
  rw [filter_append, found, nil_append, filter_filter]
  simp

theorem touch_absent (absent : name ∉ items.map Prod.fst) : touch name items = items := by
  have missing : find Prod.fst name items = none := by
    refine find?_eq_none.mpr fun item held => ?_
    simpa using apart_of_absent absent held
  rw [touch, missing, drop_absent absent]
  rfl

/-- Where an entry of the name gives way or the limit is not reached, nothing else is given up. -/
theorem record_reverse (room : (drop Prod.fst name items).length < limit) :
    (drop Prod.fst name items ++ [(name, value)]).reverse =
      record limit (name, value) items.reverse := by
  rw [record, drop_reverse, reverse_append]
  exact (take_of_length_le (Nat.succ_le_of_lt (by simpa using room))).symm

/-- At the limit the first entry of the map is given up. -/
theorem record_reverse_full (absent : name ∉ (oldest :: items).map Prod.fst)
    (full : (oldest :: items).length = limit) :
    (items ++ [(name, value)]).reverse = record limit (name, value) (oldest :: items).reverse := by
  rw [record, drop_reverse, drop_absent absent, ← full, reverse_append, reverse_cons]
  simp

end QiongQi.RecencyLists
