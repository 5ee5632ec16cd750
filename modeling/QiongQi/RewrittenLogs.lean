import Mathlib.Data.List.Dedup
import Mathlib.Data.List.Induction
import Mathlib.Data.List.Perm.Basic
import QiongQi.KeyedMaps

/-! Logs in which a later line replaces an earlier one with the same key: the value a
key has in the end, and the two orders in which the keys can be listed, by their first
lines and by their last. -/
namespace QiongQi.RewrittenLogs
open Machines KeyedMaps List

variable {α κ : Type} [DecidableEq κ]

/-- The last line with the key. -/
def latest (key : α → κ) (log : List α) (name : κ) : Option α :=
  log.reverse.find? fun line => key line = name

/-- Each key once, in the order of their last lines. -/
def byLast (keys : List κ) : List κ := keys.dedup

/-- Each key once, in the order of their first lines. -/
def byFirst (keys : List κ) : List κ := keys.reverse.dedup.reverse

/-- Of two keys, the one whose first line comes first has its last line first, too. -/
def LinesInOrder (keys : List κ) : Prop :=
  ∀ left ∈ keys, ∀ right ∈ keys, keys.idxOf left < keys.idxOf right →
    keys.reverse.idxOf right < keys.reverse.idxOf left

instance (keys : List κ) : Decidable (LinesInOrder keys) :=
  inferInstanceAs (Decidable (∀ left ∈ keys, ∀ right ∈ keys,
    keys.idxOf left < keys.idxOf right → keys.reverse.idxOf right < keys.reverse.idxOf left))

variable {name : κ} {log : List α}

@[simp] theorem mem_byLast {keys : List κ} : name ∈ byLast keys ↔ name ∈ keys :=
  mem_dedup

@[simp] theorem mem_byFirst {keys : List κ} : name ∈ byFirst keys ↔ name ∈ keys := by
  simp [byFirst]

theorem nodup_byLast (keys : List κ) : (byLast keys).Nodup := nodup_dedup keys

theorem nodup_byFirst (keys : List κ) : (byFirst keys).Nodup :=
  nodup_reverse.mpr (nodup_dedup keys.reverse)

theorem byFirst_append (keys : List κ) (name : κ) :
    byFirst (keys ++ [name]) = if name ∈ keys then byFirst keys else byFirst keys ++ [name] := by
  unfold byFirst
  rw [reverse_append, reverse_singleton, singleton_append]
  by_cases known : name ∈ keys
  · rw [dedup_cons_of_mem (mem_reverse.mpr known), if_pos known]
  · rw [dedup_cons_of_notMem fun found => known (mem_reverse.mp found), if_neg known, reverse_cons]

private theorem byLast_positions (keys : List κ) :
    (byLast keys).Pairwise fun left right =>
      keys.reverse.idxOf right < keys.reverse.idxOf left := by
  induction keys with
  | nil => exact List.Pairwise.nil
  | cons name rest ih =>
    have kept : ∀ {key : κ}, key ∈ rest → (name :: rest).reverse.idxOf key = rest.reverse.idxOf key := by
      intro key found
      rw [reverse_cons]
      exact idxOf_append_of_mem (mem_reverse.mpr found)
    have carried : (byLast rest).Pairwise fun left right =>
        (name :: rest).reverse.idxOf right < (name :: rest).reverse.idxOf left := by
      refine ih.imp_of_mem fun {left right} foundLeft foundRight before => ?_
      rw [kept (mem_byLast.mp foundLeft), kept (mem_byLast.mp foundRight)]
      exact before
    by_cases known : name ∈ rest
    · rw [byLast, dedup_cons_of_mem known]
      exact carried
    · rw [byLast, dedup_cons_of_notMem known]
      refine pairwise_cons.mpr ⟨fun key found => ?_, carried⟩
      have found : key ∈ rest := mem_byLast.mp found
      rw [kept found]
      have within := idxOf_lt_length_of_mem (mem_reverse.mpr found)
      have beyond : (name :: rest).reverse.idxOf name = rest.reverse.length := by
        rw [reverse_cons, idxOf_append_of_notMem fun found =>
          known (mem_reverse.mp found)]
        simp
      omega

private theorem byFirst_positions (keys : List κ) :
    (byFirst keys).Pairwise fun left right => keys.idxOf left < keys.idxOf right := by
  have reversed := byLast_positions keys.reverse
  rw [reverse_reverse] at reversed
  exact pairwise_reverse.mpr reversed

theorem byFirst_perm_byLast (keys : List κ) : (byFirst keys).Perm (byLast keys) := by
  apply (perm_ext_iff_of_nodup (nodup_byFirst keys) (nodup_byLast keys)).mpr
  intro name
  simp

omit [DecidableEq κ] in
private theorem before_in {items : List κ} {rank : κ → ℕ}
    (ranked : items.Pairwise fun left right => rank left < rank right) {relation : κ → κ → Prop}
    (related : items.Pairwise relation) {left right : κ} (foundLeft : left ∈ items)
    (foundRight : right ∈ items) (before : rank left < rank right) : relation left right := by
  induction items with
  | nil => cases foundLeft
  | cons first rest ih =>
    obtain ⟨firstRanked, restRanked⟩ := pairwise_cons.mp ranked
    obtain ⟨firstRelated, restRelated⟩ := pairwise_cons.mp related
    rcases mem_cons.mp foundLeft with rfl | heldLeft
    · rcases mem_cons.mp foundRight with rfl | heldRight
      · omega
      · exact firstRelated right heldRight
    · rcases mem_cons.mp foundRight with rfl | heldRight
      · have := firstRanked left heldLeft
        omega
      · exact ih restRanked restRelated heldLeft heldRight

/-- The two orders are one exactly when lines are rewritten in the order in which they
were first written. -/
theorem byFirst_eq_byLast_iff (keys : List κ) : byFirst keys = byLast keys ↔ LinesInOrder keys := by
  constructor
  · intro same left foundLeft right foundRight before
    have positions := byLast_positions keys
    rw [← same] at positions
    exact before_in (byFirst_positions keys) positions (mem_byFirst.mpr foundLeft)
      (mem_byFirst.mpr foundRight) before
  · intro inOrder
    have positions : (byFirst keys).Pairwise fun left right =>
        keys.reverse.idxOf right < keys.reverse.idxOf left := by
      refine (byFirst_positions keys).imp_of_mem fun {left right} foundLeft foundRight before => ?_
      exact inOrder left (mem_byFirst.mp foundLeft) right (mem_byFirst.mp foundRight) before
    refine List.Perm.eq_of_pairwise ?_ positions (byLast_positions keys) (byFirst_perm_byLast keys)
    intro left right _ _ before after
    omega

variable {key : α → κ}

theorem latest_key (found : latest key log name = some line) : key line = name := by
  simpa using find?_some found

theorem latest_append (log : List α) (line : α) (name : κ) :
    latest key (log ++ [line]) name = if key line = name then some line else latest key log name := by
  unfold latest
  rw [reverse_append, reverse_singleton, singleton_append, find?_cons]
  by_cases same : key line = name
  · simp [same]
  · simp [same]

theorem latest_append_list (before after : List α) (name : κ) :
    latest key (before ++ after) name = (latest key after name).or (latest key before name) := by
  unfold latest
  rw [reverse_append, find?_append]

theorem latest_isSome (found : name ∈ log.map key) : (latest key log name).isSome = true := by
  obtain ⟨line, held, same⟩ := mem_map.mp found
  refine find?_isSome.mpr ⟨line, mem_reverse.mpr held, ?_⟩
  simpa using same

theorem latest_isSome_iff : (latest key log name).isSome = true ↔ name ∈ log.map key := by
  constructor
  · intro some
    obtain ⟨line, found⟩ := Option.isSome_iff_exists.mp some
    have held := mem_reverse.mp (mem_of_find?_eq_some found)
    exact mem_map.mpr ⟨line, held, latest_key found⟩
  · exact latest_isSome

theorem keys_of_latest {names : List κ} (known : ∀ name ∈ names, name ∈ log.map key) :
    (names.filterMap (latest key log)).map key = names := by
  induction names with
  | nil => rfl
  | cons name rest ih =>
    obtain ⟨line, found⟩ :=
      Option.isSome_iff_exists.mp (latest_isSome (known name mem_cons_self))
    rw [filterMap_cons_some found, map_cons, latest_key found,
      ih fun other held => known other (mem_cons_of_mem _ held)]

/-- The last line of each key, the keys by their first lines. -/
def contents (key : α → κ) (log : List α) : List α :=
  (byFirst (log.map key)).filterMap (latest key log)

/-- A new line takes the place of the last one with its key, or comes last. -/
theorem contents_append (log : List α) (line : α) :
    contents key (log ++ [line]) = setEntry key line (contents key log) := by
  have replaced : ∀ names : List κ, (∀ name ∈ names, name ∈ log.map key) →
      names.filterMap (latest key (log ++ [line])) = (names.filterMap (latest key log)).map fun other =>
          if key other = key line then line else other := by
    intro names known
    induction names with
    | nil => rfl
    | cons name rest ih =>
      obtain ⟨old, found⟩ :=
        Option.isSome_iff_exists.mp (latest_isSome (known name mem_cons_self))
      have others := ih fun other held => known other (mem_cons_of_mem _ held)
      rw [filterMap_cons_some found, map_cons, ← others]
      have named := latest_key found
      by_cases same : key line = name
      · rw [filterMap_cons_some (by rw [latest_append, if_pos same]), if_pos (named.trans same.symm)]
      · rw [filterMap_cons_some (by rw [latest_append, if_neg same, found]),
          if_neg (fun here => same (here.symm.trans named))]
  have listed : (contents key log).map key = byFirst (log.map key) :=
    keys_of_latest fun _ found => mem_byFirst.mp found
  have held : (contents key log).any (fun other => key other = key line) = true ↔ key line ∈ log.map key := by
    rw [← mem_byFirst, ← listed]
    simp
  unfold setEntry
  by_cases known : key line ∈ log.map key
  · rw [if_pos (held.mpr known), contents, map_append, map_singleton, byFirst_append, if_pos known]
    exact replaced _ fun _ found => mem_byFirst.mp found
  · rw [if_neg (fun found => known (held.mp found)), contents, map_append, map_singleton,
      byFirst_append, if_neg known, filterMap_append,
      replaced _ fun _ found => mem_byFirst.mp found]
    congr 1
    · rw [map_congr_left, map_id]
      · rfl
      · intro other found
        have apart : key other ≠ key line := by
          intro same
          exact known (held.mp (any_eq_true.mpr ⟨other, found, by simpa using same⟩))
        simp [apart]
    · simp [latest_append]

theorem keyed_contents (log : List α) : Keyed key (contents key log) := by
  induction log using List.reverseRecOn with
  | nil => exact fun _ held => by cases held
  | append_singleton before line ih =>
    rw [contents_append]
    exact keyed_setEntry ih

theorem find_contents (log : List α) (name : κ) :
    find key name (contents key log) = latest key log name := by
  induction log using List.reverseRecOn with
  | nil => rfl
  | append_singleton before line ih =>
    rw [contents_append, latest_append]
    by_cases same : key line = name
    · rw [if_pos same, ← same]
      exact find_setEntry_self line (keyed_contents before)
    · rw [if_neg same, find_setEntry_other (keyed_contents before) same]
      exact ih

theorem keys_contents (log : List α) : (contents key log).map key = byFirst (log.map key) :=
  keys_of_latest fun _ found => mem_byFirst.mp found

theorem mem_keys_contents : name ∈ (contents key log).map key ↔ name ∈ log.map key := by
  rw [keys_contents, mem_byFirst]

theorem mem_contents (found : latest key log name = some line) : line ∈ contents key log := by
  rw [← find_contents] at found
  exact (find_mem found).1

theorem contents_nodup (distinct : (log.map key).Nodup) : contents key log = log := by
  induction log using List.reverseRecOn with
  | nil => rfl
  | append_singleton before line ih =>
    rw [map_append, nodup_append] at distinct
    obtain ⟨front, -, apart⟩ := distinct
    have absent : ¬ before.any (fun other => key other = key line) = true := by
      intro found
      obtain ⟨other, held, same⟩ := any_eq_true.mp found
      exact apart _ (mem_map_of_mem held) _ mem_cons_self (of_decide_eq_true same)
    rw [contents_append, ih front, setEntry, if_neg absent]

theorem contents_rewritten :
    contents key (contents key log ++ more) = contents key (log ++ more) := by
  induction more using List.reverseRecOn with
  | nil =>
    rw [append_nil, append_nil]
    refine contents_nodup ?_
    rw [keys_contents]
    exact nodup_byFirst _
  | append_singleton more line ih =>
    rw [← append_assoc, ← append_assoc, contents_append, contents_append, ih]

/-- Lines that are kept by their keys leave the contents that have these keys. -/
theorem contents_filter
    (alike : ∀ line ∈ log, ∀ other ∈ log, key line = key other → keep line = keep other) :
    contents key (log.filter keep) = (contents key log).filter keep := by
  induction log using List.reverseRecOn with
  | nil => rfl
  | append_singleton before line ih =>
    have earlier := ih fun first found other foundOther =>
      alike first (mem_append_left _ found) other (mem_append_left _ foundOther)
    have same : ∀ other ∈ contents key before, key other = key line → keep other = keep line := by
      intro other found named
      obtain ⟨name, -, held⟩ := mem_filterMap.mp found
      have written := mem_reverse.mp (mem_of_find?_eq_some held)
      exact alike other (mem_append_left _ written) line (by simp) named
    rw [filter_append, contents_append]
    cases held : keep line with
    | true =>
      rw [filter_cons_of_pos held, filter_nil, contents_append, earlier,
        filter_setEntry held fun other found named => (same other found named).trans held]
    | false =>
      rw [filter_cons_of_neg (by simp [held]), filter_nil, append_nil, earlier,
        filter_setEntry_dropped held fun other found named => (same other found named).trans held]

end QiongQi.RewrittenLogs
