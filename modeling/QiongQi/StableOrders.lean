import Mathlib.Data.Set.Finite.Basic
import Mathlib.Data.Fintype.Card
import Mathlib.Data.List.Lemmas
import Mathlib.Data.List.Lex
import Mathlib.Logic.Relation
import Mathlib.Order.WellFounded

/-! Orders of a list that keep to a relation and otherwise to the places of the list: each time the
first node goes next before which everything is done. It is the least of all such orders, place by
place, and it comes to a stop only at a cycle. -/
namespace QiongQi.StableOrders
open List

section
variable {α : Type*} [DecidableEq α] (nodes : List α) (before : α → α → Prop) [DecidableRel before]

/-- The nodes that can go next, in their order. -/
def available (done : List α) : List α :=
  nodes.filter fun node => node ∉ done ∧ ∀ other ∈ nodes, before other node → other ∈ done

/-- Each node was the first that could go. -/
inductive Picked : List α → Prop
  | start : Picked []
  | next {done node} (picked : Picked done)
      (first : (available nodes before done).head? = some node) : Picked (done ++ [node])

/-- Every node comes after those before it. -/
def Keeps (order : List α) : Prop :=
  ∀ one ∈ nodes, ∀ two ∈ nodes, before one two → order.idxOf one < order.idxOf two

def places (order : List α) : List Nat := order.map fun node => nodes.idxOf node

variable {nodes before}
variable {done order : List α}

theorem mem_available : node ∈ available nodes before done ↔
      node ∈ nodes ∧ node ∉ done ∧ ∀ other ∈ nodes, before other node → other ∈ done := by
  rw [available, mem_filter, decide_eq_true_eq]

theorem pairwise_places (distinct : nodes.Nodup) :
    nodes.Pairwise fun one two => nodes.idxOf one < nodes.idxOf two := by
  rw [pairwise_iff_getElem]
  intro i j low high less
  rw [distinct.idxOf_getElem, distinct.idxOf_getElem]
  exact less

theorem available_sorted (distinct : nodes.Nodup) (done : List α) :
    (available nodes before done).Pairwise fun one two => nodes.idxOf one < nodes.idxOf two :=
  (pairwise_places distinct).filter _

namespace Picked

section
variable {done : List α} (picked : Picked nodes before done)
include picked

theorem mem : ∀ node ∈ done, node ∈ nodes := by
  induction picked with
  | start => exact nofun
  | next _ first ih =>
    refine forall_mem_append.mpr ⟨ih, forall_mem_singleton.mpr ?_⟩
    exact (mem_available.mp (mem_of_head? first)).1

theorem nodup : done.Nodup := by
  induction picked with
  | start => exact .nil
  | next _ first ih =>
    rw [← concat_eq_append]
    exact ih.concat (mem_available.mp (mem_of_head? first)).2.1

/-- What is before a node that is done is done earlier. -/
theorem earlier (known : one ∈ nodes) (finished : two ∈ done) (edge : before one two) :
    one ∈ done ∧ done.idxOf one < done.idxOf two := by
  induction picked with
  | start => cases finished
  | @next done node _ first ih =>
    obtain ⟨-, fresh, ready⟩ := mem_available.mp (mem_of_head? first)
    obtain held | last := mem_append.mp finished
    · obtain ⟨inside, less⟩ := ih held
      refine ⟨mem_append_left _ inside, ?_⟩
      rwa [idxOf_append_of_mem inside, idxOf_append_of_mem held]
    · obtain rfl := mem_singleton.mp last
      have inside := ready one known edge
      refine ⟨mem_append_left _ inside, ?_⟩
      rw [idxOf_append_of_mem inside, idxOf_append_of_notMem fresh]
      exact Nat.lt_of_lt_of_le (idxOf_lt_length_of_mem inside) (Nat.le_add_right _ _)

end

theorem split (picked : Picked nodes before (front ++ back)) : Picked nodes before front := by
  induction back using List.reverseRecOn with
  | nil => rwa [append_nil] at picked
  | append_singleton back node ih =>
    rw [← append_assoc] at picked
    apply ih
    generalize whole : front ++ back ++ [node] = order at picked
    cases picked with
    | start => simp at whole
    | next picked first =>
      obtain ⟨same, -⟩ := append_inj' whole rfl
      rwa [same]

theorem first {front back : List α} {node : α} (picked : Picked nodes before (front ++ node :: back)) :
    (available nodes before front).head? = some node := by
  rw [append_cons] at picked
  have picked := picked.split
  generalize whole : front ++ [node] = order at picked
  cases picked with
  | start => simp at whole
  | next picked first =>
    obtain ⟨rfl, last⟩ := append_inj' whole rfl
    obtain rfl := singleton_inj.mp last
    exact first

end Picked

theorem exists_available (acyclic : ∀ node, ¬ Relation.TransGen before node node)
    (known : left ∈ nodes) (open_ : left ∉ done) : available nodes before done ≠ [] := by
  let reaches : {node // node ∈ nodes} → {node // node ∈ nodes} → Prop :=
    fun one two => Relation.TransGen before one two
  have : Finite {node // node ∈ nodes} := (finite_toSet nodes).to_subtype
  have : IsTrans _ reaches := ⟨fun _ _ _ => Relation.TransGen.trans⟩
  have : Std.Irrefl reaches := ⟨fun node => acyclic node⟩
  have founded := Finite.wellFounded_of_trans_of_irrefl reaches
  obtain ⟨⟨least, inside⟩, fresh, minimal⟩ :=
    founded.has_min {node | node.1 ∉ done} ⟨⟨left, known⟩, open_⟩
  have ready : least ∈ available nodes before done := by
    refine mem_available.mpr ⟨inside, fresh, fun other member edge => ?_⟩
    by_contra missing
    exact minimal ⟨other, member⟩ missing (.single edge)
  exact ne_nil_of_mem ready

theorem perm_of_stuck (distinct : nodes.Nodup)
    (acyclic : ∀ node, ¬ Relation.TransGen before node node) (picked : Picked nodes before done)
    (stuck : available nodes before done = []) : done.Perm nodes := by
  rw [perm_ext_iff_of_nodup picked.nodup distinct]
  refine fun node => ⟨picked.mem node, fun known => ?_⟩
  by_contra open_
  exact exists_available acyclic known open_ stuck

theorem keeps_of_picked (picked : Picked nodes before order) (whole : order.Perm nodes) :
    Keeps nodes before order :=
  fun _ known _ other edge => (picked.earlier known (whole.mem_iff.mpr other) edge).2

/-- The nodes in their order as far as the relation leaves a choice. -/
theorem places_le (distinct : nodes.Nodup) (picked : Picked nodes before order)
    (whole : order.Perm nodes) (another : other.Perm nodes) (keeps : Keeps nodes before other) :
    places nodes order ≤ places nodes other := by
  -- By induction on what follows the part that the two have in common.
  have after : ∀ rest front more, order = front ++ rest → other = front ++ more →
      places nodes rest ≤ places nodes more := by
    intro rest
    induction rest with
    | nil => exact fun front more _ _ => not_lt.mp (not_lt_nil _)
    | cons node rest ih =>
      intro front more here there
      have length := whole.length_eq.trans another.length_eq.symm
      rw [here, there, length_append, length_append] at length
      cases more with
      | nil => simp at length
      | cons node' more =>
        rw [here] at picked
        have first := picked.first
        have fresh : node' ∉ front := by
          have distinct' := another.nodup_iff.mpr distinct
          rw [there] at distinct'
          exact fun held => (nodup_append.mp distinct').2.2 node' held node' mem_cons_self rfl
        have ready : node' ∈ available nodes before front := by
          refine mem_available.mpr ⟨another.mem_iff.mp (by rw [there]; simp), fresh, ?_⟩
          intro one known edge
          have less := keeps one known node' (another.mem_iff.mp (by rw [there]; simp)) edge
          rw [there, idxOf_append_of_notMem fresh, idxOf_cons_self] at less
          by_contra missing
          rw [idxOf_append_of_notMem missing] at less
          omega
        obtain ⟨later, starts⟩ := head?_eq_some_iff.mp first
        rw [places, places, map_cons, map_cons]
        rw [starts] at ready
        obtain rfl | behind := mem_cons.mp ready
        · exact cons_le_cons _ (ih (front ++ [node']) more (by simp [here]) (by simp [there]))
        · have sorted : (available nodes before front).Pairwise _ := available_sorted distinct front
          rw [starts] at sorted
          exact le_of_lt (.rel (rel_of_pairwise_cons sorted behind))
  exact after order [] other rfl rfl

omit [DecidableRel before] in
theorem acyclic_of_keeps (known : ∀ one two, before one two → one ∈ nodes ∧ two ∈ nodes)
    (keeps : Keeps nodes before order) (node : α) : ¬ Relation.TransGen before node node := by
  have climbs : ∀ {one two}, Relation.TransGen before one two → order.idxOf one < order.idxOf two := by
    intro one two path
    induction path with
    | single edge =>
      obtain ⟨first, second⟩ := known _ _ edge
      exact keeps _ first _ second edge
    | tail _ edge ih =>
      obtain ⟨first, second⟩ := known _ _ edge
      exact ih.trans (keeps _ first _ second edge)
  exact fun path => Nat.lt_irrefl _ (climbs path)

end

end QiongQi.StableOrders
