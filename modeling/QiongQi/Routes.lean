import Mathlib.Data.Set.Insert
import Mathlib.Data.List.Nodup

/-! Routes in a graph whose nodes list their outgoing edges in an order: the nodes a route
passes, what can be reached around some nodes, and the route that comes first. -/
namespace QiongQi.Routes
open List hiding after insert

variable {α ε : Type*} (edgesOf : α → List ε) (target : ε → α)

/-- Where the edges lead from a node. -/
def endOf (start : α) (route : List ε) : α :=
  (route.getLast?.map target).getD start

/-- The nodes on the way, the first one included. -/
def nodesOf (start : α) (route : List ε) : List α :=
  start :: route.map target

inductive Route : α → List ε → α → Prop
  | nil (node : α) : Route node [] node
  | cons {node finish : α} {edge : ε} {route : List ε} (listed : edge ∈ edgesOf node)
      (rest : Route (target edge) route finish) : Route node (edge :: route) finish

/-- The finish can be reached without a node that is to be avoided. -/
def Reaches (avoided : Set α) (start finish : α) : Prop :=
  ∃ route, Route edgesOf target start route finish ∧ ∀ node ∈ nodesOf target start route, node ∉ avoided

/-- The first route around some nodes: at each node it takes the first edge from which its
finish can still be reached without coming back to a node that it has passed. -/
inductive First : Set α → α → List ε → α → Prop
  | nil (avoided : Set α) (node : α) : First avoided node [] node
  | cons {avoided : Set α} {node finish : α} {before after : List ε} {edge : ε} {route : List ε}
      (onwards : node ≠ finish) (listed : edgesOf node = before ++ edge :: after)
      (free : target edge ∉ insert node avoided)
      (earliest : ∀ other ∈ before, ¬ Reaches edgesOf target (insert node avoided) (target other) finish)
      (rest : First (insert node avoided) (target edge) route finish) :
      First avoided node (edge :: route) finish

/-- The first of all routes that begin at a root: it begins at the first root from which its
finish can be reached. -/
def FirstFrom (roots : List α) (root : α) (route : List ε) (finish : α) : Prop :=
  ∃ before after, roots = before ++ root :: after ∧
    (∀ other ∈ before, ¬ Reaches edgesOf target ∅ other finish) ∧
    First edgesOf target ∅ root route finish

variable {edgesOf target}

theorem endOf_cons : endOf target start (edge :: route) = endOf target (target edge) route := by
  cases route with
  | nil => rfl
  | cons next rest => simp [endOf, getLast?_cons]

theorem nodesOf_append :
    nodesOf target start (route ++ further) = nodesOf target start route ++ further.map target := by
  simp [nodesOf]

theorem endOf_mem : endOf target start route ∈ nodesOf target start route := by
  induction route generalizing start with
  | nil => exact mem_singleton_self start
  | cons edge rest ih =>
    rw [endOf_cons]
    exact mem_cons_of_mem _ ih

/-- The node after the first few edges is the node at that place. -/
theorem getElem?_nodesOf (index : Nat) (within : index ≤ route.length) :
    (nodesOf target start route)[index]? = some (endOf target start (route.take index)) := by
  induction route generalizing start index with
  | nil =>
    have none : index = 0 := Nat.le_zero.mp within
    subst none
    rfl
  | cons edge rest ih =>
    cases index with
    | zero => rfl
    | succ index =>
      rw [take_succ_cons, endOf_cons]
      exact ih index (Nat.le_of_succ_le_succ within)

theorem Route.end_eq (walked : Route edgesOf target start route finish) :
    endOf target start route = finish := by
  induction walked with
  | nil node => rfl
  | cons listed rest ih => rw [endOf_cons, ih]

theorem Route.append (first : Route edgesOf target start route middle)
    (second : Route edgesOf target middle further finish) :
    Route edgesOf target start (route ++ further) finish := by
  induction first with
  | nil node => exact second
  | cons listed rest ih => exact .cons listed (ih second)

theorem Route.single (listed : edge ∈ edgesOf start) :
    Route edgesOf target start [edge] (target edge) :=
  .cons listed (.nil _)

theorem Route.split (walked : Route edgesOf target start (route ++ further) finish) :
    Route edgesOf target start route (endOf target start route) ∧
      Route edgesOf target (endOf target start route) further finish := by
  induction route generalizing start with
  | nil => exact ⟨.nil start, walked⟩
  | cons edge rest ih =>
    cases walked with
    | cons listed walked =>
      rw [endOf_cons]
      exact ⟨.cons listed (ih walked).1, (ih walked).2⟩

theorem reaches_self (free : node ∉ avoided) : Reaches edgesOf target avoided node node :=
  ⟨[], .nil node, fun other found => by rwa [mem_singleton.mp found]⟩

theorem Reaches.start_free (reached : Reaches edgesOf target avoided start finish) :
    start ∉ avoided := by
  obtain ⟨route, _, free⟩ := reached
  exact free start mem_cons_self

theorem Reaches.finish_free (reached : Reaches edgesOf target avoided start finish) :
    finish ∉ avoided := by
  obtain ⟨route, walked, free⟩ := reached
  exact free finish (walked.end_eq ▸ endOf_mem)

theorem Reaches.step {edge : ε} (free : node ∉ avoided) (listed : edge ∈ edgesOf node)
    (reached : Reaches edgesOf target avoided (target edge) finish) :
    Reaches edgesOf target avoided node finish := by
  obtain ⟨route, walked, apart⟩ := reached
  refine ⟨edge :: route, .cons listed walked, fun other found => ?_⟩
  rcases mem_cons.mp found with rfl | found
  · exact free
  · exact apart other found

theorem Reaches.extend (reached : Reaches edgesOf target avoided start node)
    (listed : edge ∈ edgesOf node) (free : target edge ∉ avoided) :
    Reaches edgesOf target avoided start (target edge) := by
  obtain ⟨route, walked, apart⟩ := reached
  refine ⟨route ++ [edge], walked.append (.single listed), fun other found => ?_⟩
  rw [nodesOf_append] at found
  rcases mem_append.mp found with found | found
  · exact apart other found
  · rwa [mem_singleton.mp found]

theorem Reaches.fewer (fewer : smaller ⊆ avoided) (reached : Reaches edgesOf target avoided start finish) :
    Reaches edgesOf target smaller start finish := by
  obtain ⟨route, walked, free⟩ := reached
  exact ⟨route, walked, fun node found inside => free node found (fewer inside)⟩

theorem Reaches.stays {visited : Set α} (closed : ∀ node ∈ visited, ∀ edge ∈ edgesOf node,
      target edge ∈ visited ∨ target edge ∈ avoided)
    (inside : start ∈ visited) (reached : Reaches edgesOf target avoided start finish) :
    finish ∈ visited := by
  obtain ⟨route, walked, free⟩ := reached
  induction walked with
  | nil node => exact inside
  | @cons node finish edge route listed rest ih =>
    have further : target edge ∉ avoided :=
      free _ (mem_cons_of_mem _ mem_cons_self)
    refine ih ?_ fun other found => free other (mem_cons_of_mem _ found)
    exact (closed node inside edge listed).resolve_right further

private theorem Route.leaves (walked : Route edgesOf target start route finish)
    (apart : node ≠ finish) (free : ∀ other ∈ nodesOf target start route, other ∉ avoided) :
    (∃ edge ∈ edgesOf node, Reaches edgesOf target (insert node avoided) (target edge) finish) ∨
      Reaches edgesOf target (insert node avoided) start finish := by
  induction walked with
  | nil last =>
    refine .inr (reaches_self ?_)
    rintro (rfl | inside)
    · exact apart rfl
    · exact free _ mem_cons_self inside
  | @cons start finish edge route listed rest ih =>
    rcases ih apart fun other found => free other (mem_cons_of_mem _ found) with
      done | around
    · exact .inl done
    · by_cases here : start = node
      · subst here
        exact .inl ⟨edge, listed, around⟩
      · refine .inr (around.step ?_ listed)
        rintro (same | inside)
        · exact here same
        · exact free _ mem_cons_self inside

/-- A way from a node to another one need not come back to the node: it goes on from one of
its edges around it. -/
theorem Reaches.leaves (apart : node ≠ finish) (reached : Reaches edgesOf target avoided node finish) :
    ∃ edge ∈ edgesOf node, Reaches edgesOf target (insert node avoided) (target edge) finish := by
  obtain ⟨route, walked, free⟩ := reached
  rcases walked.leaves apart free with done | around
  · exact done
  · exact absurd (Set.mem_insert node avoided) around.start_free

theorem First.walked (first : First edgesOf target avoided start route finish) :
    Route edgesOf target start route finish := by
  induction first with
  | nil avoided node => exact .nil node
  | cons onwards listed free earliest rest ih =>
    refine .cons ?_ ih
    rw [listed]
    exact mem_append_right _ mem_cons_self

theorem First.reaches (free : start ∉ avoided) (first : First edgesOf target avoided start route finish) :
    Reaches edgesOf target avoided start finish := by
  induction first with
  | nil avoided node => exact reaches_self free
  | cons onwards listed further earliest rest ih =>
    refine Reaches.step free ?_ ((ih further).fewer (Set.subset_insert _ _))
    rw [listed]
    exact mem_append_right _ mem_cons_self

end QiongQi.Routes
