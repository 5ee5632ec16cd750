import Mathlib.Data.List.Perm.Subperm
import QiongQi.ExecutionGraphs
import QiongQi.Routes

/-! Which graphs `validateExecutionGraph` accepts. Its search looks at one cycle for each edge
that leads back to a node being visited: the way by which the search came to the end of that
edge, and the edge itself. -/
namespace QiongQi.GraphCycles
open RuntimeContracts ExecutionGraphs Routes
open List hiding after

def edgesFrom (graph : ExecutionGraph) (nodeId : String) : List RuntimeEdge :=
  graph.edges.filter fun edge => edge.from_ = nodeId

def nodeIds (graph : ExecutionGraph) : List String :=
  graph.nodes.map RuntimeNode.id

/-- A way through the graph from a node back to it. -/
def Cycle (graph : ExecutionGraph) (cycle : List RuntimeEdge) : Prop :=
  cycle ≠ [] ∧ ∃ nodeId, Route (edgesFrom graph) RuntimeEdge.to_ nodeId cycle nodeId

def Unmarked (cycle : List RuntimeEdge) : Prop :=
  ∀ edge ∈ cycle, edge.loop = false

/-- The edge leads from the end of the route back to a node on it, and neither the way from
there nor the edge is marked. -/
def Closes (root : String) (route : List RuntimeEdge) (edge : RuntimeEdge) : Prop :=
  ∃ before cycle, route = before ++ cycle ∧ endOf RuntimeEdge.to_ root before = edge.to_ ∧
    Unmarked (cycle ++ [edge])

/-- A cycle that is the end of the first route to a node and an edge of that node. -/
def OnFirstRoute (graph : ExecutionGraph) (cycle : List RuntimeEdge) : Prop :=
  ∃ root before along edge nodeId,
    FirstFrom (edgesFrom graph) RuntimeEdge.to_ (nodeIds graph) root (before ++ along) nodeId ∧
    edge ∈ edgesFrom graph nodeId ∧ endOf RuntimeEdge.to_ root before = edge.to_ ∧
    cycle = along ++ [edge]

/-- What the other checks ask of a graph: a version, node ids that are there and distinct, a
start node among them, and edges between known nodes under registered conditions. -/
structure WellFormed (graph : ExecutionGraph) : Prop where
  versioned : jsTrim graph.version ≠ ""
  named : ∀ node ∈ graph.nodes, jsTrim node.id ≠ ""
  distinct : (nodeIds graph).Nodup
  started : graph.startNodeId ∈ nodeIds graph
  known : ∀ edge ∈ graph.edges, edge.from_ ∈ nodeIds graph ∧ edge.to_ ∈ nodeIds graph
  conditioned : ∀ edge ∈ graph.edges, jsTrim edge.when_ ≠ "" ∧ predicateName edge.when_ ∈ graph.predicates

variable {graph : ExecutionGraph} {root nodeId : String} {route : List RuntimeEdge}

theorem mem_edgesFrom :
    edge ∈ edgesFrom graph nodeId ↔ edge ∈ graph.edges ∧ edge.from_ = nodeId := by
  simp [edgesFrom]

theorem OnFirstRoute.cycle {cycle : List RuntimeEdge} (onRoute : OnFirstRoute graph cycle) :
    Cycle graph cycle := by
  obtain ⟨root, before, along, edge, nodeId, ⟨_, _, _, _, first⟩, listed, back, rfl⟩ := onRoute
  have walked := first.walked.split.2
  rw [back] at walked
  exact ⟨by simp, edge.to_, walked.append (.single listed)⟩

/-- The search stands at the end of a route from a root. -/
structure Standing (graph : ExecutionGraph) (root : String) (route : List RuntimeEdge)
    (search : CycleSearch) : Prop where
  nodes : search.stackNodes = nodesOf RuntimeEdge.to_ root route
  edges : search.stackEdges = route
  visiting : ∀ nodeId, nodeId ∈ search.visiting ↔ nodeId ∈ search.stackNodes
  distinct : search.stackNodes.Nodup
  known : ∀ nodeId ∈ search.stackNodes, nodeId ∈ nodeIds graph

private theorem getElem?_lastIndexOf {items : List String} {id : String} (found : id ∈ items) :
    items[lastIndexOf items id]? = some id := by
  have within : items.reverse.idxOf id < items.reverse.length :=
    idxOf_lt_length_iff.mpr (mem_reverse.mpr found)
  have there : items.reverse[items.reverse.idxOf id]? = some id := by
    rw [getElem?_eq_getElem within, getElem_idxOf]
  rw [length_reverse] at within
  rwa [getElem?_reverse within] at there

section
variable {search : CycleSearch} (standing : Standing graph root route search)
include standing

/-- The cycle that `visit` looks at is unmarked just if the edge closes an unmarked one. -/
theorem closes_iff (back : edge.to_ ∈ search.stackNodes) :
    (search.stackEdges.drop (lastIndexOf search.stackNodes edge.to_) ++ [edge]).any
      RuntimeEdge.loop = false ↔ Closes root route edge := by
  have at_ := getElem?_lastIndexOf back
  generalize lastIndexOf search.stackNodes edge.to_ = index at at_ ⊢
  have within : index ≤ route.length := by
    have bound := (List.getElem?_eq_some_iff.mp at_).1
    rw [standing.nodes, nodesOf, length_cons, length_map] at bound
    omega
  have unmarked : ∀ cycle : List RuntimeEdge, cycle.any RuntimeEdge.loop = false ↔
      Unmarked cycle := fun cycle => by simp [Unmarked]
  rw [unmarked, standing.edges]
  constructor
  · intro plain
    refine ⟨route.take index, route.drop index, (take_append_drop index route).symm, ?_, plain⟩
    rw [standing.nodes, getElem?_nodesOf index within] at at_
    exact Option.some.inj at_
  · rintro ⟨before, cycle, rfl, ends, plain⟩
    have place : search.stackNodes[before.length]? = some edge.to_ := by
      rw [standing.nodes, getElem?_nodesOf _ (by simp), take_left, ends]
    have same : index = before.length :=
      (List.getElem?_inj (List.getElem?_eq_some_iff.mp at_).1 standing.distinct).mp
        (at_.trans place.symm)
    rwa [same, drop_left]

theorem not_closes (away : edge.to_ ∉ search.stackNodes) : ¬ Closes root route edge := by
  rintro ⟨before, cycle, rfl, ends, -⟩
  refine away ?_
  rw [standing.nodes, nodesOf_append, ← ends]
  exact mem_append_left _ endOf_mem

end

/-- `visit` puts a node on its stack. -/
def enter (nodeId : String) (search : CycleSearch) : CycleSearch :=
  { search with
    visiting := nodeId :: search.visiting
    stackNodes := search.stackNodes ++ [nodeId] }

/-- What `visit` does with one edge of the node on top of its stack. -/
def explore (graph : ExecutionGraph) (fuel : Nat) (search : CycleSearch) (edge : RuntimeEdge) :
    Except String CycleSearch :=
  if search.visiting.contains edge.to_ then
    let cycleEdges := search.stackEdges.drop (lastIndexOf search.stackNodes edge.to_) ++ [edge]
    if cycleEdges.any RuntimeEdge.loop then pure search
    else
      let route := String.intercalate ", "
        (cycleEdges.map fun candidate => s!"{candidate.from_}->{candidate.to_}")
      throw s!"graph cycle requires loop edge: {route}"
  else if search.visited.contains edge.to_ then pure search
  else do
    let below ← visit graph fuel edge.to_
      { search with stackEdges := search.stackEdges ++ [edge] }
    pure { below with stackEdges := below.stackEdges.dropLast }

/-- The node is done: it leaves the stack. -/
def depart (nodeId : String) (search : CycleSearch) : CycleSearch :=
  { search with
    stackNodes := search.stackNodes.dropLast
    visiting := search.visiting.filter (· ≠ nodeId)
    visited := nodeId :: search.visited }

theorem visit_succ : visit graph (fuel + 1) nodeId search =
      ((edgesFrom graph nodeId).foldlM (explore graph fuel) (enter nodeId search) >>=
        fun explored => pure (depart nodeId explored)) := rfl

/-- The nodes on the stack. -/
def onStack (search : CycleSearch) : Set String := {nodeId | nodeId ∈ search.stackNodes}

/-- A node can be reached without the nodes on the stack. -/
abbrev Around (graph : ExecutionGraph) (search : CycleSearch) (start finish : String) : Prop :=
  Reaches (edgesFrom graph) RuntimeEdge.to_ (onStack search) start finish

abbrev FirstAround (graph : ExecutionGraph) (search : CycleSearch) (start : String)
    (route : List RuntimeEdge) (finish : String) : Prop :=
  First (edgesFrom graph) RuntimeEdge.to_ (onStack search) start route finish

/-- Some edge of the node closes an unmarked cycle with the route to it. -/
def Bad (graph : ExecutionGraph) (root : String) (route : List RuntimeEdge) (nodeId : String) :
    Prop :=
  ∃ edge ∈ edgesFrom graph nodeId, Closes root route edge

/-- Nothing leads from the visited nodes to any other but those on the stack. -/
def Finished (graph : ExecutionGraph) (search : CycleSearch) : Prop :=
  ∀ nodeId ∈ search.visited, ∀ edge ∈ edgesFrom graph nodeId,
    edge.to_ ∈ search.visited ∨ edge.to_ ∈ onStack search

/-- A visit of a node leaves the stack as it was, and has visited what can be reached from the
node around it. -/
structure Visited (graph : ExecutionGraph) (nodeId : String) (search after : CycleSearch) :
    Prop where
  nodes : after.stackNodes = search.stackNodes
  edges : after.stackEdges = search.stackEdges
  visiting : ∀ other, other ∈ after.visiting ↔ other ∈ search.visiting
  visited : ∀ other, other ∈ after.visited ↔ other ∈ search.visited ∨ Around graph search nodeId other

theorem Finished.stays (finished : Finished graph search) (inside : start ∈ search.visited)
    (reached : Around graph search start finish) : finish ∈ search.visited := by
  have closed : ∀ nodeId ∈ ({other | other ∈ search.visited} : Set String), ∀ edge ∈ edgesFrom graph nodeId,
        edge.to_ ∈ ({other | other ∈ search.visited} : Set String) ∨ edge.to_ ∈ onStack search :=
    finished
  have stayed : finish ∈ ({other | other ∈ search.visited} : Set String) :=
    reached.stays closed inside
  exact stayed

/-- The first route to some node that is visited from here closes an unmarked cycle. -/
def Fails (graph : ExecutionGraph) (root : String) (route : List RuntimeEdge) (nodeId : String)
    (search : CycleSearch) : Prop :=
  ∃ finish further, finish ∉ search.visited ∧
    FirstAround graph search nodeId further finish ∧ Bad graph root (route ++ further) finish

/-- What a visit finds out about the nodes that it visits: it ends well just if on none of
their first routes an unmarked cycle is closed. -/
def Judges (graph : ExecutionGraph) (root : String) (route : List RuntimeEdge) (nodeId : String)
    (search : CycleSearch) : Except String CycleSearch → Prop
  | .ok after => Visited graph nodeId search after ∧ ∀ finish further, finish ∉ search.visited →
        FirstAround graph search nodeId further finish → ¬ Bad graph root (route ++ further) finish
  | .error _ => Fails graph root route nodeId search

theorem onStack_enter : onStack (enter nodeId search) = insert nodeId (onStack search) := by
  ext other
  simp [onStack, enter, or_comm]

/-- Between two edges: the stack is as at the first one, the edges so far have been followed,
and none of them closes an unmarked cycle or leads to a node where one is closed. -/
structure Exploring (graph : ExecutionGraph) (root : String) (route : List RuntimeEdge)
    (begun : CycleSearch) (before : List RuntimeEdge) (search : CycleSearch) : Prop where
  standing : Standing graph root route search
  nodes : search.stackNodes = begun.stackNodes
  visited : ∀ nodeId, nodeId ∈ search.visited ↔
    nodeId ∈ begun.visited ∨ ∃ edge ∈ before, Around graph begun edge.to_ nodeId
  open_ : ∀ edge ∈ before, ¬ Closes root route edge
  clean : ∀ (earlier later : List RuntimeEdge) (edge : RuntimeEdge) (finish : String)
    (further : List RuntimeEdge), before = earlier ++ edge :: later →
    (∀ other ∈ earlier, ¬ Around graph begun other.to_ finish) →
    FirstAround graph begun edge.to_ further finish → finish ∉ begun.visited →
    edge.to_ ∉ onStack begun → ¬ Bad graph root (route ++ edge :: further) finish

section

section
variable (exploring : Exploring graph root route begun before search)
include exploring

theorem Exploring.same : onStack search = onStack begun :=
  congrArg (fun nodes => {nodeId | nodeId ∈ nodes}) exploring.nodes

theorem Exploring.finished (finished : Finished graph begun) : Finished graph search := by
  intro nodeId inside edge listed
  rw [exploring.same]
  rcases (exploring.visited nodeId).mp inside with inside | ⟨first, followed, reached⟩
  · rcases finished nodeId inside edge listed with inside | stacked
    · exact .inl ((exploring.visited _).mpr (.inl inside))
    · exact .inr stacked
  · by_cases stacked : edge.to_ ∈ onStack begun
    · exact .inr stacked
    · exact .inl ((exploring.visited _).mpr (.inr ⟨first, followed, reached.extend listed stacked⟩))

theorem Exploring.snoc
    (standing : Standing graph root route next_) (nodes : next_.stackNodes = search.stackNodes)
    (visited : ∀ nodeId, nodeId ∈ next_.visited ↔
      nodeId ∈ search.visited ∨ Around graph begun edge.to_ nodeId)
    (open_ : ¬ Closes root route edge) (clean : ∀ finish further, finish ∉ search.visited →
      FirstAround graph begun edge.to_ further finish → edge.to_ ∉ onStack begun →
      ¬ Bad graph root (route ++ edge :: further) finish) :
    Exploring graph root route begun (before ++ [edge]) next_ where
  standing := standing
  nodes := nodes.trans exploring.nodes
  visited := by
    intro nodeId
    rw [visited, exploring.visited]
    simp only [mem_append, mem_singleton, or_and_right, exists_or, exists_eq_left, or_assoc]
  open_ := by
    intro other found
    rcases mem_append.mp found with found | found
    · exact exploring.open_ other found
    · rwa [mem_singleton.mp found]
  clean := by
    intro earlier later other finish further split unreached first fresh away
    rcases eq_nil_or_concat later with rfl | ⟨later, last, rfl⟩
    · obtain ⟨rfl, rfl⟩ : before = earlier ∧ edge = other := by
        simpa using append_inj' split rfl
      refine clean finish further (fun inside => ?_) first away
      rcases (exploring.visited _).mp inside with inside | ⟨followed, found, reached⟩
      · exact fresh inside
      · exact unreached followed found reached
    · rw [concat_eq_append, ← cons_append, ← append_assoc] at split
      obtain ⟨rfl, -⟩ := append_inj' split rfl
      exact exploring.clean earlier later other finish further rfl unreached first fresh away

end

end

/-- What following some edges of a node comes to. -/
def Explores (graph : ExecutionGraph) (root : String) (route : List RuntimeEdge) (nodeId : String)
    (search : CycleSearch) (before : List RuntimeEdge) : Except String CycleSearch → Prop
  | .ok next => Exploring graph root route (enter nodeId search) before next
  | .error _ => Fails graph root route nodeId search

/-- What `visit` comes to with some fuel, wherever the search stands. -/
def VisitJudges (graph : ExecutionGraph) (fuel : Nat) : Prop :=
  ∀ (root : String) (route : List RuntimeEdge) (nodeId : String) (search : CycleSearch),
    Standing graph root route (enter nodeId search) →
    (∀ other, other ∈ search.visiting ↔ other ∈ search.stackNodes) → Finished graph search →
    nodeId ∉ search.visited → graph.nodes.length + 1 ≤ fuel + search.stackNodes.length →
      Judges graph root route nodeId search (visit graph fuel nodeId search)

section
variable {fuel : Nat}
variable {edge : RuntimeEdge}

theorem Standing.short (standing : Standing graph root route search) :
    search.stackNodes.length ≤ graph.nodes.length := by
  have bound := (subperm_of_subset standing.distinct standing.known).length_le
  rwa [nodeIds, length_map] at bound

theorem Standing.down (standing : Standing graph root route current)
    (known : edge.to_ ∈ nodeIds graph) (away : edge.to_ ∉ current.stackNodes) :
    Standing graph root (route ++ [edge])
      (enter edge.to_ { current with stackEdges := current.stackEdges ++ [edge] }) where
  nodes := by
    rw [nodesOf_append, ← standing.nodes]
    rfl
  edges := by
    rw [enter, standing.edges]
  visiting := by
    intro other
    simp [enter, standing.visiting, or_comm]
  distinct := by
    refine nodup_append.mpr ⟨standing.distinct, nodup_singleton _, ?_⟩
    rintro other found last here rfl
    exact away (mem_singleton.mp here ▸ found)
  known := by
    intro other found
    rcases mem_append.mp found with found | found
    · exact standing.known other found
    · rwa [mem_singleton.mp found]

section
variable (known : ∀ edge ∈ graph.edges, edge.to_ ∈ nodeIds graph) (ih : VisitJudges graph fuel)
include known ih

theorem explore_judges (listed : edgesFrom graph nodeId = before ++ edge :: after)
    (exploring : Exploring graph root route (enter nodeId search) before current)
    (finished : Finished graph (enter nodeId search)) (unvisited : nodeId ∉ search.visited)
    (deep : graph.nodes.length + 1 ≤ fuel + current.stackNodes.length) :
    Explores graph root route nodeId search (before ++ [edge]) (explore graph fuel current edge) := by
  have edgeListed : edge ∈ edgesFrom graph nodeId := by
    rw [listed]
    exact mem_append_right _ mem_cons_self
  unfold explore
  by_cases back : edge.to_ ∈ current.stackNodes
  · -- the edge closes a cycle
    have stacked : edge.to_ ∈ onStack (enter nodeId search) := exploring.same ▸ back
    rw [if_pos (by simpa using (exploring.standing.visiting _).mpr back)]
    by_cases marked : (current.stackEdges.drop (lastIndexOf current.stackNodes edge.to_) ++
        [edge]).any RuntimeEdge.loop = true
    · rw [if_pos marked]
      refine exploring.snoc exploring.standing rfl (fun other => ?_) ?_
        fun _ _ _ _ away => absurd stacked away
      · exact ⟨.inl, fun found => found.resolve_right fun reached =>
          reached.start_free stacked⟩
      · rw [← closes_iff exploring.standing back]
        simp [marked]
    · rw [if_neg marked]
      refine ⟨nodeId, [], unvisited, .nil _ _, edge, edgeListed, ?_⟩
      rw [append_nil, ← closes_iff exploring.standing back]
      simpa using marked
  rw [if_neg (by simpa using fun found => back ((exploring.standing.visiting _).mp found))]
  by_cases seen : edge.to_ ∈ current.visited
  · -- the node is done already, and so is whatever it leads to
    rw [if_pos (by simpa using seen)]
    refine exploring.snoc exploring.standing rfl (fun other => ?_)
      (not_closes exploring.standing back) fun finish further fresh first away => ?_
    · refine ⟨.inl, fun found => found.elim id fun reached => ?_⟩
      rw [Around, ← exploring.same] at reached
      exact (exploring.finished finished).stays seen reached
    · refine absurd ?_ fresh
      rw [FirstAround, ← exploring.same] at first
      exact (exploring.finished finished).stays seen (first.reaches back)
  -- the node is visited below this one
  rw [if_neg (by simpa using seen)]
  have down := exploring.standing.down (known edge (mem_edgesFrom.mp edgeListed).1) back
  have judged := ih root (route ++ [edge]) edge.to_
    { current with stackEdges := current.stackEdges ++ [edge] } down exploring.standing.visiting
    (exploring.finished finished) seen deep
  have same : onStack { current with stackEdges := current.stackEdges ++ [edge] } =
      onStack (enter nodeId search) := exploring.same
  generalize visit graph fuel edge.to_
    { current with stackEdges := current.stackEdges ++ [edge] } = result at judged ⊢
  rcases result with error | below
  · -- the first route goes on by this edge: all that the edges before it reach is visited
    obtain ⟨finish, further, fresh, first, bad⟩ := judged
    rw [FirstAround, same] at first
    have around := first.reaches (exploring.same ▸ back)
    rw [onStack_enter] at first around
    refine ⟨finish, edge :: further, fun inside => fresh ?_, ?_, ?_⟩
    · exact (exploring.visited finish).mpr (.inl inside)
    · refine .cons (fun here => around.finish_free (here ▸ Set.mem_insert _ _)) listed
        around.start_free (fun other found reached => fresh ?_) first
      rw [← onStack_enter] at reached
      exact (exploring.visited finish).mpr (.inr ⟨other, found, reached⟩)
    · rwa [append_cons]
  · obtain ⟨done, clean⟩ := judged
    have edges : below.stackEdges.dropLast = route := by
      rw [done.edges]
      simp [exploring.standing.edges]
    refine exploring.snoc ⟨?_, edges, ?_, ?_, ?_⟩ done.nodes (fun other => ?_)
      (not_closes exploring.standing back) fun finish further fresh first away => ?_
    · exact done.nodes.trans exploring.standing.nodes
    · intro other
      show other ∈ below.visiting ↔ other ∈ below.stackNodes
      rw [done.visiting, done.nodes]
      exact exploring.standing.visiting other
    · show below.stackNodes.Nodup
      rw [done.nodes]
      exact exploring.standing.distinct
    · show ∀ other ∈ below.stackNodes, _
      rw [done.nodes]
      exact exploring.standing.known
    · show other ∈ below.visited ↔ _
      rw [done.visited, Around, same]
    · rw [append_cons]
      refine clean finish further fresh ?_
      rwa [FirstAround, same]

theorem fold_judges (finished : Finished graph (enter nodeId search)) (unvisited : nodeId ∉ search.visited)
    (deep : graph.nodes.length + 1 ≤ fuel + (enter nodeId search).stackNodes.length) :
    ∀ (before : List RuntimeEdge) (current : CycleSearch), edgesFrom graph nodeId = before ++ after →
      Exploring graph root route (enter nodeId search) before current →
      Explores graph root route nodeId search (edgesFrom graph nodeId)
        (after.foldlM (explore graph fuel) current) := by
  induction after with
  | nil =>
    intro before current listed exploring
    rw [listed, append_nil]
    exact exploring
  | cons edge rest ih' =>
    intro before current listed exploring
    have judged := explore_judges known ih listed exploring finished unvisited
      (exploring.nodes ▸ deep)
    rw [foldlM_cons]
    generalize explore graph fuel current edge = result at judged ⊢
    rcases result with error | next
    · exact judged
    · exact ih' (before ++ [edge]) next (by rw [listed, append_cons]) judged

end

end

theorem Exploring.departs
    (exploring : Exploring graph root route (enter nodeId search) (edgesFrom graph nodeId) explored)
    (edges : search.stackEdges = route) (fresh : nodeId ∉ search.stackNodes)
    (visiting : ∀ other, other ∈ search.visiting ↔ other ∈ search.stackNodes) :
    Visited graph nodeId search (depart nodeId explored) where
  nodes := by
    rw [depart, exploring.nodes]
    exact dropLast_concat
  edges := exploring.standing.edges.trans edges.symm
  visiting := by
    intro other
    simp only [depart, mem_filter, exploring.standing.visiting, exploring.nodes, enter,
      mem_append, mem_singleton, decide_eq_true_eq, visiting]
    constructor
    · rintro ⟨found | rfl, away⟩
      · exact found
      · exact absurd rfl away
    · exact fun found => ⟨.inl found, fun same => fresh (same ▸ found)⟩
  visited := by
    intro other
    have free : nodeId ∉ onStack search := fresh
    simp only [depart, mem_cons, exploring.visited]
    constructor
    · rintro (rfl | inside | ⟨edge, listed, reached⟩)
      · exact .inr (reaches_self free)
      · exact .inl inside
      · rw [Around, onStack_enter] at reached
        exact .inr ((reached.fewer (Set.subset_insert _ _)).step free listed)
    · rintro (inside | reached)
      · exact .inr (.inl inside)
      · by_cases same : nodeId = other
        · exact .inl same.symm
        · obtain ⟨edge, listed, around⟩ := reached.leaves same
          rw [← onStack_enter] at around
          exact .inr (.inr ⟨edge, listed, around⟩)

theorem visit_judges (known : ∀ edge ∈ graph.edges, edge.to_ ∈ nodeIds graph) :
    VisitJudges graph fuel := by
  induction fuel with
  | zero =>
    intro root route nodeId search standing _ _ _ deep
    have short := standing.short
    simp only [enter, length_append, length_singleton] at short
    omega
  | succ fuel ih =>
    intro root route nodeId search standing visiting finished unvisited deep
    have fresh : nodeId ∉ search.stackNodes := fun found =>
      (nodup_append.mp standing.distinct).2.2 nodeId found nodeId (mem_singleton_self _) rfl
    have begun : Finished graph (enter nodeId search) := fun other inside edge listed =>
      (finished other inside edge listed).imp_right fun stacked => by
        rw [onStack_enter]
        exact Set.mem_insert_of_mem _ stacked
    have start : Exploring graph root route (enter nodeId search) [] (enter nodeId search) :=
      ⟨standing, rfl, fun other => by simp, fun _ found => absurd found not_mem_nil,
        fun earlier _ _ _ _ split => by simp at split⟩
    have judged := fold_judges known ih begun unvisited
      (by simp only [enter, length_append, length_singleton]; omega) []
      (enter nodeId search) (nil_append _).symm start
    rw [visit_succ]
    generalize (edgesFrom graph nodeId).foldlM (explore graph fuel) (enter nodeId search) = result
      at judged ⊢
    rcases result with error | explored
    · exact judged
    · refine ⟨judged.departs standing.edges fresh visiting, ?_⟩
      intro finish further unseen first
      cases first with
      | nil =>
        rintro ⟨edge, listed, closes⟩
        rw [append_nil] at closes
        exact judged.open_ edge listed closes
      | cons onwards listed free earliest rest =>
        rw [← onStack_enter] at free earliest rest
        exact judged.clean _ _ _ _ _ listed earliest rest unseen free

/-- The loop of `cycleError` over the nodes of the graph. -/
def visitRoot (graph : ExecutionGraph) (search : CycleSearch) (node : RuntimeNode) :
    Except String CycleSearch :=
  if search.visited.contains node.id then pure search
  else visit graph (graph.nodes.length + 1) node.id search

/-- Between two nodes: nothing is on the stack, what the nodes so far reach is visited, and on
none of its first routes an unmarked cycle is closed. -/
structure Rooted (graph : ExecutionGraph) (done : List String) (search : CycleSearch) : Prop where
  nodes : search.stackNodes = []
  edges : search.stackEdges = []
  visiting : search.visiting = []
  visited : ∀ nodeId, nodeId ∈ search.visited ↔
    ∃ root ∈ done, Reaches (edgesFrom graph) RuntimeEdge.to_ ∅ root nodeId
  clean : ∀ (earlier later : List String) (root finish : String) (route : List RuntimeEdge),
    done = earlier ++ root :: later →
    (∀ other ∈ earlier, ¬ Reaches (edgesFrom graph) RuntimeEdge.to_ ∅ other finish) →
    First (edgesFrom graph) RuntimeEdge.to_ ∅ root route finish → ¬ Bad graph root route finish

/-- Some first route of the graph closes an unmarked cycle. -/
def ClosesFirst (graph : ExecutionGraph) : Prop :=
  ∃ root route finish, FirstFrom (edgesFrom graph) RuntimeEdge.to_ (nodeIds graph) root route finish ∧
      Bad graph root route finish

/-- What the nodes so far come to. -/
def RootJudges (graph : ExecutionGraph) (done : List String) : Except String CycleSearch → Prop
  | .ok search => Rooted graph done search
  | .error _ => ClosesFirst graph

section

theorem Rooted.empty (rooted : Rooted graph done search) : onStack search = ∅ := by
  ext nodeId
  simp [onStack, rooted.nodes]

theorem Rooted.finished (rooted : Rooted graph done search) : Finished graph search := by
  intro nodeId inside edge listed
  obtain ⟨root, found, reached⟩ := (rooted.visited nodeId).mp inside
  exact .inl ((rooted.visited _).mpr ⟨root, found, reached.extend listed (Set.notMem_empty _)⟩)

theorem Rooted.snoc (rooted : Rooted graph done search) (nodes : next_.stackNodes = [])
    (edges : next_.stackEdges = []) (visiting : next_.visiting = [])
    (visited : ∀ other, other ∈ next_.visited ↔ other ∈ search.visited ∨
      Reaches (edgesFrom graph) RuntimeEdge.to_ ∅ nodeId other)
    (clean : ∀ finish route, finish ∉ search.visited →
      First (edgesFrom graph) RuntimeEdge.to_ ∅ nodeId route finish → ¬ Bad graph nodeId route finish) :
    Rooted graph (done ++ [nodeId]) next_ where
  nodes := nodes
  edges := edges
  visiting := visiting
  visited := by
    intro other
    rw [visited, rooted.visited]
    simp only [mem_append, mem_singleton, or_and_right, exists_or, exists_eq_left]
  clean := by
    intro earlier later root finish route split unreached first
    rcases eq_nil_or_concat later with rfl | ⟨later, last, rfl⟩
    · obtain ⟨rfl, rfl⟩ : done = earlier ∧ nodeId = root := by
        simpa using append_inj' split rfl
      refine clean finish route (fun inside => ?_) first
      obtain ⟨other, found, reached⟩ := (rooted.visited _).mp inside
      exact unreached other found reached
    · rw [concat_eq_append, ← cons_append, ← append_assoc] at split
      obtain ⟨rfl, -⟩ := append_inj' split rfl
      exact rooted.clean earlier later root finish route rfl unreached first

theorem visitRoot_judges (known : ∀ edge ∈ graph.edges, edge.to_ ∈ nodeIds graph)
    {rest : List RuntimeNode} (listed : nodeIds graph = done ++
      node.id :: rest.map RuntimeNode.id) (rooted : Rooted graph done search) :
    RootJudges graph (done ++ [node.id]) (visitRoot graph search node) := by
  unfold visitRoot
  by_cases seen : node.id ∈ search.visited
  · rw [if_pos (by simpa using seen)]
    have stays : ∀ finish, Reaches (edgesFrom graph) RuntimeEdge.to_ ∅ node.id finish →
        finish ∈ search.visited := fun finish reached =>
      rooted.finished.stays seen (by rwa [Around, rooted.empty])
    refine rooted.snoc rooted.nodes rooted.edges rooted.visiting (fun other => ?_) ?_
    · exact ⟨.inl, fun found => found.elim id (stays other)⟩
    · exact fun finish route fresh first =>
        absurd (stays finish (first.reaches (Set.notMem_empty _))) fresh
  rw [if_neg (by simpa using seen)]
  have standing : Standing graph node.id [] (enter node.id search) := by
    refine ⟨?_, rooted.edges, ?_, ?_, ?_⟩
    · rw [enter, rooted.nodes]
      rfl
    · intro other
      simp [enter, rooted.nodes, rooted.visiting]
    · simp [enter, rooted.nodes]
    · intro other found
      rw [enter, rooted.nodes, nil_append, mem_singleton] at found
      rw [found, listed]
      exact mem_append_right _ mem_cons_self
  have judged := visit_judges known node.id [] node.id search standing
    (by simp [rooted.nodes, rooted.visiting]) rooted.finished seen (Nat.le_add_right _ _)
  generalize visit graph (graph.nodes.length + 1) node.id search = result at judged ⊢
  rcases result with error | after
  · obtain ⟨finish, route, fresh, first, bad⟩ := judged
    rw [FirstAround, rooted.empty] at first
    refine ⟨node.id, route, finish, ⟨done, _, listed, fun other found reached => fresh ?_, first⟩, bad⟩
    exact (rooted.visited _).mpr ⟨other, found, reached⟩
  · obtain ⟨visited, clean⟩ := judged
    refine rooted.snoc (visited.nodes.trans rooted.nodes) (visited.edges.trans rooted.edges) ?_
      (fun other => ?_) fun finish route fresh first => ?_
    · refine eq_nil_iff_forall_not_mem.mpr fun other found => ?_
      rw [visited.visiting, rooted.visiting] at found
      exact not_mem_nil found
    · rw [visited.visited, Around, rooted.empty]
    · refine clean finish route fresh ?_
      rwa [FirstAround, rooted.empty]

theorem foldRoots_judges (known : ∀ edge ∈ graph.edges, edge.to_ ∈ nodeIds graph)
    (rest : List RuntimeNode) : ∀ (done : List String) (search : CycleSearch),
      nodeIds graph = done ++ rest.map RuntimeNode.id → Rooted graph done search →
        RootJudges graph (nodeIds graph) (rest.foldlM (visitRoot graph) search) := by
  induction rest with
  | nil =>
    intro done search listed rooted
    rw [listed, map_nil, append_nil]
    exact rooted
  | cons node rest ih =>
    intro done search listed rooted
    have judged := visitRoot_judges known listed rooted
    rw [foldlM_cons]
    generalize visitRoot graph search node = result at judged ⊢
    rcases result with error | next
    · exact judged
    · exact ih (done ++ [node.id]) next (by rw [listed, map_cons, append_cons]) judged

end

/-- The search finds an unmarked cycle just if some first route closes one. -/
theorem cycleError_isSome (known : ∀ edge ∈ graph.edges, edge.to_ ∈ nodeIds graph) :
    (cycleError graph).isSome ↔ ClosesFirst graph := by
  have start : Rooted graph [] {} :=
    ⟨rfl, rfl, rfl, fun nodeId => by simp, fun earlier _ _ _ _ split => by simp at split⟩
  have judged := foldRoots_judges known graph.nodes [] {} rfl start
  unfold cycleError
  split
  · rename_i search found
    rw [show graph.nodes.foldlM (visitRoot graph) {} = .ok search from found] at judged
    refine ⟨nofun, ?_⟩
    rintro ⟨root, route, finish, ⟨earlier, later, split, unreached, first⟩, bad⟩
    exact absurd bad (judged.clean earlier later root finish route split unreached first)
  · rename_i message found
    rw [show graph.nodes.foldlM (visitRoot graph) {} = .error message from found] at judged
    exact ⟨fun _ => judged, fun _ => rfl⟩

/-- An unmarked cycle on a first route is one that a first route closes. -/
theorem closesFirst_iff :
    ClosesFirst graph ↔ ∃ cycle, OnFirstRoute graph cycle ∧ Unmarked cycle := by
  constructor
  · rintro ⟨root, _, finish, first, edge, listed, before, along, rfl, back, plain⟩
    exact ⟨_, ⟨root, before, along, edge, finish, first, listed, back, rfl⟩, plain⟩
  · rintro ⟨_, ⟨root, before, along, edge, finish, first, listed, back, rfl⟩, plain⟩
    exact ⟨root, _, finish, first, edge, listed, before, along, rfl, back, plain⟩

theorem duplicateNode_none (nodes : List RuntimeNode) : ∀ ids : List String,
    duplicateNode nodes ids = none ↔ (∀ node ∈ nodes, jsTrim node.id ≠ "") ∧
      (nodes.map RuntimeNode.id).Nodup ∧ ∀ node ∈ nodes, node.id ∉ ids := by
  induction nodes with
  | nil => simp [duplicateNode]
  | cons node rest ih =>
    intro ids
    unfold duplicateNode
    split
    · rename_i blank
      simp [blank]
    · rename_i named
      split
      · rename_i taken
        simp only [contains_iff_mem] at taken
        simp [taken]
      · rename_i fresh
        simp only [contains_iff_mem] at fresh
        rw [ih, forall_mem_cons, forall_mem_cons]
        simp only [map_cons, nodup_cons, mem_cons, not_or, mem_map, not_exists, not_and]
        constructor
        · rintro ⟨names, distinct, apart⟩
          exact ⟨⟨named, names⟩, ⟨fun other found => (apart other found).1, distinct⟩, fresh,
            fun other found => (apart other found).2⟩
        · rintro ⟨⟨_, names⟩, ⟨apart, distinct⟩, _, away⟩
          exact ⟨names, distinct, fun other found => ⟨apart other found, away other found⟩⟩

theorem edgeError_none : edgeError graph edge = none ↔
    (edge.from_ ∈ nodeIds graph ∧ edge.to_ ∈ nodeIds graph) ∧
      jsTrim edge.when_ ≠ "" ∧ predicateName edge.when_ ∈ graph.predicates := by
  simp only [edgeError, nodeIds]
  split
  · rename_i unknown
    simp only [reduceCtorEq, false_iff, not_and]
    exact fun known => absurd unknown (by simp [known.1, known.2])
  · rename_i known
    simp only [Bool.or_eq_true, Bool.not_eq_true', contains_eq_mem, decide_eq_false_iff_not,
      not_or, not_not] at known
    split
    · rename_i blank
      simp [blank]
    · rename_i named
      simp [known, named]

/-- A graph passes every check just if it is well formed and no first route closes an unmarked
cycle. -/
theorem graphError_none : graphError graph = none ↔ WellFormed graph ∧ ¬ ClosesFirst graph := by
  have checks : graphError graph = none ↔ WellFormed graph ∧ cycleError graph = none := by
    unfold graphError
    split
    · rename_i blank
      simp only [reduceCtorEq, false_iff, not_and]
      exact fun formed => absurd blank formed.versioned
    rename_i versioned
    have names := duplicateNode_none graph.nodes []
    have edges : graph.edges.findSome? (edgeError graph) = none ↔ ∀ edge ∈ graph.edges,
        (edge.from_ ∈ nodeIds graph ∧ edge.to_ ∈ nodeIds graph) ∧
          jsTrim edge.when_ ≠ "" ∧ predicateName edge.when_ ∈ graph.predicates := by
      simp only [findSome?_eq_none_iff, edgeError_none]
    cases duplicates : duplicateNode graph.nodes [] with
    | some message =>
      rw [duplicates] at names
      simp only [Option.orElse_some, reduceCtorEq, false_iff, not_and]
      intro formed
      exact absurd (names.mpr ⟨formed.named, formed.distinct, fun _ _ => not_mem_nil⟩) nofun
    | none =>
      obtain ⟨named, distinct, -⟩ := names.mp duplicates
      simp only [Option.orElse_none]
      split
      · rename_i unknown
        simp only [reduceCtorEq, false_iff, not_and]
        intro formed
        exact absurd formed.started (by simpa [nodeIds] using unknown)
      rename_i started
      cases complaints : graph.edges.findSome? (edgeError graph) with
      | some message =>
        rw [complaints] at edges
        simp only [Option.orElse_some, reduceCtorEq, false_iff, not_and]
        intro formed
        exact absurd (edges.mpr fun edge found =>
          ⟨formed.known edge found, formed.conditioned edge found⟩) nofun
      | none =>
        have proper := edges.mp complaints
        refine ⟨fun acyclic => ⟨⟨versioned, named, distinct, ?_, ?_, ?_⟩, acyclic⟩, And.right⟩
        · simpa [nodeIds] using started
        · exact fun edge found => (proper edge found).1
        · exact fun edge found => (proper edge found).2
  rw [checks]
  refine and_congr_right fun formed => ?_
  rw [← cycleError_isSome fun edge found => (formed.known edge found).2, Option.not_isSome_iff_eq_none]

/-- Every cycle has an edge that is marked as a loop edge. -/
def Looped (graph : ExecutionGraph) : Prop :=
  ∀ cycle, Cycle graph cycle → ∃ edge ∈ cycle, edge.loop = true

theorem not_unmarked : ¬ Unmarked cycle ↔ ∃ edge ∈ cycle, edge.loop = true := by
  simp [Unmarked]

theorem validate_iff :
    validateExecutionGraph graph = .ok graph ↔ WellFormed graph ∧ ¬ ClosesFirst graph := by
  rw [← graphError_none, validateExecutionGraph]
  cases graphError graph <;> simp

/-- A graph is accepted just if it is well formed and every cycle has a loop edge, provided
that, where a well-formed graph has an unmarked cycle, it has one on a first route. -/
theorem accepts_looped_iff (graph : ExecutionGraph) :
    (validateExecutionGraph graph = .ok graph ↔ WellFormed graph ∧ Looped graph) ↔
      (WellFormed graph → ∀ cycle, Cycle graph cycle → Unmarked cycle →
        ∃ other, OnFirstRoute graph other ∧ Unmarked other) := by
  rw [validate_iff, closesFirst_iff]
  constructor
  · intro exact_ formed cycle closed plain
    by_contra none
    obtain ⟨-, looped⟩ := exact_.mp ⟨formed, none⟩
    exact not_unmarked.mpr (looped cycle closed) plain
  · intro found
    refine and_congr_right fun formed => ⟨fun none cycle closed => ?_, ?_⟩
    · exact not_unmarked.mp fun plain => none (found formed cycle closed plain)
    · rintro looped ⟨cycle, onRoute, plain⟩
      exact not_unmarked.mpr (looped cycle onRoute.cycle) plain

section Example

private def plan : RuntimeEdge := { from_ := "plan", to_ := "act", when_ := "next" }
private def replan : RuntimeEdge := { plan with loop := true }
private def back : RuntimeEdge := { from_ := "act", to_ := "plan", when_ := "next" }

private def planGraph (edges : List RuntimeEdge) : ExecutionGraph where
  version := "v1"
  startNodeId := "plan"
  predicates := ["next"]
  nodes := [{ id := "plan" }, { id := "act" }]
  edges := edges

/-- The loop edge is listed before the plain edge between the same nodes: the plain edge is
never looked at. Listed after it, it is. -/
theorem unmarked_cycle_accepted : WellFormed (planGraph [replan, plan, back]) ∧
      ¬ Looped (planGraph [replan, plan, back]) ∧
      validateExecutionGraph (planGraph [replan, plan, back]) = .ok (planGraph [replan, plan, back]) ∧
      (graphError (planGraph [plan, replan, back])).isSome := by
  refine ⟨⟨by decide, by decide, by decide, by decide, by decide, by decide⟩, ?_, by rfl, by decide⟩
  intro looped
  obtain ⟨edge, found, marked⟩ := looped [plan, back]
    ⟨by decide, "plan", .cons (by decide) (.cons (by decide) (.nil _))⟩
  simp only [mem_cons, not_mem_nil, or_false] at found
  rcases found with rfl | rfl <;> cases marked

end Example

end QiongQi.GraphCycles
