import Mathlib.Data.List.Basic
import QiongQi.RuntimeContracts

/-! `AgentGraph`: the nodes a multi-agent run moves through and the edges that its
conditions select. Identifiers are as the schema returns them, trimmed and not empty. -/
namespace QiongQi.AgentGraphs
open RuntimeContracts

inductive WaitFor where
  | mailbox | userInput | approval | externalEvent
  deriving DecidableEq

/-- The `kind` of a node with the fields that only this kind has. -/
inductive NodeKind where
  | agent (agentId : NonEmptyString)
  | handoff (targetAgentId : NonEmptyString)
  | tool (toolName : NonEmptyString)
  | judge (policy : NonEmptyString)
  | join (requiredBranchIds : List NonEmptyString)
  | wait (waitFor : WaitFor)
  | retry (maxAttempts : Nat)
  | terminate
  deriving DecidableEq

structure AgentGraphNode where
  id : NonEmptyString
  kind : NodeKind
  deriving DecidableEq

structure AgentGraphEdge where
  source : NonEmptyString
  target : NonEmptyString
  condition : NonEmptyString
  deriving DecidableEq

structure AgentGraph where
  graphId : NonEmptyString
  startNodeId : NonEmptyString
  nodes : List AgentGraphNode
  edges : List AgentGraphEdge
  deriving DecidableEq

/-- What a call throws: an `Error` with its message, or a schema's error at a field. -/
inductive Thrown where
  | error (message : String)
  | schema (path : List String)
  deriving DecidableEq

theorem bind_ok {next : α → Except ε β} (whole : first >>= next = .ok result) :
    ∃ value, first = .ok value ∧ next value = .ok result := by
  cases first with
  | error thrown => cases whole
  | ok value => exact ⟨value, rfl, whole⟩

def validateNodes : List NonEmptyString → List AgentGraphNode → Except Thrown Unit
  | _, [] => .ok ()
  | seen, node :: rest =>
    if node.id ∈ seen then .error (.error ("AgentGraph duplicate node id: " ++ node.id.text))
    else validateNodes (node.id :: seen) rest

/-- `seen` holds the pairs of a source and a condition of the edges before. -/
def validateEdges (nodeIds : List NonEmptyString) :
    List (NonEmptyString × NonEmptyString) → List AgentGraphEdge → Except Thrown Unit
  | _, [] => .ok ()
  | seen, edge :: rest =>
    if edge.source ∉ nodeIds ∨ edge.target ∉ nodeIds then
      .error (.error ("AgentGraph edge points to unknown node: " ++ edge.source.text ++ " -> " ++
        edge.target.text))
    else if (edge.source, edge.condition) ∈ seen then
      .error (.error ("AgentGraph duplicate edge condition: " ++ edge.source.text ++ ":" ++
        edge.condition.text))
    else validateEdges nodeIds ((edge.source, edge.condition) :: seen) rest

def validateAgentGraph (graph : AgentGraph) : Except Thrown AgentGraph := do
  let nodeIds := graph.nodes.map AgentGraphNode.id
  validateNodes [] graph.nodes
  if graph.startNodeId ∉ nodeIds then
    throw (.error ("AgentGraph startNodeId is unknown: " ++ graph.startNodeId.text))
  validateEdges nodeIds [] graph.edges
  return graph

/-- A graph that the runtime's constructor lets in. -/
structure ValidGraph where
  graph : AgentGraph
  accepted : validateAgentGraph graph = .ok graph

def requireGraphNode (graph : AgentGraph) (nodeId : NonEmptyString) :
    Except Thrown AgentGraphNode :=
  match graph.nodes.find? fun node => node.id = nodeId with
  | none => .error (.error ("AgentGraph node not found: " ++ nodeId.text))
  | some node => .ok node

def nextNodeForCondition (graph : AgentGraph) (nodeId : NonEmptyString) (condition : String) :
    Option NonEmptyString :=
  (graph.edges.find? fun edge => edge.source = nodeId && edge.condition.text = condition).map
    AgentGraphEdge.target

theorem requireGraphNode_ok (found : requireGraphNode graph nodeId = .ok node) :
    node ∈ graph.nodes ∧ node.id = nodeId := by
  unfold requireGraphNode at found
  split at found
  · cases found
  · rename_i looked
    cases found
    constructor
    · exact List.mem_of_find?_eq_some looked
    · simpa using List.find?_some looked

theorem requireGraphNode_of_mem (held : nodeId ∈ graph.nodes.map AgentGraphNode.id) :
    ∃ node, requireGraphNode graph nodeId = .ok node := by
  obtain ⟨node, heldNode, rfl⟩ := List.mem_map.mp held
  unfold requireGraphNode
  split
  · rename_i missing
    have other := List.find?_eq_none.mp missing node heldNode
    simp at other
  · exact ⟨_, rfl⟩

private theorem validateEdges_ok :
    ∀ {seen : List (NonEmptyString × NonEmptyString)}, validateEdges nodeIds seen edges = .ok () →
      ∀ edge ∈ edges, edge.target ∈ nodeIds := by
  induction edges with
  | nil => simp
  | cons edge rest ih =>
    intro seen valid other held
    unfold validateEdges at valid
    split at valid
    · cases valid
    · rename_i known
      split at valid
      · cases valid
      · rcases List.mem_cons.mp held with rfl | held
        · by_contra unknown
          exact known (.inr unknown)
        · exact ih valid other held

private theorem accepted_edges (accepted : validateAgentGraph graph = .ok graph) :
    validateEdges (graph.nodes.map AgentGraphNode.id) [] graph.edges = .ok () := by
  obtain ⟨_, -, afterNodes⟩ := bind_ok accepted
  by_cases start : graph.startNodeId ∈ graph.nodes.map AgentGraphNode.id
  · rw [if_neg (not_not.mpr start)] at afterNodes
    obtain ⟨_, edges, -⟩ := bind_ok afterNodes
    exact edges
  · rw [if_pos start] at afterNodes
    cases afterNodes

theorem ValidGraph.next_found (valid : ValidGraph)
    (edge : nextNodeForCondition valid.graph nodeId condition = some next) :
    ∃ node, requireGraphNode valid.graph next = .ok node := by
  obtain ⟨found, looked, rfl⟩ := Option.map_eq_some_iff.mp edge
  have held := List.mem_of_find?_eq_some looked
  exact requireGraphNode_of_mem (validateEdges_ok (accepted_edges valid.accepted) found held)

end QiongQi.AgentGraphs
