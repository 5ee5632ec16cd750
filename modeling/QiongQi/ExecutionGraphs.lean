import QiongQi.RuntimeContracts

/-! `execution-graph.ts`: the graph a kernel walks, and the check every graph
passes before a kernel is built over it. -/
namespace QiongQi.ExecutionGraphs
open RuntimeContracts

inductive RuntimeNodeCheckpoint where
  | before | after | both | none
  deriving DecidableEq

/-- `kind` and `effect` only describe a node; the kernel reads neither. -/
structure RuntimeNode where
  id : String
  checkpoint : RuntimeNodeCheckpoint := .none
  terminal : Bool := false
  deriving DecidableEq

structure RuntimeEdge where
  from_ : String
  to_ : String
  when_ : String
  loop : Bool := false
  deriving DecidableEq

structure ExecutionGraph where
  version : String
  startNodeId : String
  predicates : List String
  nodes : List RuntimeNode
  edges : List RuntimeEdge
  deriving DecidableEq

/-- The sets and stacks of the depth-first search in `cycleError`. -/
structure CycleSearch where
  visiting : List String := []
  visited : List String := []
  stackNodes : List String := []
  stackEdges : List RuntimeEdge := []

/-- `stackNodes.lastIndexOf(id)` for an id on the stack. -/
def lastIndexOf (items : List String) (id : String) : Nat :=
  items.length - 1 - items.reverse.idxOf id

/-- `visit`: a node being visited that is reached again closes a cycle, and one
of its edges must be a loop edge. The nodes on the stack are distinct, so the
search is never deeper than the node list is long. -/
def visit (graph : ExecutionGraph) : Nat → String → CycleSearch → Except String CycleSearch
  | 0, _, search => .ok search
  | fuel + 1, nodeId, search => do
    let entered := { search with
      visiting := nodeId :: search.visiting
      stackNodes := search.stackNodes ++ [nodeId] }
    let explored ← (graph.edges.filter fun edge => edge.from_ = nodeId).foldlM (fun search edge =>
        if search.visiting.contains edge.to_ then
          let cycleEdges := search.stackEdges.drop (lastIndexOf search.stackNodes edge.to_) ++ [edge]
          if cycleEdges.any RuntimeEdge.loop then pure search
          else
            let route := String.intercalate ", "
              (cycleEdges.map fun candidate => s!"{candidate.from_}->{candidate.to_}")
            throw s!"graph cycle requires loop edge: {route}"
        else if search.visited.contains edge.to_ then pure search
        else do
          let below ← visit graph fuel edge.to_
            { search with stackEdges := search.stackEdges ++ [edge] }
          pure { below with stackEdges := below.stackEdges.dropLast })
      entered
    return { explored with
      stackNodes := explored.stackNodes.dropLast
      visiting := explored.visiting.filter (· ≠ nodeId)
      visited := nodeId :: explored.visited }

def cycleError (graph : ExecutionGraph) : Option String :=
  match graph.nodes.foldlM (fun search node =>
      if search.visited.contains node.id then pure search
      else visit graph (graph.nodes.length + 1) node.id search) ({} : CycleSearch) with
  | .ok _ => none
  | .error message => some message

def duplicateNode : List RuntimeNode → List String → Option String
  | [], _ => none
  | node :: rest, ids =>
    if jsTrim node.id = "" then some "graph node id is required"
    else if ids.contains node.id then some s!"duplicate node: {node.id}"
    else duplicateNode rest (node.id :: ids)

/-- The name an edge's condition is registered under. -/
def predicateName (condition : String) : String :=
  if "predicate:".toList.isPrefixOf condition.toList then
    String.ofList (condition.toList.drop "predicate:".length)
  else condition

def edgeError (graph : ExecutionGraph) (edge : RuntimeEdge) : Option String :=
  let ids := graph.nodes.map RuntimeNode.id
  if !ids.contains edge.from_ || !ids.contains edge.to_ then
    some s!"unknown graph node in edge: {edge.from_}->{edge.to_}"
  else if jsTrim edge.when_ = "" then some "graph edge predicate is required"
  else if !graph.predicates.contains (predicateName edge.when_) then
    some s!"unregistered predicate: {predicateName edge.when_}"
  else none

/-- `none` when the graph is accepted, else the first complaint. -/
def graphError (graph : ExecutionGraph) : Option String :=
  if jsTrim graph.version = "" then some "graph version is required"
  else
    (duplicateNode graph.nodes []).orElse fun _ =>
      if !(graph.nodes.map RuntimeNode.id).contains graph.startNodeId then
        some s!"unknown graph node: {graph.startNodeId}"
      else (graph.edges.findSome? (edgeError graph)).orElse fun _ => cycleError graph

def validateExecutionGraph (graph : ExecutionGraph) : Except String ExecutionGraph :=
  match graphError graph with
  | none => .ok graph
  | some message => .error message

def outgoingEdges (graph : ExecutionGraph) (nodeId condition : String) : List RuntimeEdge :=
  graph.edges.filter fun edge =>
    edge.from_ = nodeId && (edge.when_ = condition || edge.when_ = "predicate:" ++ condition)

end QiongQi.ExecutionGraphs
