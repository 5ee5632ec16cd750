import Mathlib.Algebra.Order.BigOperators.Group.List
import Mathlib.Algebra.Ring.Nat
import Mathlib.Algebra.Order.Ring.Nat
import Mathlib.Data.Fintype.Card
import Mathlib.Data.Set.Finite.List
import Mathlib.Logic.Relation
import QiongQi.MultiAgentRuns

/-! When `enterGraphNode` comes to rest. Retry nodes count their attempts, so a way that goes
through them again and again leaves by their exhausted edges in the end; joins count nothing. -/
namespace QiongQi.GraphEntries
open AgentGraphs MultiAgentRuns Machines RuntimeContracts
open List hiding tail

/-- Where what an element leads to is listed, and nothing leads back to itself, every way ends. -/
theorem wellFounded_of_acyclic {names : List α}
    (listed : ∀ source target, leads source target → target ∈ names)
    (acyclic : ∀ name, ¬ Relation.TransGen leads name name) :
    WellFounded fun target source => leads source target := by
  have finite : Finite { name // name ∈ names } := (finite_toSet names).to_subtype
  let After (target source : { name // name ∈ names }) : Prop :=
    Relation.TransGen leads source.1 target.1
  have trans : IsTrans { name // name ∈ names } After :=
    ⟨fun _ _ _ first second => second.trans first⟩
  have irrefl : Std.Irrefl After := ⟨fun name => acyclic name.1⟩
  have wellFounded : WellFounded After := Finite.wellFounded_of_trans_of_irrefl After
  have inside : ∀ name : { name // name ∈ names }, Acc (fun target source => leads source target) name.1 := by
    intro name
    induction name using wellFounded.induction with
    | _ name ih =>
      refine ⟨_, fun target leadsTo => ?_⟩
      exact ih ⟨target, listed name.1 target leadsTo⟩ (.single leadsTo)
  exact ⟨fun name => ⟨_, fun target leadsTo => inside ⟨target, listed name target leadsTo⟩⟩⟩

/-- Where a join leads once its branches are completed, and a retry node once its attempts are
used up. -/
def passExit (graph : AgentGraph) (nodeId : NonEmptyString) : Option NonEmptyString :=
  match requireGraphNode graph nodeId with
  | .error _ => none
  | .ok node =>
    match node.kind with
    | .join _ =>
      (nextNodeForCondition graph nodeId "completed").or
        (nextNodeForCondition graph nodeId "joined")
    | .retry _ => nextNodeForCondition graph nodeId "exhausted"
    | _ => none

/-- The edge can be gone over any number of times. -/
def Passes (graph : AgentGraph) (source target : NonEmptyString) : Prop :=
  passExit graph source = some target

/-- No way along joins and exhausted retry nodes comes back to where it started. -/
def Acyclic (graph : AgentGraph) : Prop :=
  ∀ nodeId, ¬ Relation.TransGen (Passes graph) nodeId nodeId

/-- The run is at an agent, at the end, or waits. -/
def AtRest (graph : AgentGraph) (run : MultiAgentRun) : Prop :=
  ∃ node, requireGraphNode graph run.activeNodeId = .ok node ∧ match node.kind with
    | .agent _ => run.status = .running
    | .terminate => run.status = .completed
    | _ => run.status = .suspended

/-- `enterGraphNode` comes to rest, however much of the stack is left beyond what it needs. -/
def Returns (graph : AgentGraph) : Prop :=
  ∀ run nodeId, nodeId ∈ graph.nodes.map AgentGraphNode.id → ∃ depth final, AtRest graph final ∧
      ∀ more, enterGraphNode graph (depth + more) run nodeId = .ok final

variable {graph : AgentGraph}

/-- What is done at a node, where `enterNext` goes on to the next one. -/
def atNode (graph : AgentGraph) (enterNext : MultiAgentRun → NonEmptyString → Except Thrown MultiAgentRun)
    (run : MultiAgentRun) (node : AgentGraphNode) : Except Thrown MultiAgentRun :=
  match node.kind with
  | .terminate => .ok (enterTerminate run node.id)
  | .agent agentId => .ok (enterAgent run node.id agentId)
  | .join requiredBranchIds =>
    ((joinExit graph run.branchStatus node.id requiredBranchIds).map
      (enterNext (passNode run node.id))).getD (.ok (suspendAt run node.id))
  | .retry maxAttempts =>
    ((retryExit graph run.retryCounters node.id maxAttempts).map
      (enterNext (retryNode run node.id))).getD (.ok (suspendAt run node.id))
  | .handoff _ | .tool _ | .judge _ | .wait _ => .ok (suspendAt run node.id)

variable {run : MultiAgentRun} {nodeId target : NonEmptyString} {node : AgentGraphNode}
variable {maxAttempts : Nat} {valid : ValidGraph}

theorem enterGraphNode_found (found : requireGraphNode graph nodeId = .ok node) (depth : Nat) :
    enterGraphNode graph (depth + 1) run nodeId = atNode graph (enterGraphNode graph depth) run node := by
  rw [enterGraphNode, found]
  simp only [bind, Except.bind]
  rw [atNode]
  cases node.kind with
  | join requiredBranchIds =>
    simp only
    cases joinExit graph run.branchStatus node.id requiredBranchIds <;> rfl
  | retry maxAttempts =>
    simp only
    cases retryExit graph run.retryCounters node.id maxAttempts <;> rfl
  | terminate | agent | handoff | tool | judge | wait => rfl

/-- What entering a node does: it stops there, or goes on to the next node. -/
inductive Enters (graph : AgentGraph) (run : MultiAgentRun) (nodeId : NonEmptyString) : Prop where
  | stops (final : MultiAgentRun) (atRest : AtRest graph final)
      (entered : ∀ depth, enterGraphNode graph (depth + 1) run nodeId = .ok final)
  | passesJoin (target : NonEmptyString) (passes : Passes graph nodeId target)
      (entered : ∀ depth, enterGraphNode graph (depth + 1) run nodeId =
        enterGraphNode graph depth (passNode run nodeId) target)
  | passesRetry (target : NonEmptyString) (maxAttempts : Nat) (node : AgentGraphNode)
      (found : requireGraphNode graph nodeId = .ok node) (kind : node.kind = .retry maxAttempts)
      (next : retryExit graph run.retryCounters nodeId maxAttempts = some target)
      (entered : ∀ depth, enterGraphNode graph (depth + 1) run nodeId =
        enterGraphNode graph depth (retryNode run nodeId) target)

theorem atRest_suspended (found : requireGraphNode graph nodeId = .ok node)
    (waits : node.kind ≠ .terminate ∧ ∀ agentId, node.kind ≠ .agent agentId) :
    AtRest graph (suspendAt run nodeId) := by
  refine ⟨node, found, ?_⟩
  split
  · rename_i agentId kind
    exact absurd kind (waits.2 agentId)
  · rename_i kind
    exact absurd kind waits.1
  · rfl

theorem enters (found : requireGraphNode graph nodeId = .ok node) : Enters graph run nodeId := by
  have entered := @enterGraphNode_found graph run nodeId node found
  obtain ⟨-, rfl⟩ := requireGraphNode_ok found
  cases kind : node.kind with
  | terminate =>
    refine .stops (enterTerminate run node.id) ⟨node, found, ?_⟩ fun depth => ?_
    · rw [kind]
      rfl
    · rw [entered, atNode, kind]
  | agent agentId =>
    refine .stops (enterAgent run node.id agentId) ⟨node, found, ?_⟩ fun depth => ?_
    · rw [kind]
      rfl
    · rw [entered, atNode, kind]
  | join requiredBranchIds =>
    cases exit : joinExit graph run.branchStatus node.id requiredBranchIds with
    | none =>
      have waits := @atRest_suspended graph run node.id node found (by simp [kind])
      refine .stops (suspendAt run node.id) waits fun depth => ?_
      rw [entered, atNode, kind]
      simp only [exit]
      rfl
    | some target =>
      refine .passesJoin target ?_ fun depth => ?_
      · rw [joinExit] at exit
        split at exit
        · rw [Passes, passExit, found]
          simp only [kind]
          exact exit
        · cases exit
      · rw [entered, atNode, kind]
        simp only [exit]
        rfl
  | retry maxAttempts =>
    cases exit : retryExit graph run.retryCounters node.id maxAttempts with
    | none =>
      have waits := @atRest_suspended graph run node.id node found (by simp [kind])
      refine .stops (suspendAt run node.id) waits fun depth => ?_
      rw [entered, atNode, kind]
      simp only [exit]
      rfl
    | some target =>
      refine .passesRetry target maxAttempts node found kind exit fun depth => ?_
      rw [entered, atNode, kind]
      simp only [exit]
      rfl
  | handoff | tool | judge | wait =>
    have waits := @atRest_suspended graph run node.id node found (by simp [kind])
    refine .stops (suspendAt run node.id) waits fun depth => ?_
    rw [entered, atNode, kind]

/-- How many attempts are counted for a retry node. -/
def counted (retryCounters : List (NonEmptyString × Nat)) (nodeId : NonEmptyString) : Nat :=
  ((find Prod.fst nodeId retryCounters).map Prod.snd).getD 0

theorem counted_countAttempt : counted (countAttempt retryCounters nodeId) other =
      if nodeId = other then counted retryCounters nodeId + 1 else counted retryCounters other := by
  unfold counted countAttempt
  by_cases same : nodeId = other
  · subst same
    rw [if_pos rfl, find_put_self Prod.fst (nodeId, retryAttempts retryCounters nodeId)]
    rfl
  · rw [if_neg same, find_put_other same]

/-- The attempts that a node still has. -/
def attemptsOf (retryCounters : List (NonEmptyString × Nat)) (node : AgentGraphNode) : Nat :=
  match node.kind with
  | .retry maxAttempts => maxAttempts - counted retryCounters node.id
  | _ => 0

def attemptsLeft (graph : AgentGraph) (run : MultiAgentRun) : Nat :=
  (graph.nodes.map (attemptsOf run.retryCounters)).sum

theorem attemptsOf_counted :
    attemptsOf (countAttempt retryCounters nodeId) node ≤ attemptsOf retryCounters node := by
  unfold attemptsOf
  split
  · rw [counted_countAttempt]
    split
    · rename_i same
      rw [same]
      omega
    · exact Nat.le_refl _
  · exact Nat.le_refl _

theorem attemptsLeft_retried (run : MultiAgentRun) (nodeId : NonEmptyString) :
    attemptsLeft graph (retryNode run nodeId) ≤ attemptsLeft graph run :=
  sum_le_sum fun node _ => attemptsOf_counted

theorem attemptsLeft_attempted (held : node ∈ graph.nodes) (kind : node.kind = .retry maxAttempts)
    (more : retryAttempts run.retryCounters node.id ≤ maxAttempts) :
    attemptsLeft graph (retryNode run node.id) < attemptsLeft graph run := by
  refine sum_lt_sum _ _ (fun other _ => attemptsOf_counted) ⟨node, held, ?_⟩
  have fewer : counted run.retryCounters node.id + 1 ≤ maxAttempts := more
  show attemptsOf (countAttempt run.retryCounters node.id) node < attemptsOf run.retryCounters node
  unfold attemptsOf
  rw [kind]
  simp only [counted_countAttempt, if_true]
  omega

theorem mem_of_next (next : nextNodeForCondition valid.graph nodeId condition = some target) :
    target ∈ valid.graph.nodes.map AgentGraphNode.id := by
  obtain ⟨node, found⟩ := valid.next_found next
  obtain ⟨held, rfl⟩ := requireGraphNode_ok found
  exact mem_map_of_mem held

theorem mem_of_passes (passes : Passes valid.graph source target) :
    target ∈ valid.graph.nodes.map AgentGraphNode.id := by
  rw [Passes, passExit] at passes
  split at passes
  · cases passes
  · split at passes
    · rcases Option.or_eq_some_iff.mp passes with next | ⟨-, next⟩
      all_goals exact mem_of_next next
    · exact mem_of_next passes
    · cases passes

theorem mem_of_retryExit (next : retryExit valid.graph counters nodeId maxAttempts = some target) :
    target ∈ valid.graph.nodes.map AgentGraphNode.id :=
  mem_of_next next

theorem passes_of_exhausted (found : requireGraphNode graph nodeId = .ok node)
    (kind : node.kind = .retry maxAttempts)
    (next : retryExit graph counters nodeId maxAttempts = some target)
    (exhausted : ¬ retryAttempts counters nodeId ≤ maxAttempts) : Passes graph nodeId target := by
  rw [retryExit, if_neg exhausted] at next
  rw [Passes, passExit, found]
  simp only [kind]
  exact next

/-- In an acyclic graph every entry comes to rest: a step uses up an attempt, or goes on along
a way that ends. -/
theorem returns_of_acyclic (acyclic : Acyclic valid.graph) : Returns valid.graph := by
  have ends := wellFounded_of_acyclic (fun _ _ => mem_of_passes) acyclic
  have rests : ∀ (left : Nat) (nodeId : NonEmptyString),
      nodeId ∈ valid.graph.nodes.map AgentGraphNode.id → ∀ run : MultiAgentRun,
      attemptsLeft valid.graph run ≤ left →
      ∃ depth final, AtRest valid.graph final ∧
        ∀ more, enterGraphNode valid.graph (depth + more) run nodeId = .ok final := by
    intro left
    induction left using Nat.strong_induction_on with
    | _ left outer =>
      intro nodeId
      induction nodeId using ends.induction with
      | _ nodeId inner =>
        intro known run within
        obtain ⟨node, found⟩ := requireGraphNode_of_mem known
        have goOn : ∀ {later : MultiAgentRun} {target : NonEmptyString},
            (∀ depth, enterGraphNode valid.graph (depth + 1) run nodeId =
              enterGraphNode valid.graph depth later target) →
            (∃ depth final, AtRest valid.graph final ∧
              ∀ more, enterGraphNode valid.graph (depth + more) later target = .ok final) →
            ∃ depth final, AtRest valid.graph final ∧
              ∀ more, enterGraphNode valid.graph (depth + more) run nodeId = .ok final := by
          rintro later target entered ⟨depth, final, atRest, returned⟩
          refine ⟨depth + 1, final, atRest, fun more => ?_⟩
          rw [Nat.add_right_comm, entered, returned]
        cases @enters valid.graph run nodeId node found with
        | stops final atRest entered =>
          refine ⟨1, final, atRest, fun more => ?_⟩
          rw [Nat.add_comm, entered]
        | passesJoin target passes entered =>
          exact goOn entered (inner target passes (mem_of_passes passes) _ within)
        | passesRetry target maxAttempts retry retryFound kind next entered =>
          have heldTarget := mem_of_retryExit next
          by_cases more : retryAttempts run.retryCounters nodeId ≤ maxAttempts
          · obtain ⟨held, rfl⟩ := requireGraphNode_ok retryFound
            have fewer := attemptsLeft_attempted held kind more
            exact goOn entered (outer _ (by omega) target heldTarget _ (Nat.le_refl _))
          · have passes := passes_of_exhausted retryFound kind next more
            have notMore := @attemptsLeft_retried valid.graph run nodeId
            exact goOn entered (inner target passes heldTarget _ (notMore.trans within))
  exact fun run nodeId known => rests _ nodeId known run (Nat.le_refl _)

/-- Every join is ready, and every retry node has used up its attempts. -/
structure Through (graph : AgentGraph) (run : MultiAgentRun) : Prop where
  joins : ∀ node ∈ graph.nodes, ∀ requiredBranchIds, node.kind = .join requiredBranchIds →
    ∀ branchId ∈ requiredBranchIds, (find Prod.fst branchId run.branchStatus).map Prod.snd = some .completed
  retries : ∀ node ∈ graph.nodes, ∀ maxAttempts, node.kind = .retry maxAttempts →
    maxAttempts ≤ counted run.retryCounters node.id

theorem through_retried (through : Through graph run) : Through graph (retryNode run nodeId) := by
  refine ⟨through.joins, fun node held maxAttempts kind => ?_⟩
  have used := through.retries node held maxAttempts kind
  show maxAttempts ≤ counted (countAttempt run.retryCounters nodeId) node.id
  rw [counted_countAttempt]
  split
  · rename_i same
    rw [same]
    omega
  · exact used

/-- Such a run goes on from each node that can be passed. -/
theorem entered_through (through : Through graph run) (passes : Passes graph nodeId target) :
    ∃ later, Through graph later ∧ ∀ depth, enterGraphNode graph (depth + 1) run nodeId =
      enterGraphNode graph depth later target := by
  rw [Passes, passExit] at passes
  split at passes
  · cases passes
  · rename_i node found
    have entered := @enterGraphNode_found graph run nodeId node found
    obtain ⟨held, rfl⟩ := requireGraphNode_ok found
    split at passes
    · rename_i requiredBranchIds kind
      have ready : joinExit graph run.branchStatus node.id requiredBranchIds = some target := by
        rw [joinExit, if_pos]
        · exact passes
        · rw [all_eq_true]
          intro branchId required
          exact decide_eq_true (through.joins node held requiredBranchIds kind branchId required)
      refine ⟨passNode run node.id, ⟨through.joins, through.retries⟩, fun depth => ?_⟩
      rw [entered, atNode, kind]
      simp only [ready]
      rfl
    · rename_i maxAttempts kind
      have used := through.retries node held maxAttempts kind
      have exhausted : ¬ retryAttempts run.retryCounters node.id ≤ maxAttempts := by
        have attempts : retryAttempts run.retryCounters node.id = counted run.retryCounters node.id + 1 := rfl
        omega
      have exit : retryExit graph run.retryCounters node.id maxAttempts = some target := by
        rw [retryExit, if_neg exhausted]
        exact passes
      refine ⟨retryNode run node.id, through_retried through, fun depth => ?_⟩
      rw [entered, atNode, kind]
      simp only [exit]
      rfl
    · cases passes

theorem never_returns : ∀ {run : MultiAgentRun} {nodeId : NonEmptyString},
    Through graph run → Relation.TransGen (Passes graph) nodeId nodeId →
    ∀ final, enterGraphNode graph depth run nodeId ≠ .ok final := by
  induction depth with
  | zero =>
    intro run nodeId _ _ final returned
    cases returned
  | succ depth ih =>
    intro run nodeId through cycle final returned
    obtain ⟨target, passes, back⟩ := Relation.TransGen.head'_iff.mp cycle
    obtain ⟨later, throughLater, entered⟩ := entered_through through passes
    rw [entered] at returned
    exact ih throughLater (Relation.TransGen.tail' back passes) final returned

def requiredOf (node : AgentGraphNode) : List NonEmptyString :=
  match node.kind with
  | .join requiredBranchIds => requiredBranchIds
  | _ => []

def maxAttemptsOf (node : AgentGraphNode) : Nat :=
  match node.kind with
  | .retry maxAttempts => maxAttempts
  | _ => 0

/-- A run that is through with every join and every retry node. -/
def throughRun (graph : AgentGraph) : MultiAgentRun where
  runId := graph.graphId
  status := .running
  graphId := graph.graphId
  activeNodeId := graph.startNodeId
  branchStatus := (graph.nodes.flatMap requiredOf).map fun branchId => (branchId, .completed)
  retryCounters := graph.nodes.map fun node => (node.id, (graph.nodes.map maxAttemptsOf).sum)

/-- Where all names have one value, a listed name has it. -/
theorem find_constant {names : List NonEmptyString} (held : name ∈ names) :
    (find Prod.fst name (names.map fun other => (other, value))).map Prod.snd = some value := by
  cases found : find Prod.fst name (names.map fun other => (other, value)) with
  | none =>
    have missing := find?_eq_none.mp found (name, value) (mem_map_of_mem held)
    simp at missing
  | some entry =>
    obtain ⟨other, -, rfl⟩ := mem_map.mp (find_mem found).1
    rfl

theorem through_throughRun : Through graph (throughRun graph) := by
  constructor
  · intro node held requiredBranchIds kind branchId required
    refine find_constant (mem_flatMap.mpr ⟨node, held, ?_⟩)
    rw [requiredOf, kind]
    exact required
  · intro node held maxAttempts kind
    have ofAll : maxAttemptsOf node ≤ (graph.nodes.map maxAttemptsOf).sum :=
      le_sum_of_mem (mem_map_of_mem held)
    have named : (throughRun graph).retryCounters = (graph.nodes.map AgentGraphNode.id).map
        fun nodeId => (nodeId, (graph.nodes.map maxAttemptsOf).sum) := by
      rw [map_map]
      rfl
    rw [maxAttemptsOf, kind] at ofAll
    rw [counted, named, find_constant (mem_map_of_mem held)]
    exact ofAll

section Example

private def edgeOf (source condition target : String) : AgentGraphEdge :=
  ⟨named source, named target, named condition⟩

/-- The manager is asked twice; the way out leads to `afterwards`. -/
private def retriedGraph (afterwards : String) : AgentGraph where
  graphId := named "retried"
  startNodeId := named "manager"
  nodes :=
    [⟨named "manager", .agent (named "manager")⟩, ⟨named "again", .retry 1⟩,
      ⟨named "gather", .join []⟩, ⟨named "done", .terminate⟩]
  edges :=
    [edgeOf "manager" "completed" "again", edgeOf "again" "retry" "manager",
      edgeOf "again" "exhausted" "gather", edgeOf "gather" "completed" afterwards]

private def askedTwice : MultiAgentRun where
  runId := named "mar_1"
  status := .running
  graphId := named "retried"
  activeNodeId := named "manager"
  retryCounters := [(named "again", 1)]

end Example

end QiongQi.GraphEntries
