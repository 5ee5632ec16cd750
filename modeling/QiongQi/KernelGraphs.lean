import QiongQi.RuntimeKernels

/-! `kernel-v3-graph.ts`: the graph that production turns walk. -/
namespace QiongQi.KernelGraphs
open RuntimeContracts ExecutionGraphs RuntimeKernels

def productionKernelV3Graph : ExecutionGraph where
  version := productionV3
  startNodeId := "prepare-turn"
  predicates := ["next", "final", "tools", "recover", "wait", "fatal", "tools_committed",
    "progress_checked", "checkpointed", "recovered"]
  nodes := [{ id := "prepare-turn", checkpoint := .both }, { id := "restore-task", checkpoint := .both },
    { id := "build-context", checkpoint := .after },
    { id := "invoke-model", checkpoint := .both },
    { id := "normalize-proposal", checkpoint := .after },
    { id := "account-model", checkpoint := .both },
    { id := "evaluate", checkpoint := .after },
    { id := "commit-assistant", terminal := true, checkpoint := .both },
    { id := "materialize-proposal", checkpoint := .both },
    { id := "prepare-tools", checkpoint := .both },
    { id := "commit-tools", checkpoint := .both },
    { id := "project-progress", checkpoint := .both },
    { id := "govern-progress", checkpoint := .both },
    { id := "progress-checkpoint", checkpoint := .both },
    { id := "recover-context", checkpoint := .both },
    { id := "wait-user", terminal := true, checkpoint := .both },
    { id := "fail", terminal := true, checkpoint := .both }]
  edges := [{ from_ := "prepare-turn", to_ := "restore-task", when_ := "next" },
    { from_ := "restore-task", to_ := "build-context", when_ := "next" },
    { from_ := "build-context", to_ := "invoke-model", when_ := "next" },
    { from_ := "invoke-model", to_ := "recover-context", when_ := "recover" },
    { from_ := "invoke-model", to_ := "normalize-proposal", when_ := "next" },
    { from_ := "normalize-proposal", to_ := "account-model", when_ := "next" },
    { from_ := "account-model", to_ := "evaluate", when_ := "next" },
    { from_ := "evaluate", to_ := "commit-assistant", when_ := "final" },
    { from_ := "evaluate", to_ := "materialize-proposal", when_ := "tools" },
    { from_ := "evaluate", to_ := "recover-context", when_ := "recover" },
    { from_ := "evaluate", to_ := "wait-user", when_ := "wait" },
    { from_ := "evaluate", to_ := "fail", when_ := "fatal" },
    { from_ := "materialize-proposal", to_ := "prepare-tools", when_ := "next" },
    { from_ := "prepare-tools", to_ := "commit-tools", when_ := "next" },
    { from_ := "commit-tools", to_ := "project-progress", when_ := "tools_committed" },
    { from_ := "project-progress", to_ := "govern-progress", when_ := "next" },
    { from_ := "govern-progress", to_ := "build-context", when_ := "progress_checked", loop := true },
    { from_ := "progress-checkpoint", to_ := "build-context", when_ := "checkpointed", loop := true },
    { from_ := "recover-context", to_ := "build-context", when_ := "recovered", loop := true }]

theorem production_accepted :
    validateExecutionGraph productionKernelV3Graph = .ok productionKernelV3Graph := by
  have valid : graphError productionKernelV3Graph = none := by decide
  simp only [validateExecutionGraph, valid]

end QiongQi.KernelGraphs
