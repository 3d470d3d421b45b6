/-
Scheduling: from a workflow to its plan.

The instances of a workflow are arranged first; then every input is bound to where its value comes
from. Only the arrangement can fail or consult predicates.
-/

import WorkflowGraph.Schedule.Binding

namespace WorkflowGraph

/-- The plan of a workflow. The workflow is not validated. -/
def Scheduler.schedule (scheduler : Scheduler) (workflow : Workflow) : Attempt ScheduleError Plan :=
  let index := Index.ofWorkflow workflow
  match index.unknownSource? with
  | some id => .fail (.unknownInstance id)
  | none => do
    let arrangement ← scheduler.arrangeWorkflow (.ofIndex index)
    return Binding.plan index arrangement

end WorkflowGraph
