/-
Dry runs: a walk through a plan in which nothing is really run.

An output of a node is the text `node.port`, every node succeeds that is not said to fail, and the
inside of a scope runs once. This shows which nodes run, and what the workflow returns.
-/

import WorkflowGraph.Plan.Basic

namespace WorkflowGraph

/-- What is known in the course of a dry run. -/
structure DryRun.State where
  /-- The merge bindings that have been written. -/
  bindings : Table Json := .empty
  /-- Whether each node that ran succeeded. -/
  outcomes : Table Bool := .empty
  /-- The nodes that ran, in order. -/
  executed : List String := []

/-- What a dry run shows. -/
structure DryRun where
  executed : List String
  returns : Table Json

namespace DryRun

namespace State

/-- Whether a node has run. -/
def hasRun (state : State) (node : String) : Bool :=
  state.outcomes.contains node

/-- Whether a step output has fired. The workflow starts with the step output of its first node. -/
def hasFired (state : State) (node port : String) : Bool :=
  if node = startId then port = Port.executeName
  else
    match state.outcomes.get? node with
    | some true => port = Port.successName
    | some false => port = Port.failureName
    | none => false

/-- The value that a source has. -/
def resolve (state : State) : ValueSource → Json
  | .literal value => value
  | .expression code => .string code
  | .workflowInput port => .string (startId ++ "." ++ port)
  | .output node port => if state.hasRun node then .string (node ++ "." ++ port) else .null
  | .scopeItem node scope port =>
    if state.hasRun node then .string (node ++ "." ++ port ++ "[" ++ scope ++ "]") else .null
  | .merged binding => (state.bindings.get? binding).getD .null
  | .signal node port => .bool (state.hasFired node port)
  | .unbound => .null

/-- The state with a merge binding written. -/
def set (state : State) (binding : String) (value : Json) : State :=
  { state with bindings := state.bindings.insert binding value }

/-- The state after a run, which writes the merge bindings of its outputs. -/
def run (failures : List String) (state : State) (step : Step) : State :=
  let ran : State :=
    { state with
      outcomes := state.outcomes.insert step.node (!failures.contains step.node)
      executed := state.executed ++ [step.node] }
  step.exports.foldl
    (fun state sent => state.set sent.binding (.string (step.node ++ "." ++ sent.port))) ran

end State

mutual

/-- The state after a node of a plan. -/
def walk (failures : List String) (state : State) : PlanNode → State
  | .sequence steps => walkAll failures state steps
  | .parallel branches => walkAll failures state branches
  | .step s => state.run failures s
  | .inlined s => state.run failures s
  | .branch node condition _ thenArm elseArm =>
    if state.hasFired node condition then walk failures state thenArm
    else walk failures state elseArm
  | .iteration s bodies => walkBodies failures (state.run failures s) bodies

/-- The state after several nodes. -/
def walkAll (failures : List String) (state : State) : List PlanNode → State
  | [] => state
  | node :: rest => walkAll failures (walk failures state node) rest

/-- The state after the insides of scopes. -/
def walkBodies (failures : List String) (state : State) : List (ScopeFrame × PlanNode) → State
  | [] => state
  | (_, body) :: rest => walkBodies failures (walk failures state body) rest

end

/-- Whether a source says if a step output fired. -/
def isSignal : ValueSource → Bool
  | .signal _ _ => true
  | _ => false

/-- The value that an exit port is given: of signals, whether one of them fired, else the last value
that is not null. -/
def returned (state : State) (sources : List ValueSource) : Json :=
  let values := sources.map state.resolve
  if !sources.isEmpty && sources.all isSignal then .bool (values.contains (.bool true))
  else (values.reverse.find? fun value => value ≠ .null).getD .null

/-- The dry run of a plan in which the nodes `failures` fail. -/
def ofPlan (plan : Plan) (failures : List String) : DryRun :=
  let state := walk failures {} plan.body
  { executed := state.executed
    returns := Table.ofList (plan.returns.map fun binding =>
      (binding.port, returned state binding.sources)) }

end DryRun

end WorkflowGraph
