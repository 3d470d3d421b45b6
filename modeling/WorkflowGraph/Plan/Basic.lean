/-
Plans: what a workflow runs, in what order, and where every value comes from.

A plan is a tree of sequences, parallel batches, branches, steps, inlined expressions and iterations
over scopes, and says what each exit port is given. A branch may declare merge bindings, which are
written by the arm that runs and read afterwards.
-/

import WorkflowGraph.Workflow

namespace WorkflowGraph

/-- Where a value comes from. -/
inductive ValueSource where
  /-- The value is given. -/
  | literal (value : Json)
  /-- The value is that of an expression. -/
  | expression (code : String)
  /-- A parameter of the workflow. -/
  | workflowInput (port : String)
  /-- An output of a node that ran earlier. -/
  | output (node port : String)
  /-- The current item of a scope, which its owner gives. -/
  | scopeItem (node scope port : String)
  /-- A merge binding, which the arm wrote that ran. -/
  | merged (binding : String)
  /-- Whether a step output of a node fired. -/
  | signal (node port : String)
  /-- There is no value. -/
  | unbound
deriving DecidableEq

/-- An input and where its value comes from. -/
structure InputBinding where
  port : String
  source : ValueSource
deriving DecidableEq

/-- An output and the merge binding that it writes. -/
structure Export where
  port : String
  binding : String
deriving DecidableEq

/-- A merge binding that a branch declares. -/
structure HoistedBinding where
  id : String
  /-- The input that reads the binding. -/
  consumer : PortRef
  dataType : Option DataType
deriving DecidableEq

/-- An exit port and where its value may come from. -/
structure ReturnBinding where
  port : String
  sources : List ValueSource
deriving DecidableEq

/-- One run of an instance. -/
structure Step where
  /-- The id of the instance. -/
  node : String
  nodeType : String
  inputs : List InputBinding
  exports : List Export
deriving DecidableEq

/-- What surrounds the inside of a scope: the outputs of the owner that it may read, and the inputs
of the owner that collect its results. -/
structure ScopeFrame where
  name : String
  items : List String
  results : List InputBinding
deriving DecidableEq

/-- A node of a plan. -/
inductive PlanNode where
  /-- One after the other. -/
  | sequence (steps : List PlanNode)
  /-- In any order; all are finished before the plan goes on. -/
  | parallel (branches : List PlanNode)
  /-- One of two arms, the first if a step output of a node fired. -/
  | branch (node condition : String) (hoisted : List HoistedBinding) (thenArm elseArm : PlanNode)
  /-- A run of a function or stub instance. -/
  | step (step : Step)
  /-- The computation of an expression instance. -/
  | inlined (step : Step)
  /-- A run of an instance that owns scopes, whose insides run for each item. -/
  | iteration (step : Step) (bodies : List (ScopeFrame × PlanNode))

/-- The plan of a workflow. -/
structure Plan where
  /-- The name of the workflow. -/
  workflow : String
  body : PlanNode
  returns : List ReturnBinding

namespace PlanNode

/-- The node of a block: a single node stands for itself, all else is a sequence. -/
def ofBlock : List PlanNode → PlanNode
  | [node] => node
  | nodes => sequence nodes

/-- Whether a node is a sequence of nothing. -/
def isEmpty : PlanNode → Bool
  | sequence [] => true
  | _ => false

/-! ### Walks -/

mutual

/-- The node and all nodes below it, each before the nodes below it. -/
def walk : PlanNode → List PlanNode
  | sequence steps => sequence steps :: walkAll steps
  | parallel branches => parallel branches :: walkAll branches
  | branch node condition hoisted thenArm elseArm =>
    branch node condition hoisted thenArm elseArm :: (walk thenArm ++ walk elseArm)
  | step s => [step s]
  | inlined s => [inlined s]
  | iteration s bodies => iteration s bodies :: walkBodies bodies

/-- The walks of several nodes. -/
def walkAll : List PlanNode → List PlanNode
  | [] => []
  | node :: rest => walk node ++ walkAll rest

/-- The walks of the insides of scopes. -/
def walkBodies : List (ScopeFrame × PlanNode) → List PlanNode
  | [] => []
  | (_, body) :: rest => walk body ++ walkBodies rest

end

/-- The run that a node is, if it is one. -/
def ran? : PlanNode → Option Step
  | step s | inlined s | iteration s _ => some s
  | _ => none

/-- Whether a node is a scheduled run. -/
def isScheduled : PlanNode → Bool
  | step _ | iteration _ _ => true
  | _ => false

/-- The instances that run below a node, in the order of the walk. -/
def instances (node : PlanNode) : List String :=
  node.walk.filterMap fun below => below.ran?.map (·.node)

end PlanNode

/-- Where an input of a step comes from. -/
def Step.input? (step : Step) (port : String) : Option ValueSource :=
  (step.inputs.find? fun input => input.port = port).map (·.source)

namespace Plan

/-- The instances that a plan runs, in the order of the walk. -/
def instances (plan : Plan) : List String :=
  plan.body.instances

/-- The place of an instance among those that the plan runs. -/
def positionOf (plan : Plan) (id : String) : Option Nat :=
  plan.instances.findIdx? (· = id)

/-- How many scheduled runs a plan has. -/
def stepCount (plan : Plan) : Nat :=
  plan.body.walk.countP PlanNode.isScheduled

/-- What an exit port is given. -/
def returnFor (plan : Plan) (port : String) : Option ReturnBinding :=
  plan.returns.find? fun binding => binding.port = port

end Plan

end WorkflowGraph
