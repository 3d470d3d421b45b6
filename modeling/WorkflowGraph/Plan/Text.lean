/-
Plans as text: a tree with a line for each node.
-/

import WorkflowGraph.Json.Print
import WorkflowGraph.Plan.Basic

namespace WorkflowGraph

/-- The text of a value's source. -/
def ValueSource.toText : ValueSource → String
  | literal value => value.compact
  | expression code => "`" ++ code ++ "`"
  | workflowInput port => startId ++ "." ++ port
  | output node port => node ++ "." ++ port
  | scopeItem node scope port => node ++ "." ++ port ++ "[" ++ scope ++ "]"
  | merged binding => "$" ++ binding
  | signal node port => "signal(" ++ node ++ "." ++ port ++ ")"
  | unbound => "unbound"

/-- The text of inputs and their sources. -/
def InputBinding.listText (inputs : List InputBinding) : String :=
  String.intercalate ", " (inputs.map fun input => input.port ++ "=" ++ input.source.toText)

/-- The text of a run. -/
def Step.toText (step : Step) (kind : String) : String :=
  kind ++ " " ++ step.node ++ ": " ++ step.nodeType ++ "(" ++ InputBinding.listText step.inputs ++
    ")" ++ String.join (step.exports.map fun sent => " -> $" ++ sent.binding)

/-- The text of what surrounds the inside of a scope. -/
def ScopeFrame.toText (frame : ScopeFrame) : String :=
  "scope " ++ frame.name ++ " over [" ++ String.intercalate ", " frame.items ++ "] collect (" ++
    InputBinding.listText frame.results ++ ")"

namespace PlanNode

/-- The mark in front of a node, which depends on whether it is the last one below its parent. -/
def marker (isLast : Bool) : String :=
  if isLast then "└── " else "├── "

/-- What stands in front of the lines below a node. -/
def indentBelow (isLast : Bool) : String :=
  if isLast then "    " else "│   "

mutual

/-- The lines of a node; `indent` stands in front of its own line. -/
def treeLines (indent : String) (isLast : Bool) : PlanNode → List String
  | sequence steps =>
    (indent ++ marker isLast ++ "sequence") :: childLines (indent ++ indentBelow isLast) steps
  | parallel branches =>
    (indent ++ marker isLast ++ "parallel") :: childLines (indent ++ indentBelow isLast) branches
  | step s => [indent ++ marker isLast ++ s.toText "step"]
  | inlined s => [indent ++ marker isLast ++ s.toText "inline"]
  | branch node condition hoisted thenArm elseArm =>
    let inner := indent ++ indentBelow isLast
    (indent ++ marker isLast ++ "branch on " ++ node ++ "." ++ condition) ::
      hoisted.map (fun binding =>
        inner ++ "│   hoist $" ++ binding.id ++ " for " ++ binding.consumer.toText) ++
      (inner ++ "├── then") :: treeLines (inner ++ "│   ") true thenArm ++
      (inner ++ "└── else") :: treeLines (inner ++ "    ") true elseArm
  | iteration s bodies =>
    (indent ++ marker isLast ++ s.toText "repeat") ::
      bodyLines (indent ++ indentBelow isLast) bodies

/-- The lines of the nodes below a node. -/
def childLines (indent : String) : List PlanNode → List String
  | [] => []
  | node :: rest => treeLines indent rest.isEmpty node ++ childLines indent rest

/-- The lines of the insides of scopes. -/
def bodyLines (indent : String) : List (ScopeFrame × PlanNode) → List String
  | [] => []
  | (frame, body) :: rest =>
    (indent ++ marker rest.isEmpty ++ frame.toText) ::
      treeLines (indent ++ indentBelow rest.isEmpty) true body ++ bodyLines indent rest

end

/-- The text of lines, each of which ends with a line break. -/
def joinLines (lines : List String) : String :=
  String.join (lines.map (· ++ "\n"))

/-- The text of a node. -/
def toText (node : PlanNode) : String :=
  joinLines (treeLines "" true node)

end PlanNode

/-- The line of what an exit port is given. -/
def ReturnBinding.toText (binding : ReturnBinding) : String :=
  "return " ++ binding.port ++ " <- " ++
    String.intercalate " | " (binding.sources.map ValueSource.toText)

/-- The text of a plan. -/
def Plan.toText (plan : Plan) : String :=
  PlanNode.joinLines (("plan " ++ plan.workflow) :: PlanNode.treeLines "" true plan.body ++
    plan.returns.map ReturnBinding.toText)

end WorkflowGraph
