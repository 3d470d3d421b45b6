/-
The structural rule: node types are unique and well formed, the ports of the boundary do not clash,
and instance ids are unique and name a node type.
-/

import WorkflowGraph.Diagnostic
import WorkflowGraph.Index
import WorkflowGraph.Text.Suggestion

namespace WorkflowGraph.Structural

/-! ### Node types -/

/-- The ports of a node type that repeat an earlier one in direction, name and scope. -/
def repeatedPorts (type : NodeType) (seen : List (Direction × String × Option String)) :
    List Port → List Diagnostic
  | [] => []
  | port :: rest =>
    let key := (port.direction, port.name, port.scope)
    Diagnostic.when (seen.contains key)
        (.error .duplicatePortName
          ("Node type '" ++ type.id ++ "' declares " ++ port.direction.toText ++ " port '" ++
            port.name ++ "' more than once")
          (.ofPort type.id port.name)) ++
      repeatedPorts type (key :: seen) rest

/-- What is wrong with the step ports of a node type. -/
def stepPortProblem (type : NodeType) : Option String :=
  let hasInput := type.hasStepPort .input
  let hasOutput := type.hasStepPort .output
  if type.isExpression then
    if hasInput || hasOutput then some "is an expression but declares step ports" else none
  else if !hasInput then some "needs at least one step input"
  else if !hasOutput then some "needs at least one step output"
  else none

/-- The diagnostics of a node type that follows node types of the ids `seen`. -/
def checkNodeType (seen : List String) (type : NodeType) : List Diagnostic :=
  Diagnostic.when (isBoundary type.id)
      (.error .reservedNodeName ("Node type name '" ++ type.id ++ "' is reserved")
        (.ofNode type.id)) ++
    Diagnostic.when (seen.contains type.id)
      (.error .duplicateNodeName ("Node type '" ++ type.id ++ "' is declared more than once")
        (.ofNode type.id)) ++
    repeatedPorts type [] type.ports ++
    ((stepPortProblem type).map fun problem =>
      .error .invalidStepPorts ("Node type '" ++ type.id ++ "' " ++ problem)
        (.ofNode type.id)).toList

/-- The diagnostics of node types that follow node types of the ids `seen`. -/
def checkNodeTypes (seen : List String) : List NodeType → List Diagnostic
  | [] => []
  | type :: rest => checkNodeType seen type ++ checkNodeTypes (type.id :: seen) rest

/-! ### The boundary -/

/-- The diagnostics of a returned value. -/
def checkReturn (port : Port) : List Diagnostic :=
  Diagnostic.when
    ((port.name == Port.successName || port.name == Port.failureName) && !port.isStep)
    (.error .exitPortNotStep ("Exit port '" ++ port.name ++ "' must be a step port")
      (.ofPort exitId port.name))

/-- The diagnostics of a parameter. -/
def checkParameter (port : Port) : List Diagnostic :=
  Diagnostic.when (port.name == Port.executeName)
    (.error .startPortConflict
      ("Parameter '" ++ port.name ++ "' conflicts with the Start step output")
      (.ofPort startId port.name))

/-! ### Instances -/

/-- The diagnostics of an instance's node type. -/
def checkTypeOf (index : Index) (inst : Instance) : List Diagnostic :=
  Diagnostic.when (!index.catalog.contains inst.nodeType)
    (.error .unknownNodeType
      ("Instance '" ++ inst.id ++ "' uses unknown node type '" ++ inst.nodeType ++ "'")
      (.ofNode inst.id)
      (Text.closest inst.nodeType (index.workflow.nodeTypes.map (·.id))))

/-- The diagnostics of instances that follow instances of the ids `seen`. -/
def checkInstances (index : Index) (seen : List String) : List Instance → List Diagnostic
  | [] => []
  | inst :: rest =>
    if isBoundary inst.id then
      .error .reservedInstanceId ("Instance id '" ++ inst.id ++ "' is reserved")
        (.ofNode inst.id) ::
        checkTypeOf index inst ++ checkInstances index seen rest
    else
      Diagnostic.when (seen.contains inst.id)
          (.error .duplicateInstanceId ("Instance id '" ++ inst.id ++ "' is used more than once")
            (.ofNode inst.id)) ++
        checkTypeOf index inst ++ checkInstances index (inst.id :: seen) rest

/-- The diagnostics of the rule. -/
def check (index : Index) : List Diagnostic :=
  checkNodeTypes [] index.workflow.nodeTypes ++
    index.workflow.returns.flatMap checkReturn ++
    index.workflow.parameters.flatMap checkParameter ++
    checkInstances index [] index.workflow.instances

end WorkflowGraph.Structural
