/-
Node types: what an instance of a workflow is an instance of.

A function or stub node is scheduled and has step ports; an expression node only transforms data and
is computed in front of the nodes that read it.
-/

import WorkflowGraph.Port

namespace WorkflowGraph

/-- The kinds of nodes. -/
inductive NodeVariant where
  /-- Declared here and implemented elsewhere. -/
  | stub
  /-- Scheduled, with step ports. -/
  | function
  /-- A transformation of data, computed in front of its readers. -/
  | expression
deriving DecidableEq

/-- When a node with several step predecessors may run. -/
inductive Trigger where
  /-- When all of them have run. -/
  | conjunction
  /-- When one of them has run. -/
  | disjunction
  /-- When the predicate of this name says so. -/
  | custom (name : String)
deriving DecidableEq

/-- A node type. -/
structure NodeType where
  id : String
  variant : NodeVariant
  ports : List Port
  trigger : Trigger := .conjunction
  description : Option String := none
deriving DecidableEq

namespace NodeType

/-- The node type with a port added; the port's order is the next one in its direction. -/
def withPort (type : NodeType) (port : Port) : NodeType :=
  let order := (type.ports.filter fun other => other.direction = port.direction).length
  { type with ports := type.ports ++ [{ port with order }] }

/-- A node type without ports. -/
def withoutPorts (id : String) (variant : NodeVariant) : NodeType :=
  { id, variant, ports := [] }

/-- The node type with the step ports that every scheduled node has. -/
def withStepPorts (type : NodeType) : NodeType :=
  ((type.withPort (.stepInput Port.executeName)).withPort (.stepOutput Port.successName)).withPort
    (.stepOutput Port.failureName)

/-- A function node type. -/
def function (id : String) : NodeType :=
  (withoutPorts id .function).withStepPorts

/-- A stub node type. -/
def stub (id : String) : NodeType :=
  (withoutPorts id .stub).withStepPorts

/-- An expression node type. -/
def expression (id : String) : NodeType :=
  withoutPorts id .expression

/-- The node type with a data input that needs a value. -/
def withInput (type : NodeType) (name : String) (dataType : DataType) : NodeType :=
  type.withPort (.dataInput name dataType)

/-- The node type with a data input that may be left without a value. -/
def withOptionalInput (type : NodeType) (name : String) (dataType : DataType) : NodeType :=
  type.withPort { Port.dataInput name dataType with optional := true }

/-- The node type with a data output. -/
def withOutput (type : NodeType) (name : String) (dataType : DataType) : NodeType :=
  type.withPort (.dataOutput name dataType)

/-- Whether nodes of the type only transform data. -/
def isExpression (type : NodeType) : Bool :=
  type.variant = .expression

/-- The first port of a name and a direction. -/
def findPort (type : NodeType) (name : String) (direction : Direction) : Option Port :=
  type.ports.find? fun port => port.name = name ∧ port.direction = direction

/-- A list of ports by their order with a port put in front of all ports of no lower order. -/
def insertByOrder (port : Port) : List Port → List Port
  | [] => [port]
  | other :: rest =>
    if port.order ≤ other.order then port :: other :: rest else other :: insertByOrder port rest

/-- The ports of one direction by their order; ports of equal order stay as they are declared. -/
def portsIn (type : NodeType) (direction : Direction) : List Port :=
  (type.ports.filter fun port => port.direction = direction).foldr insertByOrder []

/-- The data inputs outside of all scopes, by their order. -/
def dataInputs (type : NodeType) : List Port :=
  (type.portsIn .input).filter fun port => port.isData && port.scope.isNone

/-- Whether the type has a step port of a direction. -/
def hasStepPort (type : NodeType) (direction : Direction) : Bool :=
  type.ports.any fun port => port.isStep && port.direction = direction

/-- The scopes that the ports of the type name, in the order in which they are first named. -/
def scopes (type : NodeType) : List String :=
  (type.ports.filterMap (·.scope)).eraseDups

/-- Whether a port of the type names a scope. -/
def declaresScope (type : NodeType) (scope : String) : Bool :=
  type.ports.any fun port => port.scope = some scope

/-- The ports of one direction that lead into or out of a scope, by their order. -/
def scopedPorts (type : NodeType) (scope : String) (direction : Direction) : List Port :=
  (type.portsIn direction).filter fun port => port.scope = some scope

end NodeType

end WorkflowGraph
