/-
Ports: the places where connections start and end.

A step port carries control only. A data port carries a value of a type, and may say what value it
takes when nothing is connected to it.
-/

import WorkflowGraph.DataType
import WorkflowGraph.Json.Value

namespace WorkflowGraph

/-- The direction of a port, seen from its node. -/
inductive Direction where
  | input
  | output
deriving DecidableEq

/-- The text of a direction. -/
def Direction.toText : Direction → String
  | input => "input"
  | output => "output"

/-- What a port carries. -/
inductive PortKind where
  /-- Control, without a value. -/
  | step
  /-- A value of a type. Where nothing is connected, the default is taken, or else the
  expression. -/
  | data (dataType : DataType) (default : Option Json) (expression : Option String)
deriving DecidableEq

/-- A port of a node type, or of the boundary of a workflow. -/
structure Port where
  name : String
  direction : Direction
  kind : PortKind
  /-- Whether an input may be left without a value. -/
  optional : Bool := false
  /-- The place among the ports of one direction. -/
  order : Nat := 0
  /-- The scope that the port leads into or out of. -/
  scope : Option String := none
deriving DecidableEq

namespace Port

/-- The step input that starts a node. -/
def executeName : String := "execute"

/-- The step output that fires when a node succeeds. -/
def successName : String := "onSuccess"

/-- The step output that fires when a node fails. -/
def failureName : String := "onFailure"

/-- A step input. -/
def stepInput (name : String) : Port :=
  { name, direction := .input, kind := .step }

/-- A step output. -/
def stepOutput (name : String) : Port :=
  { name, direction := .output, kind := .step }

/-- A data input that needs a value. -/
def dataInput (name : String) (dataType : DataType) : Port :=
  { name, direction := .input, kind := .data dataType none none }

/-- A data output. -/
def dataOutput (name : String) (dataType : DataType) : Port :=
  { name, direction := .output, kind := .data dataType none none }

/-- The port with a default value; a step port stays as it is. -/
def withDefault (port : Port) (value : Json) : Port :=
  match port.kind with
  | .step => port
  | .data dataType _ expression => { port with kind := .data dataType (some value) expression }

/-- The port with an expression for its value; a step port stays as it is. -/
def withExpression (port : Port) (code : String) : Port :=
  match port.kind with
  | .step => port
  | .data dataType default _ => { port with kind := .data dataType default (some code) }

/-- Whether a port carries control. -/
def isStep (port : Port) : Bool :=
  port.kind = .step

/-- Whether a port carries a value. -/
def isData (port : Port) : Bool :=
  !port.isStep

/-- Whether a port is an input. -/
def isInput (port : Port) : Bool :=
  port.direction = .input

/-- Whether a port is an output. -/
def isOutput (port : Port) : Bool :=
  port.direction = .output

/-- The type of the port's values; a step port has none. -/
def dataType? (port : Port) : Option DataType :=
  match port.kind with
  | .step => none
  | .data dataType _ _ => some dataType

/-- The default value of the port. -/
def default? (port : Port) : Option Json :=
  match port.kind with
  | .step => none
  | .data _ default _ => default

/-- The expression for the port's value. -/
def expression? (port : Port) : Option String :=
  match port.kind with
  | .step => none
  | .data _ _ expression => expression

/-- Whether the port has a value when nothing is connected to it. -/
def hasFallback (port : Port) : Bool :=
  port.default?.isSome || port.expression?.isSome

end Port

end WorkflowGraph
