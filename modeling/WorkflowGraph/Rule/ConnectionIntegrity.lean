/-
The rule of connection integrity: connections start and end at ports that exist, join ports of one
kind, and no two of them give a value to the same input of an instance.
-/

import WorkflowGraph.Diagnostic
import WorkflowGraph.Index
import WorkflowGraph.Text.Suggestion

namespace WorkflowGraph.ConnectionIntegrity

/-! ### The ends of a connection -/

/-- The word for the kind of a port. -/
def kindText (isStep : Bool) : String :=
  if isStep then "step" else "data"

/-- The diagnostics of the node at one end. An output is where a connection starts. -/
def checkNode (index : Index) (ref : PortRef) (direction : Direction) (location : Location) :
    List Diagnostic :=
  let (code, side) := match direction with
    | .output => (DiagnosticCode.unknownSourceNode, "source")
    | .input => (DiagnosticCode.unknownTargetNode, "target")
  Diagnostic.when (!index.hasNode ref.node)
    (.error code ("Connection " ++ side ++ " node '" ++ ref.node ++ "' does not exist") location
      (Text.closest ref.node (index.workflow.instances.map (·.id) ++ [startId, exitId])))

/-- The diagnostics of the port at one end. A node of an unknown node type has no ports to look
at. -/
def checkPort (index : Index) (ref : PortRef) (direction : Direction) (location : Location) :
    List Diagnostic :=
  match index.nodePorts ref.node with
  | none => []
  | some ports =>
    let code := match direction with
      | .output => DiagnosticCode.unknownSourcePort
      | .input => DiagnosticCode.unknownTargetPort
    let known := (ports.filter fun port => port.direction = direction).map (·.name)
    Diagnostic.when (index.resolve ref direction).isNone
      (.error code
        ("Node '" ++ ref.node ++ "' has no " ++ direction.toText ++ " port '" ++ ref.port ++ "'")
        location (Text.closest ref.port known))

/-- The diagnostics of a connection whose two ports are of different kinds. -/
def checkKinds (index : Index) (connection : Connection) (location : Location) : List Diagnostic :=
  match index.sourcePort connection, index.targetPort connection with
  | some source, some target =>
    Diagnostic.when (source.isStep != target.isStep)
      (.error .stepPortTypeMismatch
        ("Connection " ++ connection.toText ++ " joins a " ++ kindText source.isStep ++
          " port to a " ++ kindText target.isStep ++ " port")
        location)
  | _, _ => []

/-- The diagnostics of a connection. -/
def checkConnection (index : Index) (position : Nat) (connection : Connection) : List Diagnostic :=
  let location := Location.ofConnection position connection
  checkNode index connection.source .output location ++
    checkNode index connection.target .input location ++
    checkPort index connection.source .output location ++
    checkPort index connection.target .input location ++
    checkKinds index connection location

/-! ### Inputs with several producers -/

/-- Whether a connection gives a value to an input of an instance. -/
def feedsInput (index : Index) (connection : Connection) : Bool :=
  connection.target.node ≠ exitId && (index.targetPort connection).any Port.isData

/-- The diagnostics of connections that follow connections to the inputs `fed`: the second
connection to an input is reported. -/
def checkFanIn (index : Index) (fed : List PortRef) : List (Connection × Nat) → List Diagnostic
  | [] => []
  | (connection, position) :: rest =>
    if feedsInput index connection then
      Diagnostic.when (fed.count connection.target == 1)
          (.error .multipleConnectionsToInput
            ("Data input " ++ connection.target.toText ++
              " has more than one incoming connection")
            (.ofConnection position connection)) ++
        checkFanIn index (connection.target :: fed) rest
    else checkFanIn index fed rest

/-- The diagnostics of the rule. -/
def check (index : Index) : List Diagnostic :=
  let connections := index.workflow.connections.zipIdx
  (connections.flatMap fun entry => checkConnection index entry.2 entry.1) ++
    checkFanIn index [] connections

end WorkflowGraph.ConnectionIntegrity
