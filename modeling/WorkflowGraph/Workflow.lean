/-
Workflows: instances of node types, wired together by connections.

Two boundary nodes belong to every workflow. `Start` has a step output and one output for each
parameter; `Exit` has a success and a failure input and one input for each returned value. An
instance may live in a scope of another instance, its owner; the scope table of the workflow lists
the members of each scope.
-/

import WorkflowGraph.NodeType
import WorkflowGraph.Table

namespace WorkflowGraph

/-- The boundary node where a workflow begins. -/
def startId : String := "Start"

/-- The boundary node where a workflow ends. -/
def exitId : String := "Exit"

/-- Whether an id is that of a boundary node. -/
def isBoundary (id : String) : Bool :=
  id == startId || id == exitId

/-- A scope of an instance. -/
structure ScopeRef where
  /-- The id of the instance that owns the scope. -/
  owner : String
  /-- The name of the scope, which the owner's node type declares. -/
  name : String
deriving DecidableEq

/-- The text of a scope. -/
def ScopeRef.toText (scope : ScopeRef) : String :=
  scope.owner ++ "." ++ scope.name

/-- The part of a workflow that an instance lives in: the top level, or the inside of a scope. -/
abbrev Region : Type :=
  Option ScopeRef

/-- The text of a region. -/
def Region.toText : Region → String
  | none => "workflow"
  | some scope => scope.toText

/-- A value that an instance gives to one of its inputs. -/
inductive PortBinding where
  | literal (value : Json)
  | expression (code : String)
deriving DecidableEq

/-- An instance of a node type. -/
structure Instance where
  id : String
  nodeType : String
  /-- The region that the instance lives in. -/
  parentScope : Region := none
  /-- The values given to inputs, by the name of the input. -/
  bindings : Table PortBinding := .empty
deriving DecidableEq

/-- A port of a node, named by one end of a connection. -/
structure PortRef where
  node : String
  port : String
  /-- The scope of the port, where the reference says it. -/
  scope : Option String := none
deriving DecidableEq

/-- The text of a port reference. -/
def PortRef.toText (ref : PortRef) : String :=
  match ref.scope with
  | none => ref.node ++ "." ++ ref.port
  | some scope => ref.node ++ "." ++ ref.port ++ "[" ++ scope ++ "]"

/-- What can be wrong with a part of a workflow that is given as text or added to a catalog. -/
inductive ModelError where
  /-- A text does not name a port. -/
  | invalidPortRef (text : String)
  /-- A node type of this id is there already. -/
  | duplicateNodeType (id : String)
deriving DecidableEq

/-- What is wrong, in words. -/
def ModelError.message : ModelError → String
  | invalidPortRef text => "Invalid port reference '" ++ text ++ "': expected 'node.port'"
  | duplicateNodeType id => "Node type '" ++ id ++ "' is already registered"

/-- The port that a text `node.port` names. The node ends at the first point; neither part is
empty. -/
def PortRef.parse (text : String) : Except ModelError PortRef :=
  let node := text.toList.takeWhile (· ≠ '.')
  let port := (text.toList.dropWhile (· ≠ '.')).drop 1
  if node.isEmpty || port.isEmpty then .error (.invalidPortRef text)
  else .ok { node := String.ofList node, port := String.ofList port }

/-- A connection from an output to an input. -/
structure Connection where
  source : PortRef
  target : PortRef
deriving DecidableEq

/-- The text of a connection. -/
def Connection.toText (connection : Connection) : String :=
  connection.source.toText ++ " -> " ++ connection.target.toText

/-- An entry of the scope table: a scope and the instances in it. -/
structure Scope where
  parent : String
  name : String
  children : List String
deriving DecidableEq

/-- The scope that an entry is about. -/
def Scope.ref (scope : Scope) : ScopeRef :=
  ⟨scope.parent, scope.name⟩

/-- A workflow. -/
structure Workflow where
  name : String
  /-- Whether values must flow without coercion. -/
  strictTypes : Bool := false
  parameters : List Port := []
  returns : List Port := []
  nodeTypes : List NodeType := []
  instances : List Instance := []
  connections : List Connection := []
  scopes : List Scope := []
deriving DecidableEq

namespace Workflow

/-- The first instance of an id. -/
def findInstance (workflow : Workflow) (id : String) : Option Instance :=
  workflow.instances.find? fun inst => inst.id = id

/-- The first node type of an id. -/
def findNodeType (workflow : Workflow) (id : String) : Option NodeType :=
  workflow.nodeTypes.find? fun type => type.id = id

/-- The first entry of the scope table for a scope. -/
def findScope (workflow : Workflow) (parent name : String) : Option Scope :=
  workflow.scopes.find? fun scope => scope.parent = parent ∧ scope.name = name

/-- The connections into a node. -/
def incoming (workflow : Workflow) (id : String) : List Connection :=
  workflow.connections.filter fun connection => connection.target.node = id

/-- The connections out of a node. -/
def outgoing (workflow : Workflow) (id : String) : List Connection :=
  workflow.connections.filter fun connection => connection.source.node = id

/-- The ports of the node where the workflow begins. -/
def startPorts (workflow : Workflow) : List Port :=
  .stepOutput Port.executeName ::
    workflow.parameters.map fun port => { port with direction := .output }

/-- The ports of the node where the workflow ends. -/
def exitPorts (workflow : Workflow) : List Port :=
  .stepInput Port.successName :: .stepInput Port.failureName ::
    workflow.returns.map fun port => { port with direction := .input }

end Workflow

end WorkflowGraph
