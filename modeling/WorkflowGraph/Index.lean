/-
The index of a workflow.

An index is made once and answers where an instance stands, what connections a node has, and which
port a reference means. Of several instances with one id it knows the first. It also follows
regions outwards: from the inside of a scope to the region of the scope's owner.
-/

import WorkflowGraph.Catalog

namespace WorkflowGraph

/-- Tables about a workflow. -/
structure Index where
  workflow : Workflow
  catalog : Catalog
  startPorts : List Port
  exitPorts : List Port
  /-- The first position of each instance id. -/
  positions : Table Nat
  /-- The positions of the connections into each node. -/
  incomingAt : Table (List Nat)
  /-- The positions of the connections out of each node. -/
  outgoingAt : Table (List Nat)

namespace Index

/-- The table with a position added at the end of a name's list. -/
def addPosition (table : Table (List Nat)) (name : String) (position : Nat) : Table (List Nat) :=
  table.insert name ((table.get? name).getD [] ++ [position])

/-- The first position of each id among instances, which are numbered from `start`. -/
def firstPositions (table : Table Nat) (start : Nat) : List Instance → Table Nat
  | [] => table
  | inst :: rest =>
    let table := if table.contains inst.id then table else table.insert inst.id start
    firstPositions table (start + 1) rest

/-- The positions of connections by the node that `node` picks from each of them. -/
def positionsBy (node : Connection → String) (table : Table (List Nat)) (start : Nat) :
    List Connection → Table (List Nat)
  | [] => table
  | connection :: rest =>
    positionsBy node (addPosition table (node connection) start) (start + 1) rest

/-- The index of a workflow. -/
def ofWorkflow (workflow : Workflow) : Index where
  workflow := workflow
  catalog := .ofTypes workflow.nodeTypes
  startPorts := workflow.startPorts
  exitPorts := workflow.exitPorts
  positions := firstPositions .empty 0 workflow.instances
  incomingAt := positionsBy (·.target.node) .empty 0 workflow.connections
  outgoingAt := positionsBy (·.source.node) .empty 0 workflow.connections

/-! ### Nodes -/

/-- Where an instance stands among the instances. -/
def position? (index : Index) (id : String) : Option Nat :=
  index.positions.get? id

/-- The instance of an id. -/
def find? (index : Index) (id : String) : Option Instance :=
  (index.position? id).bind fun position => index.workflow.instances[position]?

/-- Whether an id is that of an instance or of a boundary node. -/
def hasNode (index : Index) (id : String) : Bool :=
  isBoundary id || (index.position? id).isSome

/-- The node type of an instance. -/
def nodeType? (index : Index) (id : String) : Option NodeType :=
  (index.find? id).bind fun inst => index.catalog.get? inst.nodeType

/-- Whether an instance only transforms data. -/
def isExpression (index : Index) (id : String) : Bool :=
  (index.nodeType? id).any NodeType.isExpression

/-! ### Ports -/

/-- The ports of a node. -/
def nodePorts (index : Index) (id : String) : Option (List Port) :=
  if id = startId then some index.startPorts
  else if id = exitId then some index.exitPorts
  else (index.nodeType? id).map (·.ports)

/-- The port that a reference means in a direction. A reference without a scope means a port in any
scope or none. -/
def resolve (index : Index) (ref : PortRef) (direction : Direction) : Option Port :=
  (index.nodePorts ref.node).bind fun ports =>
    ports.find? fun port =>
      port.name = ref.port ∧ port.direction = direction ∧
        (ref.scope = none ∨ port.scope = ref.scope)

/-- The port where a connection starts. -/
def sourcePort (index : Index) (connection : Connection) : Option Port :=
  index.resolve connection.source .output

/-- The port where a connection ends. -/
def targetPort (index : Index) (connection : Connection) : Option Port :=
  index.resolve connection.target .input

/-- Whether a connection carries control, as the port says where it starts. -/
def isStep (index : Index) (connection : Connection) : Bool :=
  (index.sourcePort connection).any Port.isStep

/-- Whether a connection carries a value, as the port says where it starts. -/
def isData (index : Index) (connection : Connection) : Bool :=
  (index.sourcePort connection).any Port.isData

/-! ### Connections -/

/-- The connections at positions, with their positions. -/
def connectionsAt (index : Index) (positions : List Nat) : List (Nat × Connection) :=
  positions.filterMap fun position =>
    index.workflow.connections[position]?.map fun connection => (position, connection)

/-- The connections into a node, with their positions. -/
def incoming (index : Index) (id : String) : List (Nat × Connection) :=
  index.connectionsAt ((index.incomingAt.get? id).getD [])

/-- The connections out of a node, with their positions. -/
def outgoing (index : Index) (id : String) : List (Nat × Connection) :=
  index.connectionsAt ((index.outgoingAt.get? id).getD [])

/-- The connections into the inputs of one name of a node, with their positions. -/
def connectionsInto (index : Index) (id port : String) : List (Nat × Connection) :=
  (index.incoming id).filter fun entry => entry.2.target.port = port

/-! ### Regions -/

/-- The region that an instance lives in. An unknown instance counts as one of the top level. -/
def regionOf (index : Index) (id : String) : Region :=
  (index.find? id).bind (·.parentScope)

/-- The region at one end of a connection, if its port is known. A scoped port belongs to the inside
of its scope. -/
def endpointRegion (index : Index) (ref : PortRef) (direction : Direction) : Option Region :=
  (index.resolve ref direction).map fun port =>
    if isBoundary ref.node then none
    else
      match port.scope with
      | some scope => some ⟨ref.node, scope⟩
      | none => index.regionOf ref.node

/-- The instances declared in a region, with their positions left out. A later instance of an id
that came before does not count. -/
def members (index : Index) (region : Region) : List Instance :=
  (index.workflow.instances.zipIdx.filter fun entry =>
    entry.1.parentScope = region ∧ index.position? entry.1.id = some entry.2).map (·.1)

/-- The region around a region. -/
def outward (index : Index) : Region → Region
  | none => none
  | some scope => index.regionOf scope.owner

/-- Whether `outer` is met on the way outwards from a region, in at most `steps` steps. -/
def isWithinSteps (index : Index) (outer : Region) : Nat → Region → Bool
  | 0, _ => false
  | steps + 1, region =>
    region = outer ||
      match region with
      | none => false
      | some _ => isWithinSteps index outer steps (index.outward region)

/-- Whether a region is another one or lies inside it. -/
def isWithin (index : Index) (inner outer : Region) : Bool :=
  index.isWithinSteps outer (index.workflow.instances.length + 1) inner

/-- How many steps outwards lead from a region to the top level, if at most `steps - 1` do. -/
def depthSteps (index : Index) : Nat → Region → Option Nat
  | 0, _ => none
  | _ + 1, none => some 0
  | steps + 1, some scope =>
    (depthSteps index steps (index.regionOf scope.owner)).map (· + 1)

/-- How deep a region lies: zero for the top level, nothing where the way outwards never ends. -/
def depth (index : Index) (region : Region) : Option Nat :=
  index.depthSteps (index.workflow.instances.length + 1) region

end Index

end WorkflowGraph
