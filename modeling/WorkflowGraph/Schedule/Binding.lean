/-
From arrangements to plans: where every input gets its value.

An arrangement is walked in the order in which it runs. A branch declares its merge bindings before
its head and its arms are bound, and all that comes after may read them.
-/

import WorkflowGraph.Schedule.Arrangement
import WorkflowGraph.Schedule.Merge

namespace WorkflowGraph.Binding

/-! ### Sources -/

/-- Where the value of a connection is read. -/
def connectionSource (index : Index) (merges : List Merge) (connection : Connection) :
    ValueSource :=
  let source := connection.source
  match Merge.bindingFor merges connection with
  | some binding => .merged binding
  | none =>
    if source.node = startId then .workflowInput source.port
    else
      match (index.sourcePort connection).bind (·.scope) with
      | some scope => .scopeItem source.node scope source.port
      | none => .output source.node source.port

/-- What an input is given without a connection: a value of the instance, or else of the port. -/
def fallback (binding : Option PortBinding) (port : Port) : ValueSource :=
  match binding, port.default?, port.expression? with
  | some (.literal value), _, _ => .literal value
  | some (.expression code), _, _ => .expression code
  | none, some value, _ => .literal value
  | none, none, some code => .expression code
  | none, none, none => .unbound

/-- Where an input of an instance gets its value. -/
def inputSource (index : Index) (merges : List Merge) (id : String) (port : Port) : ValueSource :=
  match index.connectionsInto id port.name with
  | (_, connection) :: _ => connectionSource index merges connection
  | [] => fallback ((index.find? id).bind fun inst => inst.bindings.get? port.name) port

/-- Ports of an instance with their sources. -/
def inputs (index : Index) (merges : List Merge) (id : String) (ports : List Port) :
    List InputBinding :=
  ports.map fun port => ⟨port.name, inputSource index merges id port⟩

/-- The run of an instance. -/
def step (index : Index) (merges : List Merge) (id : String) : Step where
  node := id
  nodeType := ((index.nodeType? id).map (·.id)).getD ""
  inputs := inputs index merges id (((index.nodeType? id).map NodeType.dataInputs).getD [])
  exports := Merge.exportsOf merges id

/-- What surrounds the inside of a scope. -/
def frame (index : Index) (merges : List Merge) (owner scope : String) : ScopeFrame :=
  let ports (direction : Direction) : List Port :=
    (((index.nodeType? owner).map fun type => type.scopedPorts scope direction).getD []).filter
      Port.isData
  { name := scope
    items := (ports .output).map (·.name)
    results := inputs index merges owner (ports .input) }

/-! ### Nodes -/

/-- The node of a run with the insides of its scopes. -/
def runNode (step : Step) (bodies : List (ScopeFrame × PlanNode)) : PlanNode :=
  if bodies.isEmpty then .step step else .iteration step bodies

mutual

/-- The nodes of a place, and the merge bindings declared so far. -/
def place (index : Index) (merges : List Merge) : Placement → List PlanNode × List Merge
  | .inlined id => ([.inlined (step index merges id)], merges)
  | .node id bodies =>
    let (insides, following) := placeBodies index merges id bodies
    ([runNode (step index merges id) insides], following)
  | .branch cluster bodies thenArm elseArm =>
    let declared := Merge.declare index merges cluster
    let merges := merges ++ declared
    let (insides, following) := placeBodies index merges cluster.head bodies
    let (thenNodes, following) := placeAll index following thenArm
    let (elseNodes, following) := placeAll index following elseArm
    ([runNode (step index merges cluster.head) insides,
      .branch cluster.head Port.successName (declared.map Merge.hoisted) (.ofBlock thenNodes)
        (.ofBlock elseNodes)], following)
  | .parallel clusters =>
    let (branches, following) := placeEach index merges clusters
    ([.parallel branches], following)

/-- The nodes of places one after the other. -/
def placeAll (index : Index) (merges : List Merge) : List Placement → List PlanNode × List Merge
  | [] => ([], merges)
  | placement :: rest =>
    let (nodes, following) := place index merges placement
    let (others, following) := placeAll index following rest
    (nodes ++ others, following)

/-- The nodes of places side by side, one for each. -/
def placeEach (index : Index) (merges : List Merge) : List Placement → List PlanNode × List Merge
  | [] => ([], merges)
  | placement :: rest =>
    let (nodes, following) := place index merges placement
    let (others, following) := placeEach index following rest
    (.ofBlock nodes :: others, following)

/-- The insides of the scopes of an instance. What the instance collects is bound after the
inside. -/
def placeBodies (index : Index) (merges : List Merge) (owner : String) :
    List (String × List Placement) → List (ScopeFrame × PlanNode) × List Merge
  | [] => ([], merges)
  | (scope, body) :: rest =>
    let (nodes, following) := placeAll index merges body
    let frame := frame index following owner scope
    let (others, following) := placeBodies index following owner rest
    ((frame, .ofBlock nodes) :: others, following)

end

/-! ### Plans -/

/-- What a port at the end of the workflow is given. -/
def returnBinding (index : Index) (merges : List Merge) (port : Port) : ReturnBinding :=
  let sources := (index.connectionsInto exitId port.name).map fun entry =>
    if port.isStep then .signal entry.2.source.node entry.2.source.port
    else connectionSource index merges entry.2
  ⟨port.name, sources.eraseDups⟩

/-- The plan of an arranged workflow. -/
def plan (index : Index) (arrangement : List Placement) : Plan :=
  let (nodes, merges) := placeAll index [] arrangement
  { workflow := index.workflow.name
    body := .ofBlock nodes
    returns := index.exitPorts.map (returnBinding index merges) }

end WorkflowGraph.Binding
