/-
Merge bindings: values that leave the arms of a branch.

Only one arm of a branch runs, so a reader outside cannot name the instance whose value it reads.
The branch declares a binding for each input that reads values from its arms; each of the instances
that the input is connected with writes the binding when it runs. An expression is computed in front
of its readers, so a value that flows into an expression is followed to them.
-/

import WorkflowGraph.Plan.Basic
import WorkflowGraph.Schedule.Cluster

namespace WorkflowGraph

/-- A merge binding: the input that reads it, and the outputs that write it. -/
structure Merge where
  consumer : PortRef
  producers : List PortRef
  dataType : Option DataType
deriving DecidableEq

namespace Merge

/-- The id of a merge binding. -/
def id (merge : Merge) : String :=
  merge.consumer.node ++ "." ++ merge.consumer.port

/-- Whether two references name a port of one node and name, in whatever scope. -/
def samePort (first second : PortRef) : Bool :=
  first.node = second.node ∧ first.port = second.port

/-- The declaration of a merge binding in a plan. -/
def hoisted (merge : Merge) : HoistedBinding :=
  ⟨merge.id, merge.consumer, merge.dataType⟩

/-- The outputs of an instance that write a merge binding, in the order of their names. -/
def portsOf (merge : Merge) (node : String) : List String :=
  (Table.ofList ((merge.producers.filter fun producer => producer.node = node).map
    fun producer => (producer.port, ()))).names

/-! ### Values that leave -/

/-- The connections that carry values out of a node. -/
def dataConnections (index : Index) (id : String) : List Connection :=
  ((index.outgoing id).map (·.2)).filter index.isData

/-- Whether a connection leads to the end of a region. -/
def intoSink (index : Index) (connection : Connection) : Bool :=
  connection.target.node = exitId || (index.targetPort connection).any (·.scope.isSome)

/-- Whether a connection leads into an expression, whose readers decide. -/
def intoExpression (index : Index) (connection : Connection) : Bool :=
  !intoSink index connection && !isBoundary connection.target.node &&
    index.isExpression connection.target.node

/-- Whether a connection itself leads out of a cluster. -/
def leavesDirectly (index : Index) (cluster : Cluster) (connection : Connection) : Bool :=
  intoSink index connection ||
    !isBoundary connection.target.node && !index.isExpression connection.target.node &&
      connection.target.node ∉ cluster.inside

/-- The expressions that connections lead into. -/
def expressionTargets (index : Index) (connections : List Connection) : List String :=
  (connections.filter (intoExpression index)).map (·.target.node)

/-- Whether the value of a connection is read outside of a cluster, directly or through
expressions. -/
def leaves (index : Index) (cluster : Cluster) (connection : Connection) : Bool :=
  let expressions := Graph.reached
    (fun id => expressionTargets index (dataConnections index id))
    index.workflow.instances.length (expressionTargets index [connection])
  (connection :: expressions.flatMap (dataConnections index)).any (leavesDirectly index cluster)

/-- The connections that carry values out of the arms of a cluster. -/
def leaving (index : Index) (cluster : Cluster) : List Connection :=
  cluster.armMembers.flatMap fun member =>
    ((index.outgoing member).map (·.2)).filter fun connection =>
      (index.sourcePort connection).any (fun port => port.isData && port.scope.isNone) &&
        leaves index cluster connection

/-! ### Declarations -/

/-- The merge bindings with the source of a connection as a producer for its target. -/
def addProducer (index : Index) (connection : Connection) : List Merge → List Merge
  | [] =>
    [⟨connection.target, [connection.source], (index.targetPort connection).bind (·.dataType?)⟩]
  | merge :: rest =>
    if samePort merge.consumer connection.target then
      { merge with producers := merge.producers ++ [connection.source] } :: rest
    else merge :: addProducer index connection rest

/-- The merge bindings that a branch declares, where `outer` have been declared before. -/
def declare (index : Index) (outer : List Merge) (cluster : Cluster) : List Merge :=
  ((leaving index cluster).filter fun connection =>
      !outer.any fun merge => samePort merge.consumer connection.target).foldl
    (fun declared connection => addProducer index connection declared) []

/-! ### Use -/

/-- What an instance writes when it runs. -/
def exportsOf (merges : List Merge) (node : String) : List Export :=
  merges.flatMap fun merge => (merge.portsOf node).map fun port => ⟨port, merge.id⟩

/-- The merge binding through which the value of a connection is read. -/
def bindingFor (merges : List Merge) (connection : Connection) : Option String :=
  ((merges.find? fun merge => samePort merge.consumer connection.target).filter fun merge =>
    merge.producers.any (samePort connection.source)).map id

end Merge

end WorkflowGraph
