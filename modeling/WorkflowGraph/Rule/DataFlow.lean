/-
The rule of data flow, which only warns: the workflow starts and ends somewhere, instances and
outputs are used, and every returned value has exactly one producer.
-/

import WorkflowGraph.Diagnostic
import WorkflowGraph.Index

namespace WorkflowGraph.DataFlow

/-- The diagnostics of an instance and its outputs. -/
def checkInstance (index : Index) (inst : Instance) : List Diagnostic :=
  let outgoing := index.outgoing inst.id
  if outgoing.isEmpty && (index.incoming inst.id).isEmpty then
    [.warning .unusedNode ("Instance '" ++ inst.id ++ "' has no connections")
      { Location.ofNode inst.id with scope := inst.parentScope }]
  else
    match index.nodeType? inst.id with
    | none => []
    | some type =>
      let unused := (type.portsIn .output).filter fun port =>
        port.isData && !outgoing.any fun entry => entry.2.source.port = port.name
      unused.map fun port =>
        .warning .unusedOutputPort
          ("Output '" ++ port.name ++ "' of '" ++ inst.id ++ "' is never used")
          { Location.ofPort inst.id port.name with scope := inst.parentScope }

/-- The diagnostics of a returned value. -/
def checkReturn (index : Index) (port : Port) : List Diagnostic :=
  let location := Location.ofPort exitId port.name
  if port.isStep then []
  else
    match (index.connectionsInto exitId port.name).length with
    | 0 =>
      [.warning .unreachableExitPort ("Return value '" ++ port.name ++ "' is never produced")
        location]
    | 1 => []
    | count =>
      [.warning .multipleExitConnections
        ("Return value '" ++ port.name ++ "' has " ++ Nat.repr count ++
          " producers; which one wins is ambiguous")
        location]

/-- The diagnostics of the rule. -/
def check (index : Index) : List Diagnostic :=
  Diagnostic.when (index.outgoing startId).isEmpty
      (.warning .noStartConnections "No connection originates at Start" (.ofNode startId)) ++
    Diagnostic.when (index.incoming exitId).isEmpty
      (.warning .noExitConnections "No connection terminates at Exit" (.ofNode exitId)) ++
    index.workflow.instances.flatMap (checkInstance index) ++
    index.workflow.returns.flatMap (checkReturn index)

end WorkflowGraph.DataFlow
