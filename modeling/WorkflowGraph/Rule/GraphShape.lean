/-
The rule of graph shape: control does not run in a circle within a region, and no value depends on
itself.

The step graph has the step connections between instances of one region. The dependency graph has
all connections between instances, and an edge from each instance in a scope to the owner of the
scope, which is not finished before the inside of the scope is. Scoped ports give no edges.
-/

import WorkflowGraph.Diagnostic
import WorkflowGraph.Graph.Cycles
import WorkflowGraph.Index

namespace WorkflowGraph.GraphShape

open WorkflowGraph.Graph (Edge Cycle)

/-- Whether a connection joins two instances through ports outside of all scopes. -/
def isPlain (index : Index) (connection : Connection) : Bool :=
  !isBoundary connection.source.node && !isBoundary connection.target.node &&
    (index.sourcePort connection).any (·.scope.isNone) &&
    (index.targetPort connection).any (·.scope.isNone)

/-- The edge of a connection. It is marked if the connection carries a value. -/
def edgeOf (index : Index) (connection : Connection) : Edge :=
  ⟨connection.source.node, connection.target.node, index.isData connection⟩

/-- Whether a connection is an edge of the step graph. -/
def isStepEdge (index : Index) (connection : Connection) : Bool :=
  index.isStep connection && isPlain index connection &&
    index.regionOf connection.source.node = index.regionOf connection.target.node

/-- The step graph of a workflow. -/
def stepGraph (index : Index) : List Edge :=
  Graph.ofEdges ((index.workflow.connections.filter (isStepEdge index)).map (edgeOf index))

/-- The edges from instances in scopes to the owners of the scopes. -/
def ownerEdges (workflow : Workflow) : List Edge :=
  workflow.instances.filterMap fun inst =>
    inst.parentScope.map fun scope => ⟨inst.id, scope.owner, false⟩

/-- The dependency graph of a workflow. -/
def dependencyGraph (index : Index) : List Edge :=
  Graph.ofEdges ((index.workflow.connections.filter (isPlain index)).map (edgeOf index) ++
    ownerEdges index.workflow)

/-- The text of a cycle. -/
def cycleText (cycle : Cycle) : String :=
  String.intercalate " → " cycle.nodes

/-- The diagnostic of a cycle. -/
def report (index : Index) (code : DiagnosticCode) (what : String) (cycle : Cycle) : Diagnostic :=
  let start := cycle.nodes.headD ""
  .error code (what ++ cycleText cycle)
    { Location.ofNode start with scope := index.regionOf start }

/-- The diagnostics of the rule. -/
def check (index : Index) : List Diagnostic :=
  let roots := index.workflow.instances.map (·.id)
  (Graph.cycles (stepGraph index) roots).map
      (report index .cycleDetected "Step cycle detected: ") ++
    ((Graph.cycles (dependencyGraph index) roots).filter (·.marked)).map
      (report index .dataCycleDetected "Data dependency cycle detected: ")

end WorkflowGraph.GraphShape
