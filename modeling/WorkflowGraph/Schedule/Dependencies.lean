/-
Dependencies between instances: what an instance is triggered by and what it reads.

Connections through scoped ports belong to the inside of a scope, and those of boundary nodes to the
workflow as a whole, so neither are dependencies of an instance on another one. Reading is seen
through expressions: an instance that reads an expression reads what the expression reads. The
dependencies of all instances are computed once, each after those of the expressions that it reads.
-/

import WorkflowGraph.Index
import WorkflowGraph.Schedule.Attempt

namespace WorkflowGraph

namespace Index

/-- The instance that triggers another through a connection. -/
def stepSource? (index : Index) (connection : Connection) : Option String :=
  if (index.sourcePort connection).any (fun port => port.isStep && port.scope.isNone) &&
      !isBoundary connection.source.node then
    some connection.source.node
  else none

/-- The instance that a connection carries a value from. -/
def dataSource? (index : Index) (connection : Connection) : Option String :=
  if (index.sourcePort connection).any (fun port => port.isData && port.scope.isNone) &&
      !isBoundary connection.source.node then
    some connection.source.node
  else none

/-- The instances that trigger an instance, each once. -/
def stepPredecessors (index : Index) (id : String) : List String :=
  ((index.incoming id).filterMap fun entry => index.stepSource? entry.2).eraseDups

/-- The instances whose values an instance has to wait for. Inputs in a scope collect what the
inside of the scope gives, and are not waited for. -/
def readSources (index : Index) (id : String) : List String :=
  (index.incoming id).filterMap fun entry =>
    if (index.targetPort entry.2).any (·.scope.isNone) then index.dataSource? entry.2 else none

/-- The expressions whose values an instance is given directly. -/
def expressionSources (index : Index) (id : String) : List String :=
  ((index.incoming id).filterMap fun entry => index.dataSource? entry.2).filter index.isExpression

/-- The first node that a connection into an instance starts at and that is not there. -/
def unknownSource? (index : Index) : Option String :=
  index.workflow.instances.findSome? fun inst =>
    (index.incoming inst.id).findSome? fun entry =>
      if index.hasNode entry.2.source.node then none else some entry.2.source.node

/-- The owners of the scopes met on the way outwards from a region, in at most `steps` steps. -/
def ownersWithin (index : Index) : Nat → Region → List String
  | 0, _ => []
  | _ + 1, none => []
  | steps + 1, some scope =>
    scope.owner :: ownersWithin index steps (index.regionOf scope.owner)

/-- The owners of the scopes around a region. -/
def owners (index : Index) (region : Region) : List String :=
  index.ownersWithin (index.workflow.instances.length + 1) region

end Index

/-- What an instance reads. -/
structure Dependencies where
  /-- The instances other than expressions that it reads, directly or through expressions. -/
  data : List String := []
  /-- The expressions that it reads, directly or through expressions. -/
  expressions : List String := []
deriving DecidableEq

namespace Dependencies

/-- What is read by any of two readers. -/
def union (first second : Dependencies) : Dependencies :=
  ⟨(first.data ++ second.data).eraseDups, (first.expressions ++ second.expressions).eraseDups⟩

/-- What is read of a source, of which `table` holds what it reads in turn. -/
def ofSource (index : Index) (table : Table Dependencies) (source : String) : Dependencies :=
  if index.isExpression source then
    union { expressions := [source] } ((table.get? source).getD {})
  else { data := [source] }

/-- Adds an instance to a table, after the expressions that it reads; instances in `visiting` are
being added already. -/
def add (index : Index) : Nat → List String → Table Dependencies → String → Table Dependencies
  | 0, _, table, _ => table
  | levels + 1, visiting, table, id =>
    if table.contains id || id ∈ visiting then table
    else
      let (table, found) := (index.readSources id).foldl
        (fun (table, found) source =>
          let table :=
            if index.isExpression source then add index levels (id :: visiting) table source
            else table
          (table, found.union (ofSource index table source)))
        (table, {})
      table.insert id found

/-- What each instance of a workflow reads. -/
def ofIndex (index : Index) : Table Dependencies :=
  index.workflow.instances.foldl
    (fun table inst => add index (index.workflow.instances.length + 1) [] table inst.id) .empty

end Dependencies

/-- The index of a workflow with the dependencies of its instances, which are looked up often. -/
structure Analysis where
  index : Index
  /-- The instances that trigger each instance. -/
  triggers : Table (List String)
  /-- What each instance reads. -/
  dependencies : Table Dependencies
  /-- Each instance with the owners of the scopes around it. -/
  lineages : List (String × List String)

namespace Analysis

/-- The analysis of an indexed workflow. -/
def ofIndex (index : Index) : Analysis where
  index := index
  triggers := Table.ofList (index.workflow.instances.map fun inst =>
    (inst.id, index.stepPredecessors inst.id))
  dependencies := Dependencies.ofIndex index
  lineages := index.workflow.instances.map fun inst => (inst.id, index.owners inst.parentScope)

/-- The instances that trigger an instance. -/
def triggersOf (analysis : Analysis) (id : String) : List String :=
  (analysis.triggers.get? id).getD []

/-- The instances other than expressions that an instance reads. -/
def dataOf (analysis : Analysis) (id : String) : List String :=
  ((analysis.dependencies.get? id).getD {}).data

/-- The expressions that an instance reads. -/
def expressionsOf (analysis : Analysis) (id : String) : List String :=
  ((analysis.dependencies.get? id).getD {}).expressions

/-- The instances nested in the scopes of an instance, at any depth. -/
def descendants (analysis : Analysis) (id : String) : List String :=
  ((analysis.lineages.filter fun lineage => id ∈ lineage.2).map (·.1)).eraseDups

end Analysis

end WorkflowGraph
