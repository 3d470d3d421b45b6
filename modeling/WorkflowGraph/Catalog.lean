/-
Catalogs of node types.

A catalog holds one node type for each id. Made from a list, it keeps the first of several node
types with one id; merged with another catalog, it takes the other's.
-/

import WorkflowGraph.Workflow

namespace WorkflowGraph

/-- Node types by their ids. -/
abbrev Catalog : Type :=
  Table NodeType

namespace Catalog

/-- The catalog with a node type in the place of the one of its id. -/
def register (catalog : Catalog) (type : NodeType) : Catalog :=
  catalog.insert type.id type

/-- The catalog with a node type of a new id. -/
def tryRegister (catalog : Catalog) (type : NodeType) : Except ModelError Catalog :=
  if catalog.contains type.id then .error (.duplicateNodeType type.id)
  else .ok (catalog.register type)

/-- The catalog of a list of node types; the first of an id counts. -/
def ofTypes (types : List NodeType) : Catalog :=
  types.foldl (fun catalog type => (catalog.tryRegister type).toOption.getD catalog) Table.empty

end Catalog

end WorkflowGraph
