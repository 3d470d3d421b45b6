/-
Building workflows step by step.

Each step adds one part to a workflow. An instance that is added to a scope is entered in the scope
table too; a value is given to the instance that was added last.
-/

import WorkflowGraph.Workflow

namespace WorkflowGraph

/-- A step in the building of a workflow. -/
inductive BuildStep where
  /-- Makes types strict, or not. -/
  | strictTypes (strict : Bool)
  /-- Adds a parameter. -/
  | parameter (port : Port)
  /-- Adds a returned value. -/
  | returns (port : Port)
  /-- Adds a node type. -/
  | nodeType (type : NodeType)
  /-- Adds an instance at the top level. -/
  | node (id nodeType : String)
  /-- Adds an instance to a scope. -/
  | scopedNode (id nodeType : String) (scope : ScopeRef)
  /-- Gives a value to an input of the instance added last. -/
  | binding (port : String) (value : PortBinding)
  /-- Adds a connection. -/
  | connection (connection : Connection)

namespace Workflow

/-- The scope table with a child entered under a scope. -/
def enterScope (scope : ScopeRef) (child : String) : List Scope → List Scope
  | [] => [⟨scope.owner, scope.name, [child]⟩]
  | entry :: rest =>
    if entry.ref = scope then { entry with children := entry.children ++ [child] } :: rest
    else entry :: enterScope scope child rest

/-- The instances with a value given to an input of the last one. -/
def bindLast (port : String) (value : PortBinding) : List Instance → List Instance
  | [] => []
  | [last] => [{ last with bindings := last.bindings.insert port value }]
  | first :: rest => first :: bindLast port value rest

/-- The workflow after a step. -/
def apply (workflow : Workflow) : BuildStep → Workflow
  | .strictTypes strict => { workflow with strictTypes := strict }
  | .parameter port =>
    { workflow with
      parameters := workflow.parameters ++ [{ port with order := workflow.parameters.length }] }
  | .returns port =>
    { workflow with
      returns := workflow.returns ++ [{ port with order := workflow.returns.length }] }
  | .nodeType type => { workflow with nodeTypes := workflow.nodeTypes ++ [type] }
  | .node id nodeType => { workflow with instances := workflow.instances ++ [{ id, nodeType }] }
  | .scopedNode id nodeType scope =>
    { workflow with
      scopes := enterScope scope id workflow.scopes
      instances := workflow.instances ++ [{ id, nodeType, parentScope := some scope }] }
  | .binding port value => { workflow with instances := bindLast port value workflow.instances }
  | .connection connection => { workflow with connections := workflow.connections ++ [connection] }

/-- The workflow that steps build, from one that has only a name. -/
def build (name : String) (steps : List BuildStep) : Workflow :=
  steps.foldl apply { name }

end Workflow

end WorkflowGraph
