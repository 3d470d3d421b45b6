/-
The rule of scope integrity: every scope is one that its owner declares, instances and the scope
table agree, and connections cross the border of a scope through the owner's scoped ports only.
-/

import WorkflowGraph.Diagnostic
import WorkflowGraph.Index
import WorkflowGraph.Text.Suggestion

namespace WorkflowGraph.ScopeIntegrity

/-- What is wrong with a scope, and the name that was meant. An owner of an unknown node type is not
looked at. -/
def scopeProblem (index : Index) (scope : ScopeRef) : Option (String × Option String) :=
  match index.find? scope.owner with
  | none =>
    some ("parent instance '" ++ scope.owner ++ "' does not exist",
      Text.closest scope.owner (index.workflow.instances.map (·.id)))
  | some _ =>
    match index.nodeType? scope.owner with
    | none => none
    | some type =>
      if type.declaresScope scope.name then none
      else
        some ("node type '" ++ type.id ++ "' declares no scope '" ++ scope.name ++ "'",
          Text.closest scope.name type.scopes)

/-! ### Instances in scopes -/

/-- The diagnostics of the scope that an instance lives in. -/
def checkParent (index : Index) (inst : Instance) : List Diagnostic :=
  match inst.parentScope with
  | none => []
  | some scope =>
    let location := { Location.ofNode inst.id with scope := some scope }
    match scopeProblem index scope with
    | some (problem, suggestion) =>
      [.error .unknownScope
        ("Instance '" ++ inst.id ++ "' is placed in scope " ++ scope.toText ++ ": " ++ problem)
        location suggestion]
    | none =>
      Diagnostic.when (index.depth (some scope)).isNone
        (.error .scopeMembershipMismatch
          ("Scope nesting of instance '" ++ inst.id ++ "' loops back on itself") location)

/-! ### The scope table -/

/-- The diagnostics of a child in an entry of the scope table. -/
def checkChild (index : Index) (scope : ScopeRef) (child : String) : List Diagnostic :=
  let agrees := (index.find? child).any fun inst => inst.parentScope = some scope
  Diagnostic.when (!agrees)
    (.error .scopeMembershipMismatch
      ("Scope " ++ scope.toText ++ " lists '" ++ child ++ "' but that instance is not placed in it")
      { Location.ofNode child with scope := some scope })

/-- The diagnostics of an entry of the scope table. -/
def checkEntry (index : Index) (entry : Scope) : List Diagnostic :=
  let scope := entry.ref
  let unknown := (scopeProblem index scope).map fun (problem, suggestion) =>
    .error .unknownScope ("Scope table entry " ++ scope.toText ++ ": " ++ problem)
      { Location.ofNode entry.parent with scope := some scope } suggestion
  unknown.toList ++ entry.children.flatMap (checkChild index scope)

/-- The diagnostics of an instance that the scope table should list. -/
def checkListed (index : Index) (inst : Instance) : List Diagnostic :=
  match inst.parentScope with
  | none => []
  | some scope =>
    let listed := (index.workflow.findScope scope.owner scope.name).any fun entry =>
      entry.children.contains inst.id
    Diagnostic.when (!listed)
      (.error .scopeMembershipMismatch
        ("Instance '" ++ inst.id ++ "' is placed in scope " ++ scope.toText ++
          " but the scope table does not list it")
        { Location.ofNode inst.id with scope := some scope })

/-- The diagnostics of the scope table. -/
def checkTable (index : Index) : List Diagnostic :=
  index.workflow.scopes.flatMap (checkEntry index) ++
    index.workflow.instances.flatMap (checkListed index)

/-! ### Borders -/

/-- What is wrong with a connection between two ports of two regions. -/
def crossingProblem (index : Index) (source target : Port) (sourceRegion targetRegion : Region) :
    Option String :=
  if source.isStep || target.isStep then
    if sourceRegion = targetRegion then none
    else some "step connections cannot cross a scope boundary"
  else if target.scope.isSome then
    if sourceRegion = targetRegion then none
    else some "a scoped input can only be wired from inside its scope"
  else if index.isWithin targetRegion sourceRegion then none
  else some "data can only leave a scope through the parent's scoped inputs"

/-- The diagnostics of a connection that crosses the border of a scope. -/
def checkCrossing (index : Index) (position : Nat) (connection : Connection) : List Diagnostic :=
  match index.sourcePort connection, index.targetPort connection,
    index.endpointRegion connection.source .output,
    index.endpointRegion connection.target .input with
  | some source, some target, some sourceRegion, some targetRegion =>
    ((crossingProblem index source target sourceRegion targetRegion).map fun problem =>
      .error .invalidScopeConnection ("Connection " ++ connection.toText ++ ": " ++ problem)
        { Location.ofConnection position connection with scope := targetRegion }).toList
  | _, _, _, _ => []

/-- The diagnostics of the rule. -/
def check (index : Index) : List Diagnostic :=
  index.workflow.instances.flatMap (checkParent index) ++
    checkTable index ++
    index.workflow.connections.zipIdx.flatMap fun entry => checkCrossing index entry.2 entry.1

end WorkflowGraph.ScopeIntegrity
