/-
Which rules give which diagnostics.

`DiagnosticCode.group` names the group of rules that a code belongs to. `RuleGroup.owns_check` says
that a group reports nothing under a code of another one, so the diagnostics of a report can be told
apart by their codes.
-/

import WorkflowGraph.Validation

namespace WorkflowGraph

/-- The group of rules that a code belongs to. -/
@[simp] def DiagnosticCode.group : DiagnosticCode → RuleGroup
  | unknownNodeType | duplicateNodeName | duplicateInstanceId | duplicatePortName
  | reservedInstanceId | reservedNodeName | invalidStepPorts | exitPortNotStep
  | startPortConflict => .structural
  | unknownSourceNode | unknownTargetNode | unknownSourcePort | unknownTargetPort
  | stepPortTypeMismatch | multipleConnectionsToInput => .connectionIntegrity
  | unknownScope | scopeMembershipMismatch | invalidScopeConnection => .scopeIntegrity
  | typeIncompatible | typeMismatch | lossyTypeCoercion | unusualTypeCoercion => .typeCompatibility
  | missingRequiredInput => .requiredInputs
  | cycleDetected | dataCycleDetected => .graphShape
  | unusedNode | noStartConnections | noExitConnections | unusedOutputPort | unreachableExitPort
  | multipleExitConnections => .dataFlow

/-- Whether all diagnostics have codes of a group. -/
def RuleGroup.Owns (group : RuleGroup) (diagnostics : List Diagnostic) : Prop :=
  ∀ diagnostic ∈ diagnostics, diagnostic.code.group = group

namespace RuleGroup.Owns

variable {group : RuleGroup}

@[simp] theorem nil : group.Owns [] :=
  List.forall_mem_nil _

@[simp] theorem cons {diagnostic : Diagnostic} {rest : List Diagnostic} :
    group.Owns (diagnostic :: rest) ↔ diagnostic.code.group = group ∧ group.Owns rest :=
  List.forall_mem_cons

@[simp] theorem append {first second : List Diagnostic} :
    group.Owns (first ++ second) ↔ group.Owns first ∧ group.Owns second :=
  List.forall_mem_append

@[simp] theorem flatMap {α : Type} {items : List α} {check : α → List Diagnostic} :
    group.Owns (items.flatMap check) ↔ ∀ item ∈ items, group.Owns (check item) := by
  simp only [Owns, List.mem_flatMap]
  exact ⟨fun owns item member _ found => owns _ ⟨item, member, found⟩,
    fun owns _ found => found.elim fun item found => owns item found.1 _ found.2⟩

@[simp] theorem map {α : Type} {items : List α} {report : α → Diagnostic} :
    group.Owns (items.map report) ↔ ∀ item ∈ items, (report item).code.group = group :=
  List.forall_mem_map

@[simp] theorem toList_map {α : Type} {problem : Option α} {report : α → Diagnostic} :
    group.Owns (problem.map report).toList ↔ ∀ found ∈ problem,
      (report found).code.group = group := by
  cases problem <;> simp

@[simp] theorem of_when {condition : Bool} {diagnostic : Diagnostic} :
    group.Owns (Diagnostic.when condition diagnostic) ↔
      (condition = true → diagnostic.code.group = group) := by
  cases condition <;> simp [Diagnostic.when]

end RuleGroup.Owns

@[simp] theorem Diagnostic.code_error (code : DiagnosticCode) (message : String)
    (location : Location) (suggestion : Option String) :
    (Diagnostic.error code message location suggestion).code = code := rfl

@[simp] theorem Diagnostic.code_warning (code : DiagnosticCode) (message : String)
    (location : Location) : (Diagnostic.warning code message location).code = code := rfl

variable (index : Index)

/-! ### Rules -/

namespace Structural

open RuleGroup

theorem owns_repeatedPorts (type : NodeType) (seen : List (Direction × String × Option String))
    (ports : List Port) :
    structural.Owns (repeatedPorts type seen ports) := by
  induction ports generalizing seen with
  | nil => exact .nil
  | cons port rest ih => simp [repeatedPorts, ih]

theorem owns_checkNodeTypes (seen : List String) (types : List NodeType) :
    structural.Owns (checkNodeTypes seen types) := by
  induction types generalizing seen with
  | nil => exact .nil
  | cons type rest ih => simp [checkNodeTypes, checkNodeType, owns_repeatedPorts, ih]

theorem owns_checkInstances (seen : List String) (instances : List Instance) :
    structural.Owns (checkInstances index seen instances) := by
  induction instances generalizing seen with
  | nil => exact .nil
  | cons inst rest ih =>
      unfold checkInstances
      split <;> simp [checkTypeOf, ih]

theorem owns_check : structural.Owns (check index) := by
  simp [check, owns_checkNodeTypes, owns_checkInstances, checkReturn, checkParameter]

end Structural

namespace ConnectionIntegrity

open RuleGroup

theorem owns_checkFanIn (fed : List PortRef) (connections : List (Connection × Nat)) :
    connectionIntegrity.Owns (checkFanIn index fed connections) := by
  induction connections generalizing fed with
  | nil => exact .nil
  | cons entry rest ih =>
      unfold checkFanIn
      split
      · simp [ih]
      · exact ih fed

theorem owns_checkConnection (position : Nat) (connection : Connection) :
    connectionIntegrity.Owns (checkConnection index position connection) := by
  have node (ref : PortRef) (direction : Direction) (location : Location) :
      connectionIntegrity.Owns (checkNode index ref direction location) := by
    cases direction <;> simp [checkNode]
  have port (ref : PortRef) (direction : Direction) (location : Location) :
      connectionIntegrity.Owns (checkPort index ref direction location) := by
    unfold checkPort
    split
    · exact .nil
    · cases direction <;> simp
  have kinds (location : Location) : connectionIntegrity.Owns
      (checkKinds index connection location) := by
    unfold checkKinds
    split <;> simp
  simp [checkConnection, node, port, kinds]

theorem owns_check : connectionIntegrity.Owns (check index) := by
  simp [check, owns_checkFanIn, owns_checkConnection]

end ConnectionIntegrity

namespace ScopeIntegrity

open RuleGroup

theorem owns_check : scopeIntegrity.Owns (check index) := by
  have parent (inst : Instance) : scopeIntegrity.Owns (checkParent index inst) := by
    unfold checkParent
    split
    · exact .nil
    · split <;> simp
  have listed (inst : Instance) : scopeIntegrity.Owns (checkListed index inst) := by
    unfold checkListed
    split <;> simp
  have crossing (position : Nat) (connection : Connection) :
      scopeIntegrity.Owns (checkCrossing index position connection) := by
    unfold checkCrossing
    split <;> simp
  simp [check, checkTable, checkEntry, checkChild, parent, listed, crossing]

end ScopeIntegrity

namespace TypeCompatibility

open RuleGroup

theorem owns_check : typeCompatibility.Owns (check index) := by
  have flow (strict : Bool) (position : Nat) (connection : Connection) (source target : DataType) :
      typeCompatibility.Owns (checkFlow strict position connection source target) := by
    unfold checkFlow
    split
    · exact .nil
    · rename_i coercion _
      cases coercion <;> simp [warningCode]
    · simp
  have each (position : Nat) (connection : Connection) :
      typeCompatibility.Owns (checkConnection index position connection) := by
    unfold checkConnection
    split <;> simp [flow]
  simp [check, each]

end TypeCompatibility

theorem RequiredInputs.owns_check : RuleGroup.requiredInputs.Owns (check index) := by
  have each (inst : Instance) : RuleGroup.requiredInputs.Owns (checkInstance index inst) := by
    unfold checkInstance
    split <;> simp
  simp [check, each]

theorem GraphShape.owns_check : RuleGroup.graphShape.Owns (check index) := by
  simp [check, report]

namespace DataFlow

open RuleGroup

theorem owns_check : dataFlow.Owns (check index) := by
  have inst (inst : Instance) : dataFlow.Owns (checkInstance index inst) := by
    unfold checkInstance
    dsimp only
    split
    · simp
    · split <;> simp
  have returned (port : Port) : dataFlow.Owns (checkReturn index port) := by
    unfold checkReturn
    dsimp only
    split
    · exact .nil
    · split <;> simp
  simp [check, inst, returned]

end DataFlow

/-- **A group reports nothing under a code of another group.** -/
theorem RuleGroup.owns_check (group : RuleGroup) : group.Owns (group.check index) := by
  cases group with
  | structural => exact Structural.owns_check index
  | connectionIntegrity => exact ConnectionIntegrity.owns_check index
  | scopeIntegrity => exact ScopeIntegrity.owns_check index
  | typeCompatibility => exact TypeCompatibility.owns_check index
  | requiredInputs => exact RequiredInputs.owns_check index
  | graphShape => exact GraphShape.owns_check index
  | dataFlow => exact DataFlow.owns_check index

end WorkflowGraph
