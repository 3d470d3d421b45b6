/-
Validation: the rule groups, and the report they give together.

Rules do not look at each other's results, so the report of some of them is the part of the full
report that comes from them.
-/

import WorkflowGraph.Config
import WorkflowGraph.Rule.ConnectionIntegrity
import WorkflowGraph.Rule.DataFlow
import WorkflowGraph.Rule.GraphShape
import WorkflowGraph.Rule.RequiredInputs
import WorkflowGraph.Rule.ScopeIntegrity
import WorkflowGraph.Rule.Structural
import WorkflowGraph.Rule.TypeCompatibility

namespace WorkflowGraph

/-- The groups of rules. -/
inductive RuleGroup where
  | structural
  | connectionIntegrity
  | scopeIntegrity
  | typeCompatibility
  | requiredInputs
  | graphShape
  | dataFlow
deriving DecidableEq

namespace RuleGroup

/-- All groups, in the order of their diagnostics. -/
def all : List RuleGroup :=
  [structural, connectionIntegrity, scopeIntegrity, typeCompatibility, requiredInputs, graphShape,
    dataFlow]

/-- The id of a group. -/
def id : RuleGroup → String
  | structural => "structural"
  | connectionIntegrity => "connection-integrity"
  | scopeIntegrity => "scope-integrity"
  | typeCompatibility => "type-compatibility"
  | requiredInputs => "required-inputs"
  | graphShape => "graph-shape"
  | dataFlow => "data-flow"

/-- What a group checks, in words. -/
def description : RuleGroup → String
  | structural =>
    "Node types are unique and well formed, instance ids are unique and resolve to a type"
  | connectionIntegrity => "Connections reference existing nodes and ports of matching kind"
  | scopeIntegrity =>
    "Scopes name a declared scope, agree with the scope table and are only crossed through " ++
      "scoped ports"
  | typeCompatibility => "Data connections join compatible types, honoring strict mode"
  | requiredInputs => "Required data inputs are connected, bound or have a default"
  | graphShape => "Step flow is acyclic in every scope and no value depends on itself"
  | dataFlow => "Instances, outputs and exit ports take part in the data flow"

/-- The diagnostics of a group. -/
def check : RuleGroup → Index → List Diagnostic
  | structural => Structural.check
  | connectionIntegrity => ConnectionIntegrity.check
  | scopeIntegrity => ScopeIntegrity.check
  | typeCompatibility => TypeCompatibility.check
  | requiredInputs => RequiredInputs.check
  | graphShape => GraphShape.check
  | dataFlow => DataFlow.check

/-- The groups that a configuration does not leave out. -/
def enabled (config : Config) : List RuleGroup :=
  all.filter fun group => config.ruleEnabled group.id

end RuleGroup

/-- The report of some groups on a workflow. -/
def validateWith (groups : List RuleGroup) (workflow : Workflow) : Report :=
  let index := Index.ofWorkflow workflow
  ⟨groups.flatMap fun group => group.check index⟩

/-- The full report on a workflow. -/
def validate (workflow : Workflow) : Report :=
  validateWith RuleGroup.all workflow

end WorkflowGraph
