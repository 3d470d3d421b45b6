/-
The rule of required inputs: a data input that is not optional is connected, is given a value by its
instance, or has a default or an expression of its own.
-/

import WorkflowGraph.Diagnostic
import WorkflowGraph.Index

namespace WorkflowGraph.RequiredInputs

/-- Whether an input of an instance has no value and needs one. -/
def isMissing (index : Index) (inst : Instance) (port : Port) : Bool :=
  port.isInput && port.isData && !port.optional && !port.hasFallback &&
    !inst.bindings.contains port.name && (index.connectionsInto inst.id port.name).isEmpty

/-- The diagnostics of an instance. -/
def checkInstance (index : Index) (inst : Instance) : List Diagnostic :=
  match index.nodeType? inst.id with
  | none => []
  | some type =>
    (type.ports.filter (isMissing index inst)).map fun port =>
      .error .missingRequiredInput
        ("Required input '" ++ port.name ++ "' on '" ++ inst.id ++
          "' is not connected and has no default")
        { Location.ofPort inst.id port.name with scope := inst.parentScope }

/-- The diagnostics of the rule. -/
def check (index : Index) : List Diagnostic :=
  index.workflow.instances.flatMap (checkInstance index)

end WorkflowGraph.RequiredInputs
