/-
The rule of type compatibility: a value flows into a port of its own type, or into one that it can
be coerced to. Where types are strict, a coercion is an error.
-/

import WorkflowGraph.Diagnostic
import WorkflowGraph.Index

namespace WorkflowGraph.TypeCompatibility

/-- The code of the warning about a coercion. -/
def warningCode : Coercion → DiagnosticCode
  | .widening | .unusual => .unusualTypeCoercion
  | .lossy => .lossyTypeCoercion
  | .shapeMismatch | .mismatch => .typeMismatch

/-- The diagnostics of a value of one type that flows into a port of another. -/
def checkFlow (strict : Bool) (position : Nat) (connection : Connection)
    (source target : DataType) :
    List Diagnostic :=
  let location := Location.ofConnection position connection
  match source.flowInto target strict with
  | .matched => []
  | .coerced coercion =>
    [.warning (warningCode coercion)
      ("Connection " ++ connection.toText ++ " converts " ++ source.toText ++ " to " ++
        target.toText ++ ": " ++ coercion.describe)
      location]
  | .rejected coercion =>
    [.error .typeIncompatible
      ("Connection " ++ connection.toText ++ " joins " ++ source.toText ++ " to " ++
        target.toText ++ " in strict mode: " ++ coercion.describe)
      location]

/-- The diagnostics of a connection. -/
def checkConnection (index : Index) (position : Nat) (connection : Connection) : List Diagnostic :=
  match (index.sourcePort connection).bind Port.dataType?,
    (index.targetPort connection).bind Port.dataType? with
  | some source, some target =>
    checkFlow index.workflow.strictTypes position connection source target
  | _, _ => []

/-- The diagnostics of the rule. -/
def check (index : Index) : List Diagnostic :=
  index.workflow.connections.zipIdx.flatMap fun entry => checkConnection index entry.2 entry.1

end WorkflowGraph.TypeCompatibility
