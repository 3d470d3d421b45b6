/-
Diagnostics and reports as JSON.
-/

import WorkflowGraph.Diagnostic
import WorkflowGraph.Document.Model

namespace WorkflowGraph

open Json (Decoder)
open Json.Decoder (Fields)

/-- A severity from JSON. -/
def Severity.decoder : Decoder Severity :=
  .alternatives [("error", error), ("warning", warning)] []

namespace DiagnosticCode

/-- The codes with their names in documents. -/
def documentNames : List (String × DiagnosticCode) :=
  [("unknown_node_type", unknownNodeType),
    ("duplicate_node_name", duplicateNodeName),
    ("duplicate_instance_id", duplicateInstanceId),
    ("duplicate_port_name", duplicatePortName),
    ("reserved_instance_id", reservedInstanceId),
    ("reserved_node_name", reservedNodeName),
    ("invalid_step_ports", invalidStepPorts),
    ("exit_port_not_step", exitPortNotStep),
    ("start_port_conflict", startPortConflict),
    ("unknown_source_node", unknownSourceNode),
    ("unknown_target_node", unknownTargetNode),
    ("unknown_source_port", unknownSourcePort),
    ("unknown_target_port", unknownTargetPort),
    ("step_port_type_mismatch", stepPortTypeMismatch),
    ("multiple_connections_to_input", multipleConnectionsToInput),
    ("type_incompatible", typeIncompatible),
    ("type_mismatch", typeMismatch),
    ("lossy_type_coercion", lossyTypeCoercion),
    ("unusual_type_coercion", unusualTypeCoercion),
    ("missing_required_input", missingRequiredInput),
    ("cycle_detected", cycleDetected),
    ("data_cycle_detected", dataCycleDetected),
    ("unknown_scope", unknownScope),
    ("scope_membership_mismatch", scopeMembershipMismatch),
    ("invalid_scope_connection", invalidScopeConnection),
    ("unused_node", unusedNode),
    ("no_start_connections", noStartConnections),
    ("no_exit_connections", noExitConnections),
    ("unused_output_port", unusedOutputPort),
    ("unreachable_exit_port", unreachableExitPort),
    ("multiple_exit_connections", multipleExitConnections)]

/-- A code as JSON. -/
def toJson (code : DiagnosticCode) : Json :=
  .ofOption (fun entry => .string entry.1) (documentNames.find? fun entry => entry.2 = code)

/-- A code from JSON. -/
def decoder : Decoder DiagnosticCode :=
  .alternatives documentNames []

end DiagnosticCode

/-- Positions of connections are below this bound. -/
def positionBound : Nat := Nat.pow 2 64

/-- A location as JSON. -/
def Location.toJson (location : Location) : Json :=
  .object (Json.optionalMember "node" .string location.node ++
    Json.optionalMember "port" .string location.port ++
    Json.optionalMember "connection" .ofNat location.connection ++
    Json.optionalMember "scope" ScopeRef.toJson location.scope)

/-- A location from JSON. -/
def Location.decoder : Decoder Location :=
  .record (mk <$> Fields.optional "node" .string <*> Fields.optional "port" .string <*>
    Fields.optional "connection" (.natBelow positionBound) <*>
    Fields.optional "scope" ScopeRef.decoder)

/-- A diagnostic as JSON. -/
def Diagnostic.toJson (diagnostic : Diagnostic) : Json :=
  .object ([("code", diagnostic.code.toJson), ("severity", .string diagnostic.severity.toText),
    ("message", .string diagnostic.message), ("location", diagnostic.location.toJson)] ++
    Json.optionalMember "suggestion" .string diagnostic.suggestion)

/-- A diagnostic from JSON. -/
def Diagnostic.decoder : Decoder Diagnostic :=
  .record (mk <$> Fields.required "code" DiagnosticCode.decoder <*>
    Fields.required "severity" Severity.decoder <*> Fields.required "message" .string <*>
    Fields.required "location" Location.decoder <*> Fields.optional "suggestion" .string)

/-- A report from JSON. -/
def Report.decoder : Decoder Report :=
  .record (mk <$> Fields.required "diagnostics" Diagnostic.decoder.list)

/-- The report that a text describes. -/
def Report.ofText (text : String) : Except Json.Fault Report :=
  Report.decoder.decodeText text

end WorkflowGraph
