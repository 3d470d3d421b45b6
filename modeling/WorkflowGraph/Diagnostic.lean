/-
Diagnostics: what validation finds in a workflow.

A diagnostic has a fixed code, a severity, a message and the place that it is about. A report lists
diagnostics in the order in which they were found; a workflow with an error in its report is not
compiled.
-/

import WorkflowGraph.Workflow

namespace WorkflowGraph

/-- How serious a diagnostic is. -/
inductive Severity where
  /-- The workflow cannot be compiled. -/
  | error
  /-- The workflow can be compiled. -/
  | warning
deriving DecidableEq

/-- The text of a severity. -/
def Severity.toText : Severity → String
  | error => "error"
  | warning => "warning"

/-- What a diagnostic is about. -/
inductive DiagnosticCode where
  | unknownNodeType
  | duplicateNodeName
  | duplicateInstanceId
  | duplicatePortName
  | reservedInstanceId
  | reservedNodeName
  | invalidStepPorts
  | exitPortNotStep
  | startPortConflict
  | unknownSourceNode
  | unknownTargetNode
  | unknownSourcePort
  | unknownTargetPort
  | stepPortTypeMismatch
  | multipleConnectionsToInput
  | typeIncompatible
  | typeMismatch
  | lossyTypeCoercion
  | unusualTypeCoercion
  | missingRequiredInput
  | cycleDetected
  | dataCycleDetected
  | unknownScope
  | scopeMembershipMismatch
  | invalidScopeConnection
  | unusedNode
  | noStartConnections
  | noExitConnections
  | unusedOutputPort
  | unreachableExitPort
  | multipleExitConnections
deriving DecidableEq

namespace DiagnosticCode

/-- The name of a code. -/
def toText : DiagnosticCode → String
  | unknownNodeType => "UnknownNodeType"
  | duplicateNodeName => "DuplicateNodeName"
  | duplicateInstanceId => "DuplicateInstanceId"
  | duplicatePortName => "DuplicatePortName"
  | reservedInstanceId => "ReservedInstanceId"
  | reservedNodeName => "ReservedNodeName"
  | invalidStepPorts => "InvalidStepPorts"
  | exitPortNotStep => "ExitPortNotStep"
  | startPortConflict => "StartPortConflict"
  | unknownSourceNode => "UnknownSourceNode"
  | unknownTargetNode => "UnknownTargetNode"
  | unknownSourcePort => "UnknownSourcePort"
  | unknownTargetPort => "UnknownTargetPort"
  | stepPortTypeMismatch => "StepPortTypeMismatch"
  | multipleConnectionsToInput => "MultipleConnectionsToInput"
  | typeIncompatible => "TypeIncompatible"
  | typeMismatch => "TypeMismatch"
  | lossyTypeCoercion => "LossyTypeCoercion"
  | unusualTypeCoercion => "UnusualTypeCoercion"
  | missingRequiredInput => "MissingRequiredInput"
  | cycleDetected => "CycleDetected"
  | dataCycleDetected => "DataCycleDetected"
  | unknownScope => "UnknownScope"
  | scopeMembershipMismatch => "ScopeMembershipMismatch"
  | invalidScopeConnection => "InvalidScopeConnection"
  | unusedNode => "UnusedNode"
  | noStartConnections => "NoStartConnections"
  | noExitConnections => "NoExitConnections"
  | unusedOutputPort => "UnusedOutputPort"
  | unreachableExitPort => "UnreachableExitPort"
  | multipleExitConnections => "MultipleExitConnections"

end DiagnosticCode

/-- The place in a workflow that a diagnostic is about. -/
structure Location where
  node : Option String := none
  port : Option String := none
  /-- The position of a connection. -/
  connection : Option Nat := none
  scope : Option ScopeRef := none
deriving DecidableEq

namespace Location

/-- A node. -/
def ofNode (id : String) : Location :=
  { node := some id }

/-- A port of a node. -/
def ofPort (id port : String) : Location :=
  { node := some id, port := some port }

/-- A connection, at the port where it ends. -/
def ofConnection (position : Nat) (connection : Connection) : Location :=
  { node := some connection.target.node
    port := some connection.target.port
    connection := some position }

/-- The text of a location. -/
def toText (location : Location) : String :=
  let place := match location.node, location.port with
    | some node, some port => node ++ "." ++ port
    | some node, none => node
    | none, _ => "workflow"
  let connection := match location.connection with
    | some position => " (connection #" ++ Nat.repr position ++ ")"
    | none => ""
  let scope := match location.scope with
    | some scope => " in scope " ++ scope.toText
    | none => ""
  place ++ connection ++ scope

end Location

/-- One thing that validation found. -/
structure Diagnostic where
  code : DiagnosticCode
  severity : Severity
  message : String
  location : Location
  /-- The known name that a misspelled one was meant to be. -/
  suggestion : Option String := none
deriving DecidableEq

namespace Diagnostic

/-- A diagnostic that keeps the workflow from being compiled. -/
def error (code : DiagnosticCode) (message : String) (location : Location)
    (suggestion : Option String := none) : Diagnostic :=
  { code, severity := .error, message, location, suggestion }

/-- A diagnostic that does not. -/
def warning (code : DiagnosticCode) (message : String) (location : Location) : Diagnostic :=
  { code, severity := .warning, message, location }

/-- Whether a diagnostic keeps the workflow from being compiled. -/
def isError (diagnostic : Diagnostic) : Bool :=
  diagnostic.severity = .error

/-- The line of a diagnostic in a report. -/
def toText (diagnostic : Diagnostic) : String :=
  let hint := match diagnostic.suggestion with
    | some suggestion => " (did you mean '" ++ suggestion ++ "'?)"
    | none => ""
  diagnostic.severity.toText ++ "[" ++ diagnostic.code.toText ++ "] at " ++
    diagnostic.location.toText ++ ": " ++ diagnostic.message ++ hint

/-- A diagnostic where a condition holds, and none elsewhere. -/
def when (condition : Bool) (diagnostic : Diagnostic) : List Diagnostic :=
  if condition then [diagnostic] else []

end Diagnostic

/-- The diagnostics of a workflow, in the order in which they were found. -/
structure Report where
  diagnostics : List Diagnostic
deriving DecidableEq

namespace Report

/-- The diagnostics that keep the workflow from being compiled. -/
def errors (report : Report) : List Diagnostic :=
  report.diagnostics.filter Diagnostic.isError

/-- The other diagnostics. -/
def warnings (report : Report) : List Diagnostic :=
  report.diagnostics.filter fun diagnostic => !diagnostic.isError

/-- Whether a diagnostic keeps the workflow from being compiled. -/
def hasErrors (report : Report) : Bool :=
  report.diagnostics.any Diagnostic.isError

/-- The diagnostics of a code. -/
def forCode (report : Report) (code : DiagnosticCode) : List Diagnostic :=
  report.diagnostics.filter fun diagnostic => diagnostic.code = code

/-- The report as text, a line for each diagnostic. -/
def toText (report : Report) : String :=
  String.join (report.diagnostics.map fun diagnostic => diagnostic.toText ++ "\n")

end Report

end WorkflowGraph
