/-
Configurations as JSON.
-/

import WorkflowGraph.Config
import WorkflowGraph.Document.Model

namespace WorkflowGraph.Config

open Json (Decoder)
open Json.Decoder (Fields)

/-- Why a text gives no configuration. -/
inductive LoadError where
  /-- The text does not describe a configuration. -/
  | document (fault : Json.Fault)
  /-- The configuration cannot be used. -/
  | invalid

/-- A configuration as JSON. -/
def toJson (config : Config) : Json :=
  .object [("disabledRules", .ofStrings config.disabledRules),
    ("maxScopeDepth", .ofNat config.maxScopeDepth)]

/-- A configuration from JSON. What is missing is as in the default configuration. -/
def decoder : Decoder Config :=
  .record (mk <$>
    Fields.defaulted "disabledRules" Decoder.string.list { : Config }.disabledRules <*>
    Fields.defaulted "maxScopeDepth" (.natBelow orderBound) { : Config }.maxScopeDepth)

/-- The configuration that a text describes. -/
def ofText (text : String) : Except LoadError Config :=
  match decoder.decodeText text with
  | .error fault => .error (.document fault)
  | .ok config => if config.isValid then .ok config else .error .invalid

end WorkflowGraph.Config
