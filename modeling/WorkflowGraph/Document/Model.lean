/-
Workflows and their parts as JSON.

Every type has a `toJson`, which lists the members in their fixed order and leaves out what is none
or empty where the form allows it, and a `decoder`, which accepts what `toJson` gives and the other
written forms of the same value.
-/

import WorkflowGraph.Json.Decode
import WorkflowGraph.Json.Print
import WorkflowGraph.Workflow

namespace WorkflowGraph

open Json (Decoder)
open Json.Decoder (Fields)

/-- Numbers that stand for a port's order or a depth are below this bound. -/
def orderBound : Nat := Nat.pow 2 32

/-! ### Types of values -/

/-- A type as JSON. -/
def DataType.toJson : DataType → Json
  | any => .string "any"
  | string => .string "string"
  | number => .string "number"
  | boolean => .string "boolean"
  | object shape => .object [("object", .object (Json.optionalMember "shape" .string shape))]
  | array => .string "array"
  | function => .string "function"
  | custom name => .object [("custom", .string name)]

/-- A type from JSON. -/
def DataType.decoder : Decoder DataType :=
  .alternatives
    [("any", any), ("string", string), ("number", number), ("boolean", boolean), ("array", array),
      ("function", function)]
    [("object", .carriedRecord (object <$> Fields.optional "shape" .string)),
      ("custom", Decoder.string.map custom)]

/-! ### Ports -/

/-- A direction as JSON. -/
def Direction.toJson (direction : Direction) : Json :=
  .string direction.toText

/-- A direction from JSON. -/
def Direction.decoder : Decoder Direction :=
  .alternatives [("input", input), ("output", output)] []

/-- What a port carries, as JSON. -/
def PortKind.toJson : PortKind → Json
  | step => .object [("kind", .string "step")]
  | data dataType default expression =>
    .object ([("kind", .string "data"), ("dataType", dataType.toJson)] ++
      Json.optionalMember "default" id default ++
      Json.optionalMember "expression" .string expression)

/-- What a port carries, from JSON. -/
def PortKind.decoder : Decoder PortKind :=
  .tagged "kind"
    [("step", .bare step),
      ("data", .record (data <$> Fields.required "dataType" DataType.decoder <*>
        Fields.optional "default" .json <*> Fields.optional "expression" .string))]

/-- A port as JSON. -/
def Port.toJson (port : Port) : Json :=
  .object ([("name", .string port.name), ("direction", port.direction.toJson),
    ("kind", port.kind.toJson), ("optional", .bool port.optional), ("order", .ofNat port.order)] ++
    Json.optionalMember "scope" .string port.scope)

/-- A port from JSON. -/
def Port.decoder : Decoder Port :=
  .record (mk <$> Fields.required "name" .string <*>
    Fields.required "direction" Direction.decoder <*>
    Fields.required "kind" PortKind.decoder <*> Fields.defaulted "optional" .bool false <*>
    Fields.defaulted "order" (.natBelow orderBound) 0 <*> Fields.optional "scope" .string)

/-! ### Node types -/

/-- The text of a kind of nodes. -/
def NodeVariant.toText : NodeVariant → String
  | stub => "stub"
  | function => "function"
  | expression => "expression"

/-- A kind of nodes from JSON. -/
def NodeVariant.decoder : Decoder NodeVariant :=
  .alternatives [("stub", stub), ("function", function), ("expression", expression)] []

/-- A trigger as JSON. -/
def Trigger.toJson : Trigger → Json
  | conjunction => .string "conjunction"
  | disjunction => .string "disjunction"
  | custom name => .object [("custom", .string name)]

/-- A trigger from JSON. -/
def Trigger.decoder : Decoder Trigger :=
  .alternatives [("conjunction", conjunction), ("disjunction", disjunction)]
    [("custom", Decoder.string.map custom)]

/-- A node type as JSON. -/
def NodeType.toJson (type : NodeType) : Json :=
  .object ([("id", .string type.id), ("variant", .string type.variant.toText),
    ("ports", .array (type.ports.map Port.toJson)), ("executeWhen", type.trigger.toJson)] ++
    Json.optionalMember "description" .string type.description)

/-- A node type from JSON. -/
def NodeType.decoder : Decoder NodeType :=
  .record (mk <$> Fields.required "id" .string <*> Fields.required "variant" NodeVariant.decoder <*>
    Fields.required "ports" Port.decoder.list <*>
    Fields.defaulted "executeWhen" Trigger.decoder .conjunction <*>
    Fields.optional "description" .string)

/-! ### Instances and connections -/

/-- A scope reference as JSON. -/
def ScopeRef.toJson (scope : ScopeRef) : Json :=
  .object [("instance", .string scope.owner), ("scope", .string scope.name)]

/-- A scope reference from JSON. -/
def ScopeRef.decoder : Decoder ScopeRef :=
  .record (mk <$> Fields.required "instance" .string <*> Fields.required "scope" .string)

/-- A given value as JSON. -/
def PortBinding.toJson : PortBinding → Json
  | literal value => .object [("literal", value)]
  | expression code => .object [("expression", .string code)]

/-- A given value from JSON. -/
def PortBinding.decoder : Decoder PortBinding :=
  .alternatives []
    [("literal", Decoder.json.map literal), ("expression", Decoder.string.map expression)]

/-- An instance as JSON. -/
def Instance.toJson (inst : Instance) : Json :=
  .object ([("id", .string inst.id), ("nodeType", .string inst.nodeType)] ++
    Json.optionalMember "parentScope" ScopeRef.toJson inst.parentScope ++
    if inst.bindings.isEmpty then []
    else [("bindings", .object (inst.bindings.entries.map fun entry => (entry.1, entry.2.toJson)))])

/-- An instance from JSON. -/
def Instance.decoder : Decoder Instance :=
  .record (mk <$> Fields.required "id" .string <*> Fields.required "nodeType" .string <*>
    Fields.optional "parentScope" ScopeRef.decoder <*>
    Fields.defaulted "bindings" PortBinding.decoder.table .empty)

/-- A port reference as JSON. -/
def PortRef.toJson (ref : PortRef) : Json :=
  .object ([("node", .string ref.node), ("port", .string ref.port)] ++
    Json.optionalMember "scope" .string ref.scope)

/-- A port reference from JSON. -/
def PortRef.decoder : Decoder PortRef :=
  .record (mk <$> Fields.required "node" .string <*> Fields.required "port" .string <*>
    Fields.optional "scope" .string)

/-- A connection as JSON. -/
def Connection.toJson (connection : Connection) : Json :=
  .object [("from", connection.source.toJson), ("to", connection.target.toJson)]

/-- A connection from JSON. -/
def Connection.decoder : Decoder Connection :=
  .record (mk <$> Fields.required "from" PortRef.decoder <*> Fields.required "to" PortRef.decoder)

/-- An entry of the scope table as JSON. -/
def Scope.toJson (scope : Scope) : Json :=
  .object [("parent", .string scope.parent), ("name", .string scope.name),
    ("children", .ofStrings scope.children)]

/-- An entry of the scope table from JSON. -/
def Scope.decoder : Decoder Scope :=
  .record (mk <$> Fields.required "parent" .string <*> Fields.required "name" .string <*>
    Fields.required "children" Decoder.string.list)

/-! ### Workflows -/

/-- A workflow as JSON. -/
def Workflow.toJson (workflow : Workflow) : Json :=
  .object ([("name", .string workflow.name), ("strictTypes", .bool workflow.strictTypes),
    ("parameters", .array (workflow.parameters.map Port.toJson)),
    ("returns", .array (workflow.returns.map Port.toJson)),
    ("nodeTypes", .array (workflow.nodeTypes.map NodeType.toJson)),
    ("instances", .array (workflow.instances.map Instance.toJson)),
    ("connections", .array (workflow.connections.map Connection.toJson))] ++
    Json.listMember "scopes" Scope.toJson workflow.scopes)

/-- A workflow from JSON. -/
def Workflow.decoder : Decoder Workflow :=
  .record (mk <$> Fields.required "name" .string <*> Fields.defaulted "strictTypes" .bool false <*>
    Fields.defaulted "parameters" Port.decoder.list [] <*>
    Fields.defaulted "returns" Port.decoder.list [] <*>
    Fields.defaulted "nodeTypes" NodeType.decoder.list [] <*>
    Fields.defaulted "instances" Instance.decoder.list [] <*>
    Fields.defaulted "connections" Connection.decoder.list [] <*>
    Fields.defaulted "scopes" Scope.decoder.list [])

/-- The workflow that a text describes. -/
def Workflow.ofText (text : String) : Except Json.Fault Workflow :=
  Workflow.decoder.decodeText text

/-- The text of a workflow. -/
def Workflow.toText (workflow : Workflow) : String :=
  workflow.toJson.pretty

end WorkflowGraph
