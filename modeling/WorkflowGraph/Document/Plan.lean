/-
Plans as JSON.
-/

import WorkflowGraph.Document.Model
import WorkflowGraph.Plan.Basic

namespace WorkflowGraph

open Json (Decoder)
open Json.Decoder (Fields)

/-! ### Sources and bindings -/

/-- A source as JSON. -/
def ValueSource.toJson : ValueSource → Json
  | literal value => .object [("kind", .string "literal"), ("value", value)]
  | expression code => .object [("kind", .string "expression"), ("code", .string code)]
  | workflowInput port => .object [("kind", .string "workflow_input"), ("port", .string port)]
  | output node port =>
    .object [("kind", .string "output"), ("instance", .string node), ("port", .string port)]
  | scopeItem node scope port =>
    .object [("kind", .string "scope_item"), ("instance", .string node), ("scope", .string scope),
      ("port", .string port)]
  | merged binding => .object [("kind", .string "merged"), ("binding", .string binding)]
  | signal node port =>
    .object [("kind", .string "signal"), ("instance", .string node), ("port", .string port)]
  | unbound => .object [("kind", .string "unbound")]

/-- A source from JSON. -/
def ValueSource.decoder : Decoder ValueSource :=
  .tagged "kind"
    [("literal", .record (literal <$> Fields.required "value" .json)),
      ("expression", .record (expression <$> Fields.required "code" .string)),
      ("workflow_input", .record (workflowInput <$> Fields.required "port" .string)),
      ("output", .record (output <$> Fields.required "instance" .string <*>
        Fields.required "port" .string)),
      ("scope_item", .record (scopeItem <$> Fields.required "instance" .string <*>
        Fields.required "scope" .string <*> Fields.required "port" .string)),
      ("merged", .record (merged <$> Fields.required "binding" .string)),
      ("signal", .record (signal <$> Fields.required "instance" .string <*>
        Fields.required "port" .string)),
      ("unbound", .bare unbound)]

/-- An input binding as JSON. -/
def InputBinding.toJson (input : InputBinding) : Json :=
  .object [("port", .string input.port), ("source", input.source.toJson)]

/-- An input binding from JSON. -/
def InputBinding.decoder : Decoder InputBinding :=
  .record (mk <$> Fields.required "port" .string <*> Fields.required "source" ValueSource.decoder)

/-- An export as JSON. -/
def Export.toJson (sent : Export) : Json :=
  .object [("port", .string sent.port), ("binding", .string sent.binding)]

/-- An export from JSON. -/
def Export.decoder : Decoder Export :=
  .record (mk <$> Fields.required "port" .string <*> Fields.required "binding" .string)

/-- A merge binding as JSON. -/
def HoistedBinding.toJson (binding : HoistedBinding) : Json :=
  .object ([("id", .string binding.id), ("consumer", binding.consumer.toJson)] ++
    Json.optionalMember "dataType" DataType.toJson binding.dataType)

/-- A merge binding from JSON. -/
def HoistedBinding.decoder : Decoder HoistedBinding :=
  .record (mk <$> Fields.required "id" .string <*> Fields.required "consumer" PortRef.decoder <*>
    Fields.optional "dataType" DataType.decoder)

/-- A return binding as JSON. -/
def ReturnBinding.toJson (binding : ReturnBinding) : Json :=
  .object [("port", .string binding.port),
    ("sources", .array (binding.sources.map ValueSource.toJson))]

/-- A return binding from JSON. -/
def ReturnBinding.decoder : Decoder ReturnBinding :=
  .record (mk <$> Fields.required "port" .string <*>
    Fields.required "sources" ValueSource.decoder.list)

/-! ### Nodes -/

/-- The members of a run, in JSON. -/
def Step.members (step : Step) : List (String × Json) :=
  [("instance", .string step.node), ("nodeType", .string step.nodeType),
    ("inputs", .array (step.inputs.map InputBinding.toJson))] ++
    Json.listMember "exports" Export.toJson step.exports

/-- The fields of a run. -/
def Step.fields : Fields Step :=
  mk <$> Fields.required "instance" .string <*> Fields.required "nodeType" .string <*>
    Fields.required "inputs" InputBinding.decoder.list <*>
    Fields.defaulted "exports" Export.decoder.list []

namespace PlanNode

/-- The name of a node's kind in documents. -/
def kindName : PlanNode → String
  | sequence _ => "sequence"
  | parallel _ => "parallel"
  | branch .. => "branch"
  | step _ => "step"
  | inlined _ => "inline_expr"
  | iteration .. => "repeat"

mutual

/-- A node as JSON. -/
def toJson : PlanNode → Json
  | sequence steps => .object [("type", .string "sequence"), ("steps", .array (allToJson steps))]
  | parallel branches =>
    .object [("type", .string "parallel"), ("branches", .array (allToJson branches))]
  | branch node condition hoisted thenArm elseArm =>
    .object ([("type", .string "branch"), ("instance", .string node),
      ("condition", .string condition)] ++
      Json.listMember "hoisted" HoistedBinding.toJson hoisted ++
      [("then", toJson thenArm), ("else", toJson elseArm)])
  | step s => .object (("type", .string "step") :: s.members)
  | inlined s => .object (("type", .string "inline_expr") :: s.members)
  | iteration s bodies =>
    .object (("type", .string "repeat") :: s.members ++ [("scopes", .array (bodiesToJson bodies))])

/-- Nodes as JSON. -/
def allToJson : List PlanNode → List Json
  | [] => []
  | node :: rest => toJson node :: allToJson rest

/-- The insides of scopes as JSON. -/
def bodiesToJson : List (ScopeFrame × PlanNode) → List Json
  | [] => []
  | (frame, body) :: rest =>
    .object [("name", .string frame.name), ("items", .ofStrings frame.items), ("body", toJson body),
      ("results", .array (frame.results.map InputBinding.toJson))] :: bodiesToJson rest

end

/-- A node from JSON whose containers nest at most as deep as the bound. -/
def decoderWithin : Nat → Decoder PlanNode
  | 0 => fun _ _ => .error .mismatch
  | bound + 1 =>
    let inner := decoderWithin bound
    let body : Decoder (ScopeFrame × PlanNode) :=
      .record ((fun name items body results => (⟨name, items, results⟩, body)) <$>
        Fields.required "name" .string <*> Fields.required "items" Decoder.string.list <*>
        Fields.required "body" inner <*> Fields.required "results" InputBinding.decoder.list)
    .tagged "type"
      [("sequence", .record (sequence <$> Fields.required "steps" inner.list)),
        ("parallel", .record (parallel <$> Fields.required "branches" inner.list)),
        ("branch", .record (branch <$> Fields.required "instance" .string <*>
          Fields.required "condition" .string <*>
          Fields.defaulted "hoisted" HoistedBinding.decoder.list [] <*>
          Fields.required "then" inner <*> Fields.required "else" inner)),
        ("step", .record (step <$> Step.fields)),
        ("inline_expr", .record (inlined <$> Step.fields)),
        ("repeat", .record (iteration <$> Step.fields <*> Fields.required "scopes" body.list))]

/-- A node from JSON. -/
def decoder : Decoder PlanNode :=
  fun origin reading => decoderWithin (reading.height + 1) origin reading

end PlanNode

/-- A plan as JSON. -/
def Plan.toJson (plan : Plan) : Json :=
  .object [("workflow", .string plan.workflow), ("body", plan.body.toJson),
    ("returns", .array (plan.returns.map ReturnBinding.toJson))]

/-- A plan from JSON. -/
def Plan.decoder : Decoder Plan :=
  .record (mk <$> Fields.required "workflow" .string <*> Fields.required "body" PlanNode.decoder <*>
    Fields.required "returns" ReturnBinding.decoder.list)

/-- The plan that a text describes. -/
def Plan.ofText (text : String) : Except Json.Fault Plan :=
  Plan.decoder.decodeText text

end WorkflowGraph
