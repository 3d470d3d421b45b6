/-
Plans come back from their texts.

* `PlanNode.reads` — a node is read back from its JSON, if the decoder looks for nodes deeper than
  the JSON goes. One level of this is `PlanNode.reads_of_children`, with a case for each kind of
  nodes.
* `PlanNode.isExact_toJson` — the JSON of a node has no numbers but those of its literals.
* `plan_reread_eq` — a plan whose literals hold kept integers only, and whose JSON is not too deep
  for a text, is read again from its own text.
-/

import WorkflowGraph.Document.Plan
import WorkflowGraph.Proofs.Document.Model

namespace WorkflowGraph

open Json (Decoder)
open Json.Decoder
open Json.Decoder.Fields (fits_required fits_defaulted fits_optional fits_listMember)

/-! ### Literals -/

/-- The value that a source gives itself. -/
def ValueSource.literals : ValueSource → List Json
  | literal value => [value]
  | _ => []

namespace PlanNode

/-- The bindings that belong to a node itself: the inputs of its run, and what its scopes
collect. -/
def bindings : PlanNode → List InputBinding
  | step s | inlined s => s.inputs
  | iteration s bodies => s.inputs ++ bodies.flatMap (·.1.results)
  | _ => []

/-- The literals of a node and of all nodes below it. -/
def literals (node : PlanNode) : List Json :=
  node.walk.flatMap fun below => below.bindings.flatMap (·.source.literals)

end PlanNode

/-- The literals of a plan: those that its nodes are given and those that it returns. -/
def Plan.literals (plan : Plan) : List Json :=
  plan.body.literals ++ plan.returns.flatMap fun binding => binding.sources.flatMap (·.literals)

/-! ### Sources and bindings -/

theorem ValueSource.reads {source : ValueSource}
    (ordered : ∀ value ∈ source.literals, value.isOrdered = true) :
    ValueSource.decoder.Reads source.toJson source := by
  cases source with
  | literal value =>
      have reads := reads_json (ordered value List.mem_cons_self)
      exact reads_tagged_record rfl (by decide) ((fits_required "value" reads).map literal)
  | expression code =>
      exact reads_tagged_record rfl (by decide)
        ((fits_required "code" (reads_string code)).map expression)
  | workflowInput port =>
      exact reads_tagged_record rfl (by decide)
        ((fits_required "port" (reads_string port)).map workflowInput)
  | output node port =>
      exact reads_tagged_record rfl (by decide) <|
        ((fits_required "instance" (reads_string node)).map output).andThen
          (fits_required "port" (reads_string port))
  | scopeItem node scope port =>
      exact reads_tagged_record rfl (by decide) <|
        (((fits_required "instance" (reads_string node)).map scopeItem).andThen
          (fits_required "scope" (reads_string scope))).andThen (fits_required "port"
          (reads_string port))
  | merged binding =>
      exact reads_tagged_record rfl (by decide)
        ((fits_required "binding" (reads_string binding)).map merged)
  | signal node port =>
      exact reads_tagged_record rfl (by decide) <|
        ((fits_required "instance" (reads_string node)).map signal).andThen
          (fits_required "port" (reads_string port))
  | unbound => exact reads_tagged rfl nofun (reads_bare _ _)

theorem InputBinding.reads {input : InputBinding}
    (ordered : ∀ value ∈ input.source.literals, value.isOrdered = true) :
    InputBinding.decoder.Reads input.toJson input :=
  reads_record (by decide) <|
    ((fits_required "port" (reads_string input.port)).map mk).andThen
      (fits_required "source" (ValueSource.reads ordered))

theorem Export.reads (sent : Export) : Export.decoder.Reads sent.toJson sent :=
  reads_record (by decide) <|
    ((fits_required "port" (reads_string sent.port)).map mk).andThen
      (fits_required "binding" (reads_string sent.binding))

theorem DataType.toJson_ne_null (type : DataType) : type.toJson ≠ .null := by
  cases type <;> nofun

theorem HoistedBinding.reads (binding : HoistedBinding) :
    HoistedBinding.decoder.Reads binding.toJson binding :=
  reads_record (by decide) <|
    (((fits_required "id" (reads_string binding.id)).map mk).andThen
      (fits_required "consumer" binding.consumer.reads)).andThen
      (fits_optional "dataType" fun type _ => ⟨type.reads, type.toJson_ne_null⟩)

theorem ReturnBinding.reads {binding : ReturnBinding}
    (ordered : ∀ source ∈ binding.sources, ∀ value ∈ source.literals, value.isOrdered = true) :
    ReturnBinding.decoder.Reads binding.toJson binding :=
  reads_record (by decide) <|
    ((fits_required "port" (reads_string binding.port)).map mk).andThen
      (fits_required "sources" (reads_list fun source member =>
        ValueSource.reads (ordered source member)))

theorem Step.fits {step : Step}
    (ordered : ∀ input ∈ step.inputs, ∀ value ∈ input.source.literals, value.isOrdered = true) :
    Step.fields.Fits step.members step :=
  (((fits_required "instance" (reads_string step.node)).map mk).andThen
    (fits_required "nodeType" (reads_string step.nodeType))).andThen
    (fits_required "inputs" (reads_list fun input member =>
      InputBinding.reads (ordered input member))) |>.andThen
    (fits_listMember "exports" fun sent _ => sent.reads)

/-! ### Below a node -/

namespace PlanNode

/-- The nodes right below a node. -/
def children : PlanNode → List PlanNode
  | sequence nodes | parallel nodes => nodes
  | branch _ _ _ thenArm elseArm => [thenArm, elseArm]
  | step _ | inlined _ => []
  | iteration _ bodies => bodies.map (·.2)

theorem walkAll_eq_flatMap (nodes : List PlanNode) : walkAll nodes = nodes.flatMap walk := by
  induction nodes with
  | nil => rfl
  | cons node rest ih => rw [walkAll, ih, List.flatMap_cons]

theorem walkBodies_eq_flatMap (bodies : List (ScopeFrame × PlanNode)) :
    walkBodies bodies = bodies.flatMap fun body => body.2.walk := by
  induction bodies with
  | nil => rfl
  | cons body rest ih => rw [walkBodies, ih, List.flatMap_cons]

theorem walk_eq_cons (node : PlanNode) : node.walk = node :: node.children.flatMap walk := by
  cases node with
  | sequence nodes | parallel nodes => rw [walk, walkAll_eq_flatMap, children]
  | branch => simp [walk, children]
  | step | inlined => rfl
  | iteration s bodies => rw [walk, walkBodies_eq_flatMap, children, List.flatMap_map]

/-- The literals of a node are its own and those of the nodes right below it. -/
theorem mem_literals_iff {node : PlanNode} {value : Json} :
    value ∈ node.literals ↔
      (∃ input ∈ node.bindings, value ∈ input.source.literals) ∨ ∃ child ∈ node.children,
      value ∈ child.literals := by
  rw [literals, walk_eq_cons, List.flatMap_cons, List.flatMap_assoc, List.mem_append,
    List.mem_flatMap, List.mem_flatMap]
  rfl

/-! ### Nodes in JSON -/

theorem allToJson_eq_map (nodes : List PlanNode) : allToJson nodes = nodes.map toJson := by
  induction nodes with
  | nil => rfl
  | cons node rest ih => rw [allToJson, ih, List.map_cons]

/-- The inside of a scope as JSON. -/
def bodyToJson (body : ScopeFrame × PlanNode) : Json :=
  .object [("name", .string body.1.name), ("items", .ofStrings body.1.items),
    ("body", toJson body.2), ("results", .array (body.1.results.map InputBinding.toJson))]

theorem bodiesToJson_eq_map (bodies : List (ScopeFrame × PlanNode)) :
    bodiesToJson bodies = bodies.map bodyToJson := by
  induction bodies with
  | nil => rfl
  | cons body rest ih =>
      rw [bodiesToJson, ih, List.map_cons]
      rfl

theorem height_lt_of_child {node child : PlanNode} (member : child ∈ node.children) :
    child.toJson.height < node.toJson.height := by
  have ofList {name : String} {nodes : List PlanNode} {members : List (String × Json)}
      (listed : (name, Json.array (allToJson nodes)) ∈ members) (inNodes : child ∈ nodes) :
      child.toJson.height < (Json.object members).height := by
    have inArray : child.toJson ∈ allToJson nodes := by
      rw [allToJson_eq_map]
      exact List.mem_map_of_mem inNodes
    exact Nat.lt_trans (Json.height_lt_array inArray) (Json.height_lt_object listed)
  cases node with
  | sequence nodes => exact ofList (List.mem_cons_of_mem _ List.mem_cons_self) member
  | parallel nodes => exact ofList (List.mem_cons_of_mem _ List.mem_cons_self) member
  | branch node condition hoisted thenArm elseArm =>
      rw [toJson]
      rcases List.mem_cons.mp member with rfl | isElse
      · exact Json.height_lt_object (List.mem_append_right _ List.mem_cons_self)
      · obtain rfl := List.mem_singleton.mp isElse
        exact Json.height_lt_object
          (List.mem_append_right _ (List.mem_cons_of_mem _ List.mem_cons_self))
  | step | inlined => cases member
  | iteration s bodies =>
      obtain ⟨body, inBodies, rfl⟩ := List.mem_map.mp member
      have inArray : bodyToJson body ∈ bodiesToJson bodies := by
        rw [bodiesToJson_eq_map]
        exact List.mem_map_of_mem inBodies
      have inBody : ("body", body.2.toJson) ∈ [("name", Json.string body.1.name),
          ("items", .ofStrings body.1.items),
          ("body", toJson body.2),
          ("results", .array (body.1.results.map InputBinding.toJson))] := by simp
      have listed : ("scopes", Json.array (bodiesToJson bodies)) ∈
          ("type", Json.string "repeat") :: s.members ++
          [("scopes", Json.array (bodiesToJson bodies))] :=
        List.mem_append_right _ List.mem_cons_self
      rw [toJson]
      calc body.2.toJson.height < (bodyToJson body).height := Json.height_lt_object inBody
        _ < (Json.array (bodiesToJson bodies)).height := Json.height_lt_array inArray
        _ < _ := Json.height_lt_object listed

/-! ### Nodes that are read -/

/-- One level of a node is read back if the nodes right below it are. -/
theorem reads_of_children {node : PlanNode} {bound : Nat}
    (ordered : ∀ input ∈ node.bindings, ∀ value ∈ input.source.literals, value.isOrdered = true)
    (each : ∀ child ∈ node.children, (decoderWithin bound).Reads child.toJson child) :
    (decoderWithin (bound + 1)).Reads node.toJson node := by
  cases node with
  | sequence nodes =>
      rw [toJson, decoderWithin, allToJson_eq_map]
      exact reads_tagged_record rfl (show ["type", "steps"].Nodup by decide)
        ((fits_required "steps" (reads_list each)).map sequence)
  | parallel nodes =>
      rw [toJson, decoderWithin, allToJson_eq_map]
      exact reads_tagged_record rfl (show ["type", "branches"].Nodup by decide)
        ((fits_required "branches" (reads_list each)).map parallel)
  | branch node condition hoisted thenArm elseArm =>
      rw [toJson, decoderWithin]
      have fits := (((((fits_required "instance" (reads_string node)).map branch).andThen
        (fits_required "condition" (reads_string condition))).andThen
        (fits_listMember "hoisted" fun binding (_ : binding ∈ hoisted) => binding.reads)).andThen
        (fits_required "then" (each thenArm List.mem_cons_self))).andThen
        (fits_required "else" (each elseArm (List.mem_cons_of_mem _ List.mem_cons_self)))
      -- The two arms are listed together, behind the bindings that may be left out.
      rw [List.append_assoc] at fits
      exact reads_tagged_record rfl
        (show ["type", "instance", "condition", "hoisted", "then", "else"].Nodup by decide) fits
  | step s =>
      rw [toJson, decoderWithin]
      exact reads_tagged_record rfl
        (show ["type", "instance", "nodeType", "inputs", "exports"].Nodup by decide)
        ((Step.fits ordered).map step)
  | inlined s =>
      rw [toJson, decoderWithin]
      exact reads_tagged_record rfl
        (show ["type", "instance", "nodeType", "inputs", "exports"].Nodup by decide)
        ((Step.fits ordered).map inlined)
  | iteration s bodies =>
      obtain ⟨orderedInputs, orderedResults⟩ := List.forall_mem_append.mp ordered
      rw [toJson, decoderWithin, bodiesToJson_eq_map]
      refine reads_tagged_record rfl
        (show ["type", "instance", "nodeType", "inputs", "exports", "scopes"].Nodup by decide) <|
        ((Step.fits orderedInputs).map iteration).andThen
          (fits_required "scopes" (reads_list fun body member => ?_))
      have results (input) (inside : input ∈ body.1.results) :=
        orderedResults input (List.mem_flatMap.mpr ⟨body, member, inside⟩)
      have fits := (((fits_required "name" (reads_string body.1.name)).map
        fun name items inner results => (ScopeFrame.mk name items results, inner)).andThen
        (fits_required "items" (reads_list fun item (_ : item ∈ body.1.items) =>
          reads_string item))).andThen
        (fits_required "body" (each body.2 (List.mem_map_of_mem member))) |>.andThen
        (fits_required "results" (reads_list fun input inside =>
          InputBinding.reads (results input inside)))
      exact reads_record (show ["name", "items", "body", "results"].Nodup by decide) fits

/-- **Every node is read back from its JSON**, if the decoder looks for nodes deep enough. -/
theorem reads {node : PlanNode} {bound : Nat}
    (ordered : ∀ value ∈ node.literals, value.isOrdered = true)
    (room : node.toJson.height < bound) : (decoderWithin bound).Reads node.toJson node := by
  induction bound generalizing node with
  | zero => exact absurd room (Nat.not_lt_zero _)
  | succ bound ih =>
      refine reads_of_children (fun input member value own => ?_) fun child member =>
        ih (fun value below => ?_) ?_
      · exact ordered value (mem_literals_iff.mpr (.inl ⟨input, member, own⟩))
      · exact ordered value (mem_literals_iff.mpr (.inr ⟨child, member, below⟩))
      · exact Nat.lt_of_lt_of_le (height_lt_of_child member) (Nat.le_of_lt_succ room)

end PlanNode

/-! ### Numbers of a plan -/

theorem ValueSource.isExact_toJson {source : ValueSource}
    (exact : ∀ value ∈ source.literals, value.isExact = true) :
    source.toJson.isExact = true := by
  cases source with
  | literal value => simpa [toJson] using exact value List.mem_cons_self
  | _ => simp [toJson]

theorem InputBinding.isExact_toJson {input : InputBinding}
    (exact : ∀ value ∈ input.source.literals, value.isExact = true) :
    input.toJson.isExact = true := by
  simpa [toJson] using ValueSource.isExact_toJson exact

theorem HoistedBinding.isExact_toJson (binding : HoistedBinding) :
    binding.toJson.isExact = true := by
  simp [toJson, PortRef.toJson, (DataType.printable _ 0).exact]

theorem ReturnBinding.isExact_toJson {binding : ReturnBinding}
    (exact : ∀ source ∈ binding.sources, ∀ value ∈ source.literals, value.isExact = true) :
    binding.toJson.isExact = true := by
  have sources (source) (member : source ∈ binding.sources) :=
    ValueSource.isExact_toJson (exact source member)
  simpa [toJson] using sources

theorem Step.isExact_members {step : Step}
    (exact : ∀ input ∈ step.inputs, ∀ value ∈ input.source.literals, value.isExact = true) :
    Json.ForMembers (·.isExact = true) step.members := by
  have inputs (input) (member : input ∈ step.inputs) :=
    InputBinding.isExact_toJson (exact input member)
  simpa [members, Export.toJson] using inputs

/-- The numbers of a node's JSON are those of its literals. -/
theorem PlanNode.isExact_toJson (node : PlanNode)
    (exact : ∀ value ∈ node.literals, value.isExact = true) :
    node.toJson.isExact = true := by
  have own (input) (member : input ∈ node.bindings) (value)
      (given : value ∈ input.source.literals) :=
    exact value (mem_literals_iff.mpr (.inl ⟨input, member, given⟩))
  have each (child) (member : child ∈ node.children) : child.toJson.isExact = true :=
    isExact_toJson child fun value below =>
      exact value (mem_literals_iff.mpr (.inr ⟨child, member, below⟩))
  cases node with
  | sequence nodes => simpa [toJson, allToJson_eq_map, children] using each
  | parallel nodes => simpa [toJson, allToJson_eq_map, children] using each
  | branch node condition hoisted thenArm elseArm =>
      simpa [toJson, HoistedBinding.isExact_toJson, children] using each
  | step s => simpa [toJson] using Step.isExact_members own
  | inlined s => simpa [toJson] using Step.isExact_members own
  | iteration s bodies =>
      obtain ⟨ownInputs, ownResults⟩ := List.forall_mem_append.mp own
      have scopes : ∀ scope ∈ bodiesToJson bodies, scope.isExact = true := by
        rw [bodiesToJson_eq_map, List.forall_mem_map]
        intro body member
        have inner := each body.2 (List.mem_map_of_mem member)
        have results (input) (inside : input ∈ body.1.results) : input.toJson.isExact = true :=
          InputBinding.isExact_toJson
            (ownResults input (List.mem_flatMap.mpr ⟨body, member, inside⟩))
        simpa [bodyToJson, Json.ofStrings, inner] using results
      simpa [toJson, Step.isExact_members ownInputs] using scopes
termination_by node.toJson.height
decreasing_by exact height_lt_of_child member

/-! ### Round trip -/

theorem Plan.reads {plan : Plan} (ordered : ∀ value ∈ plan.literals, value.isOrdered = true) :
    Plan.decoder.Reads plan.toJson plan := by
  obtain ⟨inBody, inReturns⟩ := List.forall_mem_append.mp ordered
  have body : PlanNode.decoder.Reads plan.body.toJson plan.body := fun origin =>
    PlanNode.reads inBody (Nat.lt_succ_self _) origin
  have returns (binding) (member : binding ∈ plan.returns) :
      ReturnBinding.decoder.Reads binding.toJson binding := by
    refine ReturnBinding.reads fun source inside value given => ?_
    exact inReturns value
      (List.mem_flatMap.mpr ⟨binding, member, List.mem_flatMap.mpr ⟨source, inside, given⟩⟩)
  exact reads_record (by decide) <|
    (((fits_required "workflow" (reads_string plan.workflow)).map mk).andThen
      (fits_required "body" body)).andThen (fits_required "returns" (reads_list returns))

theorem Plan.isExact_toJson {plan : Plan} (exact : ∀ value ∈ plan.literals, value.isExact = true) :
    plan.toJson.isExact = true := by
  obtain ⟨inBody, inReturns⟩ := List.forall_mem_append.mp exact
  have returns (binding) (member : binding ∈ plan.returns) : binding.toJson.isExact = true := by
    refine ReturnBinding.isExact_toJson fun source inside value given => ?_
    exact inReturns value
      (List.mem_flatMap.mpr ⟨binding, member, List.mem_flatMap.mpr ⟨source, inside, given⟩⟩)
  simpa [toJson, PlanNode.isExact_toJson plan.body inBody] using returns

/-- **Reading a plan's own text gives the plan**, for every plan whose literals hold no numbers but
integers of the kept range, and whose JSON is not too deep for a text. The objects in a literal have
their members in order, as in every value that was taken in (`Json.Reading.of_take`). -/
theorem plan_reread_eq (plan : Plan) (exact : ∀ value ∈ plan.literals, value.isExact = true)
    (ordered : ∀ value ∈ plan.literals, value.isOrdered = true)
    (shallow : plan.toJson.height < 128) :
    Plan.ofText plan.toJson.pretty = .ok plan := by
  rw [Plan.ofText, decodeText_pretty _ (Plan.isExact_toJson exact) shallow]
  exact Plan.reads ordered .streamed

/-- A plan with a node of each kind, a merge binding, null as a literal and the least number that is
kept. -/
def nodeOfEachKind : Plan where
  workflow := "kinds"
  body := .sequence [
    .step ⟨"h", "Task",
      [⟨"in", .literal (.object [("a", .null), ("b", .number (.integer (-9223372036854775808)))])⟩],
      []⟩,
    .branch "h" "onSuccess" [⟨"v.in", ⟨"v", "in", none⟩, some (.object none)⟩]
      (.parallel [
        .step ⟨"x", "Task", [⟨"in", .unbound⟩], [⟨"out", "v.in"⟩]⟩,
        .iteration ⟨"m", "Loop", [⟨"list", .workflowInput "list"⟩], []⟩ [
          (⟨"body", ["item"], [⟨"done", .output "e" "out"⟩]⟩,
            .inlined ⟨"e", "Expr", [⟨"in", .scopeItem "m" "body" "item"⟩], []⟩)]])
      (.sequence [])]
  returns := [⟨"r", [.merged "v.in", .literal .null, .signal "h" "onFailure", .expression "x + 1"]⟩]

theorem plan_reread_eq_nodeOfEachKind :
    nodeOfEachKind.literals =
      [.object [("a", .null), ("b", .number (.integer (-9223372036854775808)))], .null] ∧
      nodeOfEachKind.toJson.height = 13 ∧
      Plan.ofText nodeOfEachKind.toJson.pretty = .ok nodeOfEachKind :=
  ⟨by decide, by decide, plan_reread_eq nodeOfEachKind (by decide) (by decide) (by decide)⟩

end WorkflowGraph
