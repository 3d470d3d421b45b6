/-
Workflows come back from their texts.

The defaults of ports and the literals of instances may be any JSON; they are the free values of a
workflow. A workflow that was read is `Sound`: its free values are ordered and leave room for the
levels around them, its defaults are not null, and the orders of its ports are small (`ensures`). A
sound part is read back from its JSON (`reads`), and if its free values are exact, it is printed in
a form that a text can hold (`printable`).

* `workflow_reread_eq` — a workflow that was read from some text is read again from its own text.
-/

import WorkflowGraph.Document.Model
import WorkflowGraph.Proofs.Json.Decode

namespace WorkflowGraph

open Json (Decoder Printable)
open Json.Decoder
open Json.Decoder.Fields (fits_required fits_defaulted fits_optional fits_listMember
  ensures_required ensures_defaulted ensures_optional_json)

/-! ### Parts without free values -/

theorem DataType.reads (type : DataType) : DataType.decoder.Reads type.toJson type := by
  cases type with
  | any | string | number | boolean | array | function => exact reads_plain rfl
  | custom name => exact reads_carried rfl ((reads_string name).map custom)
  | object shape =>
      have fits :=
        (fits_optional "shape" fun a (_ : shape = some a) => ⟨reads_string a, nofun⟩).map object
      exact reads_carried rfl (reads_record (by decide) fits).carriedRecord

theorem Direction.reads (direction : Direction) :
    Direction.decoder.Reads direction.toJson direction := by
  cases direction <;> exact reads_plain rfl

theorem NodeVariant.reads (variant : NodeVariant) :
    NodeVariant.decoder.Reads (.string variant.toText) variant := by
  cases variant <;> exact reads_plain rfl

theorem Trigger.reads (trigger : Trigger) : Trigger.decoder.Reads trigger.toJson trigger := by
  cases trigger with
  | conjunction | disjunction => exact reads_plain rfl
  | custom name => exact reads_carried rfl ((reads_string name).map custom)

theorem ScopeRef.reads (scope : ScopeRef) : ScopeRef.decoder.Reads scope.toJson scope :=
  reads_record (by decide) <|
    ((fits_required "instance" (reads_string scope.owner)).map mk).andThen
      (fits_required "scope" (reads_string scope.name))

theorem PortRef.reads (ref : PortRef) : PortRef.decoder.Reads ref.toJson ref :=
  reads_record (by decide) <|
    (((fits_required "node" (reads_string ref.node)).map mk).andThen
      (fits_required "port" (reads_string ref.port))).andThen
      (fits_optional "scope" fun name _ => ⟨reads_string name, nofun⟩)

theorem Connection.reads (connection : Connection) :
    Connection.decoder.Reads connection.toJson connection :=
  reads_record (by decide) <|
    ((fits_required "from" connection.source.reads).map mk).andThen
      (fits_required "to" connection.target.reads)

theorem Scope.reads (scope : Scope) : Scope.decoder.Reads scope.toJson scope :=
  reads_record (by decide) <|
    (((fits_required "parent" (reads_string scope.parent)).map mk).andThen
      (fits_required "name" (reads_string scope.name))).andThen
      (fits_required "children" (reads_list fun child _ => reads_string child))

/-! ### Free values -/

/-- The JSON values that a port may give. -/
def PortKind.freeValues : PortKind → List Json
  | step => []
  | data _ default _ => default.toList

/-- The JSON values that a given value may be. -/
def PortBinding.freeValues : PortBinding → List Json
  | literal value => [value]
  | expression _ => []

/-- The JSON values of a workflow that may be anything: the defaults of ports and the literals of
instances. -/
def Workflow.freeValues (workflow : Workflow) : List Json :=
  (workflow.parameters ++ workflow.returns ++ workflow.nodeTypes.flatMap (·.ports)).flatMap
    (·.kind.freeValues) ++
    workflow.instances.flatMap fun inst => inst.bindings.entries.flatMap (·.2.freeValues)

/-- A default is not null, ordered, and no deeper than the bound. -/
def PortKind.Sound (bound : Nat) : PortKind → Prop
  | step => True
  | data _ default _ => ∀ value, default = some value →
      value ≠ .null ∧ value.isOrdered = true ∧ value.height ≤ bound

/-- The default of a port is sound, and its order is small enough. -/
def Port.Sound (bound : Nat) (port : Port) : Prop :=
  port.kind.Sound bound ∧ port.order < orderBound

/-- A literal is ordered and no deeper than the bound. -/
def PortBinding.Sound (bound : Nat) : PortBinding → Prop
  | literal value => value.isOrdered = true ∧ value.height ≤ bound
  | expression _ => True

/-- The parts of a workflow are sound. The free values leave room for the levels around them, if the
members of the workflow are no deeper than the bound. -/
structure Workflow.Sound (bound : Nat) (workflow : Workflow) : Prop where
  -- A default stands in its kind, its port and the array of the ports.
  parameters : ∀ port ∈ workflow.parameters, port.Sound (bound - 3)
  returns : ∀ port ∈ workflow.returns, port.Sound (bound - 3)
  -- Two levels more are those of a node type and of the array of the node types.
  nodeTypes : ∀ type ∈ workflow.nodeTypes, ∀ port ∈ type.ports, port.Sound (bound - 5)
  -- A literal stands in its binding, the table of the bindings, the instance and the array of the
  -- instances.
  instances : ∀ inst ∈ workflow.instances, ∀ entry ∈ inst.bindings.entries,
    entry.2.Sound (bound - 4)

/-! ### What is read is sound -/

theorem PortKind.ensures : PortKind.decoder.Ensures fun bound kind => kind.Sound (bound - 1) := by
  refine ensures_tagged <| List.forall_mem_cons.mpr ⟨ensures_bare fun _ => trivial,
    List.forall_mem_cons.mpr ⟨?_, nofun⟩⟩
  refine Ensures.record (P := PortKind.Sound) ?_
  refine .andThen (.andThen (.map (Fields.ensures_true _) ?_) (ensures_optional_json "default"))
    (Fields.ensures_true _)
  intro bound type _ default sound expression _
  exact sound

theorem Port.ensures : Port.decoder.Ensures fun bound port => port.Sound (bound - 2) := by
  refine Ensures.record (P := fun bound (port : Port) => port.Sound (bound - 1)) ?_
  refine .andThen
    (.andThen (.andThen
      (.andThen (.andThen (.map (Fields.ensures_true _) ?_) (Fields.ensures_true _))
    (ensures_required "kind" PortKind.ensures)) (Fields.ensures_true _))
    (ensures_defaulted "order" (ensures_natBelow orderBound) fun _ => by decide))
      (Fields.ensures_true _)
  intro bound name _ direction _ kind sound optional _ order small scope _
  exact ⟨sound, small⟩

theorem NodeType.ensures :
    NodeType.decoder.Ensures fun bound type => ∀ port ∈ type.ports, port.Sound (bound - 4) := by
  refine Ensures.record (P := fun bound (type : NodeType) => ∀ port ∈ type.ports,
    port.Sound (bound - 3)) ?_
  refine .andThen
    (.andThen (.andThen (.andThen (.map (Fields.ensures_true _) ?_) (Fields.ensures_true _))
    (ensures_required "ports" Port.ensures.list)) (Fields.ensures_true _)) (Fields.ensures_true _)
  intro bound id _ variant _ ports sound trigger _ description _
  exact sound

theorem PortBinding.ensures : PortBinding.decoder.Ensures fun bound binding =>
      binding.Sound (bound - 1) := by
  refine ensures_alternatives nofun <|
    List.forall_mem_cons.mpr ⟨?_, List.forall_mem_cons.mpr ⟨?_, nofun⟩⟩
  · exact ensures_json.map fun bound value taken => taken
  · exact (ensures_true _).map fun bound code _ => trivial

theorem Instance.ensures :
    Instance.decoder.Ensures fun bound inst => ∀ entry ∈ inst.bindings.entries,
      entry.2.Sound (bound - 3) := by
  refine Ensures.record
    (P := fun bound (inst : Instance) => ∀ entry ∈ inst.bindings.entries, entry.2.Sound (bound - 2))
    ?_
  refine .andThen (.andThen (.andThen (.map (Fields.ensures_true _) ?_) (Fields.ensures_true _))
    (Fields.ensures_true _)) (ensures_defaulted "bindings" PortBinding.ensures.table
    (by simp [Table.empty]))
  intro bound id _ type _ scope _ bindings sound
  exact sound

theorem Workflow.ensures : Workflow.decoder.Ensures fun bound workflow =>
      workflow.Sound (bound - 1) := by
  refine Ensures.record (P := Workflow.Sound) ?_
  refine .andThen (.andThen (.andThen (.andThen (.andThen (.andThen (.andThen
    (.map (Fields.ensures_true _) ?_) (Fields.ensures_true _))
    (ensures_defaulted "parameters" Port.ensures.list (by simp)))
    (ensures_defaulted "returns" Port.ensures.list (by simp)))
    (ensures_defaulted "nodeTypes" NodeType.ensures.list (by simp)))
    (ensures_defaulted "instances" Instance.ensures.list (by simp))) (Fields.ensures_true _))
      (Fields.ensures_true _)
  intro bound name _ strict _ parameters soundParameters returns soundReturns types soundTypes
    instances soundInstances connections _ scopes _
  exact ⟨soundParameters, soundReturns, soundTypes, soundInstances⟩

/-! ### Sound parts are read back -/

theorem PortKind.reads {kind : PortKind} {bound : Nat} (sound : kind.Sound bound) :
    PortKind.decoder.Reads kind.toJson kind := by
  cases kind with
  | step => exact reads_tagged rfl nofun (reads_bare _ _)
  | data type default expression =>
      have readsDefault (value) (given : default = some value) : Decoder.json.Reads value value ∧
          value ≠ .null := by
        obtain ⟨notNull, ordered, _⟩ := sound value given
        exact ⟨reads_json ordered, notNull⟩
      exact reads_tagged_record rfl (by decide) <|
        (((fits_required "dataType" type.reads).map data).andThen
          (fits_optional "default" readsDefault)).andThen
          (fits_optional "expression" fun code _ => ⟨reads_string code, nofun⟩)

theorem Port.reads {port : Port} {bound : Nat} (sound : port.Sound bound) :
    Port.decoder.Reads port.toJson port :=
  reads_record (by decide) <|
    ((((((fits_required "name" (reads_string port.name)).map mk).andThen
      (fits_required "direction" port.direction.reads)).andThen
      (fits_required "kind" (PortKind.reads sound.1))).andThen
      (fits_defaulted "optional" false (reads_bool port.optional))).andThen
      (fits_defaulted "order" 0 (reads_natBelow sound.2))).andThen
      (fits_optional "scope" fun name _ => ⟨reads_string name, nofun⟩)

theorem NodeType.reads {type : NodeType} {bound : Nat}
    (sound : ∀ port ∈ type.ports, port.Sound bound) :
    NodeType.decoder.Reads type.toJson type :=
  reads_record (by decide) <|
    (((((fits_required "id" (reads_string type.id)).map mk).andThen
      (fits_required "variant" type.variant.reads)).andThen
      (fits_required "ports" (reads_list fun port member =>
        Port.reads (sound port member)))).andThen
      (fits_defaulted "executeWhen" .conjunction type.trigger.reads)).andThen
      (fits_optional "description" fun text _ => ⟨reads_string text, nofun⟩)

theorem PortBinding.reads {binding : PortBinding} {bound : Nat} (sound : binding.Sound bound) :
    PortBinding.decoder.Reads binding.toJson binding := by
  cases binding with
  | literal value => exact reads_carried rfl ((reads_json sound.1).map literal)
  | expression code => exact reads_carried rfl ((reads_string code).map expression)

theorem Instance.reads {inst : Instance} {bound : Nat}
    (sound : ∀ entry ∈ inst.bindings.entries, entry.2.Sound bound) :
    Instance.decoder.Reads inst.toJson inst := by
  have bindings : (Fields.defaulted "bindings" PortBinding.decoder.table .empty).Fits
      (if inst.bindings.isEmpty then []
        else [("bindings", .object (inst.bindings.entries.map fun entry =>
          (entry.1, entry.2.toJson)))])
      inst.bindings := by
    split
    · rename_i isEmpty
      rw [Table.eq_empty_of_isEmpty isEmpty]
      exact Fields.fits_missing _ _ _
    · exact fits_defaulted "bindings" .empty (reads_table fun entry member =>
        PortBinding.reads (sound entry member))
  exact reads_record (by decide) <|
    (((fits_required "id" (reads_string inst.id)).map mk).andThen
      (fits_required "nodeType" (reads_string inst.nodeType))).andThen
      (fits_optional "parentScope" fun scope _ => ⟨scope.reads, nofun⟩) |>.andThen bindings

theorem Workflow.reads {workflow : Workflow} {bound : Nat} (sound : workflow.Sound bound) :
    Workflow.decoder.Reads workflow.toJson workflow := by
  have parameters := reads_list fun port member => Port.reads (sound.parameters port member)
  have returns := reads_list fun port member => Port.reads (sound.returns port member)
  have nodeTypes := reads_list fun type member => NodeType.reads (sound.nodeTypes type member)
  have instances := reads_list fun inst member => Instance.reads (sound.instances inst member)
  exact reads_record (by decide) <|
    ((((((((fits_required "name" (reads_string workflow.name)).map mk).andThen
      (fits_defaulted "strictTypes" false (reads_bool workflow.strictTypes))).andThen
      (fits_defaulted "parameters" [] parameters)).andThen (fits_defaulted "returns" []
      returns)).andThen
      (fits_defaulted "nodeTypes" [] nodeTypes)).andThen (fits_defaulted "instances" []
      instances)).andThen
      (fits_defaulted "connections" [] (reads_list fun connection _ => connection.reads))).andThen
      (fits_listMember "scopes" fun scope _ => scope.reads)

/-! ### Sound parts with exact values are printed in a form that can be read -/

theorem DataType.printable (type : DataType) (bound : Nat) : type.toJson.Printable (bound + 2) := by
  cases type <;> simp [toJson]

theorem PortKind.printable {kind : PortKind} {bound : Nat} (sound : kind.Sound bound)
    (exact : ∀ value ∈ kind.freeValues, value.isExact = true) (room : 2 ≤ bound) :
    kind.toJson.Printable (bound + 1) := by
  obtain ⟨more, rfl⟩ := Nat.exists_eq_add_of_le' room
  cases kind with
  | step => simp [toJson]
  | data type default expression =>
      have values (value) (given : default = some value) : Printable (more + 2) value :=
        ⟨exact value (by simp [freeValues, given]), (sound value given).2.2⟩
      simpa [toJson, type.printable more] using values

theorem Port.printable {port : Port} {bound : Nat} (sound : port.Sound bound)
    (exact : ∀ value ∈ port.kind.freeValues, value.isExact = true) (room : 2 ≤ bound) :
    port.toJson.Printable (bound + 2) := by
  have small : port.order < Nat.pow 2 64 := Nat.lt_trans sound.2 (by decide)
  simp [toJson, Direction.toJson, PortKind.printable sound.1 exact room, Printable.ofNat small]

theorem Trigger.printable (trigger : Trigger) (bound : Nat) :
    trigger.toJson.Printable (bound + 1) := by
  cases trigger <;> simp [toJson]

theorem NodeType.printable {type : NodeType} {bound : Nat}
    (sound : ∀ port ∈ type.ports, port.Sound bound)
    (exact : ∀ port ∈ type.ports, ∀ value ∈ port.kind.freeValues, value.isExact = true)
    (room : 2 ≤ bound) :
    type.toJson.Printable (bound + 4) := by
  have ports (port) (member : port ∈ type.ports) :=
    Port.printable (sound port member) (exact port member) room
  simpa [toJson, type.trigger.printable] using ports

theorem ScopeRef.printable (scope : ScopeRef) (bound : Nat) :
    scope.toJson.Printable (bound + 1) := by
  simp [toJson]

theorem PortBinding.printable {binding : PortBinding} {bound : Nat} (sound : binding.Sound bound)
    (exact : ∀ value ∈ binding.freeValues, value.isExact = true) :
    binding.toJson.Printable (bound + 1) := by
  cases binding with
  | literal value => simpa [toJson] using Printable.mk (exact value (by simp [freeValues])) sound.2
  | expression code => simp [toJson]

theorem Instance.printable {inst : Instance} {bound : Nat}
    (sound : ∀ entry ∈ inst.bindings.entries, entry.2.Sound bound)
    (exact : ∀ entry ∈ inst.bindings.entries, ∀ value ∈ entry.2.freeValues, value.isExact = true) :
    inst.toJson.Printable (bound + 3) := by
  have bindings : Json.ForMembers (Printable (bound + 2)) (if inst.bindings.isEmpty then []
      else [("bindings", .object (inst.bindings.entries.map fun entry =>
        (entry.1, entry.2.toJson)))]) := by
    split
    · exact Json.forMembers_nil
    · refine Json.forMembers_cons.mpr ⟨Printable.object_iff.mpr ?_, Json.forMembers_nil⟩
      exact Json.forMembers_map.mpr fun entry member => PortBinding.printable (sound entry member)
        (exact entry member)
  simp [toJson, bindings, ScopeRef.printable]

theorem Connection.printable (connection : Connection) (bound : Nat) :
    connection.toJson.Printable (bound + 2) := by
  simp [toJson, PortRef.toJson]

theorem Scope.printable (scope : Scope) (bound : Nat) : scope.toJson.Printable (bound + 2) := by
  simp [toJson, Json.ofStrings]

theorem Workflow.printable {workflow : Workflow} {bound : Nat} (sound : workflow.Sound (bound + 7))
    (exact : ∀ value ∈ workflow.freeValues, value.isExact = true) :
    workflow.toJson.Printable (bound + 8) := by
  have ofPort {port : Port}
      (member : port ∈ workflow.parameters ++ workflow.returns ++
        workflow.nodeTypes.flatMap (·.ports)) :
      ∀ value ∈ port.kind.freeValues, value.isExact = true := fun value free =>
    exact value (List.mem_append_left _ (List.mem_flatMap.mpr ⟨port, member, free⟩))
  have parameters (port) (member : port ∈ workflow.parameters) :
      port.toJson.Printable (bound + 6) :=
    Port.printable (sound.parameters port member) (ofPort (by simp [member])) (by omega)
  have returns (port) (member : port ∈ workflow.returns) : port.toJson.Printable (bound + 6) :=
    Port.printable (sound.returns port member) (ofPort (by simp [member])) (by omega)
  have nodeTypes (type) (member : type ∈ workflow.nodeTypes) : type.toJson.Printable (bound + 6) :=
    NodeType.printable (sound.nodeTypes type member)
      (fun port inside =>
        ofPort (List.mem_append_right _ (List.mem_flatMap.mpr ⟨type, member, inside⟩))) (by omega)
  have instances (inst) (member : inst ∈ workflow.instances) : inst.toJson.Printable
      (bound + 6) := by
    refine Instance.printable (sound.instances inst member) fun entry inside value free =>
      exact value ?_
    exact List.mem_append_right _
      (List.mem_flatMap.mpr ⟨inst, member, List.mem_flatMap.mpr ⟨entry, inside, free⟩⟩)
  simpa [toJson, Connection.printable, Scope.printable] using ⟨parameters, returns,
    nodeTypes, instances⟩

/-! ### Round trip -/

/-- A sound workflow with exact values is read back from its text. -/
theorem Workflow.ofText_toText {workflow : Workflow}
    (sound : workflow.Sound (Json.nestingLimit - 2))
    (exact : ∀ value ∈ workflow.freeValues, value.isExact = true) :
    Workflow.ofText workflow.toText = .ok workflow := by
  -- The members of the text's object are at most `nestingLimit - 2 = 119 + 7` deep.
  have printable : workflow.toJson.Printable (119 + 8) := Workflow.printable sound exact
  have shallow : workflow.toJson.height < Json.nestingLimit :=
    Nat.lt_of_le_of_lt printable.shallow (by decide)
  rw [Workflow.ofText, Workflow.toText, decodeText_pretty _ printable.exact shallow]
  exact Workflow.reads sound .streamed

/-- **Reading a workflow's own text gives the workflow.** It is enough that the workflow was read
from some text, in whatever form this was written, and that the numbers in its free values are
integers of the kept range. -/
theorem workflow_reread_eq (text : String) (workflow : Workflow)
    (accepted : Workflow.ofText text = .ok workflow)
    (exact : ∀ value ∈ workflow.freeValues, value.isExact = true) :
    Workflow.ofText workflow.toText = .ok workflow := by
  have sound : workflow.Sound (Json.nestingLimit - 2) := Workflow.ensures.decodeText accepted
  exact Workflow.ofText_toText sound exact

/-- A workflow in a form that is read but never printed: a member without meaning, records as
arrays, a type without content as an object, a name that occurs twice in a default, and null for a
scope that is not there. -/
def oddForm : Json :=
  .object [("comment", .null), ("name", .string "a \"name\"\n"),
    ("nodeTypes", .array
      [.array [.string "t", .string "function", .array [.array [.string "in", .string "input",
      .array [.string "data", .object [("any", .null)],
        .object [("b", .ofNat 1), ("a", .null), ("b", .ofNat 2)]]]]]]),
    ("instances", .array [.object [("id", .string "x"), ("nodeType", .string "t"),
      ("parentScope", .null), ("bindings", .object [("in", .object [("literal", .null)])])]])]

/-- The workflow that `oddForm` stands for. -/
def oddlyWritten : Workflow where
  name := "a \"name\"\n"
  nodeTypes := [{
    id := "t"
    variant := .function
    ports := [⟨"in", .input, .data .any (some (.object [("a", .null), ("b", .ofNat 2)])) none,
      false, 0, none⟩] }]
  instances := [{ id := "x", nodeType := "t", bindings := .ofList [("in", .literal .null)] }]

theorem workflow_reread_eq_oddForm :
    Workflow.ofText oddForm.compact = .ok oddlyWritten ∧
      oddlyWritten.freeValues = [.object [("a", .null), ("b", .ofNat 2)], .null] ∧
      Workflow.ofText oddlyWritten.toText = .ok oddlyWritten := by
  have read : (Workflow.ofText oddForm.compact).toOption = some oddlyWritten := by
    rw [Workflow.ofText, Decoder.decodeText, Json.readText, Json.compact, String.toList_ofList]
    decide +kernel
  have accepted : Workflow.ofText oddForm.compact = .ok oddlyWritten := by
    cases outcome : Workflow.ofText oddForm.compact with
    | error fault => rw [outcome] at read; cases read
    | ok workflow =>
        rw [outcome] at read
        rw [Option.some.inj read]
  exact ⟨accepted, by decide, workflow_reread_eq oddForm.compact oddlyWritten accepted (by decide)⟩

end WorkflowGraph
