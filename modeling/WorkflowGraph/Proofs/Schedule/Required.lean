/-
Inputs of a plan that have no source.

The rule of required inputs and the scheduler look for the value of an input on their own: the one
among the ports that a node type declares, the other for the inputs that a plan binds. The main
statement is `unbound_iff_optional`: the bindings of a plan stand for the data inputs of the node
type one by one, and in a workflow without errors one of them has no source exactly if the input is
optional and nothing supplies it.

* `Binding.fallback_eq_unbound_iff`, `inputSource_eq_unbound_iff` — the scheduler leaves an input
  without a source exactly if nothing supplies it.
* `Workflow.Unsupplied.optional` — validation leaves no required input without a supply.
-/

import WorkflowGraph.Proofs.Schedule.Origin

namespace WorkflowGraph

variable {workflow : Workflow} {scheduler : Scheduler}

/-- Whether nothing gives an input of an instance a value: the input has neither a default nor an
expression, the instance gives it none, and no connection leads to an input of its name. -/
def Workflow.Unsupplied (workflow : Workflow) (inst : Instance) (port : Port) : Prop :=
  port.default? = none ∧ port.expression? = none ∧ inst.bindings.get? port.name = none ∧
    ∀ connection ∈ workflow.connections, connection.target.node = inst.id →
      connection.target.port ≠ port.name

/-- Whether a binding stands for an input of an instance: it has the name of the input, and lacks a
source exactly if the input is optional and nothing supplies it. -/
def Workflow.StandsFor (workflow : Workflow) (inst : Instance) (port : Port)
    (input : InputBinding) : Prop :=
  input.port = port.name ∧ (input.source = .unbound ↔ port.optional = true ∧
    workflow.Unsupplied inst port)

/-! ### Sources -/

namespace Binding

theorem fallback_eq_unbound_iff {given : Option PortBinding} {port : Port} :
    fallback given port = .unbound ↔ given = none ∧ port.default? = none ∧
      port.expression? = none := by
  unfold fallback
  split <;> simp_all

theorem connectionsInto_eq_nil_iff {id name : String} :
    (Index.ofWorkflow workflow).connectionsInto id name = [] ↔
      ∀ connection ∈ workflow.connections, connection.target.node = id →
      connection.target.port ≠ name := by
  rw [← List.head?_eq_none_iff, ← Option.map_eq_none_iff, head?_connectionsInto, Workflow.firstInto,
    List.find?_eq_none]
  simp

/-- **The scheduler leaves an input without a source exactly if nothing supplies it.** -/
theorem inputSource_eq_unbound_iff {id : String} {inst : Instance}
    (found : workflow.findInstance id = some inst) {port : Port} (merges : List Merge) :
    inputSource (.ofWorkflow workflow) merges id port = .unbound ↔
      workflow.Unsupplied inst port := by
  have given : ((Index.ofWorkflow workflow).find? id).bind (fun inst =>
      inst.bindings.get? port.name) = inst.bindings.get? port.name := by
    rw [Index.find?_ofWorkflow, found, Option.bind_some]
  obtain rfl : inst.id = id := by simpa using List.find?_some found
  unfold inputSource Workflow.Unsupplied
  rw [← connectionsInto_eq_nil_iff]
  split
  · rename_i connection rest into
    have connected := connectionSource_isConnected (.ofWorkflow workflow) merges connection
    simp only [into, reduceCtorEq, and_false, iff_false]
    intro unbound
    rw [unbound] at connected
    cases connected
  · rename_i none
    rw [given, fallback_eq_unbound_iff]
    simp only [none, and_true]
    tauto

end Binding

/-! ### Validation -/

/-- **Validation leaves no required input without a supply.** -/
theorem Workflow.Unsupplied.optional (valid : (validate workflow).hasErrors = false)
    {inst : Instance} (member : inst ∈ workflow.instances) {type : NodeType}
    (typed : (Index.ofWorkflow workflow).nodeType? inst.id = some type) {port : Port}
    (declared : port ∈ type.ports) (input : port.direction = .input) (data : port.isData = true)
    (unsupplied : workflow.Unsupplied inst port) :
    port.optional = true := by
  obtain ⟨noDefault, noExpression, notGiven, notConnected⟩ := unsupplied
  have none := NoErrors.flatMap.mp (noErrors_of_validate valid .requiredInputs) inst member
  rw [RequiredInputs.checkInstance, typed] at none
  by_contra required
  rw [Bool.not_eq_true] at required
  have missing : RequiredInputs.isMissing (.ofWorkflow workflow) inst port = true := by
    simp [RequiredInputs.isMissing, Port.isInput, Port.hasFallback, input, data, required,
      noDefault, noExpression,
      Table.contains, notGiven, Binding.connectionsInto_eq_nil_iff.mpr notConnected]
  have found := none _ (List.mem_map.mpr ⟨port, List.mem_filter.mpr ⟨declared, missing⟩, rfl⟩)
  cases found

/-! ### Plans -/

namespace Scheduler.Arranged

variable {placements : List Placement}

/-- What a plan runs is an instance with a node type. -/
theorem typed_of_ran (arranged : Arranged scheduler (.ofWorkflow workflow)
      (.ofRegion (.ofWorkflow workflow) none [] []) placements) {node : PlanNode}
    (member : node ∈ (Binding.plan (.ofWorkflow workflow) placements).body.walk) {step : Step}
    (ran : node.ran? = some step) :
    ∃ type, (Index.ofWorkflow workflow).nodeType? step.node = some type := by
  have fits : node.Fits (.ofWorkflow workflow) := by
    refine PlanNode.fits_of_placing fun placing found => arranged.fits .top placing ?_
    rw [← Binding.placings_plan (.ofWorkflow workflow)]
    exact List.mem_filterMap.mpr ⟨node, member, found⟩
  cases node with
  | sequence | parallel | branch => cases ran
  | step =>
      cases ran
      exact ⟨_, fits.choose_spec.1⟩
  | iteration =>
      cases ran
      exact ⟨_, fits.choose_spec.1⟩
  | inlined =>
      cases ran
      exact ⟨_, (Index.isExpression_iff.mp fits).choose_spec.1⟩

end Scheduler.Arranged

/-- The bindings of data inputs of an instance stand for these inputs. -/
theorem Binding.standsFor_inputs (valid : (validate workflow).hasErrors = false) {id : String}
    {inst : Instance} (found : workflow.findInstance id = some inst) {type : NodeType}
    (typed : (Index.ofWorkflow workflow).nodeType? id = some type) (merges : List Merge)
    {ports : List Port} (each : ∀ port ∈ ports, port ∈ type.ports ∧ port.direction = .input ∧
      port.isData = true) :
    List.Forall₂ (workflow.StandsFor inst) ports
      (inputs (.ofWorkflow workflow) merges id ports) := by
  obtain rfl : inst.id = id := by simpa using List.find?_some found
  rw [inputs, List.forall₂_map_right_iff, List.forall₂_same]
  intro port member
  obtain ⟨declared, input, data⟩ := each port member
  refine ⟨rfl, (inputSource_eq_unbound_iff found merges).trans ⟨fun none => ?_, And.right⟩⟩
  exact ⟨none.optional valid (List.mem_of_find?_eq_some found) typed declared input data, none⟩

/-- **A binding of a plan lacks a source exactly if it stands for an optional input that nothing
supplies.** The bindings of a run stand for the data inputs of the node type of its instance, and
those of the results of a scope for the data inputs that the node type has in this scope, one by
one. -/
theorem unbound_iff_optional {plan : Plan} (valid : (validate workflow).hasErrors = false)
    (scheduled : (scheduler.schedule workflow).outcome = .ok plan) :
    ∀ run ∈ plan.framedRuns, ∃ inst type, workflow.findInstance run.1.node = some inst ∧
      workflow.findNodeType inst.nodeType = some type ∧
      List.Forall₂ (workflow.StandsFor inst) type.dataInputs run.1.inputs ∧
      ∀ frame ∈ run.2, List.Forall₂ (workflow.StandsFor inst)
        ((type.scopedPorts frame.name .input).filter Port.isData) frame.results := by
  obtain ⟨placements, arranged, rfl⟩ := Scheduler.exists_arranged scheduled
  intro run inPlan
  obtain ⟨node, member, found⟩ := List.mem_filterMap.mp inPlan
  obtain ⟨step, ran, rfl⟩ := Option.map_eq_some_iff.mp found
  obtain ⟨type, typed⟩ := arranged.typed_of_ran member ran
  have resolved := typed
  rw [Index.nodeType?_ofWorkflow] at resolved
  obtain ⟨inst, declared, known⟩ := Option.bind_eq_some_iff.mp resolved
  refine ⟨inst, type, declared, known, ?_, fun frame among => ?_⟩
  · obtain ⟨stage, _, rfl⟩ := Binding.exists_stage_of_ran member ran
    have inputs : (stage.step (.ofWorkflow workflow)).inputs =
        Binding.inputs (.ofWorkflow workflow) stage.merges stage.node type.dataInputs := by
      rw [Stage.step_node] at typed
      rw [Stage.step, Binding.step, typed]
      rfl
    rw [inputs]
    refine Binding.standsFor_inputs valid declared typed _ fun port isInput => ?_
    obtain ⟨inType, direction, data, _⟩ := NodeType.mem_dataInputs.mp isInput
    exact ⟨inType, direction, data⟩
  · obtain ⟨merges, _, same⟩ := Binding.framed_plan node member step ran frame among
    have results : frame.results = Binding.inputs (.ofWorkflow workflow) merges step.node
        ((type.scopedPorts frame.name .input).filter Port.isData) := by
      rw [same, Binding.frame, typed]
      rfl
    rw [results]
    refine Binding.standsFor_inputs valid declared typed _ fun port isResult => ?_
    obtain ⟨inScope, data⟩ := List.mem_filter.mp isResult
    obtain ⟨inType, direction⟩ := NodeType.mem_portsIn.mp (List.mem_filter.mp inScope).1
    exact ⟨inType, direction, data⟩

/-- A loop with required inputs that are supplied in every way, null among the values, and with an
optional input and an optional result that are not. In the loop an expression has an optional input,
too. -/
def supplied : Workflow where
  name := "supplied"
  nodeTypes :=
    [(((((((NodeType.function "Loop").withInput "given" .string).withPort
        ((Port.dataInput "preset" .string).withDefault .null)).withPort
        ((Port.dataInput "computed" .string).withExpression "now()")).withOptionalInput "left"
          .string).withPort
        { Port.dataOutput "item" .string with scope := some "body" }).withPort
        { Port.dataInput "sum" .string with scope := some "body" }).withPort
        { Port.dataInput "log" .string with optional := true, scope := some "body" },
      ((NodeType.expression "Join").withInput "first" .string |>.withOptionalInput "second"
        .string).withOutput "out" .string]
  instances :=
    [{ id := "m", nodeType := "Loop", bindings := Table.empty.insert "given" (.literal .null) },
      { id := "e", nodeType := "Join", parentScope := some ⟨"m", "body"⟩ }]
  connections :=
    [⟨⟨"m", "item", some "body"⟩, ⟨"e", "first", none⟩⟩,
      ⟨⟨"e", "out", none⟩, ⟨"m", "sum", some "body"⟩⟩]
  scopes := [⟨"m", "body", ["e"]⟩]

theorem unbound_iff_optional_supplied :
    ∃ plan, (validate supplied).hasErrors = false ∧
      (({} : Scheduler).schedule supplied).outcome = .ok plan ∧ plan.framedRuns =
        [(⟨"m", "Loop", [⟨"given", .literal .null⟩, ⟨"preset", .literal .null⟩,
            ⟨"computed", .expression "now()"⟩,
            ⟨"left", .unbound⟩], []⟩, [⟨"body", ["item"],
            [⟨"sum", .output "e" "out"⟩, ⟨"log", .unbound⟩]⟩]),
          (⟨"e", "Join", [⟨"first", .scopeItem "m" "body" "item"⟩, ⟨"second", .unbound⟩], []⟩,
            [])] ∧
      ∀ run ∈ plan.framedRuns, ∃ inst type, supplied.findInstance run.1.node = some inst ∧
        supplied.findNodeType inst.nodeType = some type ∧
        List.Forall₂ (supplied.StandsFor inst) type.dataInputs run.1.inputs ∧
        ∀ frame ∈ run.2, List.Forall₂ (supplied.StandsFor inst)
          ((type.scopedPorts frame.name .input).filter Port.isData) frame.results := by
  have valid : (validate supplied).hasErrors = false := by decide +kernel
  obtain ⟨plan, scheduled, runs⟩ := exists_of_toOption_map
    (show (({} : Scheduler).schedule supplied).outcome.toOption.map Plan.framedRuns =
      some [(⟨"m", "Loop", [⟨"given", .literal .null⟩, ⟨"preset", .literal .null⟩,
        ⟨"computed", .expression "now()"⟩,
          ⟨"left", .unbound⟩], []⟩, [⟨"body", ["item"],
          [⟨"sum", .output "e" "out"⟩, ⟨"log", .unbound⟩]⟩]),
        (⟨"e", "Join", [⟨"first", .scopeItem "m" "body" "item"⟩, ⟨"second", .unbound⟩], []⟩,
          [])] by decide +kernel)
  exact ⟨plan, valid, scheduled, runs, unbound_iff_optional valid scheduled⟩

end WorkflowGraph
