/-
What a plan binds the inputs of instances to.

* `Plan.Binds` — a plan binds an input to a source, as an input of a run or as what a scope
  collects.
* `Binding.framed_plan` — what scopes collect is bound for their owner, as the inputs of a run are.
* `Binding.exists_of_binds` — an input of a plan is bound by its name, where some merge bindings
  have been declared. It is given the value of the first connection by name
  (`inputSource_of_firstInto`), or else a value of its own.
-/

import WorkflowGraph.Proofs.Schedule.Declared

namespace WorkflowGraph

/-! ### What scopes collect -/

namespace PlanNode

/-- What surrounds the insides of the scopes that a node runs. -/
def frames : PlanNode → List ScopeFrame
  | iteration _ bodies => bodies.map (·.1)
  | _ => []

theorem isScheduled_of_frames {node : PlanNode} {frame : ScopeFrame}
    (member : frame ∈ node.frames) :
    node.isScheduled = true := by
  cases node with
  | iteration => rfl
  | _ => cases member

/-- Whether the frames of a node are those of its instance, where some of `merges` have been
declared. -/
def Framed (index : Index) (merges : List Merge) (node : PlanNode) : Prop :=
  ∀ step, node.ran? = some step → ∀ frame ∈ node.frames, ∃ known, known <+: merges ∧
    frame = Binding.frame index known step.node frame.name

variable {index : Index} {merges : List Merge}

theorem Framed.mono {node : PlanNode} (framed : node.Framed index merges) {more : List Merge}
    (grows : merges <+: more) : node.Framed index more := by
  intro step ran frame member
  obtain ⟨known, declared, same⟩ := framed step ran frame member
  exact ⟨known, declared.trans grows, same⟩

theorem framed_of_frames_eq_nil {node : PlanNode} (none : node.frames = []) :
    node.Framed index merges := by
  intro step ran frame member
  rw [none] at member
  cases member

theorem framed_ofBlock {nodes : List PlanNode}
    (framed : ∀ node ∈ walkAll nodes, node.Framed index merges) :
    ∀ node ∈ (ofBlock nodes).walk, node.Framed index merges := by
  unfold ofBlock
  split
  · rwa [walkAll, walkAll, List.append_nil] at framed
  · exact List.forall_mem_cons.mpr ⟨framed_of_frames_eq_nil rfl, framed⟩

theorem framed_runNode (step : Step) {bodies : List (ScopeFrame × PlanNode)}
    (frames : ∀ entry ∈ bodies, ∃ known, known <+: merges ∧
      entry.1 = Binding.frame index known step.node entry.1.name)
    (inside : ∀ node ∈ walkBodies bodies, node.Framed index merges) :
    ∀ node ∈ (Binding.runNode step bodies).walk, node.Framed index merges := by
  cases bodies with
  | nil => exact List.forall_mem_cons.mpr ⟨framed_of_frames_eq_nil rfl, List.forall_mem_nil _⟩
  | cons first rest =>
      refine List.forall_mem_cons.mpr ⟨fun ran same frame member => ?_, inside⟩
      cases same
      obtain ⟨entry, among, rfl⟩ := List.mem_map.mp member
      exact frames entry among

end PlanNode

namespace Binding

open PlanNode

variable {index : Index}

theorem frame_of_mem_placeBodies (merges : List Merge) (owner : String)
    (bodies : List (String × List Placement)) :
    ∀ entry ∈ (placeBodies index merges owner bodies).1, ∃ known,
      known <+: (placeBodies index merges owner bodies).2 ∧
      entry.1 = frame index known owner entry.1.name := by
  induction bodies generalizing merges with
  | nil => exact List.forall_mem_nil _
  | cons first rest ih =>
      obtain ⟨name, body⟩ := first
      exact List.forall_mem_cons.mpr ⟨⟨_, grows_placeBodies index _ owner rest, rfl⟩, ih _⟩

mutual

theorem framed_place (merges : List Merge) (placement : Placement) :
    ∀ node ∈ walkAll (place index merges placement).1,
      node.Framed index (place index merges placement).2 := by
  cases placement with
  | inlined id =>
      exact List.forall_mem_cons.mpr ⟨framed_of_frames_eq_nil rfl, List.forall_mem_nil _⟩
  | node id bodies =>
      show ∀ node ∈ (runNode _ _).walk ++ [], _
      rw [List.append_nil]
      exact framed_runNode _ (frame_of_mem_placeBodies merges id bodies)
        (framed_placeBodies merges id bodies)
  | branch cluster bodies thenArm elseArm =>
      let known := merges ++ Merge.declare index merges cluster
      let inThen := (placeBodies index known cluster.head bodies).2
      let inElse := (placeAll index inThen thenArm).2
      have toElse : inElse <+: (placeAll index inElse elseArm).2 :=
        grows_placeAll index inElse elseArm
      have toThen := (grows_placeAll index inThen thenArm).trans toElse
      have head := framed_runNode (step index known cluster.head)
        (frame_of_mem_placeBodies known cluster.head bodies)
        (framed_placeBodies known cluster.head bodies)
      have success := framed_ofBlock (framed_placeAll inThen thenArm)
      have failure := framed_ofBlock (framed_placeAll inElse elseArm)
      refine List.forall_mem_append.mpr ⟨fun node member => (head node member).mono toThen, ?_⟩
      refine List.forall_mem_append.mpr ⟨List.forall_mem_cons.mpr ⟨framed_of_frames_eq_nil rfl, ?_⟩,
        List.forall_mem_nil _⟩
      exact List.forall_mem_append.mpr ⟨fun node member => (success node member).mono toElse,
        failure⟩
  | parallel clusters =>
      refine List.forall_mem_append.mpr ⟨List.forall_mem_cons.mpr ⟨framed_of_frames_eq_nil rfl, ?_⟩,
        List.forall_mem_nil _⟩
      exact framed_placeEach merges clusters

theorem framed_placeAll (merges : List Merge) (placements : List Placement) :
    ∀ node ∈ walkAll (placeAll index merges placements).1,
      node.Framed index (placeAll index merges placements).2 := by
  cases placements with
  | nil => exact List.forall_mem_nil _
  | cons placement rest =>
      have grows := grows_placeAll index (place index merges placement).2 rest
      show ∀ node ∈ walkAll (_ ++ _), _
      rw [walkAll_append]
      exact List.forall_mem_append.mpr
        ⟨fun node member => (framed_place merges placement node member).mono grows,
          framed_placeAll _ rest⟩

theorem framed_placeEach (merges : List Merge) (placements : List Placement) :
    ∀ node ∈ walkAll (placeEach index merges placements).1,
      node.Framed index (placeEach index merges placements).2 := by
  cases placements with
  | nil => exact List.forall_mem_nil _
  | cons placement rest =>
      have grows : (place index merges placement).2 <+:
          (placeEach index (place index merges placement).2 rest).2 := by
        rw [placeEach_following]
        exact grows_placeAll index _ rest
      refine List.forall_mem_append.mpr ⟨fun node member => ?_, framed_placeEach _ rest⟩
      exact (framed_ofBlock (framed_place merges placement) node member).mono grows

theorem framed_placeBodies (merges : List Merge) (owner : String)
    (bodies : List (String × List Placement)) :
    ∀ node ∈ walkBodies (placeBodies index merges owner bodies).1,
      node.Framed index (placeBodies index merges owner bodies).2 := by
  cases bodies with
  | nil => exact List.forall_mem_nil _
  | cons entry rest =>
      obtain ⟨name, body⟩ := entry
      have grows := grows_placeBodies index (placeAll index merges body).2 owner rest
      refine List.forall_mem_append.mpr ⟨fun node member => ?_, framed_placeBodies _ owner rest⟩
      exact (framed_ofBlock (framed_placeAll merges body) node member).mono grows

end

/-- **What the scopes of a plan collect is bound for their owner.** -/
theorem framed_plan {placements : List Placement} :
    ∀ node ∈ (plan index placements).body.walk,
      node.Framed index (placeAll index [] placements).2 :=
  framed_ofBlock (framed_placeAll [] placements)

/-- A run of a plan is a stage. -/
theorem exists_stage_of_ran {placements : List Placement} {node : PlanNode}
    (member : node ∈ (plan index placements).body.walk) {step : Step}
    (ran : node.ran? = some step) :
    ∃ stage ∈ stagesOfAll index [] [] placements, stage.step index = step := by
  rw [← node_spots []] at member
  obtain ⟨spot, among, rfl⟩ := List.mem_map.mp member
  have place : (spot.path, step) ∈ (plan index placements).body.places [] := by
    rw [places_eq_spots]
    exact List.mem_filterMap.mpr ⟨spot, among, by rw [Spot.place?, ran, Option.map_some]⟩
  rw [places_plan] at place
  obtain ⟨stage, bound, same⟩ := List.mem_map.mp place
  exact ⟨stage, bound, (Prod.mk.inj same).2⟩

/-- A stage is a run of the plan. -/
theorem exists_ran_of_stage {placements : List Placement} {stage : Stage}
    (bound : stage ∈ stagesOfAll index [] [] placements) :
    ∃ node ∈ (plan index placements).body.walk, node.ran? = some (stage.step index) := by
  obtain ⟨before, spot, after, split, _, ran⟩ := exists_split_of_stage bound
  refine ⟨spot.node, ?_, ran⟩
  rw [← node_spots [], split]
  exact List.mem_map.mpr ⟨spot, by simp, rfl⟩

end Binding

/-! ### Inputs of a plan -/

variable {workflow : Workflow}

/-- The runs of a plan, each with what surrounds the insides of its scopes. -/
def Plan.framedRuns (plan : Plan) : List (Step × List ScopeFrame) :=
  plan.body.walk.filterMap fun node => node.ran?.map fun step => (step, node.frames)

/-- Whether a plan binds an input of an instance to a source, as an input of a run or as what a
scope collects. -/
def Plan.Binds (workflow : Workflow) (plan : Plan) (id : String) (port : Port)
    (source : ValueSource) : Prop :=
  ∃ run ∈ plan.framedRuns, run.1.node = id ∧
    ∃ type, (Index.ofWorkflow workflow).nodeType? id = some type ∧
    ∃ input : InputBinding, input.source = source ∧
      ((port, input) ∈ type.dataInputs.zip run.1.inputs ∨ ∃ frame ∈ run.2,
        (port, input) ∈ ((type.scopedPorts frame.name .input).filter Port.isData).zip frame.results)

/-- The first connection into the inputs of one name of a node. -/
def Workflow.firstInto (workflow : Workflow) (id name : String) : Option Connection :=
  workflow.connections.find? fun connection => connection.target.node = id ∧
    connection.target.port = name

theorem Workflow.mem_of_firstInto {id name : String} {connection : Connection}
    (first : workflow.firstInto id name = some connection) : connection ∈ workflow.connections ∧
      connection.target.node = id ∧ connection.target.port = name := by
  have fits := List.find?_some first
  rw [decide_eq_true_eq] at fits
  exact ⟨List.mem_of_find?_eq_some first, fits⟩

namespace Binding

theorem head?_connectionsInto (id name : String) :
    ((Index.ofWorkflow workflow).connectionsInto id name).head?.map (·.2) =
      workflow.firstInto id name := by
  rw [Workflow.firstInto, ← List.zipIdx_map_fst 0 workflow.connections, List.find?_map,
    Index.connectionsInto,
    Index.incoming_eq, List.filter_map, List.filter_filter, List.head?_map, List.head?_filter,
    Option.map_map]
  show Option.map Prod.fst _ = _
  congr 2
  funext entry
  simp [Bool.and_comm]

/-- An input is given the value of the first connection by name. -/
theorem inputSource_of_firstInto {id : String} {port : Port} {connection : Connection}
    (first : workflow.firstInto id port.name = some connection) (merges : List Merge) :
    inputSource (.ofWorkflow workflow) merges id port =
      connectionSource (.ofWorkflow workflow) merges connection := by
  rw [← head?_connectionsInto] at first
  rw [inputSource]
  split
  · rename_i into
    rw [into] at first
    cases first
    rfl
  · rename_i none
    rw [none] at first
    cases first

theorem inputSource_of_firstInto_eq_none {id : String} {port : Port}
    (none : workflow.firstInto id port.name = none) (merges : List Merge) :
    ∃ given, inputSource (.ofWorkflow workflow) merges id port = fallback given port := by
  rw [← head?_connectionsInto] at none
  rw [inputSource]
  split
  · rename_i into
    rw [into] at none
    cases none
  · exact ⟨_, rfl⟩

theorem mem_zip_inputs {index : Index} {merges : List Merge} {id : String} {ports : List Port}
    {port : Port} {input : InputBinding} :
    (port, input) ∈ ports.zip (inputs index merges id ports) ↔
      port ∈ ports ∧ input = ⟨port.name, inputSource index merges id port⟩ := by
  rw [inputs, ← List.map_prod_left_eq_zip, List.mem_map]
  constructor
  · rintro ⟨_, member, same⟩
    cases same
    exact ⟨member, rfl⟩
  · rintro ⟨member, rfl⟩
    exact ⟨port, member, rfl⟩

theorem exists_first_of_merged {merges : List Merge} {id : String} {port : Port} {binding : String}
    (merged : inputSource (.ofWorkflow workflow) merges id port = .merged binding) :
    ∃ connection, workflow.firstInto id port.name = some connection ∧
      Merge.bindingFor merges connection = some binding := by
  cases first : workflow.firstInto id port.name with
  | none =>
      obtain ⟨given, source⟩ := inputSource_of_firstInto_eq_none first merges
      exact absurd (source.symm.trans merged) ((fallback_cases given port).2 binding)
  | some connection =>
      rw [inputSource_of_firstInto first] at merged
      exact ⟨connection, rfl, connectionSource_eq_merged.mp merged⟩

/-- **What a scope of a plan collects is bound by its name**, where some merge bindings have been
declared. -/
theorem exists_of_result {placements : List Placement} {node : PlanNode}
    (member : node ∈ (plan (.ofWorkflow workflow) placements).body.walk) {step : Step}
    (ran : node.ran? = some step) {frame : ScopeFrame} (among : frame ∈ node.frames)
    {result : InputBinding} (collected : result ∈ frame.results) :
    ∃ known, known <+: (placeAll (.ofWorkflow workflow) [] placements).2 ∧
      ∃ type, (Index.ofWorkflow workflow).nodeType? step.node = some type ∧ ∃ port ∈ type.ports,
        port.direction = .input ∧ port.scope = some frame.name ∧
        result = ⟨port.name, inputSource (.ofWorkflow workflow) known step.node port⟩ := by
  obtain ⟨known, grows, same⟩ := framed_plan node member step ran frame among
  rw [same] at collected
  cases typed : (Index.ofWorkflow workflow).nodeType? step.node with
  | none => simp [Binding.frame, Binding.inputs, typed] at collected
  | some type =>
      obtain ⟨port, isResult, rfl⟩ := List.mem_map.mp collected
      rw [typed] at isResult
      obtain ⟨inScope, _⟩ := List.mem_filter.mp isResult
      obtain ⟨isInput, scope⟩ := List.mem_filter.mp inScope
      obtain ⟨declared, direction⟩ := NodeType.mem_portsIn.mp isInput
      exact ⟨known, grows, type, rfl, port, declared, direction, by simpa using scope, rfl⟩

/-- **An input of a plan is bound by its name**, where some merge bindings have been declared. -/
theorem exists_of_binds {placements : List Placement} {id : String} {port : Port}
    {source : ValueSource}
    (binds : (plan (.ofWorkflow workflow) placements).Binds workflow id port source) :
    ∃ known, known <+: (placeAll (.ofWorkflow workflow) [] placements).2 ∧
      source = inputSource (.ofWorkflow workflow) known id port ∧
      ∃ type, (Index.ofWorkflow workflow).nodeType? id = some type ∧ port ∈ type.ports ∧
        port.direction = .input := by
  obtain ⟨run, inPlan, rfl, type, typed, input, rfl, bound⟩ := binds
  obtain ⟨node, member, found⟩ := List.mem_filterMap.mp inPlan
  obtain ⟨step, ran, rfl⟩ := Option.map_eq_some_iff.mp found
  rcases bound with inRun | ⟨frame, among, inFrame⟩
  · obtain ⟨stage, bound, rfl⟩ := exists_stage_of_ran member ran
    replace typed : (Index.ofWorkflow workflow).nodeType? stage.node = some type := typed
    rw [Stage.step, Binding.step, typed] at inRun
    obtain ⟨isInput, rfl⟩ := mem_zip_inputs.mp inRun
    obtain ⟨declared, direction, _⟩ := NodeType.mem_dataInputs.mp isInput
    exact ⟨_, (merges_of_mem_stagesOfAll bound).2, rfl, type, typed, declared, direction⟩
  · obtain ⟨known, grows, same⟩ := framed_plan node member step ran frame among
    have results : frame.results = Binding.inputs (.ofWorkflow workflow) known step.node
        ((type.scopedPorts frame.name .input).filter Port.isData) := by
      rw [same, Binding.frame, typed]
      rfl
    rw [results] at inFrame
    obtain ⟨isResult, rfl⟩ := mem_zip_inputs.mp inFrame
    obtain ⟨declared, direction⟩ :=
      NodeType.mem_portsIn.mp (List.mem_filter.mp (List.mem_filter.mp isResult).1).1
    exact ⟨known, grows, rfl, type, typed, declared, direction⟩

end Binding

end WorkflowGraph
