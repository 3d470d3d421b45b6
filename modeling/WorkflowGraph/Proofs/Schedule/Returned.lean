/-
What the arms of branches give to exit ports.

The main statement is `returns_hoisted_iff`: no exit port is given an output of an instance that
runs in an arm, exactly if all that comes from arms into an exit port for values are values of the
arms of one branch. So it is if exit ports have different names and one connection each.
`sharedReturn_reads_output` is a workflow without errors in which two branches give values to one
exit port. The first of them declares its merge binding, which the second one does not write.

* `Scheduler.Arranged.runsInArm_iff` — on the top level, the members of arms are what runs in arms.
* `Scheduler.Arranged.exists_declaration_of_hoisted` — what is read through the merge binding of an
  exit port leaves the arms of one branch.
* `Scheduler.Arranged.mem_arms_of_shared` — an instance that shares a branch with a producer of that
  merge binding is in an arm of the branch that declares it.
-/

import WorkflowGraph.Proofs.Schedule.Declared
import WorkflowGraph.Proofs.Schedule.Delivery

namespace WorkflowGraph

/-! ### Runs in arms -/

/-- Whether a plan has a scheduled run of an instance in an arm of a branch. -/
def Plan.RunsInArm (plan : Plan) (id : String) : Prop :=
  ∃ head condition hoisted thenArm elseArm,
    .branch head condition hoisted thenArm elseArm ∈ plan.body.walk ∧
    (id ∈ thenArm.scheduled ∨ id ∈ elseArm.scheduled)

/-- Whether no exit port is given an output of an instance that runs in an arm. -/
def Plan.ReturnsHoisted (plan : Plan) : Prop :=
  ∀ binding ∈ plan.returns, ∀ node port, .output node port ∈ binding.sources → ¬ plan.RunsInArm node

/-- Whether an instance is a member of an arm of a branch. -/
def Workflow.InArm (workflow : Workflow) (id : String) : Prop :=
  ∃ branch, workflow.HasCluster branch ∧ id ∈ branch.armMembers

/-- Whether all that comes from arms into an exit port are values of the arms of one branch. -/
def Workflow.FromOneBranch (workflow : Workflow) (port : Port) : Prop :=
  ∀ one ∈ workflow.connections, one.target.node = exitId → one.target.port = port.name →
    workflow.InArm one.source.node → (Index.ofWorkflow workflow).isData one = true ∧
      ∀ other ∈ workflow.connections, other.target.node = exitId → other.target.port = port.name →
        workflow.InArm other.source.node → ∃ branch, workflow.HasCluster branch ∧
          one.source.node ∈ branch.armMembers ∧ other.source.node ∈ branch.armMembers

theorem Plan.runsInArm_iff_spot {plan : Plan} {id : String} :
    plan.RunsInArm id ↔ ∃ branch ∈ plan.body.spots [], ∃ onSuccess, ∃ spot ∈ branch.arm onSuccess,
      spot.node.isScheduled = true ∧ ∃ step, spot.node.ran? = some step ∧ step.node = id := by
  constructor
  · rintro ⟨head, condition, hoisted, thenArm, elseArm, member, runs⟩
    rw [← PlanNode.node_spots []] at member
    obtain ⟨⟨path, _⟩, inPlan, rfl⟩ := List.mem_map.mp member
    rcases runs with inThen | inElse
    · obtain ⟨spot, inArm, found⟩ :=
        PlanNode.exists_spot_of_scheduled inThen (.arm head true :: path)
      exact ⟨_, inPlan, true, spot, inArm, found⟩
    · obtain ⟨spot, inArm, found⟩ :=
        PlanNode.exists_spot_of_scheduled inElse (.arm head false :: path)
      exact ⟨_, inPlan, false, spot, inArm, found⟩
  · rintro ⟨⟨path, node⟩, inPlan, onSuccess, spot, inArm, isScheduled, step, ran, rfl⟩
    have member : node ∈ plan.body.walk :=
      PlanNode.node_spots [] plan.body ▸ List.mem_map.mpr ⟨_, inPlan, rfl⟩
    cases node with
    | branch head condition hoisted thenArm elseArm =>
        refine ⟨head, condition, hoisted, thenArm, elseArm, member, ?_⟩
        cases onSuccess with
        | true => exact .inl (PlanNode.scheduled_of_spot inArm isScheduled ran)
        | false => exact .inr (PlanNode.scheduled_of_spot inArm isScheduled ran)
    | _ => cases inArm

variable {workflow : Workflow}

theorem Workflow.InArm.named {id : String} (inArm : workflow.InArm id) :
    id ∈ workflow.instances.map (·.id) := by
  obtain ⟨branch, comesUp, inArms⟩ := inArm
  exact (comesUp.member_scheduled (List.mem_cons_of_mem _ inArms)).1

/-! ### Merge bindings of exit ports -/

/-- A value for an exit port leaves the arms of every branch that its source is in. -/
theorem Certified.mem_leaving_of_exit (certified : Certified workflow) {connection : Connection}
    (member : connection ∈ workflow.connections) (exit : connection.target.node = exitId)
    (data : (Index.ofWorkflow workflow).isData connection = true) {branch : Cluster}
    (comesUp : workflow.HasCluster branch) (inArms : connection.source.node ∈ branch.armMembers) :
    connection ∈ Merge.leaving (.ofWorkflow workflow) branch := by
  have known := (comesUp.member_scheduled (List.mem_cons_of_mem _ inArms)).1
  obtain ⟨source, atSource, plain, _⟩ :=
    certified.source_of_exit member exit (certified.ne_start_of_named known)
  rw [Index.isData, atSource, Option.any_some] at data
  refine Merge.mem_leaving.mpr ⟨member, inArms, ⟨source, atSource, data, plain⟩, .direct ?_⟩
  simp [Merge.leavesDirectly, Merge.intoSink, exit]

/-- Plain outputs of one instance and one name are one output. -/
theorem source_eq_of_samePort {one other : Connection}
    (same : Merge.samePort one.source other.source = true) {source sourceToo : Port}
    (atOne : (Index.ofWorkflow workflow).sourcePort one = some source)
    (atOther : (Index.ofWorkflow workflow).sourcePort other = some sourceToo)
    (plain : source.scope = none) (plainToo : sourceToo.scope = none) :
    one.source = other.source := by
  have unscoped : ∀ {connection : Connection} {port : Port},
      (Index.ofWorkflow workflow).sourcePort connection = some port → port.scope = none →
      connection.source.scope = none := by
    intro connection port found plain
    rcases (Index.fits_of_resolve found).2.2 with none | same
    · exact none
    · exact same.symm.trans plain
  obtain ⟨node, port⟩ := Merge.samePort_iff.mp same
  have scope := (unscoped atOne plain).trans (unscoped atOther plainToo).symm
  obtain ⟨⟨_, _, _⟩, _⟩ := one
  obtain ⟨⟨_, _, _⟩, _⟩ := other
  cases node
  cases port
  cases scope
  rfl

namespace Scheduler.Arranged

open Binding

variable {scheduler : Scheduler} {placements : List Placement}

theorem runsInArm (arranged : Arranged scheduler (.ofWorkflow workflow)
      (.ofRegion (.ofWorkflow workflow) none [] []) placements) (certified : Certified workflow)
    {id : String} (inArm : workflow.InArm id) :
    (plan (.ofWorkflow workflow) placements).RunsInArm id := by
  obtain ⟨branch, comesUp, inArms⟩ := inArm
  obtain ⟨arms, onSuccess, branching, inSide⟩ := Cluster.exists_side inArms
  obtain ⟨head, _, _, stage, bound, rfl, suffix⟩ :=
    comesUp.exists_stages_of_arm certified arranged branching inSide
  obtain ⟨spot, member, path, found⟩ :=
    arranged.exists_spot_of_stage bound (comesUp.member_scheduled (List.mem_cons_of_mem _ inArms)).2
  obtain ⟨before, after, split⟩ := List.append_of_mem member
  rw [← path] at suffix
  rcases PlanNode.rooted_spots [] [] _ before spot after split branch.head onSuccess
      head.path suffix with
    here | ⟨around, among, _, _, inArm⟩
  · cases List.suffix_nil.mp here
  · exact Plan.runsInArm_iff_spot.mpr ⟨around, split ▸ List.mem_append_left _ among, onSuccess,
      spot, inArm, found⟩

/-- **On the top level, the members of arms are what runs in arms.** -/
theorem runsInArm_iff (arranged : Arranged scheduler (.ofWorkflow workflow)
      (.ofRegion (.ofWorkflow workflow) none [] []) placements) (certified : Certified workflow)
    {id : String} (top : (Index.ofWorkflow workflow).regionOf id = none) :
    (plan (.ofWorkflow workflow) placements).RunsInArm id ↔ workflow.InArm id := by
  refine ⟨fun runs => ?_, arranged.runsInArm certified⟩
  obtain ⟨branch, member, onSuccess, spot, inArm, isScheduled, step, ran, rfl⟩ :=
    Plan.runsInArm_iff_spot.mp runs
  obtain ⟨inPlan, head, _, suffix⟩ := PlanNode.arm_of_mem member inArm
  obtain ⟨cluster, comesUp, _, inArms⟩ :=
    (arranged.holds_of_spot inPlan isScheduled ran
      (suffix.subset List.mem_cons_self)).mem_armMembers top
  exact ⟨cluster, comesUp, inArms⟩

/-- Without a merge binding, an exit port for values is given an output of the instance that it is
connected with. -/
theorem bindingFor_ne_none (arranged : Arranged scheduler (.ofWorkflow workflow)
      (.ofRegion (.ofWorkflow workflow) none [] []) placements) (certified : Certified workflow)
    (hoisted : (plan (.ofWorkflow workflow) placements).ReturnsHoisted) {port : Port}
    (declared : port ∈ workflow.exitPorts) (data : port.isData = true) {connection : Connection}
    (member : connection ∈ workflow.connections) (exit : connection.target.node = exitId)
    (named : connection.target.port = port.name) (inArm : workflow.InArm connection.source.node) :
    Merge.bindingFor (placeAll (.ofWorkflow workflow) [] placements).2 connection ≠ none := by
  intro unbound
  have notStart := certified.ne_start_of_named inArm.named
  obtain ⟨source, atSource, plain, _⟩ := certified.source_of_exit member exit notStart
  have output : connectionSource (.ofWorkflow workflow)
      (placeAll (.ofWorkflow workflow) [] placements).2 connection =
      .output connection.source.node connection.source.port := by
    simp only [connectionSource, unbound, notStart, if_false, atSource, Option.bind_some, plain]
  exact hoisted _ (List.mem_map.mpr ⟨port, declared, rfl⟩) _ _
    ((mem_returnBinding data).mpr ⟨connection, member, exit, named, output⟩)
    (arranged.runsInArm certified inArm)

/-- **What is read through the merge binding of an exit port leaves the arms of one branch.** -/
theorem exists_declaration_of_hoisted (arranged : Arranged scheduler (.ofWorkflow workflow)
      (.ofRegion (.ofWorkflow workflow) none [] []) placements) (certified : Certified workflow)
    (hoisted : (plan (.ofWorkflow workflow) placements).ReturnsHoisted) {port : Port}
    (declared : port ∈ workflow.exitPorts) (data : port.isData = true) {connection : Connection}
    (member : connection ∈ workflow.connections) (exit : connection.target.node = exitId)
    (named : connection.target.port = port.name) (inArm : workflow.InArm connection.source.node) :
    ∃ declaration ∈ declarationsOfAll (.ofWorkflow workflow) [] [] placements,
      ∀ other ∈ workflow.connections,
      other.target.node = exitId → other.target.port = port.name →
        workflow.InArm other.source.node →
        ∃ leaving ∈ Merge.leaving (.ofWorkflow workflow) declaration.cluster,
          Merge.samePort other.source leaving.source = true := by
  have known := arranged.fromBranches
  have bound : ∀ other ∈ workflow.connections, other.target.node = exitId →
      other.target.port = port.name →
      workflow.InArm other.source.node →
      ∃ merge ∈ (placeAll (.ofWorkflow workflow) [] placements).2,
        merge.consumer.node = exitId ∧ merge.consumer.port = port.name ∧
          merge.producers.any (Merge.samePort other.source) = true := by
    intro other member exit named inArm
    obtain ⟨binding, found⟩ := Option.ne_none_iff_exists'.mp
      (arranged.bindingFor_ne_none certified hoisted declared data member exit named inArm)
    obtain ⟨merge, among, consumes, _, writes⟩ := Merge.bindingFor_eq_some found
    obtain ⟨node, name⟩ := Merge.samePort_iff.mp consumes
    exact ⟨merge, among, node.trans exit, name.trans named, writes⟩
  obtain ⟨merge, among, atExit, atPort, _⟩ := bound connection member exit named inArm
  obtain ⟨declaration, inPlan, declares⟩ := exists_declaration_of_merge among
  refine ⟨declaration, inPlan, fun other member exit named inArm => ?_⟩
  -- the port has one merge binding, so the other connection is read through the same
  obtain ⟨mergeToo, amongToo, atExitToo, atPortToo, writes⟩ := bound other member exit named inArm
  obtain rfl := Merge.eq_of_samePort known.distinct among amongToo
    (Merge.samePort_iff.mpr ⟨atExit.trans atExitToo.symm, atPort.trans atPortToo.symm⟩)
  obtain ⟨producer, produces, same⟩ := List.any_eq_true.mp writes
  obtain ⟨leaving, leaves, rfl, _⟩ := declaration.exists_leaving_of_producer declares produces
  exact ⟨leaving, leaves, same⟩

theorem fromOneBranch (arranged : Arranged scheduler (.ofWorkflow workflow)
      (.ofRegion (.ofWorkflow workflow) none [] []) placements) (certified : Certified workflow)
    (hoisted : (plan (.ofWorkflow workflow) placements).ReturnsHoisted) {port : Port}
    (declared : port ∈ workflow.exitPorts) (data : port.isData = true) :
    workflow.FromOneBranch port := by
  intro one member exit named inArm
  obtain ⟨declaration, inPlan, from_⟩ :=
    arranged.exists_declaration_of_hoisted certified hoisted declared data member exit named inArm
  have inArms : ∀ other ∈ workflow.connections, other.target.node = exitId →
      other.target.port = port.name →
      workflow.InArm other.source.node → other.source.node ∈ declaration.cluster.armMembers := by
    intro other member exit named inArm
    obtain ⟨leaving, leaves, same⟩ := from_ other member exit named inArm
    exact (Merge.samePort_iff.mp same).1 ▸ (Merge.mem_leaving.mp leaves).2.1
  refine ⟨?_, fun other memberToo exitToo namedToo inArmToo =>
    ⟨declaration.cluster, arranged.hasCluster inPlan,
    inArms one member exit named inArm, inArms other memberToo exitToo namedToo inArmToo⟩⟩
  -- the connection that leaves starts at the same output, which is one for values
  obtain ⟨leaving, leaves, same⟩ := from_ one member exit named inArm
  obtain ⟨_, _, ⟨output, atOutput, isData, plainOutput⟩, _⟩ := Merge.mem_leaving.mp leaves
  obtain ⟨source, atSource, plain, _⟩ :=
    certified.source_of_exit member exit (certified.ne_start_of_named inArm.named)
  have sources := source_eq_of_samePort same atSource atOutput plain plainOutput
  rw [Index.isData, Index.sourcePort, sources, ← Index.sourcePort, atOutput,
    Option.any_some, isData]

/-- **An instance that shares a branch with a member of the arms of a top level branch is in an arm
of the latter.** Of two branches with a common member one lies in an arm of the other. -/
theorem mem_arms_of_shared (arranged : Arranged scheduler (.ofWorkflow workflow)
      (.ofRegion (.ofWorkflow workflow) none [] []) placements) (certified : Certified workflow)
    {declaration : Declaration}
    (member : declaration ∈ declarationsOfAll (.ofWorkflow workflow) [] [] placements)
    (onTop : declaration.path = []) {branch : Cluster} (comesUp : workflow.HasCluster branch)
    {shared id : String} (inDeclared : shared ∈ declaration.cluster.armMembers)
    (inBranch : shared ∈ branch.armMembers) (inBranchToo : id ∈ branch.armMembers)
    (top : (Index.ofWorkflow workflow).regionOf id = none) :
    id ∈ declaration.cluster.armMembers := by
  obtain ⟨head, atHead⟩ := comesUp.exists_boundAt certified arranged
  obtain ⟨stage, bound, rfl⟩ := comesUp.exists_stage_of_mem_arms certified arranged inBranch
  obtain ⟨own, ownBound, rfl⟩ := comesUp.exists_stage_of_mem_arms certified arranged inBranchToo
  obtain ⟨onSuccess, suffix⟩ := arranged.suffix_of_declared certified member bound inDeclared
  obtain ⟨side, suffixToo⟩ := arranged.suffix_of_mem_arms certified comesUp atHead.member
    atHead.node bound inBranch
  obtain ⟨ownSide, ownSuffix⟩ :=
    arranged.suffix_of_mem_arms certified comesUp atHead.member atHead.node ownBound inBranchToo
  rw [onTop] at suffix
  rcases Enclosure.nested suffix suffixToo with ⟨same, _⟩ | inside | outside
  · obtain rfl := (arranged.hasCluster member).unique comesUp (Enclosure.arm.inj same).1
    exact inBranchToo
  · have ordinary := (comesUp.member_scheduled (List.mem_cons_of_mem _ inBranchToo)).2
    have holds := arranged.holds ownBound ordinary
      (ownSuffix.subset (List.mem_cons_of_mem _ (inside.subset List.mem_cons_self)))
    obtain ⟨cluster, clusterUp, heads, inArms⟩ := holds.mem_armMembers top
    obtain rfl := clusterUp.unique (arranged.hasCluster member) heads
    exact inArms
  · cases List.suffix_nil.mp outside

/-- All that comes from the arms of one branch into an exit port is read through a merge binding. -/
theorem returnsHoisted (arranged : Arranged scheduler (.ofWorkflow workflow)
      (.ofRegion (.ofWorkflow workflow) none [] []) placements) (certified : Certified workflow)
    (fromOne : ∀ port ∈ workflow.exitPorts, port.isData = true → workflow.FromOneBranch port) :
    (plan (.ofWorkflow workflow) placements).ReturnsHoisted := by
  intro binding returned node name output runs
  obtain ⟨port, declared, rfl⟩ := List.mem_map.mp returned
  have data := isData_of_mem_returnBinding output nofun
  obtain ⟨connection, member, exit, named, source⟩ := (mem_returnBinding data).mp output
  have produced :
      (connectionSource (.ofWorkflow workflow) (placeAll (.ofWorkflow workflow) [] placements).2
      connection).producer? = some node := by
    rw [source]
    rfl
  obtain ⟨unbound, notStart, rfl⟩ := producer?_connectionSource.mp produced
  obtain ⟨_, _, _, top⟩ := certified.source_of_exit member exit notStart
  have inArm := (arranged.runsInArm_iff certified top).mp runs
  obtain ⟨isData, single⟩ := fromOne port declared data connection member exit named inArm
  obtain ⟨branch, comesUp, inArms⟩ := inArm
  obtain ⟨merge, among, consumes⟩ := arranged.declared certified comesUp
    (certified.mem_leaving_of_exit member exit isData comesUp inArms)
  obtain ⟨declaration, inPlan, declares⟩ := exists_declaration_of_merge among
  obtain ⟨node, atPort⟩ := Merge.samePort_iff.mp consumes
  have onTop := arranged.path_eq_nil_of_exit certified inPlan declares (node.trans exit)
  -- another connection from the arms of the branch that declares the merge binding
  obtain ⟨other, leaves, consumer⟩ := Declaration.exists_leaving declares
  obtain ⟨otherMember, otherInArms, _⟩ := Merge.mem_leaving.mp leaves
  rw [consumer] at node atPort
  obtain ⟨shared, sharedUp, inShared, otherInShared⟩ := single other otherMember (node.trans exit)
    (atPort.trans named) ⟨_, arranged.hasCluster inPlan, otherInArms⟩
  have inDeclared := arranged.mem_arms_of_shared certified inPlan onTop sharedUp otherInArms
    otherInShared inShared top
  have writes := declaration.source_mem_producers declares consumes
    (certified.mem_leaving_of_exit member exit isData (arranged.hasCluster inPlan) inDeclared)
  have bound := arranged.fromBranches.bindingFor_of_mem among consumes writes
  rw [unbound] at bound
  cases bound

end Scheduler.Arranged

/-! ### Plans -/

/-- The exit port of a name is the only one. -/
theorem Wired.target_of_exit (wired : Wired workflow)
    (distinct : (workflow.exitPorts.map (·.name)).Nodup) {port : Port}
    (declared : port ∈ workflow.exitPorts) {connection : Connection}
    (member : connection ∈ workflow.connections) (exit : connection.target.node = exitId)
    (named : connection.target.port = port.name) :
    (Index.ofWorkflow workflow).targetPort connection = some port := by
  obtain ⟨_, target, _, atTarget, _⟩ := wired.ports connection member
  obtain ⟨ports, known, picked⟩ := Option.bind_eq_some_iff.mp atTarget
  rw [exit] at known
  cases known
  have found := List.find?_some picked
  simp only [decide_eq_true_eq] at found
  rw [atTarget, List.inj_on_of_nodup_map distinct (List.mem_of_find?_eq_some picked) declared
    (found.1.trans named)]

/-- A single connection into an exit port of its own name comes from one branch, if from any. -/
theorem Wired.fromOneBranch (wired : Wired workflow)
    (distinct : (workflow.exitPorts.map (·.name)).Nodup)
    (single : ∀ one ∈ workflow.connections, ∀ other ∈ workflow.connections,
      one.target.node = exitId →
      other.target.node = exitId → one.target.port = other.target.port → one = other) {port : Port}
    (declared : port ∈ workflow.exitPorts) (data : port.isData = true) :
    workflow.FromOneBranch port := by
  intro one member exit named inArm
  constructor
  · obtain ⟨source, target, atSource, atTarget, kinds⟩ := wired.ports one member
    rw [wired.target_of_exit distinct declared member exit named] at atTarget
    cases atTarget
    rw [Index.isData, atSource, Option.any_some, Port.isData, kinds, ← Port.isData, data]
  · intro other memberToo exitToo namedToo _
    obtain rfl := single one member other memberToo exit exitToo (named.trans namedToo.symm)
    obtain ⟨branch, comesUp, inArms⟩ := inArm
    exact ⟨branch, comesUp, inArms, inArms⟩

/-- **No exit port is given an output of an instance that runs in an arm, exactly if all that comes
from arms into an exit port for values are values of the arms of one branch.** So it is if exit
ports have different names and no two connections lead into one of them. -/
theorem returns_hoisted_iff {scheduler : Scheduler} {plan : Plan}
    (valid : (validate workflow).hasErrors = false)
    (scheduled : (scheduler.schedule workflow).outcome = .ok plan) :
    (plan.ReturnsHoisted ↔ ∀ port ∈ workflow.exitPorts, port.isData = true →
      workflow.FromOneBranch port) ∧ ((workflow.exitPorts.map (·.name)).Nodup →
        (∀ one ∈ workflow.connections, ∀ other ∈ workflow.connections, one.target.node = exitId →
          other.target.node = exitId → one.target.port = other.target.port → one = other) →
        plan.ReturnsHoisted) := by
  have certified := certified_of_validate valid
  obtain ⟨placements, arranged, rfl⟩ := Scheduler.exists_arranged scheduled
  refine ⟨⟨fun hoisted port declared data => arranged.fromOneBranch certified hoisted declared data,
    arranged.returnsHoisted certified⟩, fun distinct single => ?_⟩
  exact arranged.returnsHoisted certified fun port declared data =>
    certified.fromOneBranch distinct single declared data

/-- Two branches, each with an arm that ends in the same exit port. -/
def sharedReturn : Workflow where
  name := "shared-return"
  returns := [.dataInput "r" .string]
  nodeTypes := [taskType]
  instances := ["h", "x", "y", "g", "u", "v"].map fun id => { id := id, nodeType := "Task" }
  connections :=
    [⟨⟨"h", "onSuccess", none⟩, ⟨"x", "execute", none⟩⟩,
      ⟨⟨"h", "onFailure", none⟩, ⟨"y", "execute", none⟩⟩,
      ⟨⟨"g", "onSuccess", none⟩, ⟨"u", "execute", none⟩⟩,
      ⟨⟨"g", "onFailure", none⟩, ⟨"v", "execute", none⟩⟩,
      ⟨⟨"x", "out", none⟩, ⟨"Exit", "r", none⟩⟩, ⟨⟨"u", "out", none⟩, ⟨"Exit", "r", none⟩⟩]

/-- **An exit port may be given an output of an instance that runs in an arm**, if two branches give
values to the port. -/
theorem sharedReturn_reads_output :
    ∃ plan, (validate sharedReturn).hasErrors = false ∧
      (({} : Scheduler).schedule sharedReturn).outcome = .ok plan ∧
      (∃ binding ∈ plan.returns, binding.port = "r" ∧
        binding.sources = [.merged "Exit.r", .output "u" "out"]) ∧
      plan.RunsInArm "u" ∧ ¬ plan.ReturnsHoisted := by
  obtain ⟨plan, scheduled, shown⟩ := exists_of_toOption_map
    (show (({} : Scheduler).schedule sharedReturn).outcome.toOption.map (fun plan =>
        (plan.returns, plan.body.walk.filterMap PlanNode.armRuns?)) =
      some ([⟨"onSuccess", []⟩, ⟨"onFailure", []⟩, ⟨"r", [.merged "Exit.r", .output "u" "out"]⟩],
        [("h", ["x"], ["y"]), ("g", ["u"], ["v"])]) by decide +kernel)
  obtain ⟨returns, branches⟩ := Prod.mk.inj shown
  have returned : (⟨"r", [.merged "Exit.r", .output "u" "out"]⟩ : ReturnBinding) ∈
    plan.returns := by simp [returns]
  have runs : plan.RunsInArm "u" := by
    have second : ("g", ["u"], ["v"]) ∈ [("h", ["x"], ["y"]), ("g", ["u"], ["v"])] := by simp
    rw [← branches] at second
    obtain ⟨node, member, found⟩ := List.mem_filterMap.mp second
    obtain ⟨condition, hoisted, thenArm, elseArm, rfl, inThen, _⟩ :=
      PlanNode.exists_branch_of_armRuns? found
    exact ⟨"g", condition, hoisted, thenArm, elseArm, member, .inl (by simp [inThen])⟩
  exact ⟨plan, by decide +kernel, scheduled, ⟨_, returned, rfl, rfl⟩, runs, fun hoisted =>
    hoisted _ returned "u" "out" (by simp) runs⟩

theorem returns_hoisted_iff_eitherArm :
    ∃ plan, (validate eitherArm).hasErrors = false ∧
      (({} : Scheduler).schedule eitherArm).outcome = .ok plan ∧
      plan.returns.map (·.sources) = [[], [], [.merged "Exit.answer"], [.workflowInput "seed"]] ∧
      plan.ReturnsHoisted := by
  have valid : (validate eitherArm).hasErrors = false := by decide +kernel
  obtain ⟨plan, scheduled, returns⟩ := exists_of_toOption_map
    (show (({} : Scheduler).schedule eitherArm).outcome.toOption.map (fun plan =>
      plan.returns.map (·.sources)) =
      some [[], [], [.merged "Exit.answer"], [.workflowInput "seed"]] by decide +kernel)
  refine ⟨plan, valid, scheduled, returns, (returns_hoisted_iff valid scheduled).1.mpr fun port _ _
    one member exit _ inArm => ?_⟩
  obtain ⟨branch, inBlock, inArms⟩ : ∃ branch ∈ Cluster.ofBlock (.ofWorkflow eitherArm)
      ((Index.ofWorkflow eitherArm).scheduledIn none), "x" ∈ branch.armMembers ∧
      "y" ∈ branch.armMembers := by
    decide +kernel
  -- of the sources of exit ports only the two arms are instances
  have sources : ∀ connection ∈ eitherArm.connections, connection.target.node = exitId →
      connection.source.node ∈ eitherArm.instances.map (·.id) →
      (Index.ofWorkflow eitherArm).isData connection = true ∧
        (connection.source.node = "x" ∨ connection.source.node = "y") := by decide +kernel
  have fromArms : ∀ connection ∈ eitherArm.connections, connection.target.node = exitId →
      eitherArm.InArm connection.source.node → connection.source.node ∈ branch.armMembers := by
    intro connection member exit inArm
    rcases (sources connection member exit inArm.named).2 with same | same
    · exact same ▸ inArms.1
    · exact same ▸ inArms.2
  exact ⟨(sources one member exit inArm.named).1, fun other memberToo exitToo _ inArmToo =>
    ⟨branch, ⟨_, .top, inBlock⟩, fromArms one member exit inArm,
      fromArms other memberToo exitToo inArmToo⟩⟩

end WorkflowGraph
