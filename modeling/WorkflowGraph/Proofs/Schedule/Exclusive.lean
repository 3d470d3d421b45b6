/-
The arms of a branch exclude each other in their region.

The main statement is `arms_exclusive`: what a plan runs in an arm of a branch is led to by the
outcome of the arm, and not by the other one. The arms are made in a block, which may itself be an
arm and knows nothing of the rest of its region. But blocks are convex (`Certified.convex`): a way
through the region from the head to a member of an arm never leaves the block.

* `Workflow.Reaches` — an outcome of an instance leads to another instance of its region through
  step connections.
* `Certified.reaches_of_mem_side` — the same statement of the arms of a cluster that comes up.
-/

import WorkflowGraph.Proofs.Schedule.Ways

namespace WorkflowGraph

/-! ### Ways through a region -/

/-- Whether a step output of an instance is connected with another instance, at both ends outside of
all scopes. -/
def Workflow.Joins (workflow : Workflow) (source port target : String) : Prop :=
  ∃ connection ∈ workflow.connections, connection.source.node = source ∧
    connection.source.port = port ∧ connection.target.node = target ∧
    (∃ port ∈ (Index.ofWorkflow workflow).sourcePort connection, port.isStep = true ∧
      port.scope = none) ∧
    ∃ port ∈ (Index.ofWorkflow workflow).targetPort connection, port.scope = none

instance (workflow : Workflow) (source port target : String) :
    Decidable (workflow.Joins source port target) :=
  inferInstanceAs (Decidable (∃ connection ∈ workflow.connections, connection.source.node = source ∧
    connection.source.port = port ∧ connection.target.node = target ∧
    (∃ port ∈ (Index.ofWorkflow workflow).sourcePort connection, port.isStep = true ∧
      port.scope = none) ∧
    ∃ port ∈ (Index.ofWorkflow workflow).targetPort connection, port.scope = none))

/-- Whether an outcome of an instance leads to another one, through step connections between
scheduled instances of its region. -/
def Workflow.Reaches (workflow : Workflow) (head : String) (onSuccess : Bool) (id : String) :
    Prop :=
  ∃ first ∈ (Index.ofWorkflow workflow).scheduledIn ((Index.ofWorkflow workflow).regionOf head),
    workflow.Joins head (Port.outcomeName onSuccess) first ∧
      Relation.ReflTransGen (fun source target =>
        target ∈ (Index.ofWorkflow workflow).scheduledIn
          ((Index.ofWorkflow workflow).regionOf head) ∧
          ∃ port, workflow.Joins source port target) first id

variable {workflow : Workflow} {region : Region}

namespace Certified

/-- Between instances of one region a step connection is outside of all scopes at its end if it is
at its start. -/
theorem joins_iff_fires (certified : Certified workflow) {source port target : String}
    (sourceIn : source ∈ (Index.ofWorkflow workflow).scheduledIn region)
    (targetIn : target ∈ (Index.ofWorkflow workflow).scheduledIn region) :
    workflow.Joins source port target ↔ workflow.Fires source port target := by
  constructor
  · rintro ⟨connection, member, from_, named, into, step, _⟩
    exact ⟨connection, member, from_, named, into, step⟩
  · rintro ⟨connection, member, rfl, named, rfl, port, atSource, step, plain⟩
    refine ⟨connection, member, rfl, named, rfl, ⟨port, atSource, step, plain⟩, ?_⟩
    obtain ⟨_, target, _, atTarget, _⟩ := certified.ports connection member
    have block := @IsBlock.whole workflow region
    have sourceOrdinary := certified.ordinary_of_named (block.named sourceIn)
    have targetOrdinary := certified.ordinary_of_named (block.named targetIn)
    have crosses := certified.step_region member atSource atTarget step
    rw [Wired.regionAt_plain sourceOrdinary plain, block.regionOf sourceIn] at crosses
    refine ⟨target, atTarget, ?_⟩
    -- at a port of a scope the source would live in that scope, and not beside its owner
    cases scope : target.scope with
    | none => rfl
    | some name =>
        refine absurd ⟨name, ?_⟩ (certified.not_nested_self (block.named targetIn))
        simp only [Index.regionAt, targetOrdinary, scope, Bool.false_eq_true, if_false] at crosses
        rw [block.regionOf targetIn, crosses]
        exact .refl _

/-- **What an outcome leads to in a region.** -/
theorem reaches_iff (certified : Certified workflow) {head id : String} {onSuccess : Bool}
    (headIn : head ∈ (Index.ofWorkflow workflow).scheduledIn region) :
    workflow.Reaches head onSuccess id ↔
      id ∈ (Wiring.ofBlock (.ofWorkflow workflow)
        ((Index.ofWorkflow workflow).scheduledIn region)).ledTo head
        (Port.outcomeName onSuccess) := by
  rw [Workflow.Reaches, Index.regionOf_of_mem_scheduledIn headIn, Wiring.mem_ledTo_iff]
  constructor
  · rintro ⟨first, firstIn, joins, path⟩
    refine ⟨first, ⟨headIn, firstIn, (certified.joins_iff_fires headIn firstIn).mp joins⟩, ?_⟩
    have ways : Relation.ReflTransGen
        (workflow.TriggersIn ((Index.ofWorkflow workflow).scheduledIn region)) first id ∧
        id ∈ (Index.ofWorkflow workflow).scheduledIn region := by
      induction path with
      | refl => exact ⟨.refl, firstIn⟩
      | tail _ step ih =>
          obtain ⟨targetIn, port, joins⟩ := step
          have fires := (certified.joins_iff_fires ih.2 targetIn).mp joins
          exact ⟨ih.1.tail ⟨ih.2, targetIn, Workflow.triggers_iff.mpr ⟨port, fires⟩⟩, targetIn⟩
    exact ways.1
  · rintro ⟨first, ⟨_, firstIn, fires⟩, path⟩
    refine ⟨first, firstIn, (certified.joins_iff_fires headIn firstIn).mpr fires, ?_⟩
    refine Relation.ReflTransGen.mono (fun source target step => ?_) _ _ path
    obtain ⟨sourceIn, targetIn, triggers⟩ := step
    obtain ⟨port, fires⟩ := Workflow.triggers_iff.mp triggers
    exact ⟨targetIn, port, (certified.joins_iff_fires sourceIn targetIn).mpr fires⟩

/-- **The members of an arm are led to by its outcome, and not by the other one**, by no way through
the region. -/
theorem reaches_of_mem_side (certified : Certified workflow) {cluster : Cluster}
    (comesUp : workflow.HasCluster cluster) {arms : Arms} (branching : cluster.arms = some arms)
    {onSuccess : Bool} {id : String} (inArm : id ∈ arms.side onSuccess) :
    workflow.Reaches cluster.head onSuccess id ∧
      ¬ workflow.Reaches cluster.head (!onSuccess) id := by
  obtain ⟨members, formed, inBlock⟩ := comesUp
  obtain ⟨region, block⟩ := formed.isBlock
  obtain ⟨_, headIn, spec⟩ := Cluster.exists_of_mem_ofBlock inBlock
  rw [Arms.side_eq (spec arms branching)] at inArm
  obtain ⟨idIn, led, notLed, _⟩ := Arms.ledTo_of_mem_onOutcome inArm
  have headInRegion := block.inside _ headIn
  rw [certified.reaches_iff headInRegion, certified.reaches_iff headInRegion, Wiring.mem_ledTo_iff,
    Wiring.mem_ledTo_iff]
  rw [Wiring.mem_ledTo_iff] at led notLed
  constructor
  · obtain ⟨first, ⟨_, firstIn, fires⟩, path⟩ := led
    refine ⟨first, ⟨headInRegion, block.inside _ firstIn, fires⟩, ?_⟩
    refine Relation.ReflTransGen.mono (fun source target step => ?_) _ _ path
    exact ⟨block.inside _ step.1, block.inside _ step.2.1, step.2.2⟩
  · rintro ⟨first, ⟨_, firstInRegion, fires⟩, path⟩
    -- what the other outcome fires lies between the head and the member, so the block knows of it
    have step : workflow.TriggersIn ((Index.ofWorkflow workflow).scheduledIn region)
        cluster.head first :=
      ⟨headInRegion, firstInRegion, Workflow.triggers_iff.mpr ⟨_, fires⟩⟩
    have convex := certified.convex formed block
    have firstIn := convex cluster.head first id headIn idIn (.single step) path
    exact notLed ⟨first, ⟨headIn, firstIn, fires⟩, convex.triggersIn firstIn idIn path⟩

end Certified

/-! ### Arms of a plan -/

/-- **What a plan runs in an arm of a branch belongs there**: it is led to by the outcome of the
arm, and not by the other one. -/
theorem Scheduler.Arranged.reaches_of_inArm {scheduler : Scheduler} {placements : List Placement}
    (arranged : Arranged scheduler (.ofWorkflow workflow)
      (.ofRegion (.ofWorkflow workflow) none [] []) placements) (certified : Certified workflow)
    {branch spot : Spot}
    (member : branch ∈ (Binding.plan (.ofWorkflow workflow) placements).body.spots [])
    {onSuccess : Bool} (inArm : spot ∈ branch.arm onSuccess)
    (isScheduled : spot.node.isScheduled = true) {step : Step} (ran : spot.node.ran? = some step)
    {head : String} (on : branch.node.branchesOn? = some head)
    (beside : (Index.ofWorkflow workflow).regionOf step.node =
      (Index.ofWorkflow workflow).regionOf head) :
    workflow.Reaches head onSuccess step.node ∧ ¬ workflow.Reaches head (!onSuccess) step.node := by
  obtain ⟨inPlan, _, onToo, suffix⟩ := PlanNode.arm_of_mem member inArm
  obtain rfl := Option.some.inj (on.symm.trans onToo)
  have holds := arranged.holds_of_spot inPlan isScheduled ran (suffix.subset List.mem_cons_self)
  obtain ⟨cluster, arms, comesUp, rfl, branching, inSide⟩ := holds.mem_side certified beside
  exact certified.reaches_of_mem_side comesUp branching inSide

/-- **The arms of a branch exclude each other in their region**: what a plan runs in an arm is led
to by the outcome of the arm, and not by the other one. -/
theorem arms_exclusive {scheduler : Scheduler} {plan : Plan}
    (valid : (validate workflow).hasErrors = false)
    (scheduled : (scheduler.schedule workflow).outcome = .ok plan) {head condition : String}
    {hoisted : List HoistedBinding} {thenArm elseArm : PlanNode}
    (branch : .branch head condition hoisted thenArm elseArm ∈ plan.body.walk) {id : String}
    (beside : (Index.ofWorkflow workflow).regionOf id = (Index.ofWorkflow workflow).regionOf head) :
    (id ∈ thenArm.scheduled → workflow.Reaches head true id ∧ ¬ workflow.Reaches head false id) ∧
      (id ∈ elseArm.scheduled → workflow.Reaches head false id ∧
        ¬ workflow.Reaches head true id) := by
  have certified := certified_of_validate valid
  obtain ⟨placements, arranged, rfl⟩ := Scheduler.exists_arranged scheduled
  rw [← PlanNode.node_spots []] at branch
  obtain ⟨⟨path, _⟩, member, rfl⟩ := List.mem_map.mp branch
  constructor
  · intro runs
    obtain ⟨spot, inArm, isScheduled, step, ran, rfl⟩ :=
      PlanNode.exists_spot_of_scheduled runs (.arm head true :: path)
    exact arranged.reaches_of_inArm certified member
      (show spot ∈ Spot.arm ⟨path, _⟩ true from inArm) isScheduled ran rfl
      beside
  · intro runs
    obtain ⟨spot, inArm, isScheduled, step, ran, rfl⟩ :=
      PlanNode.exists_spot_of_scheduled runs (.arm head false :: path)
    exact arranged.reaches_of_inArm certified member
      (show spot ∈ Spot.arm ⟨path, _⟩ false from inArm) isScheduled ran rfl
      beside

/-- A branch in an arm of another one, inside a loop. What both outcomes of the inner one lead to is
in no arm of it. -/
def branchesInLoop : Workflow where
  name := "branches in loop"
  nodeTypes :=
    [taskType, (NodeType.function "Loop").withPort
      { Port.dataOutput "item" .string with scope := some "body" }]
  instances :=
    { id := "m", nodeType := "Loop" } :: ["g", "a", "h", "x", "y", "z"].map fun id =>
      { id := id, nodeType := "Task", parentScope := some ⟨"m", "body"⟩ }
  connections :=
    [⟨⟨"g", "onSuccess", none⟩, ⟨"h", "execute", none⟩⟩,
      ⟨⟨"g", "onFailure", none⟩, ⟨"a", "execute", none⟩⟩,
      ⟨⟨"h", "onSuccess", none⟩, ⟨"x", "execute", none⟩⟩,
      ⟨⟨"h", "onFailure", none⟩, ⟨"y", "execute", none⟩⟩,
      ⟨⟨"x", "onSuccess", none⟩, ⟨"z", "execute", none⟩⟩,
      ⟨⟨"y", "onSuccess", none⟩, ⟨"z", "execute", none⟩⟩]
  scopes := [⟨"m", "body", ["g", "a", "h", "x", "y", "z"]⟩]

theorem arms_exclusive_branchesInLoop :
    ∃ plan condition hoisted thenArm elseArm, (validate branchesInLoop).hasErrors = false ∧
      (({} : Scheduler).schedule branchesInLoop).outcome = .ok plan ∧
      .branch "h" condition hoisted thenArm elseArm ∈ plan.body.walk ∧ thenArm.scheduled = ["x"] ∧
      elseArm.scheduled = ["y"] ∧ branchesInLoop.Reaches "h" true "x" ∧
      ¬ branchesInLoop.Reaches "h" false "x" ∧
      branchesInLoop.Reaches "h" false "y" ∧ ¬ branchesInLoop.Reaches "h" true "y" := by
  have valid : (validate branchesInLoop).hasErrors = false := by decide +kernel
  obtain ⟨plan, scheduled, branches⟩ := exists_of_toOption_map
    (show (({} : Scheduler).schedule branchesInLoop).outcome.toOption.map (fun plan =>
      plan.body.walk.filterMap PlanNode.armRuns?) =
      some [("g", ["h", "x", "y", "z"], ["a"]), ("h", ["x"], ["y"])] by decide +kernel)
  have inner : ("h", ["x"], ["y"]) ∈ [("g", ["h", "x", "y", "z"], ["a"]), ("h", ["x"], ["y"])] := by
    simp
  rw [← branches] at inner
  obtain ⟨node, member, found⟩ := List.mem_filterMap.mp inner
  obtain ⟨condition, hoisted, thenArm, elseArm, rfl, inThen, inElse⟩ :=
    PlanNode.exists_branch_of_armRuns? found
  have exclusive := fun id => @arms_exclusive branchesInLoop {} plan valid scheduled "h" condition
    hoisted thenArm elseArm member id
  obtain ⟨reachesX, notX⟩ := (exclusive "x" (by decide +kernel)).1 (by simp [inThen])
  obtain ⟨reachesY, notY⟩ := (exclusive "y" (by decide +kernel)).2 (by simp [inElse])
  exact ⟨plan, condition, hoisted, thenArm, elseArm, valid, scheduled, member, inThen, inElse,
    reachesX, notX, reachesY, notY⟩

end WorkflowGraph
