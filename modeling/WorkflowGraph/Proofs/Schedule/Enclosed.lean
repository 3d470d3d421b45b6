/-
What a plan puts into arms and into the insides of scopes belongs there.

* `Enclosure.Holds` — an instance belongs into an arm if a member of the arm holds it, and into the
  inside of a scope if it lives there or further inside.
* `Scheduler.Arranged.comesUp` — the arms of a plan are arms of clusters that come up.
* `Scheduler.Arranged.holds` — scheduled instances lie in nothing that does not hold them.
  `holds_of_spot` is the same statement of the runs of a plan.
-/

import WorkflowGraph.Proofs.Plan.Spot
import WorkflowGraph.Proofs.Schedule.Entered
import WorkflowGraph.Proofs.Schedule.Order

namespace WorkflowGraph

/-- Whether an instance belongs into an arm or into the inside of a scope. -/
def Enclosure.Holds (workflow : Workflow) : Enclosure → String → Prop
  | arm head onSuccess, id => ∃ cluster arms, workflow.HasCluster cluster ∧ cluster.head = head ∧
      cluster.arms = some arms ∧ ∃ holder ∈ arms.side onSuccess,
      (Index.ofWorkflow workflow).Holds holder id
  | body owner name, id =>
      (Index.ofWorkflow workflow).Within ((Index.ofWorkflow workflow).regionOf id)
        (some ⟨owner, name⟩)

variable {workflow : Workflow}

/-- What belongs into an arm and lives beside its head is a member of the arm. -/
theorem Enclosure.Holds.mem_side {head id : String} {onSuccess : Bool}
    (holds : (Enclosure.arm head onSuccess).Holds workflow id) (certified : Certified workflow)
    (beside : (Index.ofWorkflow workflow).regionOf id = (Index.ofWorkflow workflow).regionOf head) :
    ∃ cluster arms, workflow.HasCluster cluster ∧ cluster.head = head ∧ cluster.arms = some arms ∧
      id ∈ arms.side onSuccess := by
  obtain ⟨cluster, arms, comesUp, rfl, branching, holder, inSide, held⟩ := holds
  refine ⟨cluster, arms, comesUp, rfl, branching, ?_⟩
  rcases held with rfl | ⟨name, within⟩
  · exact inSide
  · obtain ⟨members, formed, inBlock⟩ := comesUp
    obtain ⟨region, block⟩ := formed.isBlock
    have subset := Cluster.members_subset block.distinct inBlock
    have inArms := Cluster.mem_armMembers_of_side branching inSide
    have holderIn := subset (List.mem_cons_of_mem _ inArms)
    refine absurd ⟨name, ?_⟩ (certified.not_nested_self (block.named holderIn))
    rwa [block.regionOf holderIn, ← block.regionOf (subset List.mem_cons_self), ← beside]

/-- What belongs into an arm and lives on the top level is a member of the arm. -/
theorem Enclosure.Holds.mem_armMembers {head id : String} {onSuccess : Bool}
    (holds : (Enclosure.arm head onSuccess).Holds workflow id)
    (top : (Index.ofWorkflow workflow).regionOf id = none) :
    ∃ branch, workflow.HasCluster branch ∧ branch.head = head ∧ id ∈ branch.armMembers := by
  obtain ⟨branch, arms, comesUp, heads, branching, holder, inSide, held⟩ := holds
  refine ⟨branch, comesUp, heads, ?_⟩
  rcases held with rfl | ⟨name, within⟩
  · exact Cluster.mem_armMembers_of_side branching inSide
  · rw [top] at within
    cases within

/-! ### What a stage lies in -/

/-- Whether an arm is one of a cluster that comes up. -/
def Enclosure.ComesUp (workflow : Workflow) : Enclosure → Prop
  | arm head _ =>
      ∃ cluster, workflow.HasCluster cluster ∧ cluster.head = head ∧ cluster.arms.isSome = true
  | body _ _ => True

/-- Whether a stage lies in arms of clusters that come up, apart from `path`, and a scheduled
instance in nothing that does not hold it. -/
def Stage.Enclosed (workflow : Workflow) (path : List Enclosure) (stage : Stage) : Prop :=
  ∀ enclosure ∈ stage.path, enclosure ∈ path ∨ enclosure.ComesUp workflow ∧
    ((Index.ofWorkflow workflow).isExpression stage.node = false →
      enclosure.Holds workflow stage.node)

theorem Stage.enclosed_self (node : String) (merges : List Merge) (path : List Enclosure) :
    Stage.Enclosed workflow path ⟨node, merges, path⟩ :=
  fun _ => .inl

theorem Stage.Enclosed.outwards {stage : Stage} {enclosure : Enclosure} {path : List Enclosure}
    (enclosed : stage.Enclosed workflow (enclosure :: path)) (comesUp : enclosure.ComesUp workflow)
    (holds : (Index.ofWorkflow workflow).isExpression stage.node = false →
      enclosure.Holds workflow stage.node) : stage.Enclosed workflow path := by
  intro other around
  rcases enclosed other around with here | held
  · rcases List.mem_cons.mp here with rfl | outside
    · exact .inr ⟨comesUp, holds⟩
    · exact .inl outside
  · exact .inr held

namespace Scheduler

variable {scheduler : Scheduler}

/-- A scheduled instance of an arrangement of a block is held by a member of the block. -/
theorem Arranged.exists_holder {block : Block} {placements : List Placement} {path : List Enclosure}
    {merges : List Merge} (arranged : Arranged scheduler (.ofWorkflow workflow) block placements)
    (formed : Formed (.ofWorkflow workflow) block.members) {stage : Stage}
    (bound : stage ∈ Binding.stagesOfAll (.ofWorkflow workflow) path merges placements)
    (ordinary : (Index.ofWorkflow workflow).isExpression stage.node = false) :
    ∃ holder ∈ block.members, (Index.ofWorkflow workflow).Holds holder stage.node := by
  have placed := arranged.scheduled_of_placed formed (List.Subset.refl _)
    (Binding.node_of_mem_stagesOfAll bound) ordinary
  obtain ⟨holder, member, under⟩ := ((arranged.enumerates formed).mem_iff _).mp placed
  exact ⟨holder, member, under.holds⟩

/-- Whether the stages of placements are enclosed, wherever they are placed. -/
def Encloses (workflow : Workflow) (placements : List Placement) : Prop :=
  ∀ path merges, ∀ stage ∈ Binding.stagesOfAll (.ofWorkflow workflow) path merges placements,
    stage.Enclosed workflow path

/-- What lies in the insides of scopes belongs there. -/
theorem enclosed_bodies {block : Block} {owner : String} {names : List String}
    {bodies : List (String × List Placement)}
    (inside : List.Forall₂ (BodyPlaced scheduler (.ofWorkflow workflow)
      (fun _ _ => Encloses workflow) block owner) names bodies)
    (path : List Enclosure) (merges : List Merge) :
    ∀ stage ∈ Binding.stagesOfBodies (.ofWorkflow workflow) path merges owner bodies,
      stage.Enclosed workflow path := by
  intro stage bound
  obtain ⟨⟨label, placements⟩, member, before, bound⟩ := Binding.exists_of_mem_stagesOfBodies bound
  obtain ⟨name, _, body⟩ := exists_left_of_mem inside member
  obtain rfl : label = name := body.named
  refine (body.holds _ _ stage bound).outwards trivial fun ordinary => ?_
  obtain ⟨holder, lies, held⟩ := body.arranged.exists_holder body.formed bound ordinary
  have lives := Index.regionOf_of_mem_scheduledIn lies
  rw [Enclosure.Holds]
  rcases held with rfl | ⟨name, within⟩
  · rw [lives]
    exact .refl _
  · exact within.trans (.outward (lives ▸ .refl _))

/-- What lies in an arm belongs there. -/
theorem enclosed_arm {block : Block} {cluster : Cluster} {arms : Arms} {onSuccess : Bool}
    {placements : List Placement} (comesUp : workflow.HasCluster cluster)
    (branching : cluster.arms = some arms)
    (arm : ArmPlaced scheduler (.ofWorkflow workflow) (fun _ _ => Encloses workflow) block
      cluster.head (arms.side onSuccess) placements) (path : List Enclosure) (merges : List Merge) :
    ∀ stage ∈ Binding.stagesOfAll (.ofWorkflow workflow) (.arm cluster.head onSuccess :: path)
      merges placements, stage.Enclosed workflow path := by
  intro stage bound
  refine (arm.holds _ _ stage bound).outwards ⟨cluster, comesUp, rfl, by rw [branching]; rfl⟩
    fun ordinary => ?_
  exact ⟨cluster, arms, comesUp, rfl, branching, arm.arranged.exists_holder arm.formed
    bound ordinary⟩

theorem enclosed_cases : Induction scheduler (.ofWorkflow workflow) (fun _ _ => Encloses workflow)
    (fun _ _ placement => ∀ path merges,
      ∀ stage ∈ Binding.stages (.ofWorkflow workflow) path merges placement,
        stage.Enclosed workflow path) where
  done _ _ path merges := by
    rw [Binding.stagesOfAll_inlined, List.forall_mem_map]
    exact fun id _ => Stage.enclosed_self id merges path
  round {_ _ _ _ inlined placed rest} _ _ _ _ each further path merges := by
    obtain ⟨following, bound⟩ :=
      @Binding.stagesOfAll_round (.ofWorkflow workflow) path merges inlined placed rest
    rw [bound, List.forall_mem_append, List.forall_mem_append, List.forall_mem_map]
    refine ⟨⟨fun id _ => Stage.enclosed_self id merges path, fun stage member => ?_⟩,
      further path following⟩
    obtain ⟨placement, among, before, here⟩ := Binding.exists_of_mem_stagesOfAll member
    obtain ⟨_, _, _, enclosed⟩ := exists_left_of_mem each among
    exact enclosed path before stage here
  node _ _ _ inside _ path merges := by
    rw [Binding.stages, List.forall_mem_cons]
    exact ⟨Stage.enclosed_self _ _ _, enclosed_bodies inside path merges⟩
  branch formed member _ inside branching onSuccess onFailure path merges := by
    have comesUp : workflow.HasCluster _ := ⟨_, formed, member⟩
    rw [Binding.stages, List.forall_mem_cons, List.forall_mem_append, List.forall_mem_append]
    exact ⟨Stage.enclosed_self _ _ _, enclosed_bodies inside path _,
      @enclosed_arm _ _ _ _ _ true _ comesUp branching onSuccess path _,
      @enclosed_arm _ _ _ _ _ false _ comesUp branching onFailure path _⟩

namespace Arranged

variable {placements : List Placement} {resolved available : List String}

theorem enclosed (arranged : Arranged scheduler (.ofWorkflow workflow)
      (.ofRegion (.ofWorkflow workflow) none resolved available) placements) {stage : Stage}
    (bound : stage ∈ Binding.stagesOfAll (.ofWorkflow workflow) [] [] placements)
    {enclosure : Enclosure} (around : enclosure ∈ stage.path) :
    enclosure.ComesUp workflow ∧ ((Index.ofWorkflow workflow).isExpression stage.node = false →
      enclosure.Holds workflow stage.node) :=
  (arranged.induction enclosed_cases .top [] [] stage bound enclosure around).resolve_left
    List.not_mem_nil

/-- **The arms of a plan are arms of clusters that come up.** -/
theorem comesUp (arranged : Arranged scheduler (.ofWorkflow workflow)
      (.ofRegion (.ofWorkflow workflow) none resolved available) placements) {stage : Stage}
    (bound : stage ∈ Binding.stagesOfAll (.ofWorkflow workflow) [] [] placements)
    {enclosure : Enclosure} (around : enclosure ∈ stage.path) : enclosure.ComesUp workflow :=
  (arranged.enclosed bound around).1

/-- **Scheduled instances lie in nothing that does not hold them.** -/
theorem holds (arranged : Arranged scheduler (.ofWorkflow workflow)
      (.ofRegion (.ofWorkflow workflow) none resolved available) placements) {stage : Stage}
    (bound : stage ∈ Binding.stagesOfAll (.ofWorkflow workflow) [] [] placements)
    (ordinary : (Index.ofWorkflow workflow).isExpression stage.node = false)
    {enclosure : Enclosure} (around : enclosure ∈ stage.path) :
    enclosure.Holds workflow stage.node :=
  (arranged.enclosed bound around).2 ordinary

end Arranged

end Scheduler

/-! ### Runs of a plan -/

namespace Scheduler.Arranged

variable {scheduler : Scheduler} {placements : List Placement} {resolved available : List String}

/-- **A scheduled run of a plan is the stage of a scheduled instance**, in all that the run lies
in. -/
theorem exists_stage_of_spot (arranged : Arranged scheduler (.ofWorkflow workflow)
      (.ofRegion (.ofWorkflow workflow) none resolved available) placements) {spot : Spot}
    (member : spot ∈ (Binding.plan (.ofWorkflow workflow) placements).body.spots [])
    (isScheduled : spot.node.isScheduled = true) {step : Step} (ran : spot.node.ran? = some step) :
    ∃ stage ∈ Binding.stagesOfAll (.ofWorkflow workflow) [] [] placements, stage.node = step.node ∧
      stage.path = spot.path ∧ (Index.ofWorkflow workflow).isExpression step.node = false := by
  have place : (spot.path, step) ∈
      (Binding.plan (.ofWorkflow workflow) placements).body.places [] := by
    rw [PlanNode.places_eq_spots]
    exact List.mem_filterMap.mpr ⟨spot, member, by rw [Spot.place?, ran, Option.map_some]⟩
  rw [Binding.places_plan] at place
  obtain ⟨stage, bound, same⟩ := List.mem_map.mp place
  obtain ⟨path, rfl⟩ := Prod.mk.inj same
  refine ⟨stage, bound, rfl, path, arranged.ordinary ?_⟩
  rw [← Binding.placings_plan (.ofWorkflow workflow), ← Plan.scheduled_eq]
  refine List.mem_filterMap.mpr ⟨spot.node, List.mem_filter.mpr ⟨?_, isScheduled⟩, by rw [ran]; rfl⟩
  rw [← PlanNode.node_spots []]
  exact List.mem_map.mpr ⟨spot, member, rfl⟩

/-- The stage of a scheduled instance is a scheduled run of the plan, in all that the stage lies
in. -/
theorem exists_spot_of_stage (arranged : Arranged scheduler (.ofWorkflow workflow)
      (.ofRegion (.ofWorkflow workflow) none resolved available) placements) {stage : Stage}
    (bound : stage ∈ Binding.stagesOfAll (.ofWorkflow workflow) [] [] placements)
    (ordinary : (Index.ofWorkflow workflow).isExpression stage.node = false) :
    ∃ spot ∈ (Binding.plan (.ofWorkflow workflow) placements).body.spots [],
      spot.path = stage.path ∧
      spot.node.isScheduled = true ∧ ∃ step, spot.node.ran? = some step ∧
      step.node = stage.node := by
  have scheduled :=
    arranged.scheduled_of_placed .top (List.Subset.refl _) (Binding.node_of_mem_stagesOfAll bound)
      ordinary
  have runs : stage.node ∈ (Binding.plan (.ofWorkflow workflow) placements).body.scheduled := by
    rw [← Binding.placings_plan (.ofWorkflow workflow), ← Plan.scheduled_eq] at scheduled
    exact scheduled
  obtain ⟨spot, member, isScheduled, step, ran, same⟩ := PlanNode.exists_spot_of_scheduled runs []
  obtain ⟨other, boundToo, sameToo, path, _⟩ := arranged.exists_stage_of_spot member isScheduled ran
  obtain rfl := arranged.stage_unique bound boundToo scheduled (sameToo.trans same)
  exact ⟨spot, member, path.symm, isScheduled, step, ran, same⟩

/-- **A scheduled run of a plan lies in nothing that does not hold its instance.** -/
theorem holds_of_spot (arranged : Arranged scheduler (.ofWorkflow workflow)
      (.ofRegion (.ofWorkflow workflow) none resolved available) placements) {spot : Spot}
    (member : spot ∈ (Binding.plan (.ofWorkflow workflow) placements).body.spots [])
    (isScheduled : spot.node.isScheduled = true) {step : Step} (ran : spot.node.ran? = some step)
    {enclosure : Enclosure} (around : enclosure ∈ spot.path) :
    enclosure.Holds workflow step.node := by
  obtain ⟨stage, bound, same, path, ordinary⟩ :=
    arranged.exists_stage_of_spot member isScheduled ran
  rw [← path] at around
  rw [← same] at ordinary ⊢
  exact arranged.holds bound ordinary around

end Scheduler.Arranged

end WorkflowGraph
