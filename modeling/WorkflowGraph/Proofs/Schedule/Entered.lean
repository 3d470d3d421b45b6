/-
Which runs a dry run meets.

* `Scheduler.Arranged.mem_executed_iff` — a dry run executes the instances of the stages all of
  whose arms are taken.
* `Enclosure.failing` — the failures that lead a dry run into a path. Others may fail too, if the
  path lies in none of their arms (`all_isEntered`).
* `Placement.Part.stages` — the stages of a part of an arrangement are stages of the arrangement.
* `Workflow.HasCluster.exists_placed`, `exists_boundAt` — every cluster that comes up is placed. Its
  head is bound in arms of branches that hold the cluster, with the expressions in reach that it
  needs.
* `Workflow.HasCluster.exists_stages_of_arm`, `Scheduler.Arranged.suffix_of_mem_arms` — the members
  of an arm are bound in the arm.
-/

import WorkflowGraph.Proofs.Schedule.Located
import WorkflowGraph.Proofs.Schedule.Turn

namespace WorkflowGraph

variable {workflow : Workflow}

/-! ### Runs -/

namespace Scheduler.Arranged

variable {scheduler : Scheduler} {resolved available : List String} {placements : List Placement}

/-- **A dry run executes the instances of the stages all of whose arms are taken.** -/
theorem mem_executed_iff (arranged : Arranged scheduler (.ofWorkflow workflow)
      (.ofRegion (.ofWorkflow workflow) none resolved available) placements)
    (wired : Wired workflow) {failures : List String} {id : String} :
    id ∈ (DryRun.ofPlan (Binding.plan (.ofWorkflow workflow) placements) failures).executed ↔
      ∃ stage ∈ Binding.stagesOfAll (.ofWorkflow workflow) [] [] placements,
        stage.node = id ∧ stage.runs failures = true := by
  rw [DryRun.executed_ofPlan, arranged.trace_eq wired]
  simp [and_comm, and_left_comm]

/-- A scheduled instance is bound once. -/
theorem stage_unique (arranged : Arranged scheduler (.ofWorkflow workflow)
      (.ofRegion (.ofWorkflow workflow) none resolved available) placements) {first second : Stage}
    (inFirst : first ∈ Binding.stagesOfAll (.ofWorkflow workflow) [] [] placements)
    (inSecond : second ∈ Binding.stagesOfAll (.ofWorkflow workflow) [] [] placements)
    (scheduled : first.node ∈ Placing.scheduled (Placement.placingsOfAll placements))
    (same : second.node = first.node) : first = second := by
  have separate := arranged.separate
  have isScheduled : ∀ placing ∈ Placement.placingsOfAll placements, placing.id = first.node →
      placing.scheduled? = some first.node := by
    intro placing placed named
    cases placing with
    | inlined id =>
        rw [← show id = first.node from named] at scheduled
        exact absurd scheduled (separate.apart id placed)
    | step | iteration => exact congrArg some named
  have once : ((Placement.placingsOfAll placements).map Placing.id).Pairwise fun one other =>
      one = first.node → other ≠ first.node := by
    refine List.pairwise_map.mpr ((List.pairwise_filterMap.mp separate.distinct).imp_of_mem ?_)
    intro one other inOne inOther apart isOne isOther
    exact apart _ (isScheduled one inOne isOne) _ (isScheduled other inOther isOther) rfl
  rw [← @Binding.node_stagesOfAll (.ofWorkflow workflow) [] []] at once
  have symmetric : Std.Symm fun one other : Stage => one.node = first.node →
      other.node ≠ first.node :=
    ⟨fun _ _ apart isOne isOther => apart isOther isOne⟩
  by_contra different
  exact (List.pairwise_map.mp once).forall inFirst inSecond different rfl same

end Scheduler.Arranged

/-! ### Failures -/

namespace Enclosure

/-- The instances that have to fail for a dry run to enter a path. -/
def failing (path : List Enclosure) : List String :=
  path.filterMap fun
    | arm head false => some head
    | _ => none

theorem mem_failing {path : List Enclosure} {id : String} :
    id ∈ failing path ↔ .arm id false ∈ path := by
  rw [failing, List.mem_filterMap]
  constructor
  · rintro ⟨enclosure, member, found⟩
    split at found
    · cases found
      exact member
    · cases found
  · exact fun member => ⟨_, member, rfl⟩

/-- **A dry run enters a path where the heads fail that have to**, and others in none of whose arms
it lies. -/
theorem all_isEntered {path : List Enclosure} {others : List String}
    (consistent : ∀ head, .arm head true ∈ path → .arm head false ∉ path)
    (apart : ∀ id ∈ others, ∀ onSuccess, .arm id onSuccess ∉ path) :
    path.all (isEntered (failing path ++ others)) = true := by
  rw [List.all_eq_true]
  intro enclosure member
  cases enclosure with
  | body => rfl
  | arm head onSuccess =>
      cases onSuccess with
      | true =>
          have succeeds : head ∉ failing path ++ others := by
            rw [List.mem_append, not_or, mem_failing]
            exact ⟨consistent head member, fun other => apart head other true member⟩
          simpa [isEntered] using succeeds
      | false =>
          have fails : head ∈ failing path ++ others :=
            List.mem_append_left _ (mem_failing.mpr member)
          simpa [isEntered] using fails

end Enclosure

/-! ### Stages of parts -/

namespace Placement

variable {index : Index}

theorem Among.stages {placement : Placement} {placements : List Placement}
    (among : placement.Among placements) (path : List Enclosure) (merges : List Merge) :
    ∃ following, Binding.stages index path following placement ⊆
      Binding.stagesOfAll index path merges placements := by
  cases among with
  | alone member => exact Binding.stages_of_mem member path merges
  | together parallel member =>
      obtain ⟨middle, outer⟩ := @Binding.stages_of_mem index _ _ parallel path merges
      obtain ⟨following, inner⟩ := @Binding.stages_of_mem index _ _ member path middle
      exact ⟨following, List.Subset.trans inner outer⟩

theorem stages_of_mem_bodies {name owner : String} {part : List Placement}
    {bodies : List (String × List Placement)} (member : (name, part) ∈ bodies)
    (path : List Enclosure) (merges : List Merge) :
    ∃ following, Binding.stagesOfAll index (.body owner name :: path) following part ⊆
      Binding.stagesOfBodies index path merges owner bodies := by
  induction bodies generalizing merges with
  | nil => cases member
  | cons entry rest ih =>
      rcases List.mem_cons.mp member with rfl | later
      · exact ⟨merges, List.subset_append_left _ _⟩
      · obtain ⟨following, inner⟩ := ih later (Binding.placeAll index merges entry.2).2
        exact ⟨following, List.subset_append_of_subset_right _ inner⟩

theorem Encloses.stages {placement : Placement} {enclosure : Enclosure} {part : List Placement}
    (encloses : placement.Encloses enclosure part) (path : List Enclosure) (merges : List Merge) :
    ∃ following, Binding.stagesOfAll index (enclosure :: path) following part ⊆
      Binding.stages index path merges placement := by
  cases encloses with
  | body member =>
      obtain ⟨following, inner⟩ := stages_of_mem_bodies member path merges
      exact ⟨following, List.subset_cons_of_subset _ inner⟩
  | headBody member =>
      obtain ⟨following, inner⟩ := stages_of_mem_bodies member path _
      exact ⟨following, List.subset_cons_of_subset _ (List.subset_append_of_subset_left _ inner)⟩
  | thenArm => exact ⟨_, List.subset_cons_of_subset _
      (List.subset_append_of_subset_right _ (List.subset_append_left _ _))⟩
  | elseArm => exact ⟨_, List.subset_cons_of_subset _
      (List.subset_append_of_subset_right _ (List.subset_append_right _ _))⟩

/-- **The stages of a part of an arrangement are stages of the arrangement**, in all that the part
lies in. -/
theorem Part.stages {placements part : List Placement} {path : List Enclosure}
    (isPart : Part placements path part) :
    ∃ merges, Binding.stagesOfAll index path merges part ⊆
      Binding.stagesOfAll index [] [] placements := by
  induction isPart with
  | whole => exact ⟨[], List.Subset.refl _⟩
  | @inner path _ _ _ _ _ among encloses ih =>
      obtain ⟨outer, inOuter⟩ := ih
      obtain ⟨middle, inMiddle⟩ := @Among.stages index _ _ among path outer
      obtain ⟨merges, inner⟩ := @Encloses.stages index _ _ _ encloses path middle
      exact ⟨merges, List.Subset.trans inner (List.Subset.trans inMiddle inOuter)⟩

end Placement

/-- The instance in whose arm or scope a part stands is bound outside of it. -/
theorem Placement.Part.exists_owner {placements part : List Placement} {enclosure : Enclosure}
    {path : List Enclosure} (isPart : Part placements (enclosure :: path) part) :
    ∃ stage ∈ Binding.stagesOfAll (.ofWorkflow workflow) [] [] placements,
      stage.node = enclosure.owner ∧ stage.path = path := by
  cases isPart with
  | inner outer among encloses =>
      obtain ⟨merges, inOuter⟩ := @Part.stages (.ofWorkflow workflow) _ _ _ outer
      obtain ⟨following, inPart⟩ := @Among.stages (.ofWorkflow workflow) _ _ among path merges
      cases encloses <;> exact ⟨_, inOuter (inPart List.mem_cons_self), rfl, rfl⟩

/-! ### Heads -/

/-- How the head of a cluster is bound in an arrangement with some stages. -/
structure Cluster.BoundAt (workflow : Workflow) (stages : List Stage) (cluster : Cluster)
    (stage : Stage) :
    Prop where
  member : stage ∈ stages
  node : stage.node = cluster.head
  region : (Index.ofWorkflow workflow).regionOf cluster.head = Enclosure.region stage.path
  /-- The instance whose arm or scope is innermost around the head is bound outside of it. -/
  owner : ∀ enclosure outer, stage.path = enclosure :: outer →
    ∃ other ∈ stages, other.node = enclosure.owner ∧ other.path = outer
  /-- The arms around the head are those of branches that hold the cluster. -/
  around : ∀ head onSuccess, .arm head onSuccess ∈ stage.path →
    ∃ branch arms, workflow.HasCluster branch ∧
    branch.arms = some arms ∧ branch.head = head ∧ ∀ id ∈ cluster.inside, id ∈ branch.inside ∧
    id ≠ head
  /-- No two arms of one branch are around the head. -/
  consistent : ∀ head, .arm head true ∈ stage.path → .arm head false ∉ stage.path
  /-- The expressions that the cluster needs are in reach. -/
  needed : ∀ id ∈ (Analysis.ofWorkflow workflow).neededBy cluster,
    id ∈ workflow.instances.map (·.id) → InReach stages stage.path id

/-- **Every cluster that comes up is placed**, and the stages of its placement are stages of the
arrangement. -/
theorem Workflow.HasCluster.exists_placed {scheduler : Scheduler} {cluster : Cluster}
    (comesUp : workflow.HasCluster cluster) (certified : Certified workflow)
    {placements : List Placement} (arranged : Scheduler.Arranged scheduler (.ofWorkflow workflow)
      (.ofRegion (.ofWorkflow workflow) none [] []) placements) :
    ∃ block placement path merges, Scheduler.Placed scheduler (.ofWorkflow workflow) block
      cluster placement ∧ Binding.stages (.ofWorkflow workflow) path merges placement ⊆
        Binding.stagesOfAll (.ofWorkflow workflow) [] [] placements := by
  obtain ⟨members, formed, member⟩ := comesUp
  obtain ⟨path, block, part, rfl, located⟩ := formed.located certified arranged
  obtain ⟨inner, placement, here⟩ := located.exists_placed certified member
  obtain ⟨outer, inOuter⟩ := @Placement.Part.stages (.ofWorkflow workflow) _ _ _ located.isPart
  obtain ⟨merges, inPart⟩ :=
    @Placement.Among.stages (.ofWorkflow workflow) _ _ here.among path outer
  exact ⟨_, placement, path, merges, here.placed, List.Subset.trans inPart inOuter⟩

/-- **The head of every cluster that comes up is bound.** -/
theorem Workflow.HasCluster.exists_boundAt {scheduler : Scheduler} {cluster : Cluster}
    (comesUp : workflow.HasCluster cluster) (certified : Certified workflow)
    {placements : List Placement} (arranged : Scheduler.Arranged scheduler (.ofWorkflow workflow)
      (.ofRegion (.ofWorkflow workflow) none [] []) placements) :
    ∃ stage, cluster.BoundAt workflow
      (Binding.stagesOfAll (.ofWorkflow workflow) [] [] placements) stage := by
  obtain ⟨members, formed, member⟩ := comesUp
  obtain ⟨path, block, part, rfl, located⟩ := formed.located certified arranged
  obtain ⟨inner, placement, here⟩ := located.exists_placed certified member
  obtain ⟨outer, inOuter⟩ := @Placement.Part.stages (.ofWorkflow workflow) _ _ _ located.isPart
  obtain ⟨merges, inPart⟩ :=
    @Placement.Among.stages (.ofWorkflow workflow) _ _ here.among path outer
  obtain ⟨stage, bound, same, rfl⟩ := here.placed.head_mem_stages path merges
  have headIn := (Cluster.exists_of_mem_ofBlock member).2.1
  refine ⟨stage, inOuter (inPart bound), same, located.lives.regionOf headIn,
    fun enclosure outer path => ?_,
    fun head onSuccess around => ?_, located.consistent, fun id needed known => ?_⟩
  · exact Placement.Part.exists_owner (path ▸ located.isPart)
  · obtain ⟨branch, arms, comesUp, branching, heads, holds⟩ := located.around head onSuccess around
    exact ⟨branch, arms, comesUp, branching, heads, fun id inside =>
      holds id ⟨cluster, member, inside⟩⟩
  · obtain ⟨outerPath, outerPart, isPart, suffix, inlined⟩ :=
      located.available_inner here (here.needed id needed known)
    obtain ⟨outer, inOuter⟩ := @Placement.Part.stages (.ofWorkflow workflow) _ _ _ isPart
    obtain ⟨merges, inPart⟩ := @Binding.stages_of_mem (.ofWorkflow workflow) _ _ inlined
      outerPath outer
    exact ⟨⟨id, merges, outerPath⟩, inOuter (inPart List.mem_cons_self), rfl, suffix⟩

/-! ### Arms -/

/-- The arm of an outcome. -/
def Arms.side (arms : Arms) : Bool → List String
  | true => arms.thenMembers
  | false => arms.elseMembers

theorem Arms.Opposite.exists_side {arms : Arms} {arm other : List String}
    (opposite : arms.Opposite arm other) :
    ∃ onSuccess, arm = arms.side onSuccess := by
  cases opposite with
  | success => exact ⟨true, rfl⟩
  | failure => exact ⟨false, rfl⟩

theorem Arms.mem_members_iff_side {arms : Arms} {id : String} :
    id ∈ arms.members ↔ ∃ onSuccess, id ∈ arms.side onSuccess := by
  rw [mem_members_iff, Bool.exists_bool, or_comm]
  rfl

/-- What the arms of a cluster place is in the arm of an outcome. -/
theorem Cluster.exists_side {cluster : Cluster} {id : String} (inArms : id ∈ cluster.armMembers) :
    ∃ arms onSuccess, cluster.arms = some arms ∧ id ∈ arms.side onSuccess := by
  cases branching : cluster.arms with
  | none => simp [armMembers, branching] at inArms
  | some arms =>
      rw [armMembers_eq branching] at inArms
      obtain ⟨onSuccess, inArm⟩ := Arms.mem_members_iff_side.mp inArms
      exact ⟨arms, onSuccess, rfl, inArm⟩

theorem Cluster.mem_armMembers_of_side {cluster : Cluster} {arms : Arms} {onSuccess : Bool}
    {id : String} (branching : cluster.arms = some arms) (inSide : id ∈ arms.side onSuccess) :
    id ∈ cluster.armMembers := by
  rw [armMembers_eq branching]
  exact Arms.mem_members_iff_side.mpr ⟨onSuccess, inSide⟩

theorem Arms.opposite_side (arms : Arms) (onSuccess : Bool) :
    arms.Opposite (arms.side onSuccess) (arms.side !onSuccess) := by
  cases onSuccess with
  | true => exact .success
  | false => exact .failure

namespace Scheduler

open Placement

variable {scheduler : Scheduler} {placements : List Placement}

theorem Placed.side {analysis : Analysis} {block : Block} {cluster : Cluster}
    {placement : Placement} {arms : Arms}
    (placed : Placed scheduler analysis block cluster placement)
    (branching : cluster.arms = some arms) (onSuccess : Bool) :
    ∃ part, placement.Encloses (.arm cluster.head onSuccess) part ∧
      Arranged scheduler analysis
        (block.ofArm analysis cluster.head (arms.side onSuccess)) part := by
  cases placed with
  | node _ _ single =>
      rw [branching] at single
      cases single
  | branch _ _ found thenArm elseArm =>
      rw [branching] at found
      cases found
      cases onSuccess with
      | true => exact ⟨_, .thenArm, thenArm⟩
      | false => exact ⟨_, .elseArm, elseArm⟩

theorem exists_stage_of_placed {path : List Enclosure} {merges : List Merge} {id : String}
    (scheduled : id ∈ Placing.scheduled (placingsOfAll placements)) :
    ∃ stage ∈ Binding.stagesOfAll (.ofWorkflow workflow) path merges placements,
      stage.node = id := by
  have placed := Placing.mem_map_id scheduled
  rw [← @Binding.node_stagesOfAll (.ofWorkflow workflow) path merges] at placed
  exact List.mem_map.mp placed

end Scheduler

/-- **The members of an arm are bound in the arm**, which stands where the head is bound. -/
theorem Workflow.HasCluster.exists_stages_of_arm {scheduler : Scheduler} {cluster : Cluster}
    (comesUp : workflow.HasCluster cluster) (certified : Certified workflow)
    {placements : List Placement} (arranged : Scheduler.Arranged scheduler (.ofWorkflow workflow)
      (.ofRegion (.ofWorkflow workflow) none [] []) placements) {arms : Arms}
    (branching : cluster.arms = some arms) {onSuccess : Bool} {id : String}
    (inArm : id ∈ arms.side onSuccess) :
    ∃ head ∈ Binding.stagesOfAll (.ofWorkflow workflow) [] [] placements, head.node = cluster.head ∧
      ∃ stage ∈ Binding.stagesOfAll (.ofWorkflow workflow) [] [] placements, stage.node = id ∧
        .arm cluster.head onSuccess :: head.path <:+ stage.path := by
  obtain ⟨block, placement, path, merges, placed, inAll⟩ := comesUp.exists_placed certified arranged
  obtain ⟨members, formed, member⟩ := comesUp
  have armFormed := Formed.arm formed member branching (arms.opposite_side onSuccess)
  obtain ⟨head, headBound, isHead, rfl⟩ := placed.head_mem_stages path merges
  obtain ⟨part, encloses, arrangedPart⟩ := placed.side branching onSuccess
  obtain ⟨following, inPlacement⟩ :=
    @Placement.Encloses.stages (.ofWorkflow workflow) _ _ _ encloses head.path merges
  obtain ⟨stage, bound, same⟩ :=
    Scheduler.exists_stage_of_placed (arrangedPart.places armFormed inArm)
  exact ⟨head, inAll headBound, isHead, stage, inAll (inPlacement bound), same,
    Binding.path_of_mem_stagesOfAll bound⟩

theorem Workflow.HasCluster.exists_stage_in_arm {scheduler : Scheduler} {cluster : Cluster}
    (comesUp : workflow.HasCluster cluster) (certified : Certified workflow)
    {placements : List Placement} (arranged : Scheduler.Arranged scheduler (.ofWorkflow workflow)
      (.ofRegion (.ofWorkflow workflow) none [] []) placements) {arms : Arms}
    (branching : cluster.arms = some arms) {onSuccess : Bool} {id : String}
    (inArm : id ∈ arms.side onSuccess) :
    ∃ stage ∈ Binding.stagesOfAll (.ofWorkflow workflow) [] [] placements,
      stage.node = id ∧ .arm cluster.head onSuccess ∈ stage.path := by
  obtain ⟨_, _, _, stage, bound, same, suffix⟩ :=
    comesUp.exists_stages_of_arm certified arranged branching inArm
  exact ⟨stage, bound, same, suffix.subset List.mem_cons_self⟩

theorem Workflow.HasCluster.exists_stage_of_mem_arms {scheduler : Scheduler} {cluster : Cluster}
    (comesUp : workflow.HasCluster cluster) (certified : Certified workflow)
    {placements : List Placement} (arranged : Scheduler.Arranged scheduler (.ofWorkflow workflow)
      (.ofRegion (.ofWorkflow workflow) none [] []) placements) {id : String}
    (inArms : id ∈ cluster.armMembers) :
    ∃ stage ∈ Binding.stagesOfAll (.ofWorkflow workflow) [] [] placements, stage.node = id := by
  obtain ⟨arms, _, branching, inSide⟩ := Cluster.exists_side inArms
  obtain ⟨stage, bound, same, _⟩ := comesUp.exists_stage_in_arm certified arranged branching inSide
  exact ⟨stage, bound, same⟩

/-- The members of a cluster are instances that are scheduled. -/
theorem Workflow.HasCluster.member_scheduled {cluster : Cluster}
    (comesUp : workflow.HasCluster cluster) {id : String} (member : id ∈ cluster.members) :
    id ∈ workflow.instances.map (·.id) ∧ (Index.ofWorkflow workflow).isExpression id = false := by
  obtain ⟨members, formed, inBlock⟩ := comesUp
  obtain ⟨region, block⟩ := formed.isBlock
  have inMembers := Cluster.members_subset block.distinct inBlock member
  exact ⟨block.named inMembers, (Index.mem_scheduledIn.mp (block.inside _ inMembers)).2⟩

/-- The members of a cluster live in one region. -/
theorem Workflow.HasCluster.regionOf_eq {cluster : Cluster} (comesUp : workflow.HasCluster cluster)
    {one other : String} (member : one ∈ cluster.members) (memberToo : other ∈ cluster.members) :
    (Index.ofWorkflow workflow).regionOf one = (Index.ofWorkflow workflow).regionOf other := by
  obtain ⟨members, formed, inBlock⟩ := comesUp
  obtain ⟨region, block⟩ := formed.isBlock
  have subset := Cluster.members_subset block.distinct inBlock
  rw [block.regionOf (subset member), block.regionOf (subset memberToo)]

/-- **Wherever a member of an arm is bound, it is in the arm.** -/
theorem Scheduler.Arranged.suffix_of_mem_arms {scheduler : Scheduler} {placements : List Placement}
    (arranged : Arranged scheduler (.ofWorkflow workflow)
      (.ofRegion (.ofWorkflow workflow) none [] []) placements) (certified : Certified workflow)
    {branch : Cluster} (comesUp : workflow.HasCluster branch) {head stage : Stage}
    (headBound : head ∈ Binding.stagesOfAll (.ofWorkflow workflow) [] [] placements)
    (isHead : head.node = branch.head)
    (bound : stage ∈ Binding.stagesOfAll (.ofWorkflow workflow) [] [] placements)
    (inArms : stage.node ∈ branch.armMembers) :
    ∃ onSuccess, .arm branch.head onSuccess :: head.path <:+ stage.path := by
  obtain ⟨arms, onSuccess, branching, inSide⟩ := Cluster.exists_side inArms
  obtain ⟨headToo, headBoundToo, isHeadToo, stageToo, boundToo, same, suffix⟩ :=
    comesUp.exists_stages_of_arm certified arranged branching inSide
  have scheduled : ∀ stage ∈ Binding.stagesOfAll (.ofWorkflow workflow) [] [] placements,
      stage.node ∈ branch.members →
      stage.node ∈ Placing.scheduled (Placement.placingsOfAll placements) :=
    fun stage bound member => arranged.scheduled_of_placed .top (List.Subset.refl _)
      (Binding.node_of_mem_stagesOfAll bound) (comesUp.member_scheduled member).2
  obtain rfl := arranged.stage_unique headBound headBoundToo
    (scheduled head headBound (isHead ▸ List.mem_cons_self)) (isHeadToo.trans isHead.symm)
  obtain rfl := arranged.stage_unique bound boundToo
    (scheduled stage bound (List.mem_cons_of_mem _ inArms)) same
  exact ⟨onSuccess, suffix⟩

end WorkflowGraph
