/-
Every scheduled instance is the head of one cluster that comes up.

* `Formed.exists_hasCluster`, `Scheduler.Arranged.formed` — a scheduled instance lives in a region
  that comes up, and is the head of a cluster of the region or of an arm in it.
* `Workflow.HasCluster.unique` — no two clusters that come up have one head. A block is reached from
  its region through arms (`Formed.arms_of_region`), and of the arms of a block at most one holds an
  instance.
* `Formed.head_notMem_arms` — nor does a head of a block lie in an arm of another member of the
  block.
-/

import Mathlib.Logic.Relation
import WorkflowGraph.Proofs.Schedule.Waiting

namespace WorkflowGraph

variable {workflow : Workflow}

/-! ### Clusters of an instance -/

/-- **Every member of a block that comes up is the head of a cluster**, of the block or of an arm in
it. -/
theorem Formed.exists_hasCluster {members : List String}
    (formed : Formed (.ofWorkflow workflow) members) {id : String} (member : id ∈ members) :
    ∃ cluster, workflow.HasCluster cluster ∧ cluster.head = id := by
  -- the members of an arm are fewer than those of its block
  induction count : members.length using Nat.strongRecOn generalizing members with
  | ind count ih =>
      obtain ⟨region, block⟩ := formed.isBlock
      obtain ⟨cluster, inBlock, inCluster⟩ := Cluster.exists_cluster_of_mem block.distinct member
      rcases List.mem_cons.mp inCluster with rfl | inArms
      · exact ⟨cluster, ⟨members, formed, inBlock⟩, rfl⟩
      · obtain ⟨_, headIn, spec⟩ := Cluster.exists_of_mem_ofBlock inBlock
        cases branching : cluster.arms with
        | none => simp [Cluster.armMembers, branching] at inArms
        | some arms =>
            have found := spec arms branching
            have shorter : ∀ {arm other}, arms.Opposite arm other →
                arm.length < members.length := by
              intro arm other opposite
              by_contra long
              have same := (opposite.sublist found).eq_of_length_le (Nat.le_of_not_lt long)
              have inArm : cluster.head ∈ arm := same ▸ headIn
              exact (Arms.ledTo_of_mem found (opposite.mem_members.mpr (.inl inArm))).2.1 rfl
            rw [Cluster.armMembers_eq branching] at inArms
            rcases Arms.mem_members_iff.mp inArms with inThen | inElse
            · exact ih _ (count ▸ shorter .success) (.arm formed inBlock branching .success) inThen
                rfl
            · exact ih _ (count ▸ shorter .failure) (.arm formed inBlock branching .failure) inElse
                rfl

/-- What is placed under an instance lives in regions that come up, if the instance does. -/
theorem Index.Under.formed {top id : String} (under : (ofWorkflow workflow).Under top id)
    (formed : Formed (.ofWorkflow workflow)
      ((ofWorkflow workflow).scheduledIn ((ofWorkflow workflow).regionOf top)))
    (lives : top ∈ (ofWorkflow workflow).scheduledIn ((ofWorkflow workflow).regionOf top)) :
    Formed (.ofWorkflow workflow)
      ((ofWorkflow workflow).scheduledIn ((ofWorkflow workflow).regionOf id)) ∧
      id ∈ (ofWorkflow workflow).scheduledIn ((ofWorkflow workflow).regionOf id) := by
  induction under with
  | self => exact ⟨formed, lives⟩
  | inside typed declares child _ ih =>
      obtain ⟨cluster, ⟨members, comesUp, inBlock⟩, rfl⟩ := formed.exists_hasCluster lives
      have region := regionOf_of_mem_scheduledIn child
      exact ih (region ▸ .body comesUp inBlock typed declares) (region ▸ child)

/-- **A scheduled instance lives in a region that comes up.** -/
theorem Scheduler.Arranged.formed {scheduler : Scheduler} {placements : List Placement}
    {resolved available : List String} (arranged : Arranged scheduler (.ofWorkflow workflow)
      (.ofRegion (.ofWorkflow workflow) none resolved available) placements) {id : String}
    (scheduled : id ∈ Placing.scheduled (Placement.placingsOfAll placements)) :
    Formed (.ofWorkflow workflow)
        ((Index.ofWorkflow workflow).scheduledIn ((Index.ofWorkflow workflow).regionOf id)) ∧
      id ∈ (Index.ofWorkflow workflow).scheduledIn ((Index.ofWorkflow workflow).regionOf id) := by
  obtain ⟨top, member, under⟩ := ((arranged.enumerates .top).mem_iff id).mp scheduled
  have region := Index.regionOf_of_mem_scheduledIn member
  exact under.formed (region ▸ .top) (region ▸ member)

/-! ### One cluster -/

/-- Whether a list is an arm of a cluster of a block. -/
def IsArm (analysis : Analysis) (block arm : List String) : Prop :=
  ∃ cluster ∈ Cluster.ofBlock analysis block, ∃ arms other, cluster.arms = some arms ∧
    arms.Opposite arm other

namespace IsArm

variable {analysis : Analysis} {block arm other : List String}

theorem sublist (isArm : IsArm analysis block arm) : arm.Sublist block := by
  obtain ⟨cluster, member, arms, other, branching, opposite⟩ := isArm
  exact opposite.sublist ((Cluster.exists_of_mem_ofBlock member).2.2 arms branching)

/-- The cluster whose arm holds an instance. -/
theorem mem_members {cluster : Cluster} {arms : Arms} (branching : cluster.arms = some arms)
    (opposite : arms.Opposite arm other) {id : String} (inArm : id ∈ arm) :
    id ∈ cluster.members := by
  refine List.mem_cons_of_mem _ ?_
  rw [Cluster.armMembers_eq branching]
  exact opposite.mem_members.mpr (.inl inArm)

/-- No head of a block lies in an arm of it. -/
theorem head_notMem (isArm : IsArm analysis block arm) (distinct : block.Nodup) {cluster : Cluster}
    (member : cluster ∈ Cluster.ofBlock analysis block) : cluster.head ∉ arm := by
  obtain ⟨holder, inBlock, arms, other, branching, opposite⟩ := isArm
  intro inArm
  have same := Cluster.eq_of_mem_members distinct member inBlock List.mem_cons_self
    (mem_members branching opposite inArm)
  have found := (Cluster.exists_of_mem_ofBlock inBlock).2.2 arms branching
  exact (Arms.ledTo_of_mem found (opposite.mem_members.mpr (.inl inArm))).2.1 (same ▸ rfl)

/-- Of the arms of a block at most one holds an instance. -/
theorem unique (isArm : IsArm analysis block arm) (isArmToo : IsArm analysis block other)
    (distinct : block.Nodup) {id : String} (inArm : id ∈ arm) (inOther : id ∈ other) :
    arm = other := by
  obtain ⟨holder, member, arms, rest, branching, opposite⟩ := isArm
  obtain ⟨holderToo, memberToo, armsToo, restToo, branchingToo, oppositeToo⟩ := isArmToo
  obtain rfl := Cluster.eq_of_mem_members distinct member memberToo
    (mem_members branching opposite inArm) (mem_members branchingToo oppositeToo inOther)
  rw [branching] at branchingToo
  cases branchingToo
  have apart := opposite.disjoint ((Cluster.exists_of_mem_ofBlock member).2.2 arms branching) inArm
  cases opposite <;> cases oppositeToo
  · rfl
  · exact absurd inOther apart
  · exact absurd inOther apart
  · rfl

end IsArm

/-- **A block that comes up is reached from its region through arms.** -/
theorem Formed.arms_of_region {members : List String}
    (formed : Formed (.ofWorkflow workflow) members) {id : String} (member : id ∈ members) :
    Relation.ReflTransGen (IsArm (.ofWorkflow workflow))
      ((Index.ofWorkflow workflow).scheduledIn ((Index.ofWorkflow workflow).regionOf id))
      members := by
  induction formed with
  | top => exact Index.regionOf_of_mem_scheduledIn member ▸ .refl
  | body => exact Index.regionOf_of_mem_scheduledIn member ▸ .refl
  | arm _ inBlock branching opposite ih =>
      have isArm : IsArm (.ofWorkflow workflow) _ _ := ⟨_, inBlock, _, _, branching, opposite⟩
      exact (ih (isArm.sublist.subset member)).tail isArm

theorem mem_of_arms {analysis : Analysis} {block inner : List String}
    (chain : Relation.ReflTransGen (IsArm analysis) block inner) {id : String}
    (member : id ∈ inner) : id ∈ block := by
  induction chain with
  | refl => exact member
  | tail _ isArm ih => exact ih (isArm.sublist.subset member)

theorem exists_isArm {analysis : Analysis} {block : List String} {cluster : Cluster}
    (member : cluster ∈ Cluster.ofBlock analysis block) {id : String}
    (inArms : id ∈ cluster.armMembers) :
    ∃ arm, IsArm analysis block arm ∧ id ∈ arm := by
  cases branching : cluster.arms with
  | none => simp [Cluster.armMembers, branching] at inArms
  | some arms =>
      rw [Cluster.armMembers_eq branching, Arms.mem_members_iff] at inArms
      rcases inArms with inThen | inElse
      · exact ⟨_, ⟨cluster, member, arms, _, branching, .success⟩, inThen⟩
      · exact ⟨_, ⟨cluster, member, arms, _, branching, .failure⟩, inElse⟩

/-- No head of a block lies in an arm of a member of the block, in whichever block that one has its
arms. -/
theorem head_notMem_arms {analysis : Analysis} {block first second : List String}
    (distinct : block.Nodup) (toFirst : Relation.ReflTransGen (IsArm analysis) block first)
    (toSecond : Relation.ReflTransGen (IsArm analysis) block second) {one holder : Cluster}
    (inFirst : one ∈ Cluster.ofBlock analysis first)
    (inSecond : holder ∈ Cluster.ofBlock analysis second) (holderIn : holder.head ∈ first) :
    one.head ∉ holder.armMembers := by
  intro inArms
  have headIn := (Cluster.exists_of_mem_ofBlock inSecond).2.1
  induction toFirst using Relation.ReflTransGen.head_induction_on with
  | refl =>
      -- the arm lies in an arm of the block
      obtain ⟨arm, isArm, inArm⟩ := exists_isArm inSecond inArms
      obtain ⟨next, isArmToo, chain⟩ :=
        Relation.TransGen.head'_iff.mp (Relation.TransGen.tail' toSecond isArm)
      exact isArmToo.head_notMem distinct inFirst (mem_of_arms chain inArm)
  | @head block arm isArm chain ih =>
      rcases toSecond.cases_head with rfl | ⟨armToo, isArmToo, chainToo⟩
      · exact isArm.head_notMem distinct inSecond (mem_of_arms chain holderIn)
      · obtain rfl := isArm.unique isArmToo distinct (mem_of_arms chain holderIn)
          (mem_of_arms chainToo headIn)
        exact ih (isArm.sublist.nodup distinct) chainToo

/-- Of the blocks that are reached through arms only one has a cluster of a head. -/
theorem block_unique {analysis : Analysis} {block first second : List String}
    (distinct : block.Nodup) (toFirst : Relation.ReflTransGen (IsArm analysis) block first)
    (toSecond : Relation.ReflTransGen (IsArm analysis) block second) {one other : Cluster}
    (inFirst : one ∈ Cluster.ofBlock analysis first)
    (inSecond : other ∈ Cluster.ofBlock analysis second) (same : one.head = other.head) :
    first = second := by
  have oneIn := (Cluster.exists_of_mem_ofBlock inFirst).2.1
  have otherIn := (Cluster.exists_of_mem_ofBlock inSecond).2.1
  induction toFirst using Relation.ReflTransGen.head_induction_on with
  | refl =>
      rcases toSecond.cases_head with here | ⟨arm, isArm, chain⟩
      · exact here
      · exact absurd (same ▸ mem_of_arms chain otherIn) (isArm.head_notMem distinct inFirst)
  | @head block arm isArm chain ih =>
      rcases toSecond.cases_head with rfl | ⟨armToo, isArmToo, chainToo⟩
      · exact absurd (same ▸ mem_of_arms chain oneIn) (isArm.head_notMem distinct inSecond)
      · obtain rfl := isArm.unique isArmToo distinct (mem_of_arms chain oneIn)
          (same ▸ mem_of_arms chainToo otherIn)
        exact ih (isArm.sublist.nodup distinct) chainToo

/-- **No two clusters that come up have one head.** -/
theorem Workflow.HasCluster.unique {one other : Cluster} (first : workflow.HasCluster one)
    (second : workflow.HasCluster other) (same : one.head = other.head) : one = other := by
  obtain ⟨members, formed, member⟩ := first
  obtain ⟨membersToo, formedToo, memberToo⟩ := second
  have headIn := (Cluster.exists_of_mem_ofBlock member).2.1
  have headInToo := (Cluster.exists_of_mem_ofBlock memberToo).2.1
  obtain rfl := block_unique (Index.scheduledIn_nodup _) (formed.arms_of_region headIn)
    (same ▸ formedToo.arms_of_region headInToo) member memberToo same
  obtain ⟨region, block⟩ := formed.isBlock
  exact Cluster.eq_of_mem_members block.distinct member memberToo List.mem_cons_self
    (same ▸ List.mem_cons_self)

/-- **A head of a block that comes up lies in no arm of a member of the block.** -/
theorem Formed.head_notMem_arms {members around : List String}
    (formed : Formed (.ofWorkflow workflow) members)
    (formedToo : Formed (.ofWorkflow workflow) around) {cluster holder : Cluster}
    (inBlock : cluster ∈ Cluster.ofBlock (.ofWorkflow workflow) members)
    (holderInBlock : holder ∈ Cluster.ofBlock (.ofWorkflow workflow) around)
    (holderIn : holder.head ∈ members) : cluster.head ∉ holder.armMembers :=
  WorkflowGraph.head_notMem_arms (Index.scheduledIn_nodup _) (formed.arms_of_region holderIn)
    (formedToo.arms_of_region (Cluster.exists_of_mem_ofBlock holderInBlock).2.1)
      inBlock holderInBlock
    holderIn

end WorkflowGraph
