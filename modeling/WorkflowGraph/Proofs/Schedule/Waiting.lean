/-
What the clusters of a block wait for.

* `Cluster.Ready` — a cluster can be placed once what it waits for is settled; `ReadyOrder` is an
  order of the clusters of a block in which each is ready after those before it.
* `Orderly` — a block can be arranged: its clusters have a ready order, and no arm of a branch reads
  the opposite arm.
* `Certified.closed_top`, `closed_body`, `closed_arm` — all that the clusters of a block wait for
  lies in the block or has been placed before it.
* `Certified.fresh_body`, `fresh_arm` — nothing in a block has been placed before it.
-/

import WorkflowGraph.Proofs.Schedule.Inside

namespace WorkflowGraph

/-! ### Orders -/

/-- Whether an instance is inside one of some clusters. -/
def Inside (clusters : List Cluster) (id : String) : Prop :=
  ∃ cluster ∈ clusters, id ∈ cluster.inside

/-- Whether nothing has to wait for an instance any more, once some clusters of a block are placed:
it is inside one of them, or not in the block at all. -/
def Settled (clusters placed : List Cluster) (id : String) : Prop :=
  Inside clusters id → Inside placed id

/-- Whether a cluster can be placed: what it reads is settled, and so are all triggers of its head,
or one of them where one is enough. -/
def Cluster.Ready (analysis : Analysis) (settled : String → Prop) (cluster : Cluster) : Prop :=
  (∀ id ∈ cluster.prerequisites, settled id) ∧
    match (analysis.index.nodeType? cluster.head).map NodeType.trigger with
    | some .disjunction =>
      analysis.triggersOf cluster.head = [] ∨ ∃ id ∈ analysis.triggersOf cluster.head, settled id
    | _ => ∀ id ∈ analysis.triggersOf cluster.head, settled id

/-- Whether each of some clusters is ready after those in front of it and those that are placed. -/
def ReadyOrder (analysis : Analysis) (clusters : List Cluster) : List Cluster → List Cluster → Prop
  | _, [] => True
  | placed, cluster :: rest =>
    cluster.Ready analysis (Settled clusters placed) ∧
      ReadyOrder analysis clusters (cluster :: placed) rest

/-- The members of an arm and all that is nested in their scopes. -/
def Arms.insideOf (analysis : Analysis) (arm : List String) : List String :=
  arm ++ arm.flatMap analysis.descendants

/-- Whether nothing inside one arm reads what is inside the opposite one. -/
def Arms.Apart (analysis : Analysis) (arms : Arms) : Prop :=
  ∀ arm other, arms.Opposite arm other → ∀ reader ∈ insideOf analysis arm,
    ∀ source ∈ analysis.dataOf reader, source ∉ insideOf analysis other

/-- Whether a block can be arranged. -/
structure Orderly (analysis : Analysis) (block : List String) : Prop where
  /-- The clusters of the block have an order in which each is ready. -/
  order : ∃ order, order.Perm (Cluster.ofBlock analysis block) ∧
    ReadyOrder analysis (Cluster.ofBlock analysis block) [] order
  /-- Opposite arms do not read each other. -/
  apart : ∀ cluster ∈ Cluster.ofBlock analysis block, ∀ arms, cluster.arms = some arms →
    arms.Apart analysis

/-- More clusters are ready where more is settled. -/
theorem Cluster.Ready.imp {analysis : Analysis} {settled settledToo : String → Prop}
    {cluster : Cluster} (ready : cluster.Ready analysis settled)
    (more : ∀ id, id ∈ cluster.prerequisites ∨ id ∈ analysis.triggersOf cluster.head →
      settled id → settledToo id) : cluster.Ready analysis settledToo := by
  unfold Cluster.Ready at ready ⊢
  refine ⟨fun id member => more id (.inl member) (ready.1 id member), ?_⟩
  have triggers := ready.2
  split at triggers
  · exact triggers.imp_right fun ⟨id, member, known⟩ => ⟨id, member, more id (.inr member) known⟩
  · exact fun id member => more id (.inr member) (triggers id member)

theorem inside_append {first second : List Cluster} {id : String} :
    Inside (first ++ second) id ↔ Inside first id ∨ Inside second id := by
  simp only [Inside, List.mem_append, or_and_right, exists_or]

theorem Inside.subset {first second : List Cluster} {id : String} (inside : Inside first id)
    (subset : first ⊆ second) : Inside second id := by
  obtain ⟨cluster, member, within⟩ := inside
  exact ⟨cluster, subset member, within⟩

theorem mem_flatMap_inside {clusters : List Cluster} {id : String} :
    id ∈ clusters.flatMap (·.inside) ↔ Inside clusters id :=
  List.mem_flatMap

namespace ReadyOrder

variable {analysis : Analysis} {clusters placed first second : List Cluster}

/-- Clusters that are all ready at once are ready one after the other. -/
theorem append (all : ∀ cluster ∈ first, cluster.Ready analysis (Settled clusters placed))
    (rest : ReadyOrder analysis clusters (first.reverse ++ placed) second) :
    ReadyOrder analysis clusters placed (first ++ second) := by
  induction first generalizing placed with
  | nil => exact rest
  | cons cluster others ih =>
      refine ⟨all cluster List.mem_cons_self, ih (fun other member => ?_) (by simpa using rest)⟩
      refine (all other (List.mem_cons_of_mem _ member)).imp fun id _ settled inside => ?_
      exact (settled inside).subset (List.subset_cons_self _ _)

/-- A cluster of an order is ready after those in front of it. -/
theorem ready {cluster : Cluster}
    (order : ReadyOrder analysis clusters placed (first ++ cluster :: second)) :
    cluster.Ready analysis (Settled clusters (first.reverse ++ placed)) := by
  induction first generalizing placed with
  | nil => exact order.1
  | cons head others ih => simpa using ih order.2

end ReadyOrder

variable {workflow : Workflow}

/-- Every block that is formed has scheduled instances of one region. -/
theorem Formed.isBlock {block : List String} (formed : Formed (.ofWorkflow workflow) block) :
    ∃ region, IsBlock workflow region block := by
  induction formed with
  | top => exact ⟨_, .whole none⟩
  | body => exact ⟨_, .whole _⟩
  | arm _ member branching opposite ih =>
      obtain ⟨region, block⟩ := ih
      exact ⟨region, block.part
        (opposite.sublist ((Cluster.exists_of_mem_ofBlock member).2.2 _ branching))⟩

/-! ### Closed blocks -/

/-- Whether all that pending clusters wait for is resolved or pending itself. -/
structure Closed (analysis : Analysis) (resolved : List String) (pending : List Cluster) :
    Prop where
  data : ∀ reader, Inside pending reader → ∀ source ∈ analysis.dataOf reader,
    source ∈ resolved ∨ Inside pending source
  triggers : ∀ cluster ∈ pending, ∀ follower ∈ cluster.members,
    ∀ source ∈ analysis.triggersOf follower, source ∈ resolved ∨ Inside pending source

/-- What a cluster of a closed block waits for is resolved or in the block. -/
theorem Closed.prerequisites {analysis : Analysis} {resolved block : List String}
    (closed : Closed analysis resolved (Cluster.ofBlock analysis block)) {cluster : Cluster}
    (member : cluster ∈ Cluster.ofBlock analysis block) {id : String}
    (needed : id ∈ cluster.prerequisites) :
    id ∈ resolved ∨ Inside (Cluster.ofBlock analysis block) id := by
  rcases ((Cluster.mem_prerequisites_iff member).mp needed).1 with
    ⟨reader, inside, reads⟩ | ⟨follower, inArms, triggers⟩
  · exact closed.data reader ⟨cluster, member, inside⟩ id reads
  · exact closed.triggers cluster member follower (List.mem_cons_of_mem _ inArms) id triggers

namespace Certified

variable {region : Region} {members : List String} {cluster : Cluster}

/-- What triggers a scheduled instance of a region is held by one. -/
theorem held_of_triggers (certified : Certified workflow) {follower source : String}
    (inRegion : follower ∈ (Index.ofWorkflow workflow).scheduledIn region)
    (triggers : source ∈ (Analysis.ofWorkflow workflow).triggersOf follower) :
    source ∈ workflow.instances.map (·.id) ∧
      (source ∈ (Index.ofWorkflow workflow).scheduledIn region ∨
        (Index.ofWorkflow workflow).NestedIn source follower) := by
  obtain ⟨rank, ranks⟩ := certified.ranked
  obtain ⟨known, ordinary, ⟨same, _⟩ | ⟨name, lives⟩⟩ := certified.triggers_cases ranks triggers
  · refine ⟨known, .inl (Index.mem_scheduledIn.mpr ⟨?_, ordinary⟩)⟩
    obtain ⟨inst, declared, rfl⟩ := List.mem_map.mp known
    refine ⟨inst, certified.find?_eq declared, ?_⟩
    rw [← certified.regionOf_eq declared, same, Index.regionOf_of_mem_scheduledIn inRegion]
  · exact ⟨known, .inr ⟨name, lives ▸ .refl _⟩⟩

/-- The block of a region is closed, if what is read from around the region is resolved. -/
theorem closed_region (certified : Certified workflow) {resolved : List String}
    (around : ∀ holder ∈ (Index.ofWorkflow workflow).scheduledIn region, ∀ reader,
      (Index.ofWorkflow workflow).Holds holder reader → reader ∈ workflow.instances.map (·.id) →
      ∀ source ∈ (Analysis.ofWorkflow workflow).dataOf reader,
        source ∈ resolved ∨
          (Index.ofWorkflow workflow).Within ((Index.ofWorkflow workflow).regionOf source) region) :
    Closed (.ofWorkflow workflow) resolved
      (Cluster.ofBlock (.ofWorkflow workflow)
        ((Index.ofWorkflow workflow).scheduledIn region)) := by
  have block := @IsBlock.whole workflow region
  constructor
  · intro reader inside source reads
    obtain ⟨known, holder, inRegion, held⟩ := (certified.exists_inside_iff block).mp inside
    refine (around holder inRegion reader held known source reads).imp_right fun within => ?_
    obtain ⟨ordinary, reads⟩ := Analysis.sound_dataOf reads
    obtain ⟨sourceKnown, inwards⟩ := certified.reads_inwards known reads
    exact (certified.exists_inside_iff block).mpr
      ⟨sourceKnown, certified.held_of_inwards inRegion held sourceKnown ordinary inwards within⟩
  · intro cluster member follower inMembers source triggers
    have inRegion := Cluster.members_subset block.distinct member inMembers
    obtain ⟨known, here | nested⟩ := certified.held_of_triggers inRegion triggers
    · exact .inr ((certified.exists_inside_iff block).mpr ⟨known, source, here, .inl rfl⟩)
    · exact .inr ((certified.exists_inside_iff block).mpr ⟨known, follower, inRegion, .inr nested⟩)

/-- **The top level waits for nothing outside.** -/
theorem closed_top (certified : Certified workflow) :
    Closed (.ofWorkflow workflow) []
      (Cluster.ofBlock (.ofWorkflow workflow) ((Index.ofWorkflow workflow).scheduledIn none)) := by
  refine certified.closed_region fun holder inRegion reader held known source reads => .inr ?_
  obtain ⟨sourceKnown, _⟩ := certified.reads_inwards known (Analysis.sound_dataOf reads).2
  obtain ⟨level, at_, _⟩ := certified.level sourceKnown
  exact at_.within_top

/-- What is read inside of a cluster is a prerequisite, or inside too. -/
theorem mem_prerequisites_of_reads
    (member : cluster ∈ Cluster.ofBlock (.ofWorkflow workflow) members) {reader source : String}
    (inside : reader ∈ cluster.inside)
    (reads : source ∈ (Analysis.ofWorkflow workflow).dataOf reader) :
    source ∈ cluster.prerequisites ∨ source ∈ cluster.inside := by
  by_cases here : source ∈ cluster.inside
  · exact .inr here
  · exact .inl ((Cluster.mem_prerequisites_iff member).mpr ⟨.inl ⟨reader, inside, reads⟩, here⟩)

/-- **The inside of a scope of a head only waits for itself, for the head, and for what the cluster
waits for.** -/
theorem closed_body (certified : Certified workflow) (block : IsBlock workflow region members)
    (member : cluster ∈ Cluster.ofBlock (.ofWorkflow workflow) members) {resolved : List String}
    (resolves : ∀ id ∈ cluster.prerequisites, id ∈ resolved) (name : String) :
    Closed (.ofWorkflow workflow) (cluster.head :: resolved)
      (Cluster.ofBlock (.ofWorkflow workflow)
        ((Index.ofWorkflow workflow).scheduledIn (some ⟨cluster.head, name⟩))) := by
  obtain ⟨rank, ranks⟩ := certified.ranked
  refine certified.closed_region fun holder inScope reader held known source reads => ?_
  have headInBlock := (Cluster.exists_of_mem_ofBlock member).2.1
  obtain ⟨level, at_, _⟩ := certified.level (block.named headInBlock)
  have within : (Index.ofWorkflow workflow).Within ((Index.ofWorkflow workflow).regionOf reader)
      (some ⟨cluster.head, name⟩) := by
    rcases held with rfl | ⟨inner, toHolder⟩
    · exact Index.regionOf_of_mem_scheduledIn inScope ▸ .refl _
    · exact toHolder.trans (.outward (Index.regionOf_of_mem_scheduledIn inScope ▸ .refl _))
  have nested : (Index.ofWorkflow workflow).NestedIn reader cluster.head := ⟨name, within⟩
  have readerInside : reader ∈ cluster.inside :=
    (certified.mem_inside block member).mpr ⟨known, _, List.mem_cons_self, .inr nested⟩
  obtain ⟨sourceKnown, less, inwards⟩ :=
    certified.reads_cases ranks known (Analysis.sound_dataOf reads).2
  rcases mem_prerequisites_of_reads member readerInside reads with needed | inside
  · exact .inl (List.mem_cons_of_mem _ (resolves source needed))
  obtain ⟨_, other, inMembers, holds⟩ := (certified.mem_inside block member).mp inside
  rcases List.mem_cons.mp inMembers with rfl | inArms
  · rcases holds with rfl | ⟨otherName, toHead⟩
    · exact .inl List.mem_cons_self
    · -- reader and source lie in scopes of one instance, and the reader lies inwards of the source
      have same := within.eq_of_level (inwards.trans toHead) (.scope at_) (.scope at_)
      exact .inr (same ▸ toHead)
  · -- a reader inside the head has a lower rank than the arms
    have above := certified.rank_of_mem_arms ranks block member inArms
    exfalso
    rcases holds with rfl | nestedToo
    · have := certified.rank_of_nested ranks known nested
      omega
    · have same := certified.holds_unique block headInBlock
        (Cluster.members_subset block.distinct member inMembers) (.inr nested)
        (.inr (nestedToo.of_within inwards))
      rw [same] at above
      exact Nat.lt_irrefl _ above

/-! ### Closed arms -/

variable {arms : Arms} {arm other : List String}

theorem isBlock_arm (block : IsBlock workflow region members)
    (member : cluster ∈ Cluster.ofBlock (.ofWorkflow workflow) members)
    (branching : cluster.arms = some arms) (opposite : arms.Opposite arm other) :
    IsBlock workflow region arm :=
  block.part (opposite.sublist ((Cluster.exists_of_mem_ofBlock member).2.2 arms branching))

theorem not_triggers_opposite (certified : Certified workflow)
    (block : IsBlock workflow region members) {head : String}
    (found : Arms.ofHead (.ofWorkflow workflow) (.ofBlock (.ofWorkflow workflow) members) head =
      some arms)
    (opposite : arms.Opposite arm other) {follower source : String} (here : follower ∈ arm)
    (triggers : source ∈ (Analysis.ofWorkflow workflow).triggersOf follower) : source ∉ other := by
  obtain ⟨fromElse, fromThen⟩ := certified.not_triggers_across block found triggers
  cases opposite with
  | success => exact fun there => fromElse ⟨here, there⟩
  | failure => exact fun there => fromThen ⟨here, there⟩

/-- What is inside an arm is inside one of its clusters. -/
theorem mem_insideOf (certified : Certified workflow) (block : IsBlock workflow region arm)
    {id : String} :
    id ∈ Arms.insideOf (.ofWorkflow workflow) arm ↔
      Inside (Cluster.ofBlock (.ofWorkflow workflow) arm) id := by
  rw [Inside, certified.exists_inside_iff block, Arms.insideOf, List.mem_append, List.mem_flatMap]
  constructor
  · rintro (here | ⟨holder, inArm, nested⟩)
    · exact ⟨block.named here, id, here, .inl rfl⟩
    · obtain ⟨known, nested⟩ := certified.mem_descendants.mp nested
      exact ⟨known, holder, inArm, .inr nested⟩
  · rintro ⟨known, holder, inArm, rfl | nested⟩
    · exact .inl inArm
    · exact .inr ⟨holder, inArm, certified.mem_descendants.mpr ⟨known, nested⟩⟩

/-- **The inside of a branch**: its head, what is nested in the scopes of the head, and what is
inside the two arms. -/
theorem mem_inside_branch (certified : Certified workflow) (block : IsBlock workflow region members)
    (member : cluster ∈ Cluster.ofBlock (.ofWorkflow workflow) members)
    (branching : cluster.arms = some arms) (opposite : arms.Opposite arm other) {id : String} :
    id ∈ cluster.inside ↔
      id ∈ cluster.head :: (Analysis.ofWorkflow workflow).descendants cluster.head ∨
        Inside (Cluster.ofBlock (.ofWorkflow workflow) arm) id ∨
        Inside (Cluster.ofBlock (.ofWorkflow workflow) other) id := by
  have armBlock := isBlock_arm block member branching opposite
  have otherBlock := isBlock_arm block member branching opposite.symm
  have headKnown := block.named (Cluster.exists_of_mem_ofBlock member).2.1
  rw [certified.mem_inside block member, Inside, certified.exists_inside_iff armBlock, Inside,
    certified.exists_inside_iff otherBlock, List.mem_cons, certified.mem_descendants]
  simp only [Cluster.members, List.mem_cons, Cluster.armMembers_eq branching, opposite.mem_members]
  constructor
  · rintro ⟨known, holder, rfl | inArm | inOther, held⟩
    · exact .inl (held.imp_right fun nested => ⟨known, nested⟩)
    · exact .inr (.inl ⟨known, holder, inArm, held⟩)
    · exact .inr (.inr ⟨known, holder, inOther, held⟩)
  · rintro ((rfl | ⟨known, nested⟩) | ⟨known, holder, inArm, held⟩ | ⟨known, holder, inOther, held⟩)
    · exact ⟨headKnown, _, .inl rfl, .inl rfl⟩
    · exact ⟨known, _, .inl rfl, .inr nested⟩
    · exact ⟨known, holder, .inr (.inl inArm), held⟩
    · exact ⟨known, holder, .inr (.inr inOther), held⟩

/-- **An arm only waits for itself, for the head, and for what the cluster waits for**, if it reads
nothing of the opposite arm. -/
theorem closed_arm (certified : Certified workflow) (block : IsBlock workflow region members)
    (member : cluster ∈ Cluster.ofBlock (.ofWorkflow workflow) members)
    (branching : cluster.arms = some arms) (opposite : arms.Opposite arm other)
    {resolved : List String} (resolves : ∀ id ∈ cluster.prerequisites, id ∈ resolved)
    (apart : arms.Apart (.ofWorkflow workflow)) :
    Closed (.ofWorkflow workflow)
      (cluster.head :: (Analysis.ofWorkflow workflow).descendants cluster.head ++ resolved)
      (Cluster.ofBlock (.ofWorkflow workflow) arm) := by
  have armBlock := isBlock_arm block member branching opposite
  have otherBlock := isBlock_arm block member branching opposite.symm
  have inside := @mem_inside_branch _ _ _ _ _ _ _ certified block member branching opposite
  constructor
  · intro reader inArm source reads
    rcases mem_prerequisites_of_reads member (inside.mpr (.inr (.inl inArm))) reads with
      needed | within
    · exact .inl (List.mem_append_right _ (resolves source needed))
    · rcases inside.mp within with ofHead | inArmToo | inOther
      · exact .inl (List.mem_append_left _ ofHead)
      · exact .inr inArmToo
      · exact absurd ((certified.mem_insideOf otherBlock).mpr inOther)
          (apart arm other opposite reader ((certified.mem_insideOf armBlock).mpr inArm) source
            reads)
  · intro inner innerMember follower inMembers source triggers
    have inArm := Cluster.members_subset armBlock.distinct innerMember inMembers
    obtain ⟨known, here | nested⟩ :=
      certified.held_of_triggers (armBlock.inside follower inArm) triggers
    · by_cases within : source ∈ cluster.inside
      · rcases inside.mp within with ofHead | inArmToo | inOther
        · exact .inl (List.mem_append_left _ ofHead)
        · exact .inr inArmToo
        · -- the source lives in the region of the arms, so it is a member of the opposite one
          obtain ⟨_, holder, inOther, held⟩ := (certified.exists_inside_iff otherBlock).mp inOther
          have same := certified.holds_unique (@IsBlock.whole workflow region) here
            (otherBlock.inside holder inOther) (.inl rfl) held
          exact absurd (same ▸ inOther) (certified.not_triggers_opposite block
            ((Cluster.exists_of_mem_ofBlock member).2.2 arms branching) opposite inArm triggers)
      · refine .inl (List.mem_append_right _ (resolves source ?_))
        refine (Cluster.mem_prerequisites_iff member).mpr ⟨.inr ⟨follower, ?_, triggers⟩, within⟩
        rw [Cluster.armMembers_eq branching, opposite.mem_members]
        exact .inl inArm
    · exact .inr ((certified.exists_inside_iff armBlock).mpr ⟨known, follower, inArm, .inr nested⟩)

/-! ### Fresh blocks -/

end Certified

/-- Whether nothing inside of pending clusters is resolved. -/
def Fresh (resolved : List String) (pending : List Cluster) : Prop :=
  ∀ id ∈ resolved, ¬ Inside pending id

theorem Fresh.subset {resolved fewer : List String} {pending part : List Cluster}
    (fresh : Fresh resolved pending) (subset : fewer ⊆ resolved) (inPending : part ⊆ pending) :
    Fresh fewer part :=
  fun id member inside => fresh id (subset member) (inside.subset inPending)

/-- Clusters that share nothing do so in any order. -/
theorem apart_of_perm {first second : List Cluster} (perm : first.Perm second)
    (apart : second.Pairwise fun one other => one.inside.Disjoint other.inside) :
    first.Pairwise fun one other => one.inside.Disjoint other.inside :=
  (perm.pairwise_iff fun {_ _} disjoint => disjoint.symm).mpr apart

/-- Placing some of the pending clusters resolves nothing inside of the others. -/
theorem Fresh.placed {resolved : List String} {pending ready waiting : List Cluster}
    (fresh : Fresh resolved pending) (perm : (ready ++ waiting).Perm pending)
    (apart : pending.Pairwise fun first second => first.inside.Disjoint second.inside) :
    Fresh (ready.flatMap (·.inside) ++ resolved) waiting := by
  intro id known inside
  rcases List.mem_append.mp known with inReady | before
  · obtain ⟨first, isReady, within⟩ := List.mem_flatMap.mp inReady
    obtain ⟨second, isWaiting, withinToo⟩ := inside
    exact (List.pairwise_append.mp (apart_of_perm perm apart)).2.2 first isReady second
      isWaiting within withinToo
  · exact fresh id before (inside.subset fun other among =>
      perm.subset (List.mem_append_right _ among))

namespace Certified

variable {region : Region} {members : List String} {cluster : Cluster}

/-- What is in a scope of a head is nested in the head. -/
theorem nested_of_body (certified : Certified workflow) {owner name id : String}
    (inside : Inside (Cluster.ofBlock (.ofWorkflow workflow)
      ((Index.ofWorkflow workflow).scheduledIn (some ⟨owner, name⟩))) id) :
    id ∈ workflow.instances.map (·.id) ∧ (Index.ofWorkflow workflow).NestedIn id owner := by
  obtain ⟨known, holder, inScope, held⟩ := (certified.exists_inside_iff (.whole _)).mp inside
  have holderNested : (Index.ofWorkflow workflow).NestedIn holder owner :=
    ⟨name, Index.regionOf_of_mem_scheduledIn inScope ▸ .refl _⟩
  exact ⟨known, holderNested.of_holds held⟩

/-- What is in a scope of a head is inside the cluster. -/
theorem inside_of_body (certified : Certified workflow) (block : IsBlock workflow region members)
    (member : cluster ∈ Cluster.ofBlock (.ofWorkflow workflow) members) {name id : String}
    (inside : Inside (Cluster.ofBlock (.ofWorkflow workflow)
      ((Index.ofWorkflow workflow).scheduledIn (some ⟨cluster.head, name⟩))) id) :
    id ∈ cluster.inside := by
  obtain ⟨known, nested⟩ := certified.nested_of_body inside
  exact (certified.mem_inside block member).mpr ⟨known, _, List.mem_cons_self, .inr nested⟩

/-- **Nothing in a scope of a head has been placed before.** -/
theorem fresh_body (certified : Certified workflow) (block : IsBlock workflow region members)
    (member : cluster ∈ Cluster.ofBlock (.ofWorkflow workflow) members) {resolved : List String}
    (fresh : Fresh resolved [cluster]) (name : String) :
    Fresh (cluster.head :: resolved) (Cluster.ofBlock (.ofWorkflow workflow)
      ((Index.ofWorkflow workflow).scheduledIn (some ⟨cluster.head, name⟩))) := by
  intro id resolved inside
  rcases List.mem_cons.mp resolved with rfl | before
  · obtain ⟨known, nested⟩ := certified.nested_of_body inside
    exact certified.not_nested_self known nested
  · exact fresh id before ⟨cluster, List.mem_singleton_self _,
      certified.inside_of_body block member inside⟩

/-- **Nothing in an arm has been placed before.** -/
theorem fresh_arm (certified : Certified workflow) (block : IsBlock workflow region members)
    (member : cluster ∈ Cluster.ofBlock (.ofWorkflow workflow) members) {arms : Arms}
    {arm other : List String} (branching : cluster.arms = some arms)
    (opposite : arms.Opposite arm other) {resolved : List String}
    (fresh : Fresh resolved [cluster]) :
    Fresh (cluster.head :: (Analysis.ofWorkflow workflow).descendants cluster.head ++ resolved)
      (Cluster.ofBlock (.ofWorkflow workflow) arm) := by
  have found := (Cluster.exists_of_mem_ofBlock member).2.2 arms branching
  have headInBlock := (Cluster.exists_of_mem_ofBlock member).2.1
  have armBlock := isBlock_arm block member branching opposite
  intro id resolved inside
  rcases List.mem_append.mp resolved with ofHead | before
  · obtain ⟨_, holder, inArm, held⟩ := (certified.exists_inside_iff armBlock).mp inside
    have heldByHead : (Index.ofWorkflow workflow).Holds cluster.head id :=
      (List.mem_cons.mp ofHead).imp_right fun nested => (certified.mem_descendants.mp nested).2
    obtain ⟨inBlock, different, _⟩ :=
      Arms.ledTo_of_mem found (opposite.mem_members.mpr (.inl inArm))
    exact different (certified.holds_unique block inBlock headInBlock held heldByHead)
  · exact fresh id before ⟨cluster, List.mem_singleton_self _,
      (certified.mem_inside_branch block member branching opposite).mpr (.inr (.inl inside))⟩

/-- Clusters of a block share nothing inside. -/
theorem parted (certified : Certified workflow) (block : IsBlock workflow region members) :
    (Cluster.ofBlock (.ofWorkflow workflow) members).Pairwise fun first second =>
      first.inside.Disjoint second.inside := by
  have distinct := Cluster.ofBlock_nodup (.ofWorkflow workflow) block.distinct
  refine distinct.imp_of_mem fun inFirst inSecond different id ofFirst ofSecond => different ?_
  exact certified.inside_unique block inFirst inSecond ofFirst ofSecond

end Certified

end WorkflowGraph
