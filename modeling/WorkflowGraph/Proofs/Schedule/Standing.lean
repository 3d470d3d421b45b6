/-
How a block stands while it is arranged.

* `Cluster.Waited` — all has been placed that a cluster waits for; the scheduler only places such
  clusters (`waited_of_splitReady`).
* `Workflow.Awaits` — an instance cannot be finished before another one: it reads that one, waits
  for it as a trigger, or has it in its scopes.
* `Certified.awaits_of_inside` — what an instance inside of a cluster awaits is inside of the
  cluster too, or has been placed before it.
* `Standing` — what is known of the pending clusters of a block. It is kept from round to round, and
  carries over to the insides of scopes and to arms.
-/

import WorkflowGraph.Proofs.Schedule.Needed

namespace WorkflowGraph

/-! ### Clusters that have waited -/

/-- Whether all has been placed that a cluster waits for, where no predicate and no choice of
triggers has a say. -/
structure Cluster.Waited (analysis : Analysis) (resolved : List String) (cluster : Cluster) :
    Prop where
  prerequisites : ∀ id ∈ cluster.prerequisites, id ∈ resolved
  triggers : ∀ type, analysis.index.nodeType? cluster.head = some type →
    type.trigger = .conjunction → ∀ id ∈ analysis.triggersOf cluster.head, id ∈ resolved

namespace Scheduler

variable {scheduler : Scheduler} {analysis : Analysis} {resolved : List String}

theorem waited_of_isReady {cluster : Cluster}
    (ready : (scheduler.isReady analysis resolved cluster).outcome = .ok true) :
    cluster.Waited analysis resolved := by
  refine ⟨prerequisites_of_isReady ready, fun type typed conjunction => ?_⟩
  unfold isReady at ready
  split at ready
  · obtain ⟨found, required, ready⟩ := Attempt.outcome_bind_eq_ok.mp ready
    rw [Attempt.outcome_ofExcept, requireType_eq_ok, typed] at required
    cases required
    rw [conjunction, Attempt.outcome_pure] at ready
    simpa using ready
  · cases ready

/-- **Clusters that are placed in a round have waited.** -/
theorem waited_of_splitReady {pending ready waiting : List Cluster}
    (parted : (scheduler.splitReady analysis resolved pending).outcome = .ok (ready, waiting)) :
    ∀ cluster ∈ ready, cluster.Waited analysis resolved :=
  fun cluster member => waited_of_isReady (isReady_of_splitReady parted cluster member)

end Scheduler

/-! ### What an instance awaits -/

/-- Whether an instance cannot be finished before another one that is no expression or lies in its
scopes. -/
inductive Workflow.Awaits (workflow : Workflow) (id source : String) : Prop
  | reads : source ∈ (Analysis.ofWorkflow workflow).dataOf id → Awaits workflow id source
  | triggered {type : NodeType} : (Index.ofWorkflow workflow).nodeType? id = some type →
      type.trigger = .conjunction → source ∈ (Analysis.ofWorkflow workflow).triggersOf id →
      Awaits workflow id source
  | nested : source ∈ workflow.instances.map (·.id) →
      (Index.ofWorkflow workflow).NestedIn source id → Awaits workflow id source

/-- Whether a region lies in a scope of an instance. -/
def Index.Around (index : Index) (id : String) (region : Region) : Prop :=
  ∃ name, index.Within region (some ⟨id, name⟩)

variable {workflow : Workflow}

namespace Certified

variable {region : Region} {members : List String} {cluster : Cluster} {resolved : List String}

/-- Triggers come from the same region with lower ranks, or out of the scopes of what they
trigger. -/
theorem triggers_nested {rank : String → Nat} (certified : Certified workflow)
    (ranks : Ranks workflow rank) {id source : String}
    (triggers : source ∈ (Analysis.ofWorkflow workflow).triggersOf id) :
    (Index.ofWorkflow workflow).regionOf source = (Index.ofWorkflow workflow).regionOf id ∧
        rank source < rank id ∨
      (Index.ofWorkflow workflow).NestedIn source id :=
  (certified.triggers_cases ranks triggers).2.2.imp_right fun ⟨name, lives⟩ =>
    ⟨name, lives ▸ .refl _⟩

/-- A block does not lie in what is inside of its clusters. -/
theorem not_around_of_holds (certified : Certified workflow)
    (block : IsBlock workflow region members) {holder id : String} (inBlock : holder ∈ members)
    (held : (Index.ofWorkflow workflow).Holds holder id) :
    ¬ (Index.ofWorkflow workflow).Around id region := by
  rintro ⟨name, within⟩
  have nested : (Index.ofWorkflow workflow).NestedIn holder id :=
    ⟨name, block.regionOf inBlock ▸ within⟩
  exact certified.not_nested_self (block.named inBlock) (nested.in_holder held)

/-- A block does not lie in what has a lower rank than something inside of its clusters. -/
theorem not_around_of_rank {rank : String → Nat} (certified : Certified workflow)
    (ranks : Ranks workflow rank) (block : IsBlock workflow region members)
    {holder id source : String} (inBlock : holder ∈ members)
    (held : (Index.ofWorkflow workflow).Holds holder id)
    (known : id ∈ workflow.instances.map (·.id)) (less : rank source < rank id) :
    ¬ (Index.ofWorkflow workflow).Around source region := by
  rintro ⟨name, within⟩
  have nested : (Index.ofWorkflow workflow).NestedIn holder source :=
    ⟨name, block.regionOf inBlock ▸ within⟩
  have := certified.rank_of_nested ranks known (nested.of_holds held)
  omega

/-- **What an instance inside of a cluster awaits is inside of the cluster or has been placed
before.** -/
theorem awaits_of_inside (certified : Certified workflow) (block : IsBlock workflow region members)
    (member : cluster ∈ Cluster.ofBlock (.ofWorkflow workflow) members)
    (waited : cluster.Waited (.ofWorkflow workflow) resolved) {id source : String}
    (inside : id ∈ cluster.inside) (awaits : workflow.Awaits id source) :
    source ∈ cluster.inside ∨
      source ∈ resolved ∧ ¬ (Index.ofWorkflow workflow).Around source region := by
  obtain ⟨rank, ranks⟩ := certified.ranked
  obtain ⟨known, holder, inMembers, held⟩ := (certified.mem_inside block member).mp inside
  have inBlock := Cluster.members_subset block.distinct member inMembers
  have nestedInside : ∀ {other}, other ∈ workflow.instances.map (·.id) →
      (Index.ofWorkflow workflow).NestedIn other holder → other ∈ cluster.inside :=
      fun known nested =>
    (certified.mem_inside block member).mpr ⟨known, holder, inMembers, .inr nested⟩
  cases awaits with
  | reads listed =>
      have less := (certified.reads_cases ranks known (Analysis.sound_dataOf listed).2).2.1
      refine (mem_prerequisites_of_reads member inside listed).symm.imp_right fun needed => ?_
      exact ⟨waited.prerequisites source needed, certified.not_around_of_rank ranks block inBlock
        held known less⟩
  | @triggered type typed conjunction triggers =>
      have sourceKnown := (certified.triggers_cases ranks triggers).1
      rcases certified.triggers_nested ranks triggers with ⟨same, less⟩ | nested
      · have outside := certified.not_around_of_rank ranks block inBlock held known less
        rcases held with rfl | ⟨name, within⟩
        · rcases List.mem_cons.mp inMembers with rfl | inArms
          · exact .inr ⟨waited.triggers type typed conjunction source triggers, outside⟩
          · by_cases here : source ∈ cluster.inside
            · exact .inl here
            · exact .inr ⟨waited.prerequisites source ((Cluster.mem_prerequisites_iff member).mpr
                ⟨.inr ⟨_, inArms, triggers⟩, here⟩), outside⟩
        · exact .inl (nestedInside sourceKnown ⟨name, same ▸ within⟩)
      · exact .inl (nestedInside sourceKnown (nested.in_holder held))
  | nested sourceKnown nested => exact .inl (nestedInside sourceKnown (nested.in_holder held))

/-- **What the head of a cluster awaits, in its scopes too, is in its scopes or has been placed
before.** -/
theorem awaits_of_head (certified : Certified workflow) (block : IsBlock workflow region members)
    (member : cluster ∈ Cluster.ofBlock (.ofWorkflow workflow) members)
    (waited : cluster.Waited (.ofWorkflow workflow) resolved) {id source : String}
    (known : id ∈ workflow.instances.map (·.id))
    (held : (Index.ofWorkflow workflow).Holds cluster.head id)
    (awaits : workflow.Awaits id source) :
    source ∈ (Analysis.ofWorkflow workflow).descendants cluster.head ∨
      source ∈ resolved ∧ ¬ (Index.ofWorkflow workflow).Around source region := by
  obtain ⟨rank, ranks⟩ := certified.ranked
  have inBlock := (Cluster.exists_of_mem_ofBlock member).2.1
  have lives := block.regionOf inBlock
  have ofNested : ∀ {other}, other ∈ workflow.instances.map (·.id) →
      (Index.ofWorkflow workflow).NestedIn other id →
      other ∈ (Analysis.ofWorkflow workflow).descendants cluster.head := fun otherKnown nested =>
    certified.mem_descendants.mpr ⟨otherKnown, nested.in_holder held⟩
  cases awaits with
  | reads listed =>
      obtain ⟨sourceKnown, less, inwards⟩ :=
        certified.reads_cases ranks known (Analysis.sound_dataOf listed).2
      rcases held.within_or_nested inwards with visible | nested
      · refine .inr ⟨waited.prerequisites source ?_,
          certified.not_around_of_rank ranks block inBlock held known less⟩
        exact certified.mem_prerequisites_of_visible block member known held listed
          (lives ▸ visible)
      · exact .inl (certified.mem_descendants.mpr ⟨sourceKnown, nested⟩)
  | @triggered type typed conjunction triggers =>
      have sourceKnown := (certified.triggers_cases ranks triggers).1
      rcases certified.triggers_nested ranks triggers with ⟨same, less⟩ | nested
      · have outside := certified.not_around_of_rank ranks block inBlock held known less
        rcases held with rfl | ⟨name, within⟩
        · exact .inr ⟨waited.triggers type typed conjunction source triggers, outside⟩
        · exact .inl (certified.mem_descendants.mpr ⟨sourceKnown, name, same ▸ within⟩)
      · exact .inl (ofNested sourceKnown nested)
  | nested sourceKnown nested => exact .inl (ofNested sourceKnown nested)

end Certified

/-! ### Standing -/

/-- Whether an instance has been placed before a block, with all in its scopes. -/
def Block.Behind (block : Block) (index : Index) (id : String) : Prop :=
  id ∈ block.resolved ∧ ¬ index.Around id block.region

/-- What is known of the pending clusters of a block. -/
structure Standing (workflow : Workflow) (block : Block) (pending : List Cluster) : Prop where
  /-- The clusters are those of a block that comes up. -/
  formed : ∃ members, Formed (.ofWorkflow workflow) members ∧
    IsBlock workflow block.region members ∧ pending ⊆ Cluster.ofBlock (.ofWorkflow workflow) members
  apart : pending.Pairwise fun first second => first.inside.Disjoint second.inside
  fresh : Fresh block.resolved pending
  /-- What has been placed awaits nothing that has not. -/
  closed : ∀ id, block.Behind (.ofWorkflow workflow) id → ∀ source, workflow.Awaits id source →
    block.Behind (.ofWorkflow workflow) source

namespace Standing

variable {block : Block} {pending : List Cluster} {cluster : Cluster}

theorem fresh_of_mem (standing : Standing workflow block pending) (member : cluster ∈ pending) :
    Fresh block.resolved [cluster] :=
  standing.fresh.subset (List.Subset.refl _) (List.cons_subset.mpr ⟨member, List.nil_subset _⟩)

/-- The top level before anything is placed. -/
theorem top (certified : Certified workflow) :
    Standing workflow (.ofRegion (.ofWorkflow workflow) none [] [])
      (Cluster.ofBlock (.ofWorkflow workflow) ((Index.ofWorkflow workflow).scheduledIn none)) :=
  ⟨⟨_, .top, .whole none, List.Subset.refl _⟩, certified.parted (.whole none), fun _ none =>
    (nomatch none), fun _ none => (nomatch none.1)⟩

theorem withInlined (standing : Standing workflow block pending) (ids : List String) :
    Standing workflow (block.withInlined ids) pending :=
  ⟨standing.formed, standing.apart, standing.fresh, standing.closed⟩

/-- **What a round keeps.** -/
theorem withPlaced (standing : Standing workflow block pending) (certified : Certified workflow)
    {ready waiting : List Cluster} (perm : (ready ++ waiting).Perm pending)
    (waited : ∀ cluster ∈ ready, cluster.Waited (.ofWorkflow workflow) block.resolved) :
    Standing workflow (block.withPlaced ready) waiting := by
  obtain ⟨all, formed, isBlock, inBlock⟩ := standing.formed
  refine ⟨⟨all, formed, isBlock, fun other among =>
    inBlock (perm.subset (List.mem_append_right _ among))⟩,
    (List.pairwise_append.mp (apart_of_perm perm standing.apart)).2.1,
    standing.fresh.placed perm standing.apart, fun id ⟨placed, outside⟩ source awaits => ?_⟩
  rcases List.mem_append.mp placed with inReady | earlier
  · obtain ⟨cluster, isReady, inside⟩ := List.mem_flatMap.mp inReady
    have inAll := inBlock (perm.subset (List.mem_append_left _ isReady))
    rcases certified.awaits_of_inside isBlock inAll (waited cluster isReady) inside
      awaits with here | before
    · obtain ⟨_, holder, inMembers, held⟩ := (certified.mem_inside isBlock inAll).mp here
      exact ⟨List.mem_append_left _ (List.mem_flatMap.mpr ⟨cluster, isReady, here⟩),
        certified.not_around_of_holds isBlock (Cluster.members_subset isBlock.distinct inAll
          inMembers) held⟩
    · exact ⟨List.mem_append_right _ before.1, before.2⟩
  · obtain ⟨before, outsideToo⟩ := standing.closed id ⟨earlier, outside⟩ source awaits
    exact ⟨List.mem_append_right _ before, outsideToo⟩

/-- **The inside of a scope of a head**, once the head is placed. -/
theorem body (standing : Standing workflow block pending) (certified : Certified workflow)
    (member : cluster ∈ pending) {type : NodeType} {name : String}
    (typed : (Index.ofWorkflow workflow).nodeType? cluster.head = some type)
    (declares : name ∈ type.scopes) :
    Standing workflow (block.body (.ofWorkflow workflow) cluster.head name)
      (Cluster.ofBlock (.ofWorkflow workflow)
        ((Index.ofWorkflow workflow).scheduledIn (some ⟨cluster.head, name⟩))) := by
  obtain ⟨all, formed, isBlock, inBlock⟩ := standing.formed
  have inAll := inBlock member
  have lives := isBlock.regionOf (Cluster.exists_of_mem_ofBlock inAll).2.1
  refine ⟨⟨_, .body formed inAll typed declares, .whole _, List.Subset.refl _⟩,
    certified.parted (.whole _),
    certified.fresh_body isBlock inAll (standing.fresh_of_mem member) name,
    fun id ⟨placed, outside⟩ source awaits => ?_⟩
  have outward : ∀ {id}, (Index.ofWorkflow workflow).Around id block.region →
      (Index.ofWorkflow workflow).Around id (some ⟨cluster.head, name⟩) := fun ⟨scope, within⟩ =>
    ⟨scope, .outward (lives ▸ within)⟩
  rcases List.mem_cons.mp placed with rfl | earlier
  · exact absurd ⟨name, .refl _⟩ outside
  · obtain ⟨before, outsideToo⟩ :=
      standing.closed id ⟨earlier, fun around => outside (outward around)⟩ source awaits
    refine ⟨List.mem_cons_of_mem _ before, fun ⟨scope, within⟩ => ?_⟩
    cases within with
    | refl =>
        exact standing.fresh _ before ⟨cluster, member, Cluster.head_mem_inside inAll⟩
    | outward further => exact outsideToo ⟨scope, lives ▸ further⟩

/-- **An arm of a branch**, once the head is placed. -/
theorem arm (standing : Standing workflow block pending) (certified : Certified workflow)
    (member : cluster ∈ pending) (waited : cluster.Waited (.ofWorkflow workflow) block.resolved)
    {arms : Arms} {arm other : List String} (branching : cluster.arms = some arms)
    (opposite : arms.Opposite arm other) :
    Standing workflow (block.ofArm (.ofWorkflow workflow) cluster.head arm)
      (Cluster.ofBlock (.ofWorkflow workflow) arm) := by
  obtain ⟨all, formed, isBlock, inBlock⟩ := standing.formed
  have inAll := inBlock member
  have headInAll := (Cluster.exists_of_mem_ofBlock inAll).2.1
  have armBlock := Certified.isBlock_arm isBlock inAll branching opposite
  refine ⟨⟨_, .arm formed inAll branching opposite, armBlock, List.Subset.refl _⟩,
    certified.parted armBlock,
    certified.fresh_arm isBlock inAll branching opposite (standing.fresh_of_mem member),
    fun id ⟨placed, outside⟩ source awaits => ?_⟩
  rcases List.mem_append.mp placed with ofHead | earlier
  · have held : id ∈ workflow.instances.map (·.id) ∧
        (Index.ofWorkflow workflow).Holds cluster.head id := by
      rcases List.mem_cons.mp ofHead with rfl | nested
      · exact ⟨isBlock.named headInAll, .inl rfl⟩
      · exact (certified.mem_descendants.mp nested).imp_right .inr
    rcases certified.awaits_of_head isBlock inAll waited held.1 held.2 awaits with nested | before
    · exact ⟨List.mem_append_left _ (List.mem_cons_of_mem _ nested),
        certified.not_around_of_holds isBlock headInAll
        (.inr (certified.mem_descendants.mp nested).2)⟩
    · exact ⟨List.mem_append_right _ before.1, before.2⟩
  · obtain ⟨before, outsideToo⟩ := standing.closed id ⟨earlier, outside⟩ source awaits
    exact ⟨List.mem_append_right _ before, outsideToo⟩

end Standing

end WorkflowGraph
