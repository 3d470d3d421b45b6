/-
What lies inside the clusters of a certified workflow, and what it waits for.

Values flow inwards only and ranks rise along
connections, which settles where the instances can be that an instance waits for:

* `Certified.reads_cases`, `Certified.reads_inwards` — an instance reads from its own region or from
  around it, and from lower ranks.
* `Certified.triggers_cases` — an instance is triggered in its own region, or out of one of its
  scopes.
* `Certified.mem_inside` — the inside of a cluster is what its head and the members of its arms
  hold; `inside_unique` says that clusters of one block share nothing.
* `Certified.held_of_inwards` — what an instance in a region reads of that region is held by the
  scheduled instances of the region.
-/

import WorkflowGraph.Proofs.Certified
import WorkflowGraph.Proofs.Schedule.Placement

namespace WorkflowGraph

variable {workflow : Workflow}

/-! ### Reading and triggering -/

theorem Index.Reads.source_ordinary {id source : String}
    (reads : (Index.ofWorkflow workflow).Reads id source) : isBoundary source = false := by
  induction reads with
  | direct member =>
      obtain ⟨_, _, _, _, found⟩ := Index.mem_readSources.mp member
      exact (Index.dataSource?_eq_some.mp found).2.1
  | through _ _ _ ih => exact ih

theorem Index.Reads.reader_named {id source : String}
    (reads : (Index.ofWorkflow workflow).Reads id source) (ordinary : isBoundary id = false) :
    id ∈ workflow.instances.map (·.id) := by
  have direct : ∃ first, first ∈ (Index.ofWorkflow workflow).readSources id := by
    cases reads with
    | direct member => exact ⟨_, member⟩
    | through member _ _ => exact ⟨_, member⟩
  obtain ⟨first, member⟩ := direct
  obtain ⟨connection, _, rfl, ⟨port, atTarget, _⟩, _⟩ := Index.mem_readSources.mp member
  exact Wired.named_of_resolve atTarget ordinary

namespace Certified

theorem rank_of_nested {rank : String → Nat} (certified : Certified workflow)
    (ranks : Ranks workflow rank) {id owner : String} (known : id ∈ workflow.instances.map (·.id))
    (nested : (Index.ofWorkflow workflow).NestedIn id owner) : rank id < rank owner := by
  obtain ⟨name, within⟩ := nested
  generalize lives : (Index.ofWorkflow workflow).regionOf id = region at within
  generalize target : (some ⟨owner, name⟩ : Region) = outer at within
  induction within generalizing id with
  | refl region =>
      subst target
      obtain ⟨inst, member, rfl⟩ := List.mem_map.mp known
      rw [certified.regionOf_eq member] at lives
      exact ranks.owner inst member _ lives
  | @outward holder scope outer further ih =>
      obtain ⟨inst, member, rfl⟩ := List.mem_map.mp known
      rw [certified.regionOf_eq member] at lives
      have first : rank inst.id < rank holder := ranks.owner inst member _ lives
      obtain ⟨_, typed, _⟩ := certified.owned inst member _ lives
      obtain ⟨_, found⟩ := Index.find?_of_nodeType? typed
      exact Nat.lt_trans first (ih (Index.named_of_find? found) rfl target)

/-- What is known of a source that is read directly. -/
theorem readSources_cases {rank : String → Nat} (certified : Certified workflow)
    (ranks : Ranks workflow rank) {id source : String}
    (known : id ∈ workflow.instances.map (·.id))
    (member : source ∈ (Index.ofWorkflow workflow).readSources id) :
    source ∈ workflow.instances.map (·.id) ∧ rank source < rank id ∧
      (Index.ofWorkflow workflow).Within ((Index.ofWorkflow workflow).regionOf id)
        ((Index.ofWorkflow workflow).regionOf source) := by
  obtain ⟨connection, inside, rfl, ⟨target, atTarget, targetPlain⟩, found⟩ :=
    Index.mem_readSources.mp member
  obtain ⟨rfl, ordinary, port, atSource, data, plain⟩ := Index.dataSource?_eq_some.mp found
  obtain ⟨inst, declared, same⟩ := List.mem_map.mp known
  have targetOrdinary : isBoundary connection.target.node = false :=
    same ▸ certified.ordinary inst declared
  refine ⟨Wired.named_of_resolve atSource ordinary, ranks.connection connection inside
    (isPlain_iff.mpr ⟨ordinary, targetOrdinary, ⟨port, atSource, plain⟩,
      ⟨target, atTarget, targetPlain⟩⟩), ?_⟩
  have inwards :=
    (certified.data_region inside atSource atTarget (by simpa [Port.isData] using data)).1
  rwa [Wired.regionAt_plain ordinary plain,
    Wired.regionAt_plain targetOrdinary targetPlain] at inwards

theorem reads_cases {rank : String → Nat} (certified : Certified workflow)
    (ranks : Ranks workflow rank) {id source : String} (known : id ∈ workflow.instances.map (·.id))
    (reads : (Index.ofWorkflow workflow).Reads id source) :
    source ∈ workflow.instances.map (·.id) ∧ rank source < rank id ∧
      (Index.ofWorkflow workflow).Within ((Index.ofWorkflow workflow).regionOf id)
        ((Index.ofWorkflow workflow).regionOf source) := by
  induction reads with
  | direct member => exact certified.readSources_cases ranks known member
  | through member _ _ ih =>
      obtain ⟨middleKnown, less, inwards⟩ := certified.readSources_cases ranks known member
      obtain ⟨sourceKnown, lessStill, further⟩ := ih middleKnown
      exact ⟨sourceKnown, Nat.lt_trans lessStill less, inwards.trans further⟩

/-- **An instance reads from its own region or from around it.** -/
theorem reads_inwards (certified : Certified workflow) {id source : String}
    (known : id ∈ workflow.instances.map (·.id))
    (reads : (Index.ofWorkflow workflow).Reads id source) :
    source ∈ workflow.instances.map (·.id) ∧
      (Index.ofWorkflow workflow).Within ((Index.ofWorkflow workflow).regionOf id)
        ((Index.ofWorkflow workflow).regionOf source) := by
  obtain ⟨rank, ranks⟩ := certified.ranked
  obtain ⟨named, _, inwards⟩ := certified.reads_cases ranks known reads
  exact ⟨named, inwards⟩

/-- **No instance reads itself.** -/
theorem reads_irrefl (certified : Certified workflow) (id : String) :
    ¬ (Index.ofWorkflow workflow).Reads id id := by
  intro reads
  obtain ⟨rank, ranks⟩ := certified.ranked
  have named := reads.reader_named reads.source_ordinary
  exact absurd (certified.reads_cases ranks named reads).2.1 (Nat.lt_irrefl _)

theorem expressionsAcyclic (certified : Certified workflow) :
    (Index.ofWorkflow workflow).ExpressionsAcyclic :=
  fun id _ => certified.reads_irrefl id

/-- **An instance is triggered in its own region, or out of one of its scopes.** -/
theorem triggers_cases {rank : String → Nat} (certified : Certified workflow)
    (ranks : Ranks workflow rank) {id source : String}
    (triggers : source ∈ (Analysis.ofWorkflow workflow).triggersOf id) :
    source ∈ workflow.instances.map (·.id) ∧
      (Index.ofWorkflow workflow).isExpression source = false ∧
      ((Index.ofWorkflow workflow).regionOf source = (Index.ofWorkflow workflow).regionOf id ∧
          rank source < rank id ∨
        ∃ name, (Index.ofWorkflow workflow).regionOf source = some ⟨id, name⟩) := by
  obtain ⟨known, member⟩ := Analysis.mem_triggersOf.mp triggers
  obtain ⟨connection, inside, rfl, found⟩ := Index.mem_stepPredecessors.mp member
  obtain ⟨rfl, ordinary, port, atSource, step, plain⟩ := Index.stepSource?_eq_some.mp found
  obtain ⟨inst, declared, same⟩ := List.mem_map.mp known
  have targetOrdinary : isBoundary connection.target.node = false :=
    same ▸ certified.ordinary inst declared
  refine ⟨Wired.named_of_resolve atSource ordinary, ?_, ?_⟩
  · -- an expression has no step port to trigger with
    obtain ⟨type, typed, inPorts, _⟩ := Index.exists_of_resolve atSource ordinary
    by_contra expression
    have isExpression : type.isExpression = true := by
      simpa [Index.isExpression, typed] using expression
    have := certified.stepless type (Index.nodeType_mem typed) isExpression port inPorts
    rw [step] at this
    cases this
  · obtain ⟨_, target, _, atTarget, _⟩ := certified.ports connection inside
    have region := certified.step_region inside atSource atTarget step
    rw [Wired.regionAt_plain ordinary plain] at region
    cases scope : target.scope with
    | none =>
        rw [Wired.regionAt_plain targetOrdinary scope] at region
        exact .inl ⟨region, ranks.connection connection inside (isPlain_iff.mpr
          ⟨ordinary, targetOrdinary, ⟨port, atSource, plain⟩, ⟨target, atTarget, scope⟩⟩)⟩
    | some name =>
        refine .inr ⟨name, region.trans ?_⟩
        simp [Index.regionAt, targetOrdinary, scope]

end Certified

/-! ### Blocks -/

/-- Whether instances are different scheduled instances of a region. -/
structure IsBlock (workflow : Workflow) (region : Region) (members : List String) : Prop where
  distinct : members.Nodup
  inside : ∀ member ∈ members, member ∈ (Index.ofWorkflow workflow).scheduledIn region

namespace IsBlock

variable {region : Region} {members : List String}

theorem whole (region : Region) :
    IsBlock workflow region ((Index.ofWorkflow workflow).scheduledIn region) :=
  ⟨Index.scheduledIn_nodup region, fun _ => id⟩

theorem part {arm : List String} (block : IsBlock workflow region members)
    (sublist : arm.Sublist members) : IsBlock workflow region arm :=
  ⟨sublist.nodup block.distinct, fun member inArm => block.inside member (sublist.subset inArm)⟩

theorem named (block : IsBlock workflow region members) {id : String} (member : id ∈ members) :
    id ∈ workflow.instances.map (·.id) := by
  obtain ⟨⟨_, found, _⟩, _⟩ := Index.mem_scheduledIn.mp (block.inside id member)
  exact Index.named_of_find? found

theorem regionOf (block : IsBlock workflow region members) {id : String} (member : id ∈ members) :
    (Index.ofWorkflow workflow).regionOf id = region :=
  Index.regionOf_of_mem_scheduledIn (block.inside id member)

end IsBlock

namespace Certified

/-- What is nested in the scopes of an instance. -/
theorem mem_descendants (certified : Certified workflow) {id owner : String} :
    id ∈ (Analysis.ofWorkflow workflow).descendants owner ↔
      id ∈ workflow.instances.map (·.id) ∧ (Index.ofWorkflow workflow).NestedIn id owner := by
  rw [Analysis.mem_descendants_iff]
  constructor
  · rintro ⟨inst, member, rfl, owned⟩
    refine ⟨List.mem_map.mpr ⟨inst, member, rfl⟩, ?_⟩
    rw [Index.NestedIn, certified.regionOf_eq member]
    exact Index.within_of_mem_ownersWithin owned
  · rintro ⟨known, nested⟩
    obtain ⟨inst, member, rfl⟩ := List.mem_map.mp known
    rw [Index.NestedIn, certified.regionOf_eq member] at nested
    obtain ⟨level, at_, bounded⟩ := certified.leveled inst member
    exact ⟨inst, member, rfl, (Index.mem_owners_iff at_ (Nat.le_succ_of_le bounded)).mpr nested⟩

/-- Of the instances of one region at most one holds an instance. -/
theorem holds_unique (certified : Certified workflow) {region : Region} {members : List String}
    (block : IsBlock workflow region members) {first second id : String} (inFirst : first ∈ members)
    (inSecond : second ∈ members) (ofFirst : (Index.ofWorkflow workflow).Holds first id)
    (ofSecond : (Index.ofWorkflow workflow).Holds second id) : first = second := by
  obtain ⟨level, at_, _⟩ := certified.level (block.named inFirst)
  refine ofFirst.unique ofSecond at_ ?_
  rw [block.regionOf inSecond, ← block.regionOf inFirst]
  exact at_

theorem not_nested_self (certified : Certified workflow) {id : String}
    (known : id ∈ workflow.instances.map (·.id)) :
    ¬ (Index.ofWorkflow workflow).NestedIn id id := by
  obtain ⟨level, at_, _⟩ := certified.level known
  exact Index.NestedIn.irrefl at_

variable {region : Region} {members : List String} {cluster : Cluster}

/-- **The inside of a cluster is what its members hold.** -/
theorem mem_inside (certified : Certified workflow) (block : IsBlock workflow region members)
    (member : cluster ∈ Cluster.ofBlock (.ofWorkflow workflow) members) {id : String} :
    id ∈ cluster.inside ↔ id ∈ workflow.instances.map (·.id) ∧
      ∃ holder ∈ cluster.members, (Index.ofWorkflow workflow).Holds holder id := by
  rw [Cluster.mem_inside_iff member]
  constructor
  · rintro ⟨holder, inMembers, rfl | nested⟩
    · exact ⟨block.named (Cluster.members_subset block.distinct member inMembers), id,
        inMembers, .inl rfl⟩
    · obtain ⟨known, nested⟩ := certified.mem_descendants.mp nested
      exact ⟨known, holder, inMembers, .inr nested⟩
  · rintro ⟨known, holder, inMembers, same | nested⟩
    · exact ⟨holder, inMembers, .inl same⟩
    · exact ⟨holder, inMembers, .inr (certified.mem_descendants.mpr ⟨known, nested⟩)⟩

/-- **Clusters of one block have nothing inside in common.** -/
theorem inside_unique (certified : Certified workflow) (block : IsBlock workflow region members)
    {first second : Cluster} (inFirst : first ∈ Cluster.ofBlock (.ofWorkflow workflow) members)
    (inSecond : second ∈ Cluster.ofBlock (.ofWorkflow workflow) members) {id : String}
    (ofFirst : id ∈ first.inside) (ofSecond : id ∈ second.inside) : first = second := by
  obtain ⟨_, holder, ofHolder, held⟩ := (certified.mem_inside block inFirst).mp ofFirst
  obtain ⟨_, other, ofOther, heldToo⟩ := (certified.mem_inside block inSecond).mp ofSecond
  have same := certified.holds_unique block (Cluster.members_subset block.distinct inFirst ofHolder)
    (Cluster.members_subset block.distinct inSecond ofOther) held heldToo
  exact Cluster.eq_of_mem_members block.distinct inFirst inSecond ofHolder (same ▸ ofOther)

/-- What the members of a block hold is inside its clusters. -/
theorem exists_inside_iff (certified : Certified workflow) (block : IsBlock workflow region members)
    {id : String} :
    (∃ cluster ∈ Cluster.ofBlock (.ofWorkflow workflow) members, id ∈ cluster.inside) ↔
      id ∈ workflow.instances.map (·.id) ∧
        ∃ holder ∈ members, (Index.ofWorkflow workflow).Holds holder id := by
  constructor
  · rintro ⟨cluster, inBlock, inside⟩
    obtain ⟨known, holder, ofCluster, held⟩ := (certified.mem_inside block inBlock).mp inside
    exact ⟨known, holder, Cluster.members_subset block.distinct inBlock ofCluster, held⟩
  · rintro ⟨known, holder, inMembers, held⟩
    obtain ⟨cluster, inBlock, ofCluster⟩ := Cluster.exists_cluster_of_mem block.distinct inMembers
    exact ⟨cluster, inBlock, (certified.mem_inside block inBlock).mpr ⟨known, holder,
      ofCluster, held⟩⟩

/-! ### Arms -/

/-- What a member triggers through the wiring of its block, it triggers. -/
theorem triggers_of_mem_targetsOf (certified : Certified workflow)
    (block : IsBlock workflow region members) {id : String} {target : String × String}
    (wired : target ∈ (Wiring.ofBlock (.ofWorkflow workflow) members).targetsOf id) :
    id ∈ members ∧ target.2 ∈ members ∧
      id ∈ (Analysis.ofWorkflow workflow).triggersOf target.2 := by
  obtain ⟨member, wired⟩ := Wiring.mem_targetsOf.mp wired
  obtain ⟨entry, kept, rfl⟩ := List.mem_map.mp wired
  obtain ⟨leaves, fits⟩ := List.mem_filter.mp kept
  rw [Bool.and_eq_true, Option.any_eq_true] at fits
  obtain ⟨⟨port, atSource, step⟩, inBlock⟩ := fits
  obtain ⟨inside, from_⟩ := Index.exists_mem_outgoing.mp ⟨entry, leaves, rfl⟩
  have target : entry.2.target.node ∈ members := by simpa using inBlock
  obtain ⟨inst, declared, same⟩ := List.mem_map.mp (block.named member)
  refine ⟨member, target, Analysis.mem_triggersOf.mpr ⟨block.named target,
    Index.mem_stepPredecessors.mpr ⟨entry.2, inside, rfl, ?_⟩⟩⟩
  rw [Bool.and_eq_true, Option.isNone_iff_eq_none] at step
  exact Index.stepSource?_eq_some.mpr ⟨from_, same ▸ certified.ordinary inst declared, port,
    atSource, step⟩

/-- A member of a block that triggers another one has a lower rank. -/
theorem rank_of_triggers {rank : String → Nat} (certified : Certified workflow)
    (ranks : Ranks workflow rank) (block : IsBlock workflow region members) {id source : String}
    (inBlock : id ∈ members) (sourceInBlock : source ∈ members)
    (triggers : source ∈ (Analysis.ofWorkflow workflow).triggersOf id) : rank source < rank id := by
  rcases (certified.triggers_cases ranks triggers).2.2 with ⟨_, less⟩ | ⟨name, lives⟩
  · exact less
  · -- a member in a scope of the other one does not live in the same region
    have nested : (Index.ofWorkflow workflow).NestedIn id id :=
      ⟨name, by rw [block.regionOf inBlock, ← block.regionOf sourceInBlock, lives]; exact .refl _⟩
    exact absurd nested (certified.not_nested_self (block.named inBlock))

/-- What an output leads to has a higher rank, and cannot run before the head. -/
theorem ledTo_cases {rank : String → Nat} (certified : Certified workflow)
    (ranks : Ranks workflow rank) (block : IsBlock workflow region members) {head port id : String}
    (led : id ∈ (Wiring.ofBlock (.ofWorkflow workflow) members).ledTo head port) :
    rank head < rank id ∧ id ∈ (Wiring.ofBlock (.ofWorkflow workflow) members).dependents head := by
  have step : ∀ {earlier later : String}, later ∈
      ((Wiring.ofBlock (.ofWorkflow workflow) members).targetsOf earlier).map (·.2) →
      rank earlier < rank later ∧
        (earlier ∈ (Wiring.ofBlock (.ofWorkflow workflow) members).dependents head →
          later ∈ (Wiring.ofBlock (.ofWorkflow workflow) members).dependents head) := by
    intro earlier later triggered
    obtain ⟨target, wired, rfl⟩ := List.mem_map.mp triggered
    obtain ⟨inBlock, targetInBlock, triggers⟩ := certified.triggers_of_mem_targetsOf block wired
    exact ⟨certified.rank_of_triggers ranks block targetInBlock inBlock triggers, fun after =>
      Wiring.mem_dependents_of_follows after targetInBlock (.inl triggers)⟩
  obtain ⟨start, fromHead, path⟩ := Graph.reachable_of_mem_reached led
  clear led
  have first : start ∈
      ((Wiring.ofBlock (.ofWorkflow workflow) members).targetsOf head).map (·.2) := by
    obtain ⟨target, kept, rfl⟩ := List.mem_map.mp fromHead
    exact List.mem_map.mpr ⟨target, (List.mem_filter.mp kept).1, rfl⟩
  induction path with
  | refl => exact ⟨(step first).1, (step first).2 (Wiring.mem_dependents_self head)⟩
  | tail _ next ih => exact ⟨Nat.lt_trans ih.1 (step next).1, (step next).2 ih.2⟩

theorem notMem_ledTo_self (certified : Certified workflow) (block : IsBlock workflow region members)
    (head port : String) :
    head ∉ (Wiring.ofBlock (.ofWorkflow workflow) members).ledTo head port := by
  obtain ⟨rank, ranks⟩ := certified.ranked
  exact fun led => Nat.lt_irrefl _ (certified.ledTo_cases ranks block led).1

/-- **The members of arms have higher ranks than the head.** -/
theorem rank_of_mem_arms {rank : String → Nat} (certified : Certified workflow)
    (ranks : Ranks workflow rank) (block : IsBlock workflow region members)
    (member : cluster ∈ Cluster.ofBlock (.ofWorkflow workflow) members) {id : String}
    (inArms : id ∈ cluster.armMembers) : rank cluster.head < rank id := by
  cases branching : cluster.arms with
  | none => simp [Cluster.armMembers, branching] at inArms
  | some arms =>
      rw [Cluster.armMembers_eq branching] at inArms
      obtain ⟨_, _, port, led⟩ :=
        Arms.ledTo_of_mem ((Cluster.exists_of_mem_ofBlock member).2.2 arms branching) inArms
      exact (certified.ledTo_cases ranks block led).1

/-- **No member of an arm triggers one of the other arm.** -/
theorem not_triggers_across (certified : Certified workflow)
    (block : IsBlock workflow region members) {head : String} {arms : Arms}
    (found : Arms.ofHead (.ofWorkflow workflow) (.ofBlock (.ofWorkflow workflow) members) head =
      some arms)
    {first second : String} (triggers : second ∈ (Analysis.ofWorkflow workflow).triggersOf first) :
    ¬ (first ∈ arms.thenMembers ∧ second ∈ arms.elseMembers) ∧
      ¬ (first ∈ arms.elseMembers ∧ second ∈ arms.thenMembers) := by
  obtain ⟨rank, ranks⟩ := certified.ranked
  have after : ∀ {id}, id ∈ arms.members → id ≠ head ∧
      id ∈ (Wiring.ofBlock (.ofWorkflow workflow) members).dependents head := by
    intro id member
    obtain ⟨_, different, port, led⟩ := Arms.ledTo_of_mem found member
    exact ⟨different, (certified.ledTo_cases ranks block led).2⟩
  obtain ⟨isThen, isElse⟩ := Arms.ofHead_spec found
  constructor
  · rintro ⟨inThen, inElse⟩
    obtain ⟨different, dependent⟩ := after (Arms.mem_members_iff.mpr (.inr inElse))
    refine Arms.disjoint found ?_ inElse
    rw [isThen] at inThen ⊢
    exact Arms.mem_close_of_triggers inThen triggers different dependent
  · rintro ⟨inElse, inThen⟩
    obtain ⟨different, dependent⟩ := after (Arms.mem_members_iff.mpr (.inl inThen))
    refine Arms.disjoint found inThen ?_
    rw [isElse] at inElse ⊢
    exact Arms.mem_close_of_triggers inElse triggers different dependent

/-! ### Reading in a region -/

/-- **What an instance in a region reads of that region is held by the scheduled instances
there.** -/
theorem held_of_inwards (certified : Certified workflow) {holder id source : String}
    (inRegion : holder ∈ (Index.ofWorkflow workflow).scheduledIn region)
    (held : (Index.ofWorkflow workflow).Holds holder id)
    (known : source ∈ workflow.instances.map (·.id))
    (ordinary : (Index.ofWorkflow workflow).isExpression source = false)
    (inwards : (Index.ofWorkflow workflow).Within ((Index.ofWorkflow workflow).regionOf id)
      ((Index.ofWorkflow workflow).regionOf source))
    (within : (Index.ofWorkflow workflow).Within ((Index.ofWorkflow workflow).regionOf source)
      region) :
    ∃ other ∈ (Index.ofWorkflow workflow).scheduledIn region,
      (Index.ofWorkflow workflow).Holds other source := by
  have block := @IsBlock.whole workflow region
  by_cases here : (Index.ofWorkflow workflow).regionOf source = region
  · refine ⟨source, Index.mem_scheduledIn.mpr ⟨?_, ordinary⟩, .inl rfl⟩
    obtain ⟨inst, member, rfl⟩ := List.mem_map.mp known
    exact ⟨inst, certified.find?_eq member, certified.regionOf_eq member ▸ here⟩
  · -- the source lies in a scope of an instance of the region, and so does its reader
    obtain ⟨owner, name, inside, lives⟩ := within.last_step here
    have nested : (Index.ofWorkflow workflow).NestedIn source owner := ⟨name, inside⟩
    obtain ⟨level, at_, _⟩ := certified.level (block.named inRegion)
    have same := held.unique (.inr (nested.of_within inwards)) at_
      (by rw [lives, ← block.regionOf inRegion]; exact at_)
    exact ⟨holder, inRegion, .inr (same ▸ nested)⟩

end Certified

end WorkflowGraph
