/-
The blocks that come up, and induction over their arrangements.

* `Formed` — the blocks that come up when a workflow is arranged: the top level, the insides of
  scopes and the arms of branches, whatever the order of their clusters.
* `Scheduler.Induction` — the cases of an induction over an arrangement: where the rounds of a block
  end, one round, and a cluster without and with arms. Each case knows that its block comes up and
  that its clusters are clusters of the block.
* `Scheduler.Arranged.induction`, `Scheduler.Placed.induction` — **what holds in all cases holds of
  every arrangement of a block that comes up**, and of the placement of each of its clusters.
-/

import Mathlib.Data.List.Forall2
import WorkflowGraph.Proofs.Schedule.Arrangement
import WorkflowGraph.Proofs.Schedule.Cluster
import WorkflowGraph.Proofs.Schedule.Dependencies

namespace WorkflowGraph

/-! ### Scheduled instances -/

namespace Index

/-- The scheduled instances of a region. -/
def scheduledIn (index : Index) (region : Region) : List String :=
  ((index.members region).map (·.id)).filter fun id => !index.isExpression id

variable {workflow : Workflow}

theorem mem_scheduledIn {region : Region} {id : String} :
    id ∈ (ofWorkflow workflow).scheduledIn region ↔
      (∃ inst, (ofWorkflow workflow).find? id = some inst ∧ inst.parentScope = region) ∧
        (ofWorkflow workflow).isExpression id = false := by
  rw [scheduledIn, List.mem_filter, List.mem_map, Bool.not_eq_true']
  refine and_congr_left fun _ => ⟨?_, ?_⟩
  · rintro ⟨inst, member, rfl⟩
    exact ⟨inst, mem_members.mp member⟩
  · rintro ⟨inst, found, lives⟩
    have same := id_of_find? found
    exact ⟨inst, mem_members.mpr ⟨same ▸ found, lives⟩, same⟩

theorem scheduledIn_nodup (region : Region) : ((ofWorkflow workflow).scheduledIn region).Nodup :=
  (members_nodup region).filter _

theorem regionOf_of_mem_scheduledIn {region : Region} {id : String}
    (member : id ∈ (ofWorkflow workflow).scheduledIn region) :
    (ofWorkflow workflow).regionOf id = region := by
  obtain ⟨⟨inst, found, lives⟩, _⟩ := mem_scheduledIn.mp member
  exact (regionOf_of_find? found).trans lives

end Index

/-! ### Opposite arms -/

/-- Whether two lists are the arms of a branch, in either order. -/
inductive Arms.Opposite (arms : Arms) : List String → List String → Prop
  | success : Opposite arms arms.thenMembers arms.elseMembers
  | failure : Opposite arms arms.elseMembers arms.thenMembers

namespace Arms.Opposite

variable {analysis : Analysis} {wiring : Wiring} {head : String} {arms : Arms}
  {arm other : List String}

theorem symm (opposite : arms.Opposite arm other) : arms.Opposite other arm := by
  cases opposite with
  | success => exact .failure
  | failure => exact .success

theorem mem_members (opposite : arms.Opposite arm other) {id : String} :
    id ∈ arms.members ↔ id ∈ arm ∨ id ∈ other := by
  cases opposite with
  | success => exact mem_members_iff
  | failure => exact mem_members_iff.trans or_comm

theorem sublist (opposite : arms.Opposite arm other)
    (found : ofHead analysis wiring head = some arms) : arm.Sublist wiring.members := by
  cases opposite with
  | success => exact then_sublist found
  | failure => exact else_sublist found

theorem disjoint (opposite : arms.Opposite arm other)
    (found : ofHead analysis wiring head = some arms) {id : String} (here : id ∈ arm) :
    id ∉ other := by
  cases opposite with
  | success => exact Arms.disjoint found here
  | failure => exact fun there => Arms.disjoint found there here

end Arms.Opposite

/-! ### Blocks that are formed -/

/-- The blocks that come up when a workflow is arranged. -/
inductive Formed (analysis : Analysis) : List String → Prop
  | top : Formed analysis (analysis.index.scheduledIn none)
  | body {block : List String} {cluster : Cluster} {type : NodeType} {name : String} :
      Formed analysis block → cluster ∈ Cluster.ofBlock analysis block →
      analysis.index.nodeType? cluster.head = some type → name ∈ type.scopes →
      Formed analysis (analysis.index.scheduledIn (some ⟨cluster.head, name⟩))
  | arm {block : List String} {cluster : Cluster} {arms : Arms} {arm other : List String} :
      Formed analysis block → cluster ∈ Cluster.ofBlock analysis block → cluster.arms = some arms →
      arms.Opposite arm other → Formed analysis arm

/-- Whether a cluster is one of a block that comes up. -/
def Workflow.HasCluster (workflow : Workflow) (cluster : Cluster) : Prop :=
  ∃ block, Formed (.ofWorkflow workflow) block ∧
    cluster ∈ Cluster.ofBlock (.ofWorkflow workflow) block

/-! ### Induction over arrangements -/

theorem exists_left_of_mem {α β : Type} {related : α → β → Prop} {first : List α} {second : List β}
    (each : List.Forall₂ related first second) {right : β} (member : right ∈ second) :
    ∃ left ∈ first, related left right := by
  induction each with
  | nil => cases member
  | cons here _ ih =>
      rcases List.mem_cons.mp member with rfl | later
      · exact ⟨_, List.mem_cons_self, here⟩
      · obtain ⟨left, among, there⟩ := ih later
        exact ⟨left, List.mem_cons_of_mem _ among, there⟩

theorem exists_right_of_mem {α β : Type} {related : α → β → Prop} {first : List α} {second : List β}
    (each : List.Forall₂ related first second) {left : α} (member : left ∈ first) :
    ∃ right ∈ second, related left right := by
  have flipped : List.Forall₂ (flip related) second first := each.flip
  exact exists_left_of_mem flipped member

theorem forall_mem_flatMap_of_forall₂ {α β γ : Type} {related : α → β → Prop} {first : List α}
    {second : List β} {collect : β → List γ} {holds : γ → Prop}
    (each : List.Forall₂ related first second)
    (here : ∀ left right, related left right → ∀ item ∈ collect right, holds item) :
    ∀ item ∈ second.flatMap collect, holds item := by
  refine List.forall_mem_flatMap.mpr fun right member => ?_
  obtain ⟨left, _, known⟩ := exists_left_of_mem each member
  exact here left right known

namespace Scheduler

variable {scheduler : Scheduler} {analysis : Analysis}
  {rounds : Block → List Cluster → List Placement → Prop} {one : Block → Cluster → Placement → Prop}

/-- What is known of placements of the inside of a scope, by induction. -/
structure BodyPlaced (scheduler : Scheduler) (analysis : Analysis)
    (rounds : Block → List Cluster → List Placement → Prop) (block : Block) (owner name : String)
    (entry : String × List Placement) : Prop where
  named : entry.1 = name
  shallow : ∃ depth, analysis.index.depth (some ⟨owner, name⟩) = some depth ∧
    depth ≤ scheduler.maxScopeDepth
  arranged : Arranged scheduler analysis (block.body analysis.index owner name) entry.2
  formed : Formed analysis (block.body analysis.index owner name).members
  holds : rounds (block.body analysis.index owner name)
    (Cluster.ofBlock analysis (block.body analysis.index owner name).members) entry.2

/-- What is known of placements of an arm, by induction. -/
structure ArmPlaced (scheduler : Scheduler) (analysis : Analysis)
    (rounds : Block → List Cluster → List Placement → Prop) (block : Block) (head : String)
    (arm : List String) (placements : List Placement) : Prop where
  arranged : Arranged scheduler analysis (block.ofArm analysis head arm) placements
  formed : Formed analysis arm
  holds : rounds (block.ofArm analysis head arm) (Cluster.ofBlock analysis arm) placements

/-- **The cases of an induction over an arrangement**: what is to hold of placements that are those
of pending clusters, and of a placement that is that of one cluster. -/
structure Induction (scheduler : Scheduler) (analysis : Analysis)
    (rounds : Block → List Cluster → List Placement → Prop)
    (one : Block → Cluster → Placement → Prop) : Prop where
  done : ∀ {block : Block} {inlined : List String}, Formed analysis block.members →
    analysis.inlineNeeded block (block.sinks analysis) = .ok inlined →
    rounds block [] (inlined.map .inlined)
  round : ∀ {block : Block} {pending ready waiting : List Cluster} {inlined : List String}
    {placed rest : List Placement}, Formed analysis block.members →
    pending.Subperm (Cluster.ofBlock analysis block.members) →
    (scheduler.splitReady analysis block.resolved pending).outcome = .ok (ready, waiting) →
    analysis.inlineNeeded block (ready.flatMap analysis.neededBy) = .ok inlined →
    List.Forall₂ (fun cluster placement =>
      Placed scheduler analysis (block.withInlined inlined) cluster placement ∧
        one (block.withInlined inlined) cluster placement) ready placed →
    rounds ((block.withInlined inlined).withPlaced ready) waiting rest →
    rounds block pending (inlined.map .inlined ++ together placed ++ rest)
  node : ∀ {block : Block} {cluster : Cluster} {type : NodeType}
    {bodies : List (String × List Placement)}, Formed analysis block.members →
    cluster ∈ Cluster.ofBlock analysis block.members →
    analysis.index.nodeType? cluster.head = some type →
    List.Forall₂ (BodyPlaced scheduler analysis rounds block cluster.head) type.scopes bodies →
    cluster.arms = none → one block cluster (.node cluster.head bodies)
  branch : ∀ {block : Block} {cluster : Cluster} {type : NodeType} {arms : Arms}
    {bodies : List (String × List Placement)} {thenArm elseArm : List Placement},
    Formed analysis block.members → cluster ∈ Cluster.ofBlock analysis block.members →
    analysis.index.nodeType? cluster.head = some type →
    List.Forall₂ (BodyPlaced scheduler analysis rounds block cluster.head) type.scopes bodies →
    cluster.arms = some arms →
    ArmPlaced scheduler analysis rounds block cluster.head arms.thenMembers thenArm →
    ArmPlaced scheduler analysis rounds block cluster.head arms.elseMembers elseArm →
    one block cluster (.branch cluster bodies thenArm elseArm)

mutual

/-- **What holds in all cases holds of every arrangement of a block that comes up.** -/
theorem Arranged.induction (cases : Induction scheduler analysis rounds one) {block : Block}
    {placements : List Placement} : Arranged scheduler analysis block placements →
    Formed analysis block.members →
    rounds block (Cluster.ofBlock analysis block.members) placements
  | .block all, formed => all.induction cases formed (.refl _)

theorem Rounds.induction (cases : Induction scheduler analysis rounds one) {block : Block}
    {pending : List Cluster} {placements : List Placement} :
    Rounds scheduler analysis block pending placements → Formed analysis block.members →
    pending.Subperm (Cluster.ofBlock analysis block.members) → rounds block pending placements
  | .done ordered, formed, _ => cases.done formed ordered
  | .round parted _ ordered placed rest, formed, among => by
      have parts := (splitReady_perm parted).subperm.trans among
      have ready := (List.sublist_append_left _ _).subperm.trans parts
      have waiting := (List.sublist_append_right _ _).subperm.trans parts
      exact cases.round formed among parted ordered (placed.induction cases formed ready.subset)
        (rest.induction cases formed waiting)

theorem PlacedEach.induction (cases : Induction scheduler analysis rounds one) {block : Block}
    {clusters : List Cluster} {placements : List Placement} :
    PlacedEach scheduler analysis block clusters placements → Formed analysis block.members →
    clusters ⊆ Cluster.ofBlock analysis block.members →
    List.Forall₂ (fun cluster placement =>
      Placed scheduler analysis block cluster placement ∧ one block cluster placement)
      clusters placements
  | .nil, _, _ => .nil
  | .cons first rest, formed, among => by
      obtain ⟨here, others⟩ := List.cons_subset.mp among
      exact .cons ⟨first, first.induction cases formed here⟩ (rest.induction cases formed others)

/-- **What holds in all cases holds of the placement of each cluster** of a block that comes up. -/
theorem Placed.induction (cases : Induction scheduler analysis rounds one) {block : Block}
    {cluster : Cluster} {placement : Placement} :
    Placed scheduler analysis block cluster placement → Formed analysis block.members →
    cluster ∈ Cluster.ofBlock analysis block.members → one block cluster placement
  | .node typed bodies single, formed, member =>
      cases.node formed member typed
        (bodies.induction cases fun _ declared => .body formed member typed declared) single
  | .branch typed bodies branching onSuccess onFailure, formed, member => by
      have thenFormed := Formed.arm formed member branching .success
      have elseFormed := Formed.arm formed member branching .failure
      exact cases.branch formed member typed
        (bodies.induction cases fun _ declared => .body formed member typed declared) branching
        ⟨onSuccess, thenFormed, onSuccess.induction cases thenFormed⟩
        ⟨onFailure, elseFormed, onFailure.induction cases elseFormed⟩

theorem Bodies.induction (cases : Induction scheduler analysis rounds one) {block : Block}
    {owner : String} {names : List String} {bodies : List (String × List Placement)} :
    Bodies scheduler analysis block owner names bodies →
    (∀ name ∈ names, Formed analysis (analysis.index.scheduledIn (some ⟨owner, name⟩))) →
    List.Forall₂ (BodyPlaced scheduler analysis rounds block owner) names bodies
  | .nil, _ => .nil
  | .cons found shallow body rest, formed => by
      obtain ⟨here, others⟩ := List.forall_mem_cons.mp formed
      exact .cons ⟨rfl, ⟨_, found, shallow⟩, body, here, body.induction cases here⟩
        (rest.induction cases others)

end

end Scheduler

end WorkflowGraph
