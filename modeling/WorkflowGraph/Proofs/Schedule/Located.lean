/-
Where blocks stand in the arrangement of a workflow.

* `Placement.Part` — placements that stand in an arrangement as a whole: the arrangement itself, the
  inside of a scope, or an arm of a branch, each with all that it lies in.
* `Scheduler.Rounds.exists_placed` — every cluster of a block is placed after what it waits for,
  with the expressions at hand that it needs.
* `Formed.located` — every block that comes up is arranged in a part of the arrangement, in arms of
  branches that hold it and on a path that leads into its region.
-/

import WorkflowGraph.Proofs.Plan.Trace
import WorkflowGraph.Proofs.Schedule.Waiting

namespace WorkflowGraph

/-! ### Paths -/

namespace Enclosure

/-- The instance that has an arm or the inside of a scope. -/
def owner : Enclosure → String
  | arm head _ => head
  | body owner _ => owner

/-- The region that a path leads into, which is the inside of its innermost scope. -/
def region : List Enclosure → Region
  | [] => none
  | arm _ _ :: outer => region outer
  | body owner name :: _ => some ⟨owner, name⟩

end Enclosure

/-! ### Parts of an arrangement -/

namespace Placement

/-- Whether a placement is one of several, alone or side by side with others. -/
inductive Among (placement : Placement) (placements : List Placement) : Prop
  | alone : placement ∈ placements → Among placement placements
  | together {clusters : List Placement} :
      .parallel clusters ∈ placements → placement ∈ clusters → Among placement placements

theorem Among.subset {placement : Placement} {first second : List Placement}
    (among : placement.Among first) (subset : first ⊆ second) : placement.Among second := by
  cases among with
  | alone member => exact .alone (subset member)
  | together parallel member => exact .together (subset parallel) member

theorem among_together {placement : Placement} {placements : List Placement}
    (member : placement ∈ placements) : placement.Among (Scheduler.together placements) := by
  unfold Scheduler.together
  split
  · exact .alone member
  · exact .together List.mem_cons_self member

/-- Whether a placement has placements inside of it, in a scope or in an arm. -/
inductive Encloses : Placement → Enclosure → List Placement → Prop
  | body {id name : String} {bodies : List (String × List Placement)} {part : List Placement} :
      (name, part) ∈ bodies → Encloses (.node id bodies) (.body id name) part
  | headBody {cluster : Cluster} {name : String} {bodies : List (String × List Placement)}
      {thenArm elseArm part : List Placement} :
      (name, part) ∈ bodies →
      Encloses (.branch cluster bodies thenArm elseArm) (.body cluster.head name) part
  | thenArm {cluster : Cluster} {bodies : List (String × List Placement)}
      {thenArm elseArm : List Placement} :
      Encloses (.branch cluster bodies thenArm elseArm) (.arm cluster.head true) thenArm
  | elseArm {cluster : Cluster} {bodies : List (String × List Placement)}
      {thenArm elseArm : List Placement} :
      Encloses (.branch cluster bodies thenArm elseArm) (.arm cluster.head false) elseArm

/-- Whether placements stand in an arrangement as a whole, and all that they lie in there. -/
inductive Part (placements : List Placement) : List Enclosure → List Placement → Prop
  | whole : Part placements [] placements
  | inner {path : List Enclosure} {enclosure : Enclosure} {outer part : List Placement}
      {placement : Placement} :
      Part placements path outer → placement.Among outer → placement.Encloses enclosure part →
      Part placements (enclosure :: path) part

end Placement

/-! ### Clusters of an arranged block -/

namespace Scheduler

open Placement

variable {scheduler : Scheduler} {analysis : Analysis}

theorem PlacedEach.of_mem {block : Block} {clusters : List Cluster} {placements : List Placement}
    {cluster : Cluster} : PlacedEach scheduler analysis block clusters placements →
      cluster ∈ clusters →
    ∃ placement ∈ placements, Placed scheduler analysis block cluster placement
  | .nil, absent => nomatch absent
  | .cons first rest, member => by
      rcases List.mem_cons.mp member with rfl | later
      · exact ⟨_, List.mem_cons_self, first⟩
      · obtain ⟨placement, among, placed⟩ := rest.of_mem later
        exact ⟨placement, List.mem_cons_of_mem _ among, placed⟩

theorem Bodies.of_mem {block : Block} {owner name : String} {names : List String}
    {bodies : List (String × List Placement)} : Bodies scheduler analysis block owner names bodies →
    name ∈ names → ∃ body, (name, body) ∈ bodies ∧
      Arranged scheduler analysis (block.body analysis.index owner name) body
  | .nil, absent => nomatch absent
  | .cons _ _ body rest, member => by
      rcases List.mem_cons.mp member with rfl | later
      · exact ⟨_, List.mem_cons_self, body⟩
      · obtain ⟨other, among, arranged⟩ := rest.of_mem later
        exact ⟨other, List.mem_cons_of_mem _ among, arranged⟩

theorem Placed.body {block : Block} {cluster : Cluster} {placement : Placement} {type : NodeType}
    {name : String} (placed : Placed scheduler analysis block cluster placement)
    (typed : analysis.index.nodeType? cluster.head = some type) (declares : name ∈ type.scopes) :
    ∃ body, placement.Encloses (.body cluster.head name) body ∧
      Arranged scheduler analysis (block.body analysis.index cluster.head name) body := by
  cases placed with
  | node known bodies _ =>
      rw [typed] at known
      cases known
      obtain ⟨body, member, arranged⟩ := bodies.of_mem declares
      exact ⟨body, .body member, arranged⟩
  | branch known bodies _ _ _ =>
      rw [typed] at known
      cases known
      obtain ⟨body, member, arranged⟩ := bodies.of_mem declares
      exact ⟨body, .headBody member, arranged⟩

theorem Placed.arm {block : Block} {cluster : Cluster} {placement : Placement} {arms : Arms}
    {arm other : List String} (placed : Placed scheduler analysis block cluster placement)
    (branching : cluster.arms = some arms) (opposite : arms.Opposite arm other) :
    ∃ onSuccess part, placement.Encloses (.arm cluster.head onSuccess) part ∧
      Arranged scheduler analysis (block.ofArm analysis cluster.head arm) part := by
  cases placed with
  | node _ _ single =>
      rw [branching] at single
      cases single
  | branch _ _ found onSuccess onFailure =>
      rw [branching] at found
      cases found
      cases opposite with
      | success => exact ⟨true, _, .thenArm, onSuccess⟩
      | failure => exact ⟨false, _, .elseArm, onFailure⟩

/-- How a cluster of a block is placed when it is its turn: `inner` is the block as it is then. -/
structure PlacedIn (scheduler : Scheduler) (analysis : Analysis) (block : Block)
    (pending : List Cluster) (placements : List Placement) (cluster : Cluster) (inner : Block)
    (placement : Placement) : Prop where
  among : placement.Among placements
  placed : Placed scheduler analysis inner cluster placement
  /-- What the cluster waits for has been placed. -/
  waited : ∀ id ∈ cluster.prerequisites, id ∈ inner.resolved
  /-- Nothing inside of the cluster has been placed. -/
  fresh : Fresh inner.resolved [cluster]
  resolved : ∀ id ∈ inner.resolved, id ∈ block.resolved ∨ Inside pending id
  /-- The expressions that the cluster needs are at hand. -/
  needed : ∀ id ∈ analysis.neededBy cluster, id ∈ analysis.index.workflow.instances.map (·.id) →
    id ∈ inner.available
  available : ∀ id ∈ inner.available, id ∈ block.available ∨ .inlined id ∈ placements

/-- **Every pending cluster is placed after what it waits for**, and before anything inside of
it. -/
theorem Rounds.exists_placed {block : Block} {pending : List Cluster}
    {placements : List Placement} :
    Rounds scheduler analysis block pending placements →
    pending.Pairwise (fun first second => first.inside.Disjoint second.inside) →
    Fresh block.resolved pending → ∀ cluster ∈ pending, ∃ inner placement,
      PlacedIn scheduler analysis block pending placements cluster inner placement
  | .done _, _, _ => fun _ none => nomatch none
  | @Rounds.round _ _ _ _ ready waiting ids placed others parted _ needs each rest,
      apart, fresh => by
      intro cluster member
      have perm := splitReady_perm parted
      have inPending : ready ++ waiting ⊆ pending := fun other => perm.mem_iff.mp
      have inlines : ∀ id ∈ ids,
          Placement.inlined id ∈ ids.map .inlined ++ together placed ++ others := fun id listed =>
        List.mem_append_left _ (List.mem_append_left _ (List.mem_map.mpr ⟨id, listed, rfl⟩))
      rcases List.mem_append.mp (perm.mem_iff.mpr member) with isReady | isWaiting
      · obtain ⟨placement, amongPlaced, here⟩ := each.of_mem isReady
        refine ⟨_, placement, (among_together amongPlaced).subset ?_, here,
          prerequisites_of_splitReady parted cluster isReady,
          fresh.subset (List.Subset.refl _) (List.cons_subset.mpr ⟨member, List.nil_subset _⟩),
          fun id known => .inl known, fun id wanted known => ?_, fun id atHand => ?_⟩
        · exact List.subset_append_of_subset_left _ (List.subset_append_right _ _)
        · refine List.mem_append.mpr (Classical.or_iff_not_imp_right.mpr fun absent => ?_)
          exact (Analysis.mem_inlineNeeded needs).mpr
            ⟨known, List.mem_flatMap.mpr ⟨cluster, isReady, wanted⟩, absent⟩
        · exact (List.mem_append.mp atHand).symm.imp_right (inlines id)
      · have apartWaiting := (List.pairwise_append.mp (apart_of_perm perm apart)).2.1
        obtain ⟨inner, placement, later⟩ :=
          rest.exists_placed apartWaiting (fresh.placed perm apart) cluster isWaiting
        refine ⟨inner, placement, later.among.subset (List.subset_append_right _ _), later.placed,
          later.waited, later.fresh, fun id known => ?_, later.needed, fun id atHand => ?_⟩
        · rcases later.resolved id known with before | inside
          · exact (List.mem_append.mp before).symm.imp_right fun inReady =>
              (mem_flatMap_inside.mp inReady).subset fun other among =>
                inPending (List.mem_append_left _ among)
          · exact .inr (inside.subset fun other among => inPending (List.mem_append_right _ among))
        · rcases later.available id atHand with before | inRest
          · exact (List.mem_append.mp before).symm.imp_right (inlines id)
          · exact .inr (List.mem_append_right _ inRest)

end Scheduler

/-! ### Blocks that come up -/

/-- How a block stands in an arrangement of a workflow: as a part that lies in `path`. -/
structure Located (scheduler : Scheduler) (workflow : Workflow) (placements : List Placement)
    (path : List Enclosure) (block : Block) (part : List Placement) : Prop where
  isPart : Placement.Part placements path part
  arranged : Scheduler.Arranged scheduler (.ofWorkflow workflow) block part
  /-- The block lives in the region that the path leads into. -/
  lives : IsBlock workflow (Enclosure.region path) block.members
  /-- Nothing in the block has been placed before it. -/
  fresh : Fresh block.resolved (Cluster.ofBlock (.ofWorkflow workflow) block.members)
  /-- The arms around the block are those of branches that hold it. -/
  around : ∀ head onSuccess, .arm head onSuccess ∈ path →
    ∃ branch arms, workflow.HasCluster branch ∧ branch.arms = some arms ∧ branch.head = head ∧
    ∀ id, Inside (Cluster.ofBlock (.ofWorkflow workflow) block.members) id → id ∈ branch.inside ∧
    id ≠ head
  /-- No two arms of one branch are around the block. -/
  consistent : ∀ head, .arm head true ∈ path → .arm head false ∉ path
  /-- The expressions at hand are placed around the block. -/
  available : ∀ id ∈ block.available, ∃ outerPath outer,
    Placement.Part placements outerPath outer ∧ outerPath <:+ path ∧ .inlined id ∈ outer

namespace Located

variable {scheduler : Scheduler} {workflow : Workflow} {placements part : List Placement}
  {path : List Enclosure} {block inner : Block} {cluster : Cluster} {placement : Placement}

/-- The expressions at hand when a cluster is placed are placed around its block. -/
theorem available_inner (located : Located scheduler workflow placements path block part)
    {pending : List Cluster}
    (here : Scheduler.PlacedIn scheduler (.ofWorkflow workflow) block pending part
      cluster inner placement) {id : String} (atHand : id ∈ inner.available) :
    ∃ outerPath outer, Placement.Part placements outerPath outer ∧ outerPath <:+ path ∧
      .inlined id ∈ outer := by
  rcases here.available id atHand with before | inPart
  · exact located.available id before
  · exact ⟨path, part, located.isPart, List.suffix_rfl, inPart⟩

theorem exists_placed (located : Located scheduler workflow placements path block part)
    (certified : Certified workflow)
    (member : cluster ∈ Cluster.ofBlock (.ofWorkflow workflow) block.members) :
    ∃ inner placement, Scheduler.PlacedIn scheduler (.ofWorkflow workflow) block
      (Cluster.ofBlock (.ofWorkflow workflow) block.members) part cluster inner placement := by
  obtain ⟨rounds⟩ := located.arranged
  exact rounds.exists_placed (certified.parted located.lives) located.fresh cluster member

/-- The inside of a scope stands in the placement of its owner. -/
theorem body (located : Located scheduler workflow placements path block part)
    (certified : Certified workflow)
    (member : cluster ∈ Cluster.ofBlock (.ofWorkflow workflow) block.members) {type : NodeType}
    {name : String} (typed : (Index.ofWorkflow workflow).nodeType? cluster.head = some type)
    (declares : name ∈ type.scopes) :
    ∃ (inner : Block) (body : List Placement), Located scheduler workflow placements
      (.body cluster.head name :: path)
      (inner.body (.ofWorkflow workflow) cluster.head name) body := by
  obtain ⟨inner, placement, here⟩ := located.exists_placed certified member
  obtain ⟨body, encloses, arranged⟩ := here.placed.body typed declares
  refine ⟨inner, body, .inner located.isPart here.among encloses, arranged, .whole _,
    certified.fresh_body located.lives member here.fresh name, fun head onSuccess around => ?_,
    fun head onSuccess onFailure => ?_, fun id atHand => ?_⟩
  · obtain ⟨branch, arms, formed, branching, same, holds⟩ :=
      located.around head onSuccess ((List.mem_cons.mp around).resolve_left nofun)
    exact ⟨branch, arms, formed, branching, same, fun id inside =>
      holds id ⟨cluster, member, certified.inside_of_body located.lives member inside⟩⟩
  · exact located.consistent head ((List.mem_cons.mp onSuccess).resolve_left nofun)
      ((List.mem_cons.mp onFailure).resolve_left nofun)
  · obtain ⟨outerPath, outer, isPart, suffix, inlined⟩ := located.available_inner here atHand
    exact ⟨outerPath, outer, isPart, suffix.trans (List.suffix_cons _ _), inlined⟩

/-- An arm stands in the placement of its branch. -/
theorem arm (located : Located scheduler workflow placements path block part)
    (certified : Certified workflow)
    (formed : Formed (.ofWorkflow workflow) block.members)
    (member : cluster ∈ Cluster.ofBlock (.ofWorkflow workflow) block.members) {arms : Arms}
    {arm other : List String} (branching : cluster.arms = some arms)
    (opposite : arms.Opposite arm other) :
    ∃ (inner : Block) (onSuccess : Bool) (inArm : List Placement),
      Located scheduler workflow placements (.arm cluster.head onSuccess :: path)
        (inner.ofArm (.ofWorkflow workflow) cluster.head arm) inArm := by
  obtain ⟨inner, placement, here⟩ := located.exists_placed certified member
  obtain ⟨onSuccess, inArm, encloses, arranged⟩ := here.placed.arm branching opposite
  have found := (Cluster.exists_of_mem_ofBlock member).2.2 arms branching
  have fresh := certified.fresh_arm located.lives member branching opposite here.fresh
  have headInside : Inside (Cluster.ofBlock (.ofWorkflow workflow) block.members) cluster.head :=
    ⟨cluster, member, Cluster.head_mem_inside member⟩
  have inside : ∀ id, Inside (Cluster.ofBlock (.ofWorkflow workflow) arm) id →
      id ∈ cluster.inside :=
    fun id within => (certified.mem_inside_branch located.lives member branching opposite).mpr
      (.inr (.inl within))
  -- the head of a branch around the block is not inside the block
  have otherHead : ∀ onSuccess, .arm cluster.head onSuccess ∉ path := fun onSuccess around => by
    obtain ⟨_, _, _, _, _, holds⟩ := located.around _ _ around
    exact (holds cluster.head headInside).2 rfl
  refine ⟨inner, onSuccess, inArm, .inner located.isPart here.among encloses, arranged,
    located.lives.part (opposite.sublist found), fresh,
    fun head side around => ?_, fun head first second => ?_, fun id atHand => ?_⟩
  · rcases List.mem_cons.mp around with here | outside
    · cases here
      refine ⟨cluster, arms, ⟨_, formed, member⟩, branching, rfl, fun id within =>
        ⟨inside id within, ?_⟩⟩
      rintro rfl
      exact fresh _ (List.mem_append_left _ List.mem_cons_self) within
    · obtain ⟨branch, arms, formed, branching, same, holds⟩ := located.around head side outside
      exact ⟨branch, arms, formed, branching, same, fun id within =>
        holds id ⟨cluster, member, inside id within⟩⟩
  · rcases List.mem_cons.mp first with here | outside
    · rcases List.mem_cons.mp second with hereToo | outsideToo
      · cases here
        cases hereToo
      · cases here
        exact otherHead _ outsideToo
    · rcases List.mem_cons.mp second with hereToo | outsideToo
      · cases hereToo
        exact otherHead _ outside
      · exact located.consistent head outside outsideToo
  · obtain ⟨outerPath, outer, isPart, suffix, inlined⟩ := located.available_inner here atHand
    exact ⟨outerPath, outer, isPart, suffix.trans (List.suffix_cons _ _), inlined⟩

end Located

/-- **Every block that comes up is arranged in a part of the arrangement.** -/
theorem Formed.located {scheduler : Scheduler} {workflow : Workflow}
    (certified : Certified workflow) {placements : List Placement}
    (arranged : Scheduler.Arranged scheduler (.ofWorkflow workflow)
      (.ofRegion (.ofWorkflow workflow) none [] []) placements) {members : List String}
    (formed : Formed (.ofWorkflow workflow) members) :
    ∃ path block part, block.members = members ∧
      Located scheduler workflow placements path block part := by
  induction formed with
  | top =>
      exact ⟨[], _, placements, rfl, .whole, arranged, .whole none, fun _ none => (nomatch none),
        fun _ _ none => (nomatch none), fun _ none => (nomatch none), fun _ none => (nomatch none)⟩
  | body formed member typed declares ih =>
      obtain ⟨path, block, part, rfl, located⟩ := ih
      obtain ⟨inner, body, inScope⟩ := located.body certified member typed declares
      exact ⟨_, _, body, rfl, inScope⟩
  | arm formed member branching opposite ih =>
      obtain ⟨path, block, part, rfl, located⟩ := ih
      obtain ⟨inner, onSuccess, inArm, located⟩ :=
        located.arm certified formed member branching opposite
      exact ⟨_, _, inArm, rfl, located⟩

end WorkflowGraph
