/-
Instances that wait for each other in a circle.

The main statement is `circle_fails`: a workflow, valid or not, in which two or more scheduled
instances of the top level feed each other in a circle cannot be scheduled, if expressions do not
feed each other in circles and no instance of the circle branches so that all the others are in one
of its arms. Three workflows show what the conditions are for, each with a circle and all the same
scheduled:

* `headReader_scheduled` — the head of a branch reads from its own arm.
* `selfReader_scheduled` — a single instance reads itself.
* `tangledReader_scheduled` — the circle passes through a circle of expressions.

On the way:

* `Workflow.Circle` — each instance of a list is fed by the next one, and the last one by the first.
* `Scheduler.Arranged.sated` — every instance of the top level is placed behind all that its cluster
  waits for, whatever the workflow is.
* `Scheduler.PlacedAfter.source_of_arm` — what a member of an arm reads is placed before the branch,
  is its head, or is in the same arm.
-/

import Mathlib.Data.List.Cycle
import WorkflowGraph.Proofs.Plan.Spot
import WorkflowGraph.Proofs.Schedule.Outcome

namespace WorkflowGraph

variable {workflow : Workflow} {scheduler : Scheduler}

/-! ### Circles -/

/-- Whether instances form a circle: each is fed by the next one, and the last one by the first. -/
def Workflow.Circle (workflow : Workflow) : List String → Prop
  | [] => False
  | first :: rest =>
      (first :: (rest ++ [first])).IsChain fun reader source => workflow.Feeds source reader

/-- A circle may begin with each of its instances. -/
theorem Workflow.Circle.exists_rotation {ring : List String} (circle : workflow.Circle ring)
    {start : String} (member : start ∈ ring) :
    ∃ rest, ring.IsRotated (start :: rest) ∧ workflow.Circle (start :: rest) := by
  obtain ⟨before, after, rfl⟩ := List.append_of_mem member
  have rotated : (before ++ start :: after).IsRotated (start :: (after ++ before)) :=
    List.isRotated_append
  have chain : ∀ ids, ids ≠ [] →
      (workflow.Circle ids ↔
        Cycle.Chain (fun reader source => workflow.Feeds source reader) ids) := by
    intro ids nonempty
    cases ids with
    | nil => exact absurd rfl nonempty
    | cons first rest => exact Iff.rfl
  refine ⟨after ++ before, rotated, (chain _ (by simp)).mpr ?_⟩
  rw [← Cycle.coe_eq_coe.mpr rotated]
  exact (chain _ (by simp)).mp circle

/-- What goes over from readers to what feeds them holds of a whole chain, if it holds where the
chain begins. -/
theorem forall_of_feeding_chain {first : String} {rest : List String} {holds : String → Prop}
    (chain : (first :: rest).IsChain fun reader source => workflow.Feeds source reader)
    (goesOver : ∀ reader ∈ first :: rest, ∀ source ∈ first :: rest, workflow.Feeds source reader →
      holds reader → holds source) (here : holds first) : ∀ id ∈ first :: rest, holds id := by
  have carries := List.IsChain.imp_of_mem_imp (fun reader source inChain inChainToo =>
    goesOver reader inChain source inChainToo) chain
  exact carries.induction holds _ (fun _ _ carry => carry) fun _ => here

/-! ### The top level -/

theorem notMem_descendants_of_top (distinct : (workflow.instances.map (·.id)).Nodup)
    {id owner : String} (top : id ∈ (Index.ofWorkflow workflow).scheduledIn none) :
    id ∉ (Analysis.ofWorkflow workflow).descendants owner := by
  intro nested
  obtain ⟨inst, member, same, owned⟩ := Analysis.mem_descendants_iff.mp nested
  obtain ⟨⟨onTop, found, lives⟩, _⟩ := Index.mem_scheduledIn.mp top
  have only : inst = onTop := List.inj_on_of_nodup_map distinct member (Index.mem_of_find? found)
    (same.trans (Index.id_of_find? found).symm)
  rw [only, lives] at owned
  cases owned

/-- What a cluster has of the top level inside are its members. -/
theorem Cluster.mem_members_of_top (distinct : (workflow.instances.map (·.id)).Nodup)
    {cluster : Cluster} {block : List String}
    (member : cluster ∈ ofBlock (.ofWorkflow workflow) block) {id : String}
    (inside : id ∈ cluster.inside) (top : id ∈ (Index.ofWorkflow workflow).scheduledIn none) :
    id ∈ cluster.members := by
  obtain ⟨holder, inMembers, rfl | nested⟩ := (mem_inside_iff member).mp inside
  · exact inMembers
  · exact absurd nested (notMem_descendants_of_top distinct top)

/-- What is placed inside of scopes is not of the top level. -/
theorem Scheduler.BodyPlaced.notMem_top {rounds : Block → List Cluster → List Placement → Prop}
    {block : Block} {owner : String} {names : List String} {bodies : List (String × List Placement)}
    (inside : List.Forall₂ (BodyPlaced scheduler (.ofWorkflow workflow) rounds block owner) names
      bodies) {id : String}
    (scheduled : id ∈ Placing.scheduled (Placement.placingsOfBodies bodies)) :
    id ∉ (Index.ofWorkflow workflow).scheduledIn none := by
  intro top
  rw [Placement.placingsOfBodies_eq, Placing.scheduled, List.filterMap_flatMap] at scheduled
  obtain ⟨entry, among, placed⟩ := List.mem_flatMap.mp scheduled
  obtain ⟨name, _, body⟩ := exists_left_of_mem inside among
  obtain ⟨child, member, under⟩ := ((body.arranged.enumerates body.formed).mem_iff id).mp placed
  have nested : (Index.ofWorkflow workflow).NestedIn child owner :=
    ⟨name, Index.regionOf_of_mem_scheduledIn member ▸ .refl _⟩
  obtain ⟨_, within⟩ := nested.of_holds under.holds
  rw [Index.regionOf_of_mem_scheduledIn top] at within
  cases within

/-- What an arrangement of members of the top level places of the top level are the members. -/
theorem Scheduler.Arranged.mem_members_of_top {block : Block} {placements : List Placement}
    (arranged : Arranged scheduler (.ofWorkflow workflow) block placements)
    (formed : Formed (.ofWorkflow workflow) block.members) {id : String}
    (scheduled : id ∈ Placing.scheduled (Placement.placingsOfAll placements))
    (top : id ∈ (Index.ofWorkflow workflow).scheduledIn none) : id ∈ block.members := by
  obtain ⟨child, member, under⟩ := ((arranged.enumerates formed).mem_iff id).mp scheduled
  rcases under.holds with rfl | ⟨_, within⟩
  · exact member
  · rw [Index.regionOf_of_mem_scheduledIn top] at within
    cases within

/-! ### What is in front of an instance -/

/-- Whether all instances of the top level that a block counts as placed stand in front. -/
def Backed (workflow : Workflow) (before resolved : List String) : Prop :=
  ∀ id ∈ resolved, id ∈ (Index.ofWorkflow workflow).scheduledIn none → id ∈ before

namespace Backed

variable {before resolved : List String}

theorem append (backed : Backed workflow before resolved) (further : List String) :
    Backed workflow (before ++ further) resolved :=
  fun id placed top => List.mem_append_left _ (backed id placed top)

/-- In an arm the head has been placed, and what lies in its scopes is not of the top level. -/
theorem ofArm {block : Block} (backed : Backed workflow before block.resolved)
    (distinct : (workflow.instances.map (·.id)).Nodup) {head : String} (placed : head ∈ before)
    (members : List String) :
    Backed workflow before (block.ofArm (.ofWorkflow workflow) head members).resolved := by
  intro id resolved top
  have cases : id = head ∨ id ∈ (Analysis.ofWorkflow workflow).descendants head ∨
      id ∈ block.resolved := by
    simpa [Block.ofArm] using resolved
  rcases cases with rfl | nested | earlier
  · exact placed
  · exact absurd nested (notMem_descendants_of_top distinct top)
  · exact backed id earlier top

end Backed

namespace Scheduler

open Placement

variable {before : List String}

/-- How a cluster of a block is placed after `before`: all that it waits for counts as placed, and
what counts as placed stands in front. -/
structure PlacedAfter (scheduler : Scheduler) (workflow : Workflow) (block : Block)
    (before : List String) (cluster : Cluster) : Prop where
  formed : Formed (.ofWorkflow workflow) block.members
  inBlock : cluster ∈ Cluster.ofBlock (.ofWorkflow workflow) block.members
  placed : ∃ placement, Placed scheduler (.ofWorkflow workflow) block cluster placement
  backed : Backed workflow before block.resolved
  ready : ∀ id ∈ cluster.prerequisites, id ∈ block.resolved

/-- Whether an instance of the top level is placed after `before` as the head of a cluster of a
block, all of whose members are among `all`. -/
def Sated (scheduler : Scheduler) (workflow : Workflow) (all before : List String) (id : String) :
    Prop :=
  id ∈ (Index.ofWorkflow workflow).scheduledIn none → ∃ block cluster, block.members ⊆ all ∧
    cluster.head = id ∧ PlacedAfter scheduler workflow block before cluster

/-- A round places the members of its clusters. -/
theorem backed_withPlaced {block : Block} {clusters : List Cluster} {placements : List Placement}
    (each : List.Forall₂ (Placed scheduler (.ofWorkflow workflow) block) clusters placements)
    (distinct : (workflow.instances.map (·.id)).Nodup)
    (formed : Formed (.ofWorkflow workflow) block.members)
    (inBlock : clusters ⊆ Cluster.ofBlock (.ofWorkflow workflow) block.members)
    (backed : Backed workflow before block.resolved) :
    Backed workflow (before ++ Placing.scheduled (placingsOfAll placements))
      (block.withPlaced clusters).resolved := by
  intro id resolved top
  rcases List.mem_append.mp resolved with now | earlier
  · obtain ⟨cluster, among, inside⟩ := List.mem_flatMap.mp now
    have member := Cluster.mem_members_of_top distinct (inBlock among) inside top
    obtain ⟨placement, here, placed⟩ := exists_right_of_mem each among
    have scheduled := ((placed.enumerates formed (inBlock among)).mem_iff id).mpr
      ⟨id, member, .self id⟩
    rw [placingsOfAll_eq, Placing.scheduled, List.filterMap_flatMap]
    exact List.mem_append_right _ (List.mem_flatMap.mpr ⟨placement, here, scheduled⟩)
  · exact List.mem_append_left _ (backed id earlier top)

/-- Whether the instances of the top level are sated where placements of a block place them. -/
def Sates (scheduler : Scheduler) (workflow : Workflow) (block : Block)
    (placements : List Placement) : Prop :=
  ∀ all before, block.members ⊆ all → Backed workflow before block.resolved →
    EachAfter (Sated scheduler workflow all) before (Placing.scheduled (placingsOfAll placements))

/-- Whether the instances of the top level are sated where a cluster is placed that is ready. -/
def ClusterSates (scheduler : Scheduler) (workflow : Workflow) (block : Block) (cluster : Cluster)
    (placement : Placement) : Prop :=
  ∀ all before, block.members ⊆ all → Backed workflow before block.resolved →
    PlacedAfter scheduler workflow block before cluster →
    EachAfter (Sated scheduler workflow all) before (Placing.scheduled placement.placings)

theorem sated_placed {block : Block} {clusters : List Cluster} {placements : List Placement}
    {all : List String} (each : List.Forall₂ (fun cluster placement =>
      Placed scheduler (.ofWorkflow workflow) block cluster placement ∧
        ClusterSates scheduler workflow block cluster placement) clusters placements)
    (among : block.members ⊆ all) (formed : Formed (.ofWorkflow workflow) block.members)
    (inBlock : clusters ⊆ Cluster.ofBlock (.ofWorkflow workflow) block.members)
    (ready : ∀ cluster ∈ clusters, ∀ id ∈ cluster.prerequisites, id ∈ block.resolved)
    (backed : Backed workflow before block.resolved) :
    EachAfter (Sated scheduler workflow all) before
      (Placing.scheduled (placingsOfAll placements)) := by
  induction each generalizing before with
  | nil => exact .nil
  | cons first _ ih =>
      obtain ⟨inFirst, inRest⟩ := List.cons_subset.mp inBlock
      obtain ⟨readyFirst, readyRest⟩ := List.forall_mem_cons.mp ready
      rw [placingsOfAll, Placing.scheduled_append]
      exact (first.2 all before among backed ⟨formed, inFirst, ⟨_, first.1⟩, backed,
        readyFirst⟩).append (ih inRest readyRest (backed.append _))

theorem sated_cases (distinct : (workflow.instances.map (·.id)).Nodup) :
    Induction scheduler (.ofWorkflow workflow) (fun block _ => Sates scheduler workflow block)
      (ClusterSates scheduler workflow) where
  done _ _ all before _ _ := by
    rw [placingsOfAll_inlined, Placing.scheduled_inlined]
    exact .nil
  round formed pending parted _ each rest all before among backed := by
    have parts := (splitReady_perm parted).subperm.trans pending
    have inBlock := (List.append_subset.mp parts.subset).1
    rw [placingsOfAll_round, Placing.scheduled_append, Placing.scheduled_inlined, List.nil_append,
      Placing.scheduled_append]
    have now := sated_placed each among formed inBlock (prerequisites_of_splitReady parted) backed
    have placed := each.imp fun _ _ known => known.1
    exact now.append (rest all _ among (backed_withPlaced placed distinct formed inBlock backed))
  node {block cluster _ _} _ _ _ inside _ all before among _ here := by
    rw [placings, Placing.scheduled_cons_run]
    refine .cons (fun _ => ⟨block, cluster, among, rfl, here⟩) fun first id rest split top => ?_
    exact absurd top (BodyPlaced.notMem_top inside (split ▸ by simp))
  branch {block cluster _ arms bodies thenArm _} formed member _ inside branching
      onSuccess onFailure all before among backed here := by
    have armsAmong : arms.members ⊆ all := by
      rw [← Cluster.armMembers_eq branching]
      exact fun id inArm =>
        among (Cluster.members_subset formed.nodup member (List.mem_cons_of_mem _ inArm))
    obtain ⟨thenAmong, elseAmong⟩ := List.append_subset.mp armsAmong
    have behindHead := (backed.append [cluster.head]).append
      (Placing.scheduled (placingsOfBodies bodies))
    have behindThen := behindHead.append (Placing.scheduled (placingsOfAll thenArm))
    rw [placings, Placing.scheduled_cons_run, Placing.scheduled_append, Placing.scheduled_append]
    refine .cons (fun _ => ⟨block, cluster, among, rfl, here⟩) (.append ?_ (.append
      (onSuccess.holds all _ thenAmong (behindHead.ofArm distinct (by simp) _))
      (onFailure.holds all _ elseAmong (behindThen.ofArm distinct (by simp) _))))
    intro first id rest split top
    exact absurd top (BodyPlaced.notMem_top inside (split ▸ by simp))

/-- **Every instance of the top level is sated where an arrangement places it.** -/
theorem Arranged.sated {block : Block} {placements : List Placement} {all before : List String}
    (arranged : Arranged scheduler (.ofWorkflow workflow) block placements)
    (distinct : (workflow.instances.map (·.id)).Nodup)
    (formed : Formed (.ofWorkflow workflow) block.members) (among : block.members ⊆ all)
    (backed : Backed workflow before block.resolved) :
    EachAfter (Sated scheduler workflow all) before
      (Placing.scheduled (placingsOfAll placements)) :=
  arranged.induction (sated_cases distinct) formed all before among backed

namespace PlacedAfter

variable {block : Block} {cluster : Cluster} {reader source : String}

/-- What a member of a cluster reads is in front of the cluster or in it. -/
theorem source_cases (here : PlacedAfter scheduler workflow block before cluster)
    (distinct : (workflow.instances.map (·.id)).Nodup) (member : reader ∈ cluster.members)
    (read : source ∈ (Analysis.ofWorkflow workflow).dataOf reader)
    (top : source ∈ (Index.ofWorkflow workflow).scheduledIn none) :
    source ∈ before ∨ source ∈ cluster.members := by
  by_cases inside : source ∈ cluster.inside
  · exact .inr (Cluster.mem_members_of_top distinct here.inBlock inside top)
  · refine .inl (here.backed source (here.ready source ?_) top)
    refine (Cluster.mem_prerequisites_iff here.inBlock).mpr ⟨.inl ⟨reader, ?_, read⟩, inside⟩
    exact (Cluster.mem_inside_iff here.inBlock).mpr ⟨reader, member, .inl rfl⟩

/-- **What a member of an arm reads is in front of the branch, is its head, or is in the same
arm.** -/
theorem source_of_arm (here : PlacedAfter scheduler workflow block before cluster)
    (distinct : (workflow.instances.map (·.id)).Nodup) {arms : Arms}
    (branching : cluster.arms = some arms) {onSuccess : Bool} (inArm : reader ∈ arms.side onSuccess)
    (readerTop : reader ∈ (Index.ofWorkflow workflow).scheduledIn none)
    (read : source ∈ (Analysis.ofWorkflow workflow).dataOf reader)
    (top : source ∈ (Index.ofWorkflow workflow).scheduledIn none) :
    source ∈ before ∨ source = cluster.head ∨ source ∈ arms.side onSuccess := by
  obtain ⟨placement, placed⟩ := here.placed
  obtain ⟨part, _, arranged⟩ := placed.side branching onSuccess
  have formed := Formed.arm here.formed here.inBlock branching (arms.opposite_side onSuccess)
  -- in the arm the head has been placed, and all that was placed in front of the branch
  have behind : Backed workflow (before ++ [cluster.head])
      (block.ofArm (.ofWorkflow workflow) cluster.head (arms.side onSuccess)).resolved :=
    (here.backed.append _).ofArm distinct (by simp) _
  obtain ⟨first, rest, split⟩ := List.append_of_mem (arranged.places formed inArm)
  obtain ⟨_, inner, among, rfl, placedInner⟩ :=
    arranged.sated distinct formed (List.Subset.refl _) behind first reader rest split readerTop
  rcases placedInner.source_cases distinct List.mem_cons_self read top with earlier | inCluster
  · rcases List.mem_append.mp earlier with outside | inFront
    · rcases List.mem_append.mp outside with outer | isHead
      · exact .inl outer
      · exact .inr (.inl (List.mem_singleton.mp isHead))
    · refine .inr (.inr (arranged.mem_members_of_top formed ?_ top))
      rw [split]
      exact List.mem_append_left _ inFront
  · exact .inr (.inr (among
      (Cluster.members_subset placedInner.formed.nodup placedInner.inBlock inCluster)))

end PlacedAfter

end Scheduler

/-- **Of instances of the top level the one that is placed first has none of the others in front of
it.** -/
theorem Scheduler.Arranged.exists_first {placements : List Placement}
    (arranged : Arranged scheduler (.ofWorkflow workflow)
      (.ofRegion (.ofWorkflow workflow) none [] []) placements)
    (distinct : (workflow.instances.map (·.id)).Nodup) {ring : List String} {some : String}
    (member : some ∈ ring)
    (onTop : ∀ id ∈ ring, id ∈ (Index.ofWorkflow workflow).scheduledIn none) :
    ∃ block cluster before, cluster.head ∈ ring ∧
      PlacedAfter scheduler workflow block before cluster ∧ ∀ id ∈ before, id ∉ ring := by
  have placed := arranged.places .top (onTop some member)
  obtain ⟨first, found⟩ := Option.isSome_iff_exists.mp
    (List.find?_isSome (p := fun id => decide (id ∈ ring)).mpr ⟨some, placed,
      decide_eq_true member⟩)
  obtain ⟨inRing, before, after, split, others⟩ := List.find?_eq_some_iff_append.mp found
  replace inRing := of_decide_eq_true inRing
  have nothing : Backed workflow [] [] := fun _ none => (nomatch none)
  obtain ⟨block, cluster, _, rfl, placedHere⟩ := arranged.sated distinct .top (List.Subset.refl _)
    nothing before first after split (onTop first inRing)
  exact ⟨block, cluster, before, inRing, placedHere,
    fun id earlier => by simpa using others id earlier⟩

/-! ### Circles cannot be scheduled -/

/-- A cluster with arms is on an instance that branches. -/
theorem Workflow.HasCluster.branching {cluster : Cluster} (comesUp : workflow.HasCluster cluster)
    {arms : Arms} (found : cluster.arms = some arms) : workflow.Branching cluster.head := by
  obtain ⟨members, _, inBlock⟩ := comesUp
  exact Arms.branching_of_ofHead ((Cluster.exists_of_mem_ofBlock inBlock).2.2 arms found)

/-- What feeds an instance of the top level from there is listed among what it reads, if no
expression feeds itself. -/
theorem Workflow.Feeds.mem_dataOf (plain : ∀ inst ∈ workflow.instances, isBoundary inst.id = false)
    (untangled : ∀ id, (Index.ofWorkflow workflow).isExpression id = true → ¬ workflow.Feeds id id)
    {source reader : String} (feeds : workflow.Feeds source reader)
    (sourceTop : source ∈ (Index.ofWorkflow workflow).scheduledIn none)
    (readerTop : reader ∈ (Index.ofWorkflow workflow).scheduledIn none) :
    source ∈ (Analysis.ofWorkflow workflow).dataOf reader := by
  have named : ∀ id ∈ (Index.ofWorkflow workflow).scheduledIn none,
      id ∈ workflow.instances.map (·.id) := by
    intro id top
    obtain ⟨⟨_, found, _⟩, _⟩ := Index.mem_scheduledIn.mp top
    exact Index.named_of_find? found
  have ordinary : ∀ id ∈ workflow.instances.map (·.id), isBoundary id = false := by
    simpa using plain
  have acyclic : (Index.ofWorkflow workflow).ExpressionsAcyclic := by
    intro id expression reads
    have known := ordinary id (Analysis.isExpression_named expression)
    exact untangled id expression ((feeds_iff_reads plain known).mpr reads)
  exact Analysis.mem_dataOf acyclic (named reader readerTop)
    ((feeds_iff_reads plain (ordinary source (named source sourceTop))).mp feeds)
    (Index.mem_scheduledIn.mp sourceTop).2

/-- No expression feeds itself where none is connected with another one. -/
theorem Workflow.not_feeds_self (flat : ∀ connection ∈ workflow.connections,
      (Index.ofWorkflow workflow).isExpression connection.source.node = true →
        (Index.ofWorkflow workflow).isExpression connection.target.node = false) {id : String}
    (expression : (Index.ofWorkflow workflow).isExpression id = true) : ¬ workflow.Feeds id id := by
  have toOrdinary : ∀ target, workflow.Gives id target →
      (Index.ofWorkflow workflow).isExpression target = false := by
    rintro target ⟨connection, member, rfl, rfl, _⟩
    exact flat connection member expression
  intro feeds
  cases feeds with
  | direct gives => simp [toOrdinary id gives] at expression
  | through gives between _ => simp [toOrdinary _ gives] at between

/-- **A workflow with a circle of two or more instances on its top level cannot be scheduled**,
valid or not, if no expression feeds itself and no instance of the circle branches so that all the
others are in one of its arms. -/
theorem circle_fails {ring : List String} (distinct : (workflow.instances.map (·.id)).Nodup)
    (plain : ∀ inst ∈ workflow.instances, isBoundary inst.id = false)
    (untangled : ∀ id, (Index.ofWorkflow workflow).isExpression id = true → ¬ workflow.Feeds id id)
    (onTop : ∀ id ∈ ring, id ∈ (Index.ofWorkflow workflow).scheduledIn none)
    (circle : workflow.Circle ring) (simple : ring.Nodup) (several : 2 ≤ ring.length)
    (apart : ∀ cluster arms, workflow.HasCluster cluster → cluster.arms = some arms →
      cluster.head ∈ ring →
      ∀ onSuccess, ∃ id ∈ ring, id ≠ cluster.head ∧ id ∉ arms.side onSuccess) :
    ∃ error, (scheduler.schedule workflow).outcome = .error error := by
  cases outcome : (scheduler.schedule workflow).outcome with
  | error error => exact ⟨error, rfl⟩
  | ok plan =>
      exfalso
      obtain ⟨placements, arranged, _⟩ := Scheduler.exists_arranged outcome
      obtain ⟨some, member⟩ := List.exists_mem_of_length_pos (by omega : 0 < ring.length)
      obtain ⟨block, cluster, before, inRing, placed, others⟩ :=
        arranged.exists_first distinct member onTop
      -- the circle begins with the instance that is placed first, and goes on with one that is in
      -- its cluster
      obtain ⟨rest, rotated, chain⟩ := circle.exists_rotation inRing
      have same := rotated.perm
      obtain ⟨notInRest, _⟩ := List.nodup_cons.mp (same.nodup_iff.mp simple)
      have read : ∀ reader ∈ cluster.head :: rest, ∀ source ∈ cluster.head :: rest,
          workflow.Feeds source reader →
          source ∈ (Analysis.ofWorkflow workflow).dataOf reader :=
          fun reader readerIn source sourceIn feeds =>
        feeds.mem_dataOf plain untangled (onTop source (same.mem_iff.mpr sourceIn))
          (onTop reader (same.mem_iff.mpr readerIn))
      cases rest with
      | nil =>
          have := same.length_eq
          simp only [List.length_cons, List.length_nil] at this
          omega
      | cons next more =>
          have nextTop := onTop next (same.mem_iff.mpr (by simp))
          have nextRead :=
            read cluster.head (by simp) next (by simp) (List.isChain_cons_cons.mp chain).1
          have inCluster :=
            (placed.source_cases distinct List.mem_cons_self nextRead nextTop).resolve_left
            fun earlier => others next earlier (same.mem_iff.mpr (by simp))
          have inArms := (List.mem_cons.mp inCluster).resolve_left fun isHead =>
            notInRest (by simp [isHead])
          obtain ⟨arms, onSuccess, branching, inSide⟩ := Cluster.exists_side inArms
          -- from there on it does not leave the arm
          have stays : ∀ id ∈ next :: more, id ∈ arms.side onSuccess := by
            have behind : (next :: more).IsChain fun reader source =>
                workflow.Feeds source reader :=
              List.IsChain.left_of_append (List.isChain_cons_cons.mp chain).2
            refine forall_of_feeding_chain behind
              (fun reader readerIn source sourceIn feeds inArm => ?_) inSide
            have readerIn := List.mem_cons_of_mem cluster.head readerIn
            have sourceRing := List.mem_cons_of_mem cluster.head sourceIn
            rcases placed.source_of_arm distinct branching inArm
              (onTop reader (same.mem_iff.mpr readerIn))
              (read reader readerIn source sourceRing feeds)
                (onTop source (same.mem_iff.mpr sourceRing)) with
              earlier | isHead | inSide
            · exact absurd (same.mem_iff.mpr sourceRing) (others source earlier)
            · exact absurd (isHead ▸ sourceIn) notInRest
            · exact inSide
          obtain ⟨id, onRing, notHead, outside⟩ :=
            apart cluster arms ⟨_, placed.formed, placed.inBlock⟩ branching inRing onSuccess
          exact outside (stays id
            ((List.mem_cons.mp (same.mem_iff.mp onRing)).resolve_left notHead))

/-- What handles an outcome is not in the arm of the other outcome, if nothing triggers the head. -/
theorem Workflow.Handles.notMem_side {head id : String} {onSuccess : Bool}
    (handles : workflow.Handles head onSuccess id)
    (untriggered : ∀ source, ¬ workflow.Triggers source head) {cluster : Cluster} {arms : Arms}
    (comesUp : workflow.HasCluster cluster) (branching : cluster.arms = some arms)
    (isHead : cluster.head = head) : id ∉ arms.side !onSuccess := by
  obtain ⟨members, _, inBlock⟩ := comesUp
  have found := (Cluster.exists_of_mem_ofBlock inBlock).2.2 arms branching
  rw [isHead] at found
  intro inSide
  rw [Arms.side_eq found] at inSide
  have led := (Arms.ledTo_of_mem_onOutcome inSide).2.1
  rcases handles.ledTo_cases led with ⟨_, same⟩ | again
  · exact Port.outcomeName_ne onSuccess same
  · rcases Wiring.mem_ledTo_iff_last.mp again with ⟨_, _, fires⟩ | ⟨source, _, _, _, triggers⟩
    · exact untriggered head (Workflow.triggers_iff.mpr ⟨_, fires⟩)
    · exact untriggered source triggers

/-- A branch whose head is given a value by the one arm, which is given one by the other arm through
an expression. -/
def crossedArms : Workflow where
  name := "crossed-arms"
  nodeTypes :=
    [taskType, ((NodeType.expression "Upper").withInput "in" .string).withOutput "out" .string]
  instances := ["h", "x", "y"].map (fun id => { id := id, nodeType := "Task" }) ++
    [{ id := "e", nodeType := "Upper" }]
  connections :=
    [⟨⟨"h", "onSuccess", none⟩, ⟨"x", "execute", none⟩⟩,
      ⟨⟨"h", "onFailure", none⟩, ⟨"y", "execute", none⟩⟩,
      ⟨⟨"h", "out", none⟩, ⟨"x", "in", none⟩⟩, ⟨⟨"x", "out", none⟩, ⟨"e", "in", none⟩⟩,
      ⟨⟨"e", "out", none⟩, ⟨"y", "in", none⟩⟩, ⟨⟨"y", "out", none⟩, ⟨"h", "in", none⟩⟩]

theorem circle_fails_crossedArms :
    crossedArms.Circle ["h", "y", "x"] ∧
      ∃ error, (({} : Scheduler).schedule crossedArms).outcome = .error error := by
  have toE : crossedArms.Gives "x" "e" := by decide +kernel
  have toY : crossedArms.Gives "e" "y" := by decide +kernel
  have toX : crossedArms.Gives "h" "x" := by decide +kernel
  have toH : crossedArms.Gives "y" "h" := by decide +kernel
  have expression : (Index.ofWorkflow crossedArms).isExpression "e" = true := by decide +kernel
  have toYFromX : crossedArms.Feeds "x" "y" := .through toE expression (.direct toY)
  have circle : crossedArms.Circle ["h", "y", "x"] :=
    .cons_cons (.direct toH) (.cons_cons toYFromX (.cons_cons (.direct toX) (.singleton _)))
  have plain : ∀ inst ∈ crossedArms.instances, isBoundary inst.id = false := by decide +kernel
  have untangled : ∀ id, (Index.ofWorkflow crossedArms).isExpression id = true →
      ¬ crossedArms.Feeds id id := by
    have flat : ∀ connection ∈ crossedArms.connections,
        (Index.ofWorkflow crossedArms).isExpression connection.source.node = true →
          (Index.ofWorkflow crossedArms).isExpression connection.target.node =
          false := by decide +kernel
    exact fun _ => Workflow.not_feeds_self flat
  have onSuccess : crossedArms.Handles "h" true "x" := ⟨by decide +kernel, by decide +kernel⟩
  have onFailure : crossedArms.Handles "h" false "y" := ⟨by decide +kernel, by decide +kernel⟩
  have untriggered : ∀ source, ¬ crossedArms.Triggers source "h" := by
    rintro source ⟨connection, member, _, into, port, atSource, step, _⟩
    have none : ∀ connection ∈ crossedArms.connections, connection.target.node = "h" →
        (Index.ofWorkflow crossedArms).isStep connection = false := by decide +kernel
    have := none connection member into
    rw [Index.isStep, show _ = some port from atSource, Option.any_some, step] at this
    cases this
  have apart : ∀ cluster arms, crossedArms.HasCluster cluster → cluster.arms = some arms →
      cluster.head ∈ ["h", "y", "x"] → ∀ outcome, ∃ id ∈ ["h", "y", "x"],
        id ≠ cluster.head ∧ id ∉ arms.side outcome := by
    intro cluster arms comesUp branching member outcome
    have quiet : ∀ head ∈ ["y", "x"], ∀ connection ∈ crossedArms.connections,
        connection.source.node = head →
        connection.source.port ≠ Port.outcomeName true := by decide +kernel
    rcases List.mem_cons.mp member with isHead | other
    · cases outcome with
      | true =>
          exact ⟨"y", by simp, by simp [isHead], onFailure.notMem_side untriggered comesUp
            branching isHead⟩
      | false =>
          exact ⟨"x", by simp, by simp [isHead], onSuccess.notMem_side untriggered comesUp
            branching isHead⟩
    · obtain ⟨connection, among, leaves, onSuccess, _⟩ := comesUp.branching branching true
      exact absurd onSuccess (quiet _ other connection among leaves)
  exact ⟨circle, circle_fails (by decide +kernel) plain untangled (by decide +kernel) circle
    (by decide) (by decide) apart⟩

/-- A branch whose head is given a value by its own arm, which it gives one itself. -/
def headReader : Workflow where
  name := "head-reader"
  nodeTypes := [taskType]
  instances := ["h", "x", "y"].map fun id => { id := id, nodeType := "Task" }
  connections :=
    [⟨⟨"h", "onSuccess", none⟩, ⟨"x", "execute", none⟩⟩,
      ⟨⟨"h", "onFailure", none⟩, ⟨"y", "execute", none⟩⟩,
      ⟨⟨"h", "out", none⟩, ⟨"x", "in", none⟩⟩, ⟨⟨"x", "out", none⟩, ⟨"h", "in", none⟩⟩]

/-- **A circle of a head and its own arm is scheduled**, and the head reads what has not been
computed. -/
theorem headReader_scheduled :
    (headReader.instances.map (·.id)).Nodup ∧
      (∀ inst ∈ headReader.instances, isBoundary inst.id = false) ∧
      (∀ id ∈ ["h", "x"], id ∈ (Index.ofWorkflow headReader).scheduledIn none) ∧
      headReader.Circle ["h", "x"] ∧
      ∃ plan, (({} : Scheduler).schedule headReader).outcome = .ok plan ∧
        plan.scheduled = ["h", "x", "y"] ∧ (DryRun.ofPlan plan []).executed = ["h", "x"] := by
  obtain ⟨plan, scheduled, shown⟩ := exists_of_toOption_map
    (show (({} : Scheduler).schedule headReader).outcome.toOption.map
        (fun plan => (plan.scheduled, (DryRun.ofPlan plan []).executed)) =
      some (["h", "x", "y"], ["h", "x"]) by decide +kernel)
  obtain ⟨ids, executed⟩ := Prod.mk.inj shown
  have toH : headReader.Gives "x" "h" := by decide +kernel
  have toX : headReader.Gives "h" "x" := by decide +kernel
  exact ⟨by decide +kernel, by decide +kernel, by decide +kernel,
    .cons_cons (.direct toH) (.cons_cons (.direct toX) (.singleton _)), plan, scheduled,
    ids, executed⟩

/-- A task that is given its own value. -/
def selfReader : Workflow where
  name := "self-reader"
  nodeTypes := [taskType]
  instances := [{ id := "a", nodeType := "Task" }]
  connections := [⟨⟨"a", "out", none⟩, ⟨"a", "in", none⟩⟩]

/-- **A circle of one instance is scheduled**: no cluster waits for what is inside of it. The
instance reads null. -/
theorem selfReader_scheduled :
    (selfReader.instances.map (·.id)).Nodup ∧
      (∀ inst ∈ selfReader.instances, isBoundary inst.id = false) ∧
      (∀ id ∈ ["a"], id ∈ (Index.ofWorkflow selfReader).scheduledIn none) ∧
      selfReader.Circle ["a"] ∧
      ∃ plan, (({} : Scheduler).schedule selfReader).outcome = .ok plan ∧ plan.scheduled = ["a"] ∧
        (DryRun.trace [] {} plan.body).map (fun step => (step.node, step.inputs)) =
          [("a", [⟨"in", .output "a" "out"⟩])] ∧
        ({} : DryRun.State).resolve (.output "a" "out") = .null := by
  obtain ⟨plan, scheduled, shown⟩ := exists_of_toOption_map
    (show (({} : Scheduler).schedule selfReader).outcome.toOption.map (fun plan => (plan.scheduled,
        (DryRun.trace [] {} plan.body).map fun step => (step.node, step.inputs))) =
      some (["a"], [("a", [⟨"in", .output "a" "out"⟩])]) by decide +kernel)
  obtain ⟨ids, read⟩ := Prod.mk.inj shown
  have toItself : selfReader.Gives "a" "a" := by decide +kernel
  exact ⟨by decide +kernel, by decide +kernel, by decide +kernel,
    .cons_cons (.direct toItself) (.singleton _), plan, scheduled, ids, read, rfl⟩

/-- Two tasks in a circle that leads through one of three expressions which feed each other. -/
def tangledReader : Workflow where
  name := "tangled-reader"
  nodeTypes := [taskType,
    (((NodeType.expression "Pair").withOptionalInput "in" .string).withOptionalInput "also"
    .string).withOutput "out" .string]
  instances := ["e1", "e2", "e3"].map (fun id => { id := id, nodeType := "Pair" }) ++
    ["a", "b"].map fun id => { id := id, nodeType := "Task" }
  connections :=
    [⟨⟨"e2", "out", none⟩, ⟨"e1", "in", none⟩⟩, ⟨⟨"e3", "out", none⟩, ⟨"e2", "in", none⟩⟩,
      ⟨⟨"b", "out", none⟩, ⟨"e2", "also", none⟩⟩, ⟨⟨"e1", "out", none⟩, ⟨"e3", "in", none⟩⟩,
      ⟨⟨"e3", "out", none⟩, ⟨"a", "in", none⟩⟩, ⟨⟨"a", "out", none⟩, ⟨"b", "in", none⟩⟩]

/-- **A circle through expressions that feed each other is scheduled.** -/
theorem tangledReader_scheduled :
    (∀ id ∈ ["a", "b"], id ∈ (Index.ofWorkflow tangledReader).scheduledIn none) ∧
      tangledReader.Circle ["a", "b"] ∧ tangledReader.Feeds "e3" "e3" ∧
      ∃ plan, (({} : Scheduler).schedule tangledReader).outcome = .ok plan ∧
      plan.scheduled = ["a", "b"] := by
  obtain ⟨plan, scheduled, ids⟩ := exists_of_toOption_map
    (show (({} : Scheduler).schedule tangledReader).outcome.toOption.map Plan.scheduled =
        some ["a", "b"] by
      decide +kernel)
  have expressions : ∀ id ∈ ["e1", "e2", "e3"],
      (Index.ofWorkflow tangledReader).isExpression id = true := by
    decide +kernel
  have fromB : tangledReader.Gives "b" "e2" := by decide +kernel
  have toFirst : tangledReader.Gives "e2" "e1" := by decide +kernel
  have toThird : tangledReader.Gives "e1" "e3" := by decide +kernel
  have toSecond : tangledReader.Gives "e3" "e2" := by decide +kernel
  have toA : tangledReader.Gives "e3" "a" := by decide +kernel
  have toB : tangledReader.Gives "a" "b" := by decide +kernel
  have second : tangledReader.Feeds "e2" "e3" :=
    .through toFirst (expressions "e1" (by simp)) (.direct toThird)
  have around : tangledReader.Feeds "b" "a" :=
    .through fromB (expressions "e2" (by simp))
      (second.trans (expressions "e3" (by simp)) (.direct toA))
  exact ⟨by decide +kernel, .cons_cons around (.cons_cons (.direct toB) (.singleton _)),
    .through toSecond (expressions "e2" (by simp)) second, plan, scheduled, ids⟩

end WorkflowGraph
