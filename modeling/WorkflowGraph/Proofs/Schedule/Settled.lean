/-
Branches declare the merge bindings of their arms in time.

* `Placement.branches` — the branches of a placement, each with what its arms place.
  `Arranged.isBranch` says that those of an arrangement are branches of blocks that come up.
* `Binding.place_induction` — what the declarations of branches keep holds of all merge bindings.
* `Binding.settled_stages` — when an instance is bound, all merge bindings that it writes are
  declared.
-/

import WorkflowGraph.Proofs.Schedule.Inputs
import WorkflowGraph.Proofs.Schedule.Stages
import WorkflowGraph.Proofs.Schedule.Waiting

namespace WorkflowGraph

/-! ### Branches -/

namespace Placement

mutual

/-- The branches of a placement, each with what its arms place. -/
def branches : Placement → List (Cluster × List Placing)
  | .inlined _ => []
  | .node _ bodies => branchesOfBodies bodies
  | .branch cluster bodies thenArm elseArm =>
    (cluster, placingsOfAll thenArm ++ placingsOfAll elseArm) ::
      (branchesOfBodies bodies ++ (branchesOfAll thenArm ++ branchesOfAll elseArm))
  | .parallel clusters => branchesOfAll clusters

/-- The branches of several placements. -/
def branchesOfAll : List Placement → List (Cluster × List Placing)
  | [] => []
  | placement :: rest => branches placement ++ branchesOfAll rest

/-- The branches of the insides of scopes. -/
def branchesOfBodies : List (String × List Placement) → List (Cluster × List Placing)
  | [] => []
  | (_, body) :: rest => branchesOfAll body ++ branchesOfBodies rest

end

theorem branchesOfAll_eq (placements : List Placement) :
    branchesOfAll placements = placements.flatMap branches := by
  induction placements with
  | nil => rfl
  | cons placement rest ih => rw [branchesOfAll, List.flatMap_cons, ih]

theorem branchesOfBodies_eq (bodies : List (String × List Placement)) :
    branchesOfBodies bodies = bodies.flatMap fun entry => branchesOfAll entry.2 := by
  induction bodies with
  | nil => rfl
  | cons entry rest ih => rw [branchesOfBodies, List.flatMap_cons, ih]

theorem branchesOfAll_append (first second : List Placement) :
    branchesOfAll (first ++ second) = branchesOfAll first ++ branchesOfAll second := by
  rw [branchesOfAll_eq, branchesOfAll_eq, branchesOfAll_eq, List.flatMap_append]

theorem branchesOfAll_inlined (ids : List String) : branchesOfAll (ids.map .inlined) = [] := by
  induction ids with
  | nil => rfl
  | cons id rest ih => simp only [List.map_cons, branchesOfAll, branches, ih, List.append_nil]

theorem branchesOfAll_together (placements : List Placement) :
    branchesOfAll (Scheduler.together placements) = branchesOfAll placements := by
  unfold Scheduler.together
  split
  · rfl
  · simp only [branchesOfAll, branches, List.append_nil]

/-- The branches of one round and of all that comes after it. -/
theorem branchesOfAll_round (inlined : List String) (placed rest : List Placement) :
    branchesOfAll (inlined.map .inlined ++ Scheduler.together placed ++ rest) =
      branchesOfAll placed ++ branchesOfAll rest := by
  rw [branchesOfAll_append, branchesOfAll_append, branchesOfAll_inlined, branchesOfAll_together,
    List.nil_append]

mutual

/-- What the arms of a branch place is placed with the branch. -/
theorem placings_of_mem_branches {placement : Placement} {entry : Cluster × List Placing}
    (member : entry ∈ placement.branches) : entry.2 ⊆ placement.placings := by
  cases placement with
  | inlined id => cases member
  | node id bodies => exact List.subset_cons_of_subset _ (placings_of_mem_branchesOfBodies member)
  | branch cluster bodies thenArm elseArm =>
      refine List.subset_cons_of_subset _ ?_
      rcases List.mem_cons.mp member with rfl | below
      · exact List.subset_append_right _ _
      · rcases List.mem_append.mp below with inside | inArms
        · exact List.subset_append_of_subset_left _ (placings_of_mem_branchesOfBodies inside)
        · refine List.subset_append_of_subset_right _ ?_
          rcases List.mem_append.mp inArms with inThen | inElse
          · exact List.subset_append_of_subset_left _ (placings_of_mem_branchesOfAll inThen)
          · exact List.subset_append_of_subset_right _ (placings_of_mem_branchesOfAll inElse)
  | parallel clusters => exact placings_of_mem_branchesOfAll member

theorem placings_of_mem_branchesOfAll {placements : List Placement} {entry : Cluster × List Placing}
    (member : entry ∈ branchesOfAll placements) : entry.2 ⊆ placingsOfAll placements := by
  cases placements with
  | nil => cases member
  | cons placement rest =>
      rcases List.mem_append.mp member with here | later
      · exact List.subset_append_of_subset_left _ (placings_of_mem_branches here)
      · exact List.subset_append_of_subset_right _ (placings_of_mem_branchesOfAll later)

theorem placings_of_mem_branchesOfBodies {bodies : List (String × List Placement)}
    {entry : Cluster × List Placing} (member : entry ∈ branchesOfBodies bodies) :
    entry.2 ⊆ placingsOfBodies bodies := by
  cases bodies with
  | nil => cases member
  | cons head rest =>
      obtain ⟨name, body⟩ := head
      rcases List.mem_append.mp member with here | later
      · exact List.subset_append_of_subset_left _ (placings_of_mem_branchesOfAll here)
      · exact List.subset_append_of_subset_right _ (placings_of_mem_branchesOfBodies later)

end

end Placement

namespace Binding

open Placement

variable {index : Index}

mutual

/-- What holds of merge bindings before a placement and is kept by the declarations of its branches
holds after the placement. -/
theorem place_induction {motive : List Merge → Prop} {merges : List Merge} {placement : Placement}
    (start : motive merges) (keeps : ∀ entry ∈ placement.branches, ∀ merges, motive merges →
      motive (merges ++ Merge.declare index merges entry.1)) :
    motive (place index merges placement).2 := by
  cases placement with
  | inlined id => exact start
  | node id bodies => exact placeBodies_induction start keeps
  | branch cluster bodies thenArm elseArm =>
      rw [branches, List.forall_mem_cons, List.forall_mem_append, List.forall_mem_append] at keeps
      obtain ⟨here, inBodies, inThen, inElse⟩ := keeps
      exact placeAll_induction (placeAll_induction
        (placeBodies_induction (here merges start) inBodies) inThen) inElse
  | parallel clusters =>
      show motive (placeEach index merges clusters).2
      rw [placeEach_following]
      exact placeAll_induction start keeps

theorem placeAll_induction {motive : List Merge → Prop} {merges : List Merge}
    {placements : List Placement} (start : motive merges)
    (keeps : ∀ entry ∈ branchesOfAll placements, ∀ merges, motive merges →
      motive (merges ++ Merge.declare index merges entry.1)) :
    motive (placeAll index merges placements).2 := by
  cases placements with
  | nil => exact start
  | cons placement rest =>
      rw [branchesOfAll, List.forall_mem_append] at keeps
      exact @placeAll_induction motive _ rest (place_induction start keeps.1) keeps.2

theorem placeBodies_induction {motive : List Merge → Prop} {merges : List Merge} {owner : String}
    {bodies : List (String × List Placement)} (start : motive merges)
    (keeps : ∀ entry ∈ branchesOfBodies bodies, ∀ merges, motive merges →
      motive (merges ++ Merge.declare index merges entry.1)) :
    motive (placeBodies index merges owner bodies).2 := by
  cases bodies with
  | nil => exact start
  | cons head rest =>
      obtain ⟨name, body⟩ := head
      rw [branchesOfBodies, List.forall_mem_append] at keeps
      exact @placeBodies_induction motive _ owner rest (placeAll_induction start keeps.1) keeps.2

end

end Binding

/-! ### Settled stages -/

/-- Whether scheduled instances are placed once, and are other instances than those that are
inlined. -/
structure Placing.Separate (placings : List Placing) : Prop where
  distinct : (scheduled placings).Nodup
  apart : ∀ id, inlined id ∈ placings → id ∉ scheduled placings

namespace Placing.Separate

variable {first second : List Placing}

theorem left (separate : Separate (first ++ second)) : Separate first := by
  obtain ⟨distinct, apart⟩ := separate
  rw [scheduled_append] at distinct apart
  exact ⟨(List.nodup_append.mp distinct).1, fun id member among =>
    apart id (List.mem_append_left _ member) (List.mem_append_left _ among)⟩

theorem right (separate : Separate (first ++ second)) : Separate second := by
  obtain ⟨distinct, apart⟩ := separate
  rw [scheduled_append] at distinct apart
  exact ⟨(List.nodup_append.mp distinct).2.1, fun id member among =>
    apart id (List.mem_append_right _ member) (List.mem_append_right _ among)⟩

/-- What is placed first is not scheduled again. -/
theorem notMem_right (separate : Separate (first ++ second)) {id : String}
    (member : id ∈ first.map Placing.id) : id ∉ scheduled second := by
  obtain ⟨distinct, apart⟩ := separate
  rw [scheduled_append] at distinct apart
  obtain ⟨placing, among, rfl⟩ := List.mem_map.mp member
  intro again
  cases placing with
  | inlined id => exact apart id (List.mem_append_left _ among) (List.mem_append_right _ again)
  | step id | iteration id =>
      exact (List.nodup_append.mp distinct).2.2 id (List.mem_filterMap.mpr ⟨_, among, rfl⟩) id again
        rfl

end Placing.Separate

/-- Whether merge bindings are not written by an instance. -/
def Merge.Unwritten (merges : List Merge) (node : String) : Prop :=
  ∀ merge ∈ merges, ∀ producer ∈ merge.producers, producer.node ≠ node

/-- Whether all merge bindings that an instance writes are declared when it is bound. -/
def Stage.Settled (stage : Stage) (final : List Merge) : Prop :=
  ∃ rest, final = stage.merges ++ rest ∧ Merge.Unwritten rest stage.node

theorem Stage.Settled.append {stage : Stage} {merges rest : List Merge}
    (settled : stage.Settled merges) (unwritten : Merge.Unwritten rest stage.node) :
    stage.Settled (merges ++ rest) := by
  obtain ⟨later, rfl, unwrittenLater⟩ := settled
  refine ⟨later ++ rest, List.append_assoc _ _ _, fun merge member => ?_⟩
  exact (List.mem_append.mp member).elim (unwrittenLater merge) (unwritten merge)

/-- Whether the arms of branches place their members. -/
def PlacesArms (entries : List (Cluster × List Placing)) : Prop :=
  ∀ entry ∈ entries, ∀ id ∈ entry.1.armMembers, id ∈ Placing.scheduled entry.2

theorem PlacesArms.append {first second : List (Cluster × List Placing)} :
    PlacesArms (first ++ second) ↔ PlacesArms first ∧ PlacesArms second :=
  List.forall_mem_append

theorem Placing.mem_map_id {placings : List Placing} {id : String}
    (member : id ∈ scheduled placings) :
    id ∈ placings.map Placing.id := by
  obtain ⟨placing, among, found⟩ := List.mem_filterMap.mp member
  exact List.mem_map.mpr ⟨placing, among, by cases placing <;> cases found <;> rfl⟩

theorem Placing.scheduled_subset {first second : List Placing} (subset : first ⊆ second) :
    scheduled first ⊆ scheduled second := by
  intro id member
  obtain ⟨placing, among, found⟩ := List.mem_filterMap.mp member
  exact List.mem_filterMap.mpr ⟨placing, subset among, found⟩

namespace Binding

open Placement

variable {workflow : Workflow}

/-- What is declared by branches is written by what they place. -/
theorem written_by_declared {merges following : List Merge}
    {entries : List (Cluster × List Placing)} {placings : List Placing}
    (places : PlacesArms entries) (inside : ∀ entry ∈ entries, entry.2 ⊆ placings)
    (principle : ∀ motive : List Merge → Prop, motive merges →
      (∀ entry ∈ entries, ∀ merges, motive merges →
        motive (merges ++ Merge.declare (.ofWorkflow workflow) merges entry.1)) →
      motive following) :
    ∃ rest, following = merges ++ rest ∧ ∀ node, node ∉ Placing.scheduled placings →
      Merge.Unwritten rest node := by
  refine principle (fun following => ∃ rest, following = merges ++ rest ∧
    ∀ node, node ∉ Placing.scheduled placings → Merge.Unwritten rest node)
    ⟨[], (List.append_nil _).symm, fun _ _ _ none => (nomatch none)⟩ ?_
  rintro entry member _ ⟨rest, rfl, unwritten⟩
  refine ⟨rest ++ _, List.append_assoc _ _ _, fun node absent merge among producer writes same =>
    ?_⟩
  rcases List.mem_append.mp among with before | declared
  · exact unwritten node absent merge before producer writes same
  · obtain ⟨connection, leaves, rfl, _⟩ :=
      (Merge.collected_declare (.ofWorkflow workflow) _ entry.1).producer merge declared
        producer writes
    have inArms := (Merge.mem_leaving.mp (List.mem_filter.mp leaves).1).2.1
    exact absent (same ▸ Placing.scheduled_subset (inside entry member)
      (places entry member _ inArms))

theorem written_placeAll {merges : List Merge} {placements : List Placement}
    (places : PlacesArms (branchesOfAll placements)) :
    ∃ rest, (placeAll (.ofWorkflow workflow) merges placements).2 = merges ++ rest ∧
      ∀ node, node ∉ Placing.scheduled (placingsOfAll placements) → Merge.Unwritten rest node :=
  written_by_declared places (fun _ => placings_of_mem_branchesOfAll) fun _ => placeAll_induction

theorem written_placeBodies {merges : List Merge} {owner : String}
    {bodies : List (String × List Placement)} (places : PlacesArms (branchesOfBodies bodies)) :
    ∃ rest, (placeBodies (.ofWorkflow workflow) merges owner bodies).2 = merges ++ rest ∧
      ∀ node, node ∉ Placing.scheduled (placingsOfBodies bodies) → Merge.Unwritten rest node :=
  written_by_declared places (fun _ => placings_of_mem_branchesOfBodies) fun _ =>
    placeBodies_induction

theorem node_of_mem_stages {path : List Enclosure} {merges : List Merge} {placement : Placement}
    {stage : Stage} (member : stage ∈ stages (.ofWorkflow workflow) path merges placement) :
    stage.node ∈ placement.placings.map Placing.id :=
  node_stages path merges placement ▸ List.mem_map.mpr ⟨stage, member, rfl⟩

theorem node_of_mem_stagesOfAll {path : List Enclosure} {merges : List Merge}
    {placements : List Placement} {stage : Stage}
    (member : stage ∈ stagesOfAll (.ofWorkflow workflow) path merges placements) :
    stage.node ∈ (placingsOfAll placements).map Placing.id :=
  node_stagesOfAll path merges placements ▸ List.mem_map.mpr ⟨stage, member, rfl⟩

theorem node_of_mem_stagesOfBodies {path : List Enclosure} {merges : List Merge} {owner : String}
    {bodies : List (String × List Placement)} {stage : Stage}
    (member : stage ∈ stagesOfBodies (.ofWorkflow workflow) path merges owner bodies) :
    stage.node ∈ (placingsOfBodies bodies).map Placing.id :=
  node_stagesOfBodies path merges owner bodies ▸ List.mem_map.mpr ⟨stage, member, rfl⟩

/-- The stage of an instance is settled, as the insides of its scopes are placed later. -/
theorem settled_node {path : List Enclosure} {merges : List Merge} {id : String}
    {scopes : List String} {bodies : List (String × List Placement)}
    (places : PlacesArms (branchesOfBodies bodies))
    (separate : Placing.Separate (.run id scopes :: placingsOfBodies bodies))
    (inside : ∀ stage ∈ stagesOfBodies (.ofWorkflow workflow) path merges id bodies,
      stage.Settled (placeBodies (.ofWorkflow workflow) merges id bodies).2) {stage : Stage}
    (member : stage ∈ ⟨id, merges, path⟩ ::
      stagesOfBodies (.ofWorkflow workflow) path merges id bodies) :
    stage.Settled (placeBodies (.ofWorkflow workflow) merges id bodies).2 := by
  rcases List.mem_cons.mp member with rfl | below
  · obtain ⟨rest, following, unwritten⟩ := @written_placeBodies workflow merges id bodies places
    exact ⟨rest, following,
      unwritten id (@Placing.Separate.notMem_right [_] _ separate _ (by simp))⟩
  · exact inside stage below

mutual

/-- **When an instance is bound, all merge bindings that it writes are declared**: what is declared
later is written by instances that are placed later. -/
theorem settled_stages {path : List Enclosure} {merges : List Merge} {placement : Placement}
    (places : PlacesArms placement.branches) (separate : Placing.Separate placement.placings)
    {stage : Stage} (member : stage ∈ stages (.ofWorkflow workflow) path merges placement) :
    stage.Settled (place (.ofWorkflow workflow) merges placement).2 := by
  cases placement with
  | inlined id =>
      rw [List.mem_singleton.mp member]
      exact ⟨[], (List.append_nil _).symm, fun _ none => (nomatch none)⟩
  | node id bodies =>
      refine settled_node places separate (fun stage inside => ?_) member
      exact settled_stagesOfBodies places (@Placing.Separate.right [_] _ separate) inside
  | branch cluster bodies thenArm elseArm =>
      obtain ⟨_, places⟩ := List.forall_mem_cons.mp places
      obtain ⟨inBodies, inArms⟩ := PlacesArms.append.mp places
      obtain ⟨inThen, inElse⟩ := PlacesArms.append.mp inArms
      rw [placings, ← List.cons_append] at separate
      obtain ⟨ofThen, afterThen, thenUnwritten⟩ :=
        @written_placeAll workflow (placeBodies (.ofWorkflow workflow)
        (merges ++ Merge.declare (.ofWorkflow workflow) merges cluster) cluster.head bodies).2
          thenArm inThen
      obtain ⟨ofElse, afterElse, elseUnwritten⟩ :=
        @written_placeAll workflow (placeAll (.ofWorkflow workflow)
        (placeBodies (.ofWorkflow workflow) (merges ++ Merge.declare (.ofWorkflow workflow)
          merges cluster) cluster.head bodies).2 thenArm).2 elseArm inElse
      show stage.Settled (placeAll _ (placeAll _ _ thenArm).2 elseArm).2
      rcases List.mem_append.mp (show stage ∈ (_ :: _) ++ (_ ++ _) from member) with inside | inArms
      · have known : stage.node ∈ (Placing.run cluster.head (bodies.map (·.1)) ::
            placingsOfBodies bodies).map Placing.id := by
          rcases List.mem_cons.mp inside with rfl | below
          · simp
          · exact List.mem_cons_of_mem _ (node_of_mem_stagesOfBodies below)
        have apart := separate.notMem_right known
        rw [Placing.scheduled_append, List.mem_append, not_or] at apart
        rw [afterElse, afterThen]
        refine ((settled_node inBodies separate.left (fun stage below => ?_) inside).append
          (thenUnwritten _ apart.1)).append (elseUnwritten _ apart.2)
        exact settled_stagesOfBodies inBodies (@Placing.Separate.right [_] _ separate.left) below
      · rcases List.mem_append.mp inArms with here | there
        · rw [afterElse]
          exact (settled_stagesOfAll inThen separate.right.left here).append
            (elseUnwritten _ (separate.right.notMem_right (node_of_mem_stagesOfAll here)))
        · exact settled_stagesOfAll inElse separate.right.right there
  | parallel clusters =>
      show stage.Settled (placeEach (.ofWorkflow workflow) merges clusters).2
      rw [placeEach_following]
      exact settled_stagesOfAll places separate member

theorem settled_stagesOfAll {path : List Enclosure} {merges : List Merge}
    {placements : List Placement} (places : PlacesArms (branchesOfAll placements))
    (separate : Placing.Separate (placingsOfAll placements)) {stage : Stage}
    (member : stage ∈ stagesOfAll (.ofWorkflow workflow) path merges placements) :
    stage.Settled (placeAll (.ofWorkflow workflow) merges placements).2 := by
  cases placements with
  | nil => cases member
  | cons placement rest =>
      obtain ⟨inFirst, inRest⟩ := PlacesArms.append.mp places
      rcases List.mem_append.mp member with here | later
      · obtain ⟨declared, following, unwritten⟩ := @written_placeAll workflow
          (place (.ofWorkflow workflow) merges placement).2 rest inRest
        show stage.Settled (placeAll _ (place _ merges placement).2 rest).2
        rw [following]
        exact (settled_stages inFirst separate.left here).append
          (unwritten _ (separate.notMem_right (node_of_mem_stages here)))
      · show stage.Settled (placeAll _ (place _ merges placement).2 rest).2
        exact settled_stagesOfAll inRest separate.right later

theorem settled_stagesOfBodies {path : List Enclosure} {merges : List Merge} {owner : String}
    {bodies : List (String × List Placement)} (places : PlacesArms (branchesOfBodies bodies))
    (separate : Placing.Separate (placingsOfBodies bodies)) {stage : Stage}
    (member : stage ∈ stagesOfBodies (.ofWorkflow workflow) path merges owner bodies) :
    stage.Settled (placeBodies (.ofWorkflow workflow) merges owner bodies).2 := by
  cases bodies with
  | nil => cases member
  | cons head rest =>
      obtain ⟨name, body⟩ := head
      obtain ⟨inFirst, inRest⟩ := PlacesArms.append.mp places
      rcases List.mem_append.mp member with here | later
      · obtain ⟨declared, following, unwritten⟩ := @written_placeBodies workflow
          (placeAll (.ofWorkflow workflow) merges body).2 owner rest inRest
        show stage.Settled (placeBodies _ (placeAll _ merges body).2 owner rest).2
        rw [following]
        exact (settled_stagesOfAll inFirst separate.left here).append
          (unwritten _ (separate.notMem_right (node_of_mem_stagesOfAll here)))
      · show stage.Settled (placeBodies _ (placeAll _ merges body).2 owner rest).2
        exact settled_stagesOfBodies inRest separate.right later

end

end Binding

/-! ### Arrangements -/

/-- Whether a cluster is one of a block that comes up, and its arms place their members. -/
structure IsBranch (workflow : Workflow) (entry : Cluster × List Placing) : Prop where
  formed : workflow.HasCluster entry.1
  places : ∀ id ∈ entry.1.armMembers, id ∈ Placing.scheduled entry.2

namespace Scheduler

open Placement

variable {scheduler : Scheduler} {workflow : Workflow}

/-- An arrangement of a block places the members of the block. -/
theorem Arranged.places {block : Block} {placements : List Placement}
    (arranged : Arranged scheduler (.ofWorkflow workflow) block placements)
    (formed : Formed (.ofWorkflow workflow) block.members) {id : String}
    (member : id ∈ block.members) : id ∈ Placing.scheduled (placingsOfAll placements) :=
  ((arranged.enumerates formed).mem_iff id).mpr ⟨id, member, .self id⟩

theorem isBranch_cases : Induction scheduler (.ofWorkflow workflow)
    (fun _ _ placements => ∀ entry ∈ branchesOfAll placements, IsBranch workflow entry)
    (fun _ _ placement => ∀ entry ∈ placement.branches, IsBranch workflow entry) where
  done _ _ := by
    rw [branchesOfAll_inlined]
    exact fun _ none => (nomatch none)
  round _ _ _ _ placed rest := by
    rw [branchesOfAll_round, branchesOfAll_eq]
    exact List.forall_mem_append.mpr
      ⟨forall_mem_flatMap_of_forall₂ placed fun _ _ known => known.2, rest⟩
  node _ _ _ inside _ := by
    rw [branches, branchesOfBodies_eq]
    exact forall_mem_flatMap_of_forall₂ inside fun _ _ body => body.holds
  branch formed member _ inside branching onSuccess onFailure := by
    rw [branches, branchesOfBodies_eq]
    refine List.forall_mem_cons.mpr ⟨⟨⟨_, formed, member⟩, fun id inArms => ?_⟩,
      List.forall_mem_append.mpr
        ⟨forall_mem_flatMap_of_forall₂ inside fun _ _ body => body.holds,
          List.forall_mem_append.mpr ⟨onSuccess.holds, onFailure.holds⟩⟩⟩
    rw [Cluster.armMembers_eq branching, Arms.mem_members_iff] at inArms
    rw [Placing.scheduled_append, List.mem_append]
    exact inArms.imp (onSuccess.arranged.places onSuccess.formed)
      (onFailure.arranged.places onFailure.formed)

/-- **The branches of an arrangement are branches of blocks that come up.** -/
theorem Arranged.isBranch {block : Block} {placements : List Placement}
    (arranged : Arranged scheduler (.ofWorkflow workflow) block placements)
    (formed : Formed (.ofWorkflow workflow) block.members) :
    ∀ entry ∈ branchesOfAll placements, IsBranch workflow entry :=
  arranged.induction isBranch_cases formed

/-- **An arrangement of a workflow places scheduled instances once, and inlines other ones.** -/
theorem Arranged.separate {resolved available : List String} {placements : List Placement}
    (arranged : Arranged scheduler (.ofWorkflow workflow)
      (.ofRegion (.ofWorkflow workflow) none resolved available) placements) :
    Placing.Separate (placingsOfAll placements) := by
  have all := arranged.enumerates .top
  refine ⟨all.distinct, fun id inlined scheduled => ?_⟩
  obtain ⟨top, member, under⟩ := (all.mem_iff id).mp scheduled
  obtain ⟨⟨inst, found, lives⟩, ordinary⟩ := Index.mem_scheduledIn.mp member
  obtain ⟨_, _, _, notExpression⟩ :=
    Index.live_of_under under (Index.find?_ofWorkflow top ▸ found) (lives ▸ .top) ordinary
  have expression : (Index.ofWorkflow workflow).isExpression id = true :=
    arranged.fits .top _ inlined
  rw [notExpression] at expression
  cases expression

/-- What is scheduled are instances. -/
theorem Arranged.named {resolved available : List String} {placements : List Placement}
    (arranged : Arranged scheduler (.ofWorkflow workflow)
      (.ofRegion (.ofWorkflow workflow) none resolved available) placements) {id : String}
    (scheduled : id ∈ Placing.scheduled (placingsOfAll placements)) :
    id ∈ workflow.instances.map (·.id) := by
  obtain ⟨top, member, under⟩ := ((arranged.enumerates .top).mem_iff id).mp scheduled
  obtain ⟨⟨inst, found, lives⟩, ordinary⟩ := Index.mem_scheduledIn.mp member
  obtain ⟨lower, declared, _⟩ :=
    Index.live_of_under under (Index.find?_ofWorkflow top ▸ found) (lives ▸ .top) ordinary
  exact List.mem_map.mpr ⟨lower,
    List.mem_of_find?_eq_some declared, by simpa using List.find?_some declared⟩

/-- What is placed and is no expression is scheduled. -/
theorem Arranged.scheduled_of_placed {block : Block} {placements : List Placement}
    (arranged : Arranged scheduler (.ofWorkflow workflow) block placements)
    (formed : Formed (.ofWorkflow workflow) block.members) {front : List Placing}
    (subset : front ⊆ placingsOfAll placements) {id : String} (placed : id ∈ front.map Placing.id)
    (ordinary : (Index.ofWorkflow workflow).isExpression id = false) :
    id ∈ Placing.scheduled front := by
  obtain ⟨placing, among, rfl⟩ := List.mem_map.mp placed
  have fits := arranged.fits formed placing (subset among)
  cases placing with
  | inlined id =>
      have expression : (Index.ofWorkflow workflow).isExpression id = true := fits
      rw [show (Index.ofWorkflow workflow).isExpression id = false from ordinary] at expression
      cases expression
  | step | iteration => exact List.mem_filterMap.mpr ⟨_, among, rfl⟩

/-- **The stages of an arrangement of a workflow are settled.** -/
theorem Arranged.settled {resolved available : List String} {placements : List Placement}
    (arranged : Arranged scheduler (.ofWorkflow workflow)
      (.ofRegion (.ofWorkflow workflow) none resolved available) placements) {stage : Stage}
    (member : stage ∈ Binding.stagesOfAll (.ofWorkflow workflow) [] [] placements) :
    stage.Settled (Binding.placeAll (.ofWorkflow workflow) [] placements).2 :=
  Binding.settled_stagesOfAll (fun entry branch => (arranged.isBranch .top entry branch).places)
    arranged.separate member

/-- A dry run of a workflow meets the stages in arms that are taken. -/
theorem Arranged.trace_eq (wired : Wired workflow) {resolved available : List String}
    {placements : List Placement}
    (arranged : Arranged scheduler (.ofWorkflow workflow)
      (.ofRegion (.ofWorkflow workflow) none resolved available) placements)
    (failures : List String) :
    DryRun.trace failures {} (Binding.plan (.ofWorkflow workflow) placements).body =
      ((Binding.stagesOfAll (.ofWorkflow workflow) [] [] placements).filter
        (Stage.runs failures)).map (Stage.step (.ofWorkflow workflow)) := by
  refine Binding.trace_plan placements {} fun id scheduled start => ?_
  obtain ⟨inst, declared, same⟩ := List.mem_map.mp (arranged.named scheduled)
  have ordinary := wired.ordinary inst declared
  rw [same, start] at ordinary
  cases ordinary

end Scheduler

/-! ### Merge bindings of a plan -/

/-- An input has one merge binding. -/
theorem Merge.eq_of_samePort {merges : List Merge}
    (distinct : merges.Pairwise fun first second => samePort first.consumer second.consumer = false)
    {first second : Merge} (inFirst : first ∈ merges) (inSecond : second ∈ merges)
    (same : samePort first.consumer second.consumer = true) : first = second := by
  have symmetric : Std.Symm fun first second : Merge =>
      samePort first.consumer second.consumer = false :=
    ⟨fun first second apart => Bool.eq_false_iff.mpr fun same =>
      Bool.eq_false_iff.mp apart (samePort_symm same)⟩
  by_contra different
  exact Bool.eq_false_iff.mp (distinct.forall inFirst inSecond different) same

/-- Whether merge bindings are declared by branches of blocks that come up: one for each input,
written by connections that leave the arms of a branch for that input. -/
structure Merge.FromBranches (workflow : Workflow) (merges : List Merge) : Prop where
  distinct : merges.Pairwise fun first second => samePort first.consumer second.consumer = false
  consumer : ∀ merge ∈ merges, ∃ connection ∈ workflow.connections,
    merge.consumer = connection.target
  written : ∀ merge ∈ merges, merge.producers ≠ []
  producer : ∀ merge ∈ merges, ∀ producer ∈ merge.producers, ∃ cluster,
    workflow.HasCluster cluster ∧ ∃ connection ∈ leaving (.ofWorkflow workflow) cluster,
      connection.source = producer ∧ samePort merge.consumer connection.target = true

namespace Merge.FromBranches

variable {workflow : Workflow} {merges : List Merge}

theorem nil : FromBranches workflow [] :=
  ⟨.nil, fun _ none => (nomatch none), fun _ none => (nomatch none), fun _ none => (nomatch none)⟩

/-- A branch only declares what is not declared already. -/
theorem declare (known : FromBranches workflow merges) {entry : Cluster × List Placing}
    (branch : IsBranch workflow entry) :
    FromBranches workflow (merges ++ Merge.declare (.ofWorkflow workflow) merges entry.1) := by
  have new := collected_declare (.ofWorkflow workflow) merges entry.1
  refine ⟨List.pairwise_append.mpr ⟨known.distinct, new.distinct, fun first among second declared =>
    ?_⟩, List.forall_mem_append.mpr ⟨known.consumer, fun merge declared => ?_⟩,
    List.forall_mem_append.mpr ⟨known.written, fun merge declared empty => ?_⟩,
    List.forall_mem_append.mpr ⟨known.producer, fun merge declared producer writes => ?_⟩⟩
  · exact fresh_of_mem_declare declared first among
  · obtain ⟨connection, leaves, same⟩ := new.consumer merge declared
    exact ⟨connection, (mem_leaving.mp (List.mem_filter.mp leaves).1).1, same⟩
  · obtain ⟨connection, leaves, same⟩ := new.consumer merge declared
    obtain ⟨other, among, into, writes⟩ := new.all connection leaves
    obtain rfl := eq_of_samePort new.distinct among declared (same ▸ into)
    rw [empty] at writes
    cases writes
  · obtain ⟨connection, leaves, source, into⟩ := new.producer merge declared producer writes
    exact ⟨entry.1, branch.formed, connection, (List.mem_filter.mp leaves).1, source, into⟩

theorem placeAll {placements : List Placement}
    (branches : ∀ entry ∈ Placement.branchesOfAll placements, IsBranch workflow entry) :
    FromBranches workflow (Binding.placeAll (.ofWorkflow workflow) [] placements).2 :=
  Binding.placeAll_induction nil fun entry member _ known => known.declare (branches entry member)

/-- All producers of a merge binding for an input of its own are the source of its one
connection. -/
theorem producers_eq (known : FromBranches workflow merges) (wired : Wired workflow) {node : String}
    {port : Port} (own : workflow.OwnInput node port) {merge : Merge} (inMerges : merge ∈ merges)
    {connection : Connection} (member : connection ∈ workflow.connections)
    (into : connection.target.node = node) (named : connection.target.port = port.name)
    (consumes : samePort merge.consumer connection.target = true) :
    ∀ producer ∈ merge.producers, producer = connection.source := by
  intro producer produces
  obtain ⟨_, _, other, leaves, rfl, consumesToo⟩ := known.producer merge inMerges producer produces
  obtain ⟨atNode, atPort⟩ := samePort_iff.mp (samePort_trans (samePort_symm consumesToo) consumes)
  rw [wired.connection_unique own (mem_leaving.mp leaves).1 (atNode.trans into) (atPort.trans named)
    member into named]

/-- A connection that a merge binding is written for is read through it. -/
theorem bindingFor_of_mem (known : FromBranches workflow merges) {merge : Merge}
    (member : merge ∈ merges) {connection : Connection}
    (consumes : samePort merge.consumer connection.target = true)
    (writes : connection.source ∈ merge.producers) :
    bindingFor merges connection = some merge.id := by
  obtain ⟨first, found⟩ : ∃ first, merges.find? (fun merge =>
      samePort merge.consumer connection.target) = some first :=
    Option.isSome_iff_exists.mp (List.find?_isSome.mpr ⟨merge, member, consumes⟩)
  have consumesFirst : samePort first.consumer connection.target = true := by
    simpa using List.find?_some found
  obtain rfl := eq_of_samePort known.distinct (List.mem_of_find?_eq_some found) member
    (samePort_trans consumesFirst (samePort_symm consumes))
  have among : first.producers.any (samePort connection.source) = true :=
    List.any_eq_true.mpr ⟨_, writes, samePort_iff.mpr ⟨rfl, rfl⟩⟩
  rw [bindingFor, found, Option.filter_some, if_pos among, Option.map_some]

/-- A connection into an input of its own has a merge binding if there is one for the input. -/
theorem bindingFor_eq_none_iff (known : FromBranches workflow merges) (wired : Wired workflow)
    {node : String} {port : Port} (own : workflow.OwnInput node port) {connection : Connection}
    (member : connection ∈ workflow.connections) (into : connection.target.node = node)
    (named : connection.target.port = port.name) :
    bindingFor merges connection = none ↔
      ∀ merge ∈ merges, samePort merge.consumer connection.target = false := by
  constructor
  · intro unbound merge among
    by_contra consumes
    rw [Bool.not_eq_false] at consumes
    obtain ⟨producer, produces⟩ := List.exists_mem_of_ne_nil _ (known.written merge among)
    obtain rfl := known.producers_eq wired own among member into named consumes producer produces
    rw [known.bindingFor_of_mem among consumes produces] at unbound
    cases unbound
  · intro free
    rw [bindingFor, List.find?_eq_none.mpr fun merge among => Bool.not_eq_true _ ▸ free merge among]
    rfl

end Merge.FromBranches

/-- The merge bindings of an arrangement of a workflow are declared by branches that come up. -/
theorem Scheduler.Arranged.fromBranches {scheduler : Scheduler} {resolved available : List String}
    {placements : List Placement} (arranged : Arranged scheduler (.ofWorkflow workflow)
      (.ofRegion (.ofWorkflow workflow) none resolved available) placements) :
    Merge.FromBranches workflow (Binding.placeAll (.ofWorkflow workflow) [] placements).2 :=
  .placeAll (arranged.isBranch .top)

end WorkflowGraph
