/-
The branches of a plan and the merge bindings that they declare.

* `Binding.declarations` — the branches of a placement as they are bound, each with the merge
  bindings that are declared in front of it and with what it lies in. `following_placeAll` says that
  all merge bindings are declared by them, and `branchings_plan` that they are the branches of the
  plan.
* `Declaration.Behind` — what a branch lies in are arms of branches whose merge bindings it knows.
* `Scheduler.Arranged.not_leaving_outside` — a merge binding is declared by the outermost branch
  whose arms the value leaves. For the end of a region that is a branch directly in the region
  (`declared_in_region`).
-/

import WorkflowGraph.Proofs.Schedule.Enclosed
import WorkflowGraph.Proofs.Schedule.Heads

namespace WorkflowGraph

/-! ### Declarations -/

/-- A branch as it is bound. -/
structure Declaration where
  cluster : Cluster
  /-- The merge bindings that are declared by then. -/
  outer : List Merge
  /-- What the branch lies in, the innermost first. -/
  path : List Enclosure

/-- The merge bindings that a branch declares. -/
def Declaration.merges (index : Index) (declaration : Declaration) : List Merge :=
  Merge.declare index declaration.outer declaration.cluster

namespace Binding

variable {index : Index}

mutual

/-- The branches of a place that lies in `path`, where `merges` have been declared before. -/
def declarations (index : Index) (path : List Enclosure) (merges : List Merge) :
    Placement → List Declaration
  | .inlined _ => []
  | .node id bodies => declarationsOfBodies index path merges id bodies
  | .branch cluster bodies thenArm elseArm =>
    let known := merges ++ Merge.declare index merges cluster
    let following := (placeBodies index known cluster.head bodies).2
    ⟨cluster, merges, path⟩ :: (declarationsOfBodies index path known cluster.head bodies ++
      (declarationsOfAll index (.arm cluster.head true :: path) following thenArm ++
        declarationsOfAll index (.arm cluster.head false :: path)
          (placeAll index following thenArm).2 elseArm))
  | .parallel clusters => declarationsOfAll index path merges clusters

/-- The branches of several places. -/
def declarationsOfAll (index : Index) (path : List Enclosure) (merges : List Merge) :
    List Placement → List Declaration
  | [] => []
  | placement :: rest =>
    declarations index path merges placement ++
      declarationsOfAll index path (place index merges placement).2 rest

/-- The branches of the insides of scopes. -/
def declarationsOfBodies (index : Index) (path : List Enclosure) (merges : List Merge)
    (owner : String) :
    List (String × List Placement) → List Declaration
  | [] => []
  | (name, body) :: rest =>
    declarationsOfAll index (.body owner name :: path) merges body ++
      declarationsOfBodies index path (placeAll index merges body).2 owner rest

end

mutual

/-- **What has been declared after a placement** was so before, or is declared by one of its
branches. -/
theorem following_place (path : List Enclosure) (merges : List Merge) (placement : Placement) :
    (place index merges placement).2 =
      merges ++ (declarations index path merges placement).flatMap (Declaration.merges index) := by
  cases placement with
  | inlined id => exact (List.append_nil _).symm
  | node id bodies => exact following_placeBodies path merges id bodies
  | branch cluster bodies thenArm elseArm =>
      have inBodies := following_placeBodies path (merges ++ Merge.declare index merges cluster)
        cluster.head bodies
      rw [declarations]
      generalize found : (placeBodies index (merges ++ Merge.declare index merges cluster)
        cluster.head bodies).2 = following at inBodies ⊢
      have inThen := following_placeAll (.arm cluster.head true :: path) following thenArm
      have inElse := following_placeAll (.arm cluster.head false :: path)
        (placeAll index following thenArm).2 elseArm
      calc (place index merges (.branch cluster bodies thenArm elseArm)).2
          = (placeAll index (placeAll index following thenArm).2 elseArm).2 := by rw [← found]; rfl
        _ = _ := inElse
        _ = _ := congrArg (· ++ _) (inThen.trans (congrArg (· ++ _) inBodies))
        _ = _ := by simp only [List.flatMap_cons, List.flatMap_append, List.append_assoc,
          Declaration.merges]
  | parallel clusters =>
      show (placeEach index merges clusters).2 = _
      rw [placeEach_following]
      exact following_placeAll path merges clusters

theorem following_placeAll (path : List Enclosure) (merges : List Merge)
    (placements : List Placement) : (placeAll index merges placements).2 =
      merges ++ (declarationsOfAll index path merges placements).flatMap
      (Declaration.merges index) := by
  cases placements with
  | nil => exact (List.append_nil _).symm
  | cons placement rest =>
      rw [declarationsOfAll, List.flatMap_append, ← List.append_assoc, ← following_place path
        merges placement]
      exact following_placeAll path _ rest

theorem following_placeBodies (path : List Enclosure) (merges : List Merge) (owner : String)
    (bodies : List (String × List Placement)) :
    (placeBodies index merges owner bodies).2 =
      merges ++ (declarationsOfBodies index path merges owner bodies).flatMap
      (Declaration.merges index) := by
  cases bodies with
  | nil => exact (List.append_nil _).symm
  | cons entry rest =>
      obtain ⟨name, body⟩ := entry
      rw [declarationsOfBodies, List.flatMap_append, ← List.append_assoc,
        ← following_placeAll (.body owner name :: path) merges body]
      exact following_placeBodies path _ owner rest

end

mutual

/-- The branches as they are bound are those of the placement. -/
theorem cluster_declarations (path : List Enclosure) (merges : List Merge) (placement : Placement) :
    (declarations index path merges placement).map (·.cluster) = placement.branches.map (·.1) := by
  cases placement with
  | inlined id => rfl
  | node id bodies => exact cluster_declarationsOfBodies path merges id bodies
  | branch cluster bodies thenArm elseArm =>
      simp only [declarations, Placement.branches, List.map_cons, List.map_append,
        cluster_declarationsOfBodies, cluster_declarationsOfAll]
  | parallel clusters => exact cluster_declarationsOfAll path merges clusters

theorem cluster_declarationsOfAll (path : List Enclosure) (merges : List Merge)
    (placements : List Placement) :
    (declarationsOfAll index path merges placements).map (·.cluster) =
      (Placement.branchesOfAll placements).map (·.1) := by
  cases placements with
  | nil => rfl
  | cons placement rest =>
      simp only [declarationsOfAll, Placement.branchesOfAll, List.map_append, cluster_declarations,
        cluster_declarationsOfAll]

theorem cluster_declarationsOfBodies (path : List Enclosure) (merges : List Merge) (owner : String)
    (bodies : List (String × List Placement)) :
    (declarationsOfBodies index path merges owner bodies).map (·.cluster) =
      (Placement.branchesOfBodies bodies).map (·.1) := by
  cases bodies with
  | nil => rfl
  | cons entry rest =>
      obtain ⟨name, body⟩ := entry
      simp only [declarationsOfBodies, Placement.branchesOfBodies, List.map_append,
        cluster_declarationsOfAll, cluster_declarationsOfBodies]

end

end Binding

namespace Placement

open Placing

mutual

/-- The heads of branches are scheduled, in the order of the branches. -/
theorem heads_sublist (placement : Placement) :
    (placement.branches.map (·.1.head)).Sublist (scheduled placement.placings) := by
  cases placement with
  | inlined id => exact List.nil_sublist _
  | node id bodies =>
      rw [placings, scheduled_cons_run]
      exact (heads_sublist_ofBodies bodies).cons _
  | branch cluster bodies thenArm elseArm =>
      simp only [placings, scheduled_cons_run, scheduled_append, branches, List.map_cons,
        List.map_append]
      exact ((heads_sublist_ofBodies bodies).append
        ((heads_sublist_ofAll thenArm).append (heads_sublist_ofAll elseArm))).cons_cons _
  | parallel clusters => exact heads_sublist_ofAll clusters

theorem heads_sublist_ofAll (placements : List Placement) :
    ((branchesOfAll placements).map (·.1.head)).Sublist (scheduled (placingsOfAll placements)) := by
  cases placements with
  | nil => exact List.nil_sublist _
  | cons placement rest =>
      simp only [placingsOfAll, scheduled_append, branchesOfAll, List.map_append]
      exact (heads_sublist placement).append (heads_sublist_ofAll rest)

theorem heads_sublist_ofBodies (bodies : List (String × List Placement)) :
    ((branchesOfBodies bodies).map (·.1.head)).Sublist (scheduled (placingsOfBodies bodies)) := by
  cases bodies with
  | nil => exact List.nil_sublist _
  | cons entry rest =>
      obtain ⟨name, body⟩ := entry
      simp only [placingsOfBodies, scheduled_append, branchesOfBodies, List.map_append]
      exact (heads_sublist_ofAll body).append (heads_sublist_ofBodies rest)

end

end Placement

/-! ### Branches around a branch -/

/-- How a branch is bound that stands in `path`, after `merges` have been declared, together with
some other branches: it knows `merges`, and the arms it lies in, apart from those of `path`, are
arms of such branches, whose merge bindings it knows too. -/
structure Declaration.Behind (index : Index) (path : List Enclosure) (merges : List Merge)
    (others : List Declaration) (declaration : Declaration) : Prop where
  known : merges <+: declaration.outer
  arms : ∀ head onSuccess outer, .arm head onSuccess :: outer <:+ declaration.path →
    .arm head onSuccess :: outer <:+ path ∨ ∃ other ∈ others, other.cluster.head = head ∧
      other.path = outer ∧ other.outer ++ other.merges index <+: declaration.outer

namespace Declaration.Behind

variable {index : Index} {path : List Enclosure} {merges : List Merge} {others : List Declaration}
  {declaration : Declaration}

theorem mono (behind : Behind index path merges others declaration) {fewer : List Merge}
    {more : List Declaration} (grows : fewer <+: merges) (subset : others ⊆ more) :
    Behind index path fewer more declaration := by
  refine ⟨grows.trans behind.known, fun head onSuccess outer around => ?_⟩
  refine (behind.arms head onSuccess outer around).imp_right fun ⟨other, member, found⟩ => ?_
  exact ⟨other, subset member, found⟩

theorem outOfBody {owner name : String}
    (behind : Behind index (.body owner name :: path) merges others declaration) :
    Behind index path merges others declaration := by
  refine ⟨behind.known, fun head onSuccess outer around => ?_⟩
  refine (behind.arms head onSuccess outer around).imp_left fun here => ?_
  exact (List.suffix_cons_iff.mp here).resolve_left nofun

/-- What lies in an arm of a branch has the branch around it. -/
theorem outOfArm {around : Declaration} {onSuccess : Bool}
    (behind : Behind index (.arm around.cluster.head onSuccess :: around.path) merges
      others declaration)
    (among : around ∈ others) (knows : around.outer ++ around.merges index <+: merges) :
    Behind index around.path around.outer others declaration := by
  refine ⟨((List.prefix_append _ _).trans knows).trans behind.known, fun head side outer suffix =>
    ?_⟩
  rcases behind.arms head side outer suffix with here | found
  · rcases List.suffix_cons_iff.mp here with same | outside
    · cases same
      exact .inr ⟨around, among, rfl, rfl, knows.trans behind.known⟩
    · exact .inl outside
  · exact .inr found

end Declaration.Behind

namespace Binding

open Declaration

variable {index : Index}

mutual

/-- **The arms that a branch lies in are arms of branches whose merge bindings it knows.** -/
theorem behind_declarations {path : List Enclosure} {merges : List Merge} {placement : Placement}
    {declaration : Declaration} (member : declaration ∈ declarations index path merges placement) :
    Behind index path merges (declarations index path merges placement) declaration := by
  cases placement with
  | inlined id => cases member
  | node id bodies => exact behind_declarationsOfBodies member
  | branch cluster bodies thenArm elseArm =>
      have toArms := grows_placeBodies index (merges ++ Merge.declare index merges cluster)
        cluster.head bodies
      rw [declarations] at member ⊢
      generalize (placeBodies index (merges ++ Merge.declare index merges cluster)
        cluster.head bodies).2 = following at toArms member ⊢
      rcases List.mem_cons.mp member with rfl | below
      · exact ⟨List.prefix_rfl, fun _ _ _ => .inl⟩
      · rcases List.mem_append.mp below with inBodies | inArms
        · exact (behind_declarationsOfBodies inBodies).mono (List.prefix_append _ _)
            (List.subset_cons_of_subset _ (List.subset_append_left _ _))
        · rcases List.mem_append.mp inArms with inThen | inElse
          · refine @Behind.outOfArm index following _ declaration ⟨cluster, merges, path⟩ true ?_
              List.mem_cons_self toArms
            exact (behind_declarationsOfAll inThen).mono List.prefix_rfl
              (List.subset_cons_of_subset _
              (List.subset_append_of_subset_right _ (List.subset_append_left _ _)))
          · refine @Behind.outOfArm index _ _ declaration ⟨cluster, merges, path⟩ false ?_
              List.mem_cons_self (toArms.trans (grows_placeAll index following thenArm))
            exact (behind_declarationsOfAll inElse).mono List.prefix_rfl
              (List.subset_cons_of_subset _
              (List.subset_append_of_subset_right _ (List.subset_append_right _ _)))
  | parallel clusters => exact behind_declarationsOfAll member

theorem behind_declarationsOfAll {path : List Enclosure} {merges : List Merge}
    {placements : List Placement} {declaration : Declaration}
    (member : declaration ∈ declarationsOfAll index path merges placements) :
    Behind index path merges (declarationsOfAll index path merges placements) declaration := by
  cases placements with
  | nil => cases member
  | cons placement rest =>
      rcases List.mem_append.mp member with here | later
      · exact (behind_declarations here).mono List.prefix_rfl (List.subset_append_left _ _)
      · exact (behind_declarationsOfAll later).mono (grows_place index merges placement)
          (List.subset_append_right _ _)

theorem behind_declarationsOfBodies {path : List Enclosure} {merges : List Merge} {owner : String}
    {bodies : List (String × List Placement)} {declaration : Declaration}
    (member : declaration ∈ declarationsOfBodies index path merges owner bodies) :
    Behind index path merges (declarationsOfBodies index path merges owner bodies) declaration := by
  cases bodies with
  | nil => cases member
  | cons entry rest =>
      obtain ⟨name, body⟩ := entry
      rcases List.mem_append.mp member with here | later
      · exact (behind_declarationsOfAll here).outOfBody.mono List.prefix_rfl
          (List.subset_append_left _ _)
      · exact (behind_declarationsOfBodies later).mono (grows_placeAll index merges body)
          (List.subset_append_right _ _)

end

end Binding

/-! ### Branches of a plan -/

/-- A branch of a plan: what it lies in, its head, and what it declares. -/
def Spot.branching? (spot : Spot) : Option (List Enclosure × String × List HoistedBinding) :=
  spot.node.branchesOn?.map fun head => (spot.path, head, spot.node.declares)

/-- A branch as it stands in a plan. -/
def Declaration.branching (index : Index) (declaration : Declaration) :
    List Enclosure × String × List HoistedBinding :=
  (declaration.path, declaration.cluster.head, (declaration.merges index).map Merge.hoisted)

/-- The merge bindings that a plan declares. -/
def Plan.hoisted (plan : Plan) : List HoistedBinding :=
  plan.body.walk.flatMap PlanNode.declares

namespace PlanNode

theorem branchings_ofBlock (path : List Enclosure) (nodes : List PlanNode) :
    (spots path (.ofBlock nodes)).filterMap Spot.branching? =
      (spotsOfAll path nodes).filterMap Spot.branching? := by
  unfold ofBlock
  split
  · rw [spotsOfAll, spotsOfAll, List.append_nil]
  · rfl

theorem branchings_runNode (path : List Enclosure) (step : Step)
    (bodies : List (ScopeFrame × PlanNode)) :
    (spots path (Binding.runNode step bodies)).filterMap Spot.branching? =
      (spotsOfBodies path step.node bodies).filterMap Spot.branching? := by
  cases bodies <;> rfl

theorem branchings_branch (path : List Enclosure) (head condition : String)
    (hoisted : List HoistedBinding) (thenArm elseArm : PlanNode) :
    (spots path (.branch head condition hoisted thenArm elseArm)).filterMap Spot.branching? =
      (path, head, hoisted) ::
        ((spots (.arm head true :: path) thenArm).filterMap Spot.branching? ++
        (spots (.arm head false :: path) elseArm).filterMap Spot.branching?) := by
  rw [spots, List.filterMap_cons, List.filterMap_append]
  rfl

end PlanNode

namespace Binding

open PlanNode

variable {index : Index}

mutual

theorem branchings_place (path : List Enclosure) (merges : List Merge) (placement : Placement) :
    ((spotsOfAll path (place index merges placement).1).filterMap Spot.branching?).Perm
      ((declarations index path merges placement).map (Declaration.branching index)) := by
  cases placement with
  | inlined id => exact .refl _
  | node id bodies =>
      rw [place, spotsOfAll, spotsOfAll, List.append_nil, branchings_runNode]
      exact branchings_placeBodies path merges id bodies
  | branch cluster bodies thenArm elseArm =>
      rw [place, spotsOfAll, spotsOfAll, spotsOfAll, List.append_nil, List.filterMap_append,
        branchings_runNode,
        branchings_branch, branchings_ofBlock, branchings_ofBlock, declarations, List.map_cons,
        List.map_append, List.map_append]
      refine List.perm_middle.trans (.cons _ (.append ?_ (.append ?_ ?_)))
      · exact branchings_placeBodies path _ cluster.head bodies
      · exact branchings_placeAll _ _ thenArm
      · exact branchings_placeAll _ _ elseArm
  | parallel clusters =>
      rw [place, spotsOfAll, spotsOfAll, List.append_nil, spots]
      exact branchings_placeEach path merges clusters

theorem branchings_placeAll (path : List Enclosure) (merges : List Merge)
    (placements : List Placement) :
    ((spotsOfAll path (placeAll index merges placements).1).filterMap Spot.branching?).Perm
      ((declarationsOfAll index path merges placements).map (Declaration.branching index)) := by
  cases placements with
  | nil => exact .refl _
  | cons placement rest =>
      rw [placeAll, spotsOfAll_append, List.filterMap_append, declarationsOfAll, List.map_append]
      exact (branchings_place path merges placement).append (branchings_placeAll path _ rest)

theorem branchings_placeEach (path : List Enclosure) (merges : List Merge)
    (placements : List Placement) :
    ((spotsOfAll path (placeEach index merges placements).1).filterMap Spot.branching?).Perm
      ((declarationsOfAll index path merges placements).map (Declaration.branching index)) := by
  cases placements with
  | nil => exact .refl _
  | cons placement rest =>
      rw [placeEach, spotsOfAll, List.filterMap_append, branchings_ofBlock, declarationsOfAll,
        List.map_append]
      exact (branchings_place path merges placement).append (branchings_placeEach path _ rest)

theorem branchings_placeBodies (path : List Enclosure) (merges : List Merge) (owner : String)
    (bodies : List (String × List Placement)) :
    ((spotsOfBodies path owner (placeBodies index merges owner bodies).1).filterMap
      Spot.branching?).Perm
      ((declarationsOfBodies index path merges owner bodies).map
        (Declaration.branching index)) := by
  cases bodies with
  | nil => exact .refl _
  | cons entry rest =>
      obtain ⟨name, body⟩ := entry
      rw [placeBodies, spotsOfBodies, List.filterMap_append, branchings_ofBlock,
        declarationsOfBodies, List.map_append]
      exact (branchings_placeAll _ merges body).append (branchings_placeBodies path _ owner rest)

end

/-- **The branches of a plan are those that have been bound.** -/
theorem branchings_plan (placements : List Placement) :
    (((plan index placements).body.spots []).filterMap Spot.branching?).Perm
      ((declarationsOfAll index [] [] placements).map (Declaration.branching index)) :=
  (branchings_ofBlock [] _).symm ▸ branchings_placeAll [] [] placements

/-- A branch of a plan has been bound. -/
theorem exists_declaration_of_branch {placements : List Placement} {branch : Spot}
    (member : branch ∈ (plan index placements).body.spots []) {head : String}
    (on : branch.node.branchesOn? = some head) :
    ∃ declaration ∈ declarationsOfAll index [] [] placements, declaration.path = branch.path ∧
      declaration.cluster.head = head ∧
      branch.node.declares = (declaration.merges index).map Merge.hoisted := by
  have listed : (branch.path, head, branch.node.declares) ∈
      ((plan index placements).body.spots []).filterMap Spot.branching? :=
    List.mem_filterMap.mpr ⟨branch, member, by rw [Spot.branching?, on, Option.map_some]⟩
  rw [(branchings_plan placements).mem_iff] at listed
  obtain ⟨declaration, inPlan, same⟩ := List.mem_map.mp listed
  obtain ⟨path, rest⟩ := Prod.mk.inj same
  obtain ⟨heads, declares⟩ := Prod.mk.inj rest
  exact ⟨declaration, inPlan, path, heads, declares.symm⟩

/-- A branch that has been bound is one of the plan. -/
theorem exists_branch_of_declaration {placements : List Placement} {declaration : Declaration}
    (member : declaration ∈ declarationsOfAll index [] [] placements) :
    ∃ branch ∈ (plan index placements).body.spots [], branch.path = declaration.path ∧
      branch.node.declares = (declaration.merges index).map Merge.hoisted := by
  have listed : declaration.branching index ∈
      ((plan index placements).body.spots []).filterMap Spot.branching? :=
    (branchings_plan placements).mem_iff.mpr (List.mem_map.mpr ⟨declaration, member, rfl⟩)
  obtain ⟨branch, inPlan, found⟩ := List.mem_filterMap.mp listed
  obtain ⟨_, _, same⟩ := Option.map_eq_some_iff.mp found
  obtain ⟨path, rest⟩ := Prod.mk.inj same
  exact ⟨branch, inPlan, path, (Prod.mk.inj rest).2⟩

/-- **The merge bindings that a plan declares are those that have been declared.** -/
theorem hoisted_plan (placements : List Placement) :
    (plan index placements).hoisted.Perm ((placeAll index [] placements).2.map Merge.hoisted) := by
  have declares : ∀ spots : List Spot, (spots.map Spot.node).flatMap PlanNode.declares =
      (spots.filterMap Spot.branching?).flatMap (·.2.2) := by
    intro spots
    induction spots with
    | nil => rfl
    | cons spot rest ih =>
        obtain ⟨path, node⟩ := spot
        cases node <;> simp [List.filterMap_cons, Spot.branching?, branchesOn?,
          PlanNode.declares, ih]
  have merges : ((declarationsOfAll index [] [] placements).map
      (Declaration.branching index)).flatMap (·.2.2) =
      (placeAll index [] placements).2.map Merge.hoisted := by
    rw [following_placeAll [], List.nil_append, List.map_flatMap, List.flatMap_map]
    rfl
  rw [Plan.hoisted, ← node_spots [], declares, ← merges]
  exact (branchings_plan placements).flatMap_right _

/-- A stage is a run of the plan. -/
theorem exists_split_of_stage {placements : List Placement} {stage : Stage}
    (bound : stage ∈ stagesOfAll index [] [] placements) :
    ∃ before spot after, (plan index placements).body.spots [] = before ++ spot :: after ∧
      spot.path = stage.path ∧ spot.node.ran? = some (stage.step index) := by
  have place : stage.place index ∈ places [] (plan index placements).body := by
    rw [places_plan]
    exact List.mem_map.mpr ⟨stage, bound, rfl⟩
  rw [places_eq_spots] at place
  obtain ⟨spot, member, found⟩ := List.mem_filterMap.mp place
  obtain ⟨step, ran, same⟩ := Option.map_eq_some_iff.mp found
  obtain ⟨path, rfl⟩ := Prod.mk.inj same
  obtain ⟨before, after, split⟩ := List.append_of_mem member
  exact ⟨before, spot, after, split, path, ran⟩

/-- **The arms that a run lies in are those of branches that have been bound.** -/
theorem exists_declaration_of_stage {placements : List Placement} {stage : Stage}
    (bound : stage ∈ stagesOfAll index [] [] placements) {head : String} {onSuccess : Bool}
    {outer : List Enclosure} (around : .arm head onSuccess :: outer <:+ stage.path) :
    ∃ declaration ∈ declarationsOfAll index [] [] placements, declaration.cluster.head = head ∧
      declaration.path = outer := by
  obtain ⟨before, spot, after, split, path, _⟩ := exists_split_of_stage bound
  rw [← path] at around
  rcases rooted_spots [] [] _ before spot after split head onSuccess outer around with here | known
  · cases List.suffix_nil.mp here
  · obtain ⟨branch, among, lies, on, _⟩ := known
    obtain ⟨declaration, declared, pathToo, heads, _⟩ :=
      exists_declaration_of_branch (split ▸ List.mem_append_left _ among) on
    exact ⟨declaration, declared, heads, pathToo.trans lies⟩

end Binding

/-- All merge bindings have been declared by a branch. -/
theorem exists_declaration_of_merge {index : Index} {placements : List Placement} {merge : Merge}
    (member : merge ∈ (Binding.placeAll index [] placements).2) :
    ∃ declaration ∈ Binding.declarationsOfAll index [] [] placements,
      merge ∈ declaration.merges index := by
  rw [Binding.following_placeAll [], List.nil_append] at member
  exact List.mem_flatMap.mp member

/-- A merge binding that a branch declares is for an input that a value leaves its arms for. -/
theorem Declaration.exists_leaving {index : Index} {declaration : Declaration} {merge : Merge}
    (declares : merge ∈ declaration.merges index) :
    ∃ connection ∈ Merge.leaving index declaration.cluster, merge.consumer = connection.target := by
  obtain ⟨connection, kept, consumer⟩ :=
    (Merge.collected_declare index declaration.outer declaration.cluster).consumer merge declares
  exact ⟨connection, (List.mem_filter.mp kept).1, consumer⟩

/-- What is written into the merge binding leaves the arms of the branch for its input. -/
theorem Declaration.exists_leaving_of_producer {index : Index} {declaration : Declaration}
    {merge : Merge} (declares : merge ∈ declaration.merges index) {producer : PortRef}
    (produces : producer ∈ merge.producers) :
    ∃ connection ∈ Merge.leaving index declaration.cluster, connection.source = producer ∧
      Merge.samePort merge.consumer connection.target = true := by
  obtain ⟨connection, kept, consumer⟩ :=
    (Merge.collected_declare index declaration.outer declaration.cluster).producer merge declares
      producer produces
  exact ⟨connection, (List.mem_filter.mp kept).1, consumer⟩

/-- All that leaves the arms of a branch for an input is written into the merge binding that the
branch declares for the input. -/
theorem Declaration.source_mem_producers {index : Index} {declaration : Declaration} {merge : Merge}
    (declares : merge ∈ declaration.merges index) {connection : Connection}
    (consumes : Merge.samePort merge.consumer connection.target = true)
    (leaves : connection ∈ Merge.leaving index declaration.cluster) :
    connection.source ∈ merge.producers := by
  have collected := Merge.collected_declare index declaration.outer declaration.cluster
  have absent : (!declaration.outer.any fun known =>
      Merge.samePort known.consumer connection.target) = true := by
    rw [Bool.not_eq_true', List.any_eq_false]
    intro known among consumesToo
    have fresh := Merge.fresh_of_mem_declare declares known among
    rw [Merge.samePort_trans consumesToo (Merge.samePort_symm consumes)] at fresh
    cases fresh
  obtain ⟨other, among, consumesToo, writes⟩ :=
    collected.all connection (List.mem_filter.mpr ⟨leaves, absent⟩)
  obtain rfl := Merge.eq_of_samePort collected.distinct among declares
    (Merge.samePort_trans consumesToo (Merge.samePort_symm consumes))
  exact writes

/-! ### Branches of an arrangement -/

theorem Scheduler.Placed.declares {workflow : Workflow} {scheduler : Scheduler} {block : Block}
    {cluster : Cluster} {placement : Placement} {arms : Arms}
    (placed : Placed scheduler (.ofWorkflow workflow) block cluster placement)
    (branching : cluster.arms = some arms) (path : List Enclosure) (merges : List Merge) :
    ∃ stage ∈ Binding.stages (.ofWorkflow workflow) path merges placement,
      stage.merges = merges ++ Merge.declare (.ofWorkflow workflow) merges cluster := by
  cases placed with
  | node _ _ single =>
      rw [branching] at single
      cases single
  | branch => exact ⟨_, List.mem_cons_self, rfl⟩

namespace Scheduler.Arranged

open Binding

variable {workflow : Workflow} {scheduler : Scheduler} {placements : List Placement}

section

variable {resolved available : List String}

/-- What is bound as a branch is a cluster of a block that comes up. -/
theorem hasCluster (arranged : Arranged scheduler (.ofWorkflow workflow)
      (.ofRegion (.ofWorkflow workflow) none resolved available) placements)
    {declaration : Declaration}
    (member : declaration ∈ declarationsOfAll (.ofWorkflow workflow) [] [] placements) :
    workflow.HasCluster declaration.cluster := by
  have among : declaration.cluster ∈ (Placement.branchesOfAll placements).map (·.1) := by
    rw [← @cluster_declarationsOfAll (.ofWorkflow workflow) [] []]
    exact List.mem_map.mpr ⟨declaration, member, rfl⟩
  obtain ⟨entry, branch, same⟩ := List.mem_map.mp among
  exact same ▸ (arranged.isBranch .top entry branch).formed

/-- **No two branches have one head.** -/
theorem declaration_unique (arranged : Arranged scheduler (.ofWorkflow workflow)
      (.ofRegion (.ofWorkflow workflow) none resolved available) placements)
    {one other : Declaration}
    (inOne : one ∈ declarationsOfAll (.ofWorkflow workflow) [] [] placements)
    (inOther : other ∈ declarationsOfAll (.ofWorkflow workflow) [] [] placements)
    (same : one.cluster.head = other.cluster.head) : one = other := by
  have distinct := (Placement.heads_sublist_ofAll placements).nodup arranged.separate.distinct
  have heads := congrArg (List.map Cluster.head) (@cluster_declarationsOfAll (.ofWorkflow workflow)
    [] [] placements)
  rw [List.map_map, List.map_map] at heads
  exact List.inj_on_of_nodup_map (heads ▸ distinct) inOne inOther same

/-- **A merge binding is declared by the outermost branch whose arms the value leaves.** -/
theorem not_leaving_outside (arranged : Arranged scheduler (.ofWorkflow workflow)
      (.ofRegion (.ofWorkflow workflow) none resolved available) placements)
    {declaration : Declaration}
    (member : declaration ∈ declarationsOfAll (.ofWorkflow workflow) [] [] placements)
    {merge : Merge} (declares : merge ∈ declaration.merges (.ofWorkflow workflow))
    {connection : Connection} (consumes : Merge.samePort merge.consumer connection.target = true)
    {branch : Cluster} (comesUp : workflow.HasCluster branch) {onSuccess : Bool}
    {outer : List Enclosure} (around : .arm branch.head onSuccess :: outer <:+ declaration.path) :
    connection ∉ Merge.leaving (.ofWorkflow workflow) branch := by
  intro leaves
  rcases (behind_declarationsOfAll member).arms _ _ _ around with
    here | ⟨other, inOther, heads, _, knows⟩
  · cases List.suffix_nil.mp here
  · obtain rfl := (arranged.hasCluster inOther).unique comesUp heads
    obtain ⟨known, among, consumesToo⟩ := Merge.exists_mem_of_leaving leaves other.outer
    have fresh := Merge.fresh_of_mem_declare declares known (knows.subset among)
    rw [Merge.samePort_trans consumesToo (Merge.samePort_symm consumes)] at fresh
    cases fresh

end

/-- **There is a merge binding for every input that values of an arm leave for.** -/
theorem declared (arranged : Arranged scheduler (.ofWorkflow workflow)
      (.ofRegion (.ofWorkflow workflow) none [] []) placements) (certified : Certified workflow)
    {branch : Cluster} (comesUp : workflow.HasCluster branch) {connection : Connection}
    (leaves : connection ∈ Merge.leaving (.ofWorkflow workflow) branch) :
    ∃ merge ∈ (Binding.placeAll (.ofWorkflow workflow) [] placements).2,
      Merge.samePort merge.consumer connection.target = true := by
  obtain ⟨arms, _, branching, _⟩ := Cluster.exists_side (Merge.mem_leaving.mp leaves).2.1
  obtain ⟨block, placement, path, merges, placed, inAll⟩ := comesUp.exists_placed certified arranged
  obtain ⟨stage, bound, declares⟩ := placed.declares branching path merges
  obtain ⟨merge, among, consumes⟩ := Merge.exists_mem_of_leaving leaves merges
  exact ⟨merge, (Binding.merges_of_mem_stagesOfAll (inAll bound)).2.subset (declares ▸ among),
    consumes⟩

/-- Where the head of a cluster is bound is known from its stage. -/
theorem boundAt_of_stage (arranged : Arranged scheduler (.ofWorkflow workflow)
      (.ofRegion (.ofWorkflow workflow) none [] []) placements) (certified : Certified workflow)
    {cluster : Cluster} (comesUp : workflow.HasCluster cluster) {stage : Stage}
    (bound : stage ∈ stagesOfAll (.ofWorkflow workflow) [] [] placements)
    (isHead : stage.node = cluster.head) :
    cluster.BoundAt workflow (stagesOfAll (.ofWorkflow workflow) [] [] placements) stage := by
  obtain ⟨other, atHead⟩ := comesUp.exists_boundAt certified arranged
  have ordinary := (comesUp.member_scheduled List.mem_cons_self).2
  have scheduled := arranged.scheduled_of_placed .top (List.Subset.refl _)
    (node_of_mem_stagesOfAll bound) (isHead ▸ ordinary)
  obtain rfl := arranged.stage_unique bound atHead.member scheduled (atHead.node.trans isHead.symm)
  exact atHead

/-- A branch with members in its arms is bound where its head is. -/
theorem path_of_declared (arranged : Arranged scheduler (.ofWorkflow workflow)
      (.ofRegion (.ofWorkflow workflow) none [] []) placements) (certified : Certified workflow)
    {declaration : Declaration}
    (member : declaration ∈ declarationsOfAll (.ofWorkflow workflow) [] [] placements) {id : String}
    (inArms : id ∈ declaration.cluster.armMembers) {head : Stage}
    (bound : head ∈ stagesOfAll (.ofWorkflow workflow) [] [] placements)
    (isHead : head.node = declaration.cluster.head) : declaration.path = head.path := by
  have comesUp := arranged.hasCluster member
  obtain ⟨stage, inStages, rfl⟩ := comesUp.exists_stage_of_mem_arms certified arranged inArms
  obtain ⟨_, suffix⟩ := arranged.suffix_of_mem_arms certified comesUp bound isHead inStages inArms
  obtain ⟨other, inOther, heads, path⟩ := exists_declaration_of_stage inStages suffix
  obtain rfl := arranged.declaration_unique inOther member heads
  exact path

/-- What is bound in an arm of a branch lies in all that the branch lies in. -/
theorem suffix_of_declared (arranged : Arranged scheduler (.ofWorkflow workflow)
      (.ofRegion (.ofWorkflow workflow) none [] []) placements) (certified : Certified workflow)
    {declaration : Declaration}
    (member : declaration ∈ declarationsOfAll (.ofWorkflow workflow) [] [] placements)
    {stage : Stage} (bound : stage ∈ stagesOfAll (.ofWorkflow workflow) [] [] placements)
    (inArms : stage.node ∈ declaration.cluster.armMembers) :
    ∃ onSuccess, .arm declaration.cluster.head onSuccess :: declaration.path <:+ stage.path := by
  have comesUp := arranged.hasCluster member
  obtain ⟨head, atHead⟩ := comesUp.exists_boundAt certified arranged
  rw [arranged.path_of_declared certified member inArms atHead.member atHead.node]
  exact arranged.suffix_of_mem_arms certified comesUp atHead.member atHead.node bound inArms

/-- **A merge binding for the end of a region is declared directly in the region**: every branch of
the region around the one that declares it would have declared it before. -/
theorem declared_in_region (arranged : Arranged scheduler (.ofWorkflow workflow)
      (.ofRegion (.ofWorkflow workflow) none [] []) placements) (certified : Certified workflow)
    {declaration : Declaration}
    (member : declaration ∈ declarationsOfAll (.ofWorkflow workflow) [] [] placements)
    {merge : Merge} (declares : merge ∈ declaration.merges (.ofWorkflow workflow))
    {connection : Connection}
    (leaves : connection ∈ Merge.leaving (.ofWorkflow workflow) declaration.cluster)
    (consumes : Merge.samePort merge.consumer connection.target = true)
    (sink : Merge.intoSink (.ofWorkflow workflow) connection = true) :
    ((Index.ofWorkflow workflow).regionOf connection.source.node = none ∧ declaration.path = []) ∨
      ∃ owner name outer,
        (Index.ofWorkflow workflow).regionOf connection.source.node = some ⟨owner, name⟩ ∧
        declaration.path = .body owner name :: outer ∧
        ∃ stage ∈ stagesOfAll (.ofWorkflow workflow) [] [] placements,
          stage.node = owner ∧ stage.path = outer := by
  obtain ⟨inside, inArms, output, _⟩ := Merge.mem_leaving.mp leaves
  have comesUp := arranged.hasCluster member
  obtain ⟨head, atHead⟩ := comesUp.exists_boundAt certified arranged
  have path := arranged.path_of_declared certified member inArms atHead.member atHead.node
  have lives : (Index.ofWorkflow workflow).regionOf connection.source.node =
      Enclosure.region declaration.path := by
    rw [path, ← atHead.region]
    exact comesUp.regionOf_eq (List.mem_cons_of_mem _ inArms) List.mem_cons_self
  rw [lives]
  cases found : declaration.path with
  | nil => exact .inl ⟨rfl, rfl⟩
  | cons enclosure outer =>
      obtain ⟨stage, bound, owner, outside⟩ := atHead.owner enclosure outer (path.symm.trans found)
      cases enclosure with
      | body => exact .inr ⟨_, _, outer, rfl, rfl, stage, bound, owner, outside⟩
      | arm branchHead onSuccess =>
          obtain ⟨source, inStages, same⟩ :=
            comesUp.exists_stage_of_mem_arms certified arranged inArms
          obtain ⟨_, suffix⟩ :=
            arranged.suffix_of_declared certified member inStages (same ▸ inArms)
          have ordinary := (comesUp.member_scheduled (List.mem_cons_of_mem _ inArms)).2
          have holds := arranged.holds inStages (same ▸ ordinary)
            (suffix.subset (List.mem_cons_of_mem _ (found ▸ List.mem_cons_self)))
          rw [same] at holds
          -- the branch of the arm lives in the region, too, so the value leaves its arms as well
          obtain ⟨branch, _, branchUp, rfl, _⟩ := id holds
          have atBranch := arranged.boundAt_of_stage certified branchUp bound owner
          obtain ⟨other, arms, otherUp, heads, branching, inSide⟩ := holds.mem_side certified <| by
            rw [lives, found, atBranch.region, outside]
            rfl
          obtain rfl := otherUp.unique branchUp heads
          have inBranch := Cluster.mem_armMembers_of_side branching inSide
          have around : .arm other.head onSuccess :: outer <:+ declaration.path := by rw [found]
          refine absurd (Merge.mem_leaving.mpr ⟨inside, inBranch, output, .direct ?_⟩)
            (arranged.not_leaving_outside member declares consumes otherUp around)
          simp [Merge.leavesDirectly, sink]

/-- **A merge binding for an exit port is declared on the top level.** -/
theorem path_eq_nil_of_exit (arranged : Arranged scheduler (.ofWorkflow workflow)
      (.ofRegion (.ofWorkflow workflow) none [] []) placements) (certified : Certified workflow)
    {declaration : Declaration}
    (member : declaration ∈ declarationsOfAll (.ofWorkflow workflow) [] [] placements)
    {merge : Merge} (declares : merge ∈ declaration.merges (.ofWorkflow workflow))
    (exit : merge.consumer.node = exitId) : declaration.path = [] := by
  obtain ⟨connection, leaves, consumer⟩ := Declaration.exists_leaving declares
  obtain ⟨inside, inArms, _⟩ := Merge.mem_leaving.mp leaves
  obtain ⟨known, _⟩ := (arranged.hasCluster member).member_scheduled (List.mem_cons_of_mem _ inArms)
  rw [consumer] at exit
  obtain ⟨_, _, _, top⟩ := certified.source_of_exit inside exit (certified.ne_start_of_named known)
  rcases arranged.declared_in_region certified member declares leaves
    (consumer ▸ Merge.samePort_iff.mpr ⟨rfl, rfl⟩) (by simp [Merge.intoSink, exit]) with
    ⟨_, path⟩ | ⟨_, _, _, nested, _⟩
  · exact path
  · rw [top] at nested
    cases nested

end Scheduler.Arranged

end WorkflowGraph
