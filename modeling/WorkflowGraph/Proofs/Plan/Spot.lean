/-
Where the nodes of a plan stand.

* `PlanNode.spots` — the nodes of a plan in the order of the walk, each with the arms of branches
  and the insides of scopes that it lies in. `node_spots` and `places_eq_spots` say that these are
  the nodes of the walk, and that the runs among them are the places of the plan.
* `PlanNode.rooted_spots` — an arm that a node lies in is one of a branch in front of the node, and
  the node stands in the subtree of that arm.
* `EachAfter` — a law for each item of a list and the items in front of it.
-/

import WorkflowGraph.Proofs.Plan.Trace

namespace WorkflowGraph

/-! ### Items and what is in front of them -/

section EachAfter

variable {α : Type} {fits fitsToo : List α → α → Prop} {before : List α}

/-- Whether each item stands as it should after `before` and the items in front of it. -/
def EachAfter (fits : List α → α → Prop) (before items : List α) : Prop :=
  ∀ first item rest, items = first ++ item :: rest → fits (before ++ first) item

namespace EachAfter

theorem nil : EachAfter fits before [] := by
  intro first item rest split
  simp at split

theorem cons {item : α} {items : List α} (here : fits before item)
    (later : EachAfter fits (before ++ [item]) items) :
    EachAfter fits before (item :: items) := by
  intro first other rest split
  cases first with
  | nil =>
      obtain ⟨rfl, rfl⟩ := List.cons.inj split
      rwa [List.append_nil]
  | cons head first =>
      obtain ⟨rfl, behind⟩ := List.cons.inj split
      rw [← List.singleton_append, ← List.append_assoc]
      exact later first other rest behind

theorem append {first second : List α} (one : EachAfter fits before first)
    (other : EachAfter fits (before ++ first) second) :
    EachAfter fits before (first ++ second) := by
  induction first generalizing before with
  | nil => simpa using other
  | cons item first ih =>
      refine cons (by simpa using one [] item first rfl)
        (ih (fun front found rest split => ?_) (by simpa using other))
      simpa using one (item :: front) found rest (by rw [split, List.cons_append])

theorem imp {items : List α} (each : EachAfter fits before items)
    (weaken : ∀ front, ∀ item ∈ items, fits (before ++ front) item →
      fitsToo (before ++ front) item) :
    EachAfter fitsToo before items := by
  intro first item rest split
  exact weaken first item (split ▸ List.mem_append_right _ List.mem_cons_self)
    (each first item rest split)

end EachAfter

end EachAfter

/-! ### Spots -/

/-- A node of a plan and what it lies in, the innermost first. -/
structure Spot where
  path : List Enclosure
  node : PlanNode

namespace PlanNode

mutual

/-- A node that lies in `path` and all nodes below it, in the order of the walk. -/
def spots (path : List Enclosure) : PlanNode → List Spot
  | sequence steps => ⟨path, sequence steps⟩ :: spotsOfAll path steps
  | parallel branches => ⟨path, parallel branches⟩ :: spotsOfAll path branches
  | branch node condition hoisted thenArm elseArm =>
    ⟨path, branch node condition hoisted thenArm elseArm⟩ ::
      (spots (.arm node true :: path) thenArm ++ spots (.arm node false :: path) elseArm)
  | step s => [⟨path, step s⟩]
  | inlined s => [⟨path, inlined s⟩]
  | iteration s bodies => ⟨path, iteration s bodies⟩ :: spotsOfBodies path s.node bodies

/-- The spots of several nodes. -/
def spotsOfAll (path : List Enclosure) : List PlanNode → List Spot
  | [] => []
  | node :: rest => spots path node ++ spotsOfAll path rest

/-- The spots of the insides of scopes. -/
def spotsOfBodies (path : List Enclosure) (owner : String) :
    List (ScopeFrame × PlanNode) → List Spot
  | [] => []
  | (frame, body) :: rest =>
      spots (.body owner frame.name :: path) body ++ spotsOfBodies path owner rest

end

theorem spotsOfAll_append (path : List Enclosure) (first second : List PlanNode) :
    spotsOfAll path (first ++ second) = spotsOfAll path first ++ spotsOfAll path second := by
  induction first with
  | nil => rfl
  | cons node rest ih => rw [List.cons_append, spotsOfAll, ih, spotsOfAll, List.append_assoc]

/-- The instance on whose outcome a branch is. -/
def branchesOn? : PlanNode → Option String
  | branch node _ _ _ _ => some node
  | _ => none

/-- The merge bindings that a node declares. -/
def declares : PlanNode → List HoistedBinding
  | branch _ _ hoisted _ _ => hoisted
  | _ => []

mutual

/-- **The spots of a node are the nodes of its walk.** -/
theorem node_spots (path : List Enclosure) (node : PlanNode) :
    (spots path node).map Spot.node = node.walk := by
  cases node with
  | step | inlined => rfl
  | sequence nodes | parallel nodes => simp only [spots, walk, List.map_cons, node_spotsOfAll]
  | branch => simp only [spots, walk, List.map_cons, List.map_append, node_spots]
  | iteration => simp only [spots, walk, List.map_cons, node_spotsOfBodies]

theorem node_spotsOfAll (path : List Enclosure) (nodes : List PlanNode) :
    (spotsOfAll path nodes).map Spot.node = walkAll nodes := by
  cases nodes with
  | nil => rfl
  | cons node rest => simp only [spotsOfAll, walkAll, List.map_append, node_spots, node_spotsOfAll]

theorem node_spotsOfBodies (path : List Enclosure) (owner : String)
    (bodies : List (ScopeFrame × PlanNode)) :
    (spotsOfBodies path owner bodies).map Spot.node = walkBodies bodies := by
  cases bodies with
  | nil => rfl
  | cons entry rest =>
      simp only [spotsOfBodies, walkBodies, List.map_append, node_spots, node_spotsOfBodies]

end

/-- The ids of the scheduled runs below a node. -/
def scheduled (node : PlanNode) : List String :=
  (node.walk.filter isScheduled).filterMap fun below => below.ran?.map (·.node)

/-- A scheduled run below a node has a spot there. -/
theorem exists_spot_of_scheduled {node : PlanNode} {id : String} (scheduled : id ∈ node.scheduled)
    (path : List Enclosure) : ∃ spot ∈ spots path node, spot.node.isScheduled = true ∧
      ∃ step, spot.node.ran? = some step ∧ step.node = id := by
  obtain ⟨below, kept, found⟩ := List.mem_filterMap.mp scheduled
  obtain ⟨inWalk, isScheduled⟩ := List.mem_filter.mp kept
  obtain ⟨step, ran, same⟩ := Option.map_eq_some_iff.mp found
  rw [← node_spots path] at inWalk
  obtain ⟨spot, member, rfl⟩ := List.mem_map.mp inWalk
  exact ⟨spot, member, isScheduled, step, ran, same⟩

theorem scheduled_of_spot {path : List Enclosure} {node : PlanNode} {spot : Spot}
    (member : spot ∈ spots path node) (isScheduled : spot.node.isScheduled = true) {step : Step}
    (ran : spot.node.ran? = some step) :
    step.node ∈ node.scheduled := by
  have inWalk : spot.node ∈ node.walk := node_spots path node ▸ List.mem_map.mpr ⟨spot, member, rfl⟩
  exact List.mem_filterMap.mpr ⟨_, List.mem_filter.mpr ⟨inWalk, isScheduled⟩, by rw [ran]; rfl⟩

/-- The instance that a branch is on, and the ids of the scheduled runs in its arms. -/
def armRuns? : PlanNode → Option (String × List String × List String)
  | branch node _ _ thenArm elseArm => some (node, thenArm.scheduled, elseArm.scheduled)
  | _ => none

theorem exists_branch_of_armRuns? {node : PlanNode} {head : String} {inThen inElse : List String}
    (runs : node.armRuns? = some (head, inThen, inElse)) :
    ∃ condition hoisted thenArm elseArm, node = .branch head condition hoisted thenArm elseArm ∧
      thenArm.scheduled = inThen ∧ elseArm.scheduled = inElse := by
  cases node with
  | branch on condition hoisted thenArm elseArm =>
      cases runs
      exact ⟨condition, hoisted, thenArm, elseArm, rfl, rfl, rfl⟩
  | _ => cases runs

end PlanNode

namespace Spot

/-- The place of a run. -/
def place? (spot : Spot) : Option (List Enclosure × Step) :=
  spot.node.ran?.map (spot.path, ·)

/-- The nodes in an arm of a branch. -/
def arm (spot : Spot) (onSuccess : Bool) : List Spot :=
  match spot.node with
  | .branch head _ _ thenArm elseArm =>
    PlanNode.spots (.arm head onSuccess :: spot.path) (if onSuccess then thenArm else elseArm)
  | _ => []

end Spot

namespace PlanNode

mutual

/-- **The places of a node are the runs among its spots.** -/
theorem places_eq_spots (path : List Enclosure) (node : PlanNode) :
    places path node = (spots path node).filterMap Spot.place? := by
  cases node with
  | step | inlined => rfl
  | sequence nodes | parallel nodes =>
      simp only [spots, places, List.filterMap_cons, Spot.place?, ran?, Option.map_none,
        placesOfAll_eq_spots]
  | branch =>
      simp only [spots, places, List.filterMap_cons, List.filterMap_append, Spot.place?, ran?,
        Option.map_none, places_eq_spots]
  | iteration =>
      simp only [spots, places, List.filterMap_cons, Spot.place?, ran?, Option.map_some,
        placesOfBodies_eq_spots]

theorem placesOfAll_eq_spots (path : List Enclosure) (nodes : List PlanNode) :
    placesOfAll path nodes = (spotsOfAll path nodes).filterMap Spot.place? := by
  cases nodes with
  | nil => rfl
  | cons node rest =>
      simp only [spotsOfAll, placesOfAll, List.filterMap_append, places_eq_spots,
        placesOfAll_eq_spots]

theorem placesOfBodies_eq_spots (path : List Enclosure) (owner : String)
    (bodies : List (ScopeFrame × PlanNode)) :
    placesOfBodies path owner bodies = (spotsOfBodies path owner bodies).filterMap Spot.place? := by
  cases bodies with
  | nil => rfl
  | cons entry rest =>
      simp only [spotsOfBodies, placesOfBodies, List.filterMap_append, places_eq_spots,
        placesOfBodies_eq_spots]

end

end PlanNode

/-! ### Subtrees -/

namespace PlanNode

mutual

/-- The nodes below a node of a plan are nodes of the plan, and lie in all that the plan lies in. -/
theorem spots_of_mem {path : List Enclosure} {node : PlanNode} {spot : Spot}
    (member : spot ∈ spots path node) :
    spots spot.path spot.node ⊆ spots path node ∧ path <:+ spot.path := by
  cases node with
  | step | inlined =>
      rw [List.mem_singleton.mp member]
      exact ⟨List.Subset.refl _, List.suffix_rfl⟩
  | sequence nodes | parallel nodes =>
      rcases List.mem_cons.mp member with rfl | below
      · exact ⟨List.Subset.refl _, List.suffix_rfl⟩
      · obtain ⟨subset, suffix⟩ := spotsOfAll_of_mem below
        exact ⟨List.subset_cons_of_subset _ subset, suffix⟩
  | iteration s bodies =>
      rcases List.mem_cons.mp member with rfl | below
      · exact ⟨List.Subset.refl _, List.suffix_rfl⟩
      · obtain ⟨subset, suffix⟩ := spotsOfBodies_of_mem below
        exact ⟨List.subset_cons_of_subset _ subset, suffix⟩
  | branch head condition hoisted thenArm elseArm =>
      rcases List.mem_cons.mp member with rfl | below
      · exact ⟨List.Subset.refl _, List.suffix_rfl⟩
      · rcases List.mem_append.mp below with inThen | inElse
        · obtain ⟨subset, suffix⟩ := spots_of_mem inThen
          exact ⟨List.subset_cons_of_subset _ (List.subset_append_of_subset_left _ subset),
            (List.suffix_cons _ _).trans suffix⟩
        · obtain ⟨subset, suffix⟩ := spots_of_mem inElse
          exact ⟨List.subset_cons_of_subset _ (List.subset_append_of_subset_right _ subset),
            (List.suffix_cons _ _).trans suffix⟩

theorem spotsOfAll_of_mem {path : List Enclosure} {nodes : List PlanNode} {spot : Spot}
    (member : spot ∈ spotsOfAll path nodes) :
    spots spot.path spot.node ⊆ spotsOfAll path nodes ∧ path <:+ spot.path := by
  cases nodes with
  | nil => cases member
  | cons node rest =>
      rcases List.mem_append.mp member with here | later
      · exact (spots_of_mem here).imp_left (List.subset_append_of_subset_left _)
      · exact (spotsOfAll_of_mem later).imp_left (List.subset_append_of_subset_right _)

theorem spotsOfBodies_of_mem {path : List Enclosure} {owner : String}
    {bodies : List (ScopeFrame × PlanNode)} {spot : Spot}
    (member : spot ∈ spotsOfBodies path owner bodies) :
    spots spot.path spot.node ⊆ spotsOfBodies path owner bodies ∧ path <:+ spot.path := by
  cases bodies with
  | nil => cases member
  | cons entry rest =>
      rcases List.mem_append.mp member with here | later
      · obtain ⟨subset, suffix⟩ := spots_of_mem here
        exact ⟨List.subset_append_of_subset_left _ subset, (List.suffix_cons _ _).trans suffix⟩
      · exact (spotsOfBodies_of_mem later).imp_left (List.subset_append_of_subset_right _)

end

/-- **What stands in an arm of a branch of a plan stands in the plan**, in that arm. -/
theorem arm_of_mem {path : List Enclosure} {node : PlanNode} {branch spot : Spot} {onSuccess : Bool}
    (member : branch ∈ spots path node) (inArm : spot ∈ branch.arm onSuccess) :
    spot ∈ spots path node ∧ ∃ head, branch.node.branchesOn? = some head ∧
      .arm head onSuccess :: branch.path <:+ spot.path := by
  have below := (spots_of_mem member).1
  obtain ⟨outer, node⟩ := branch
  cases node with
  | branch head condition hoisted thenArm elseArm =>
      refine ⟨below (List.mem_cons_of_mem _ (List.mem_append.mpr ?_)), head, rfl,
        (spots_of_mem inArm).2⟩
      cases onSuccess with
      | true => exact .inl inArm
      | false => exact .inr inArm
  | _ => cases inArm

end PlanNode

/-! ### Enclosing branches -/

/-- Of two enclosures of one node that are not the same, one lies in the other. -/
theorem Enclosure.nested {one other : Enclosure} {outer outerToo path : List Enclosure}
    (around : one :: outer <:+ path) (aroundToo : other :: outerToo <:+ path) :
    (one = other ∧ outer = outerToo) ∨ one :: outer <:+ outerToo ∨ other :: outerToo <:+ outer := by
  rcases List.suffix_or_suffix_of_suffix around aroundToo with inside | outside
  · rcases List.suffix_cons_iff.mp inside with same | further
    · exact .inl (List.cons.inj same)
    · exact .inr (.inl further)
  · rcases List.suffix_cons_iff.mp outside with same | further
    · exact .inl ((List.cons.inj same).imp Eq.symm Eq.symm)
    · exact .inr (.inr further)

namespace Spot

/-- Whether all arms that a node lies in, apart from those of `path`, are arms of branches in front
of it. -/
def Rooted (path : List Enclosure) (before : List Spot) (spot : Spot) : Prop :=
  ∀ head onSuccess outer, .arm head onSuccess :: outer <:+ spot.path →
    .arm head onSuccess :: outer <:+ path ∨
    ∃ branch ∈ before, branch.path = outer ∧ branch.node.branchesOn? = some head ∧
    spot ∈ branch.arm onSuccess

variable {path : List Enclosure} {before : List Spot} {spot : Spot}

theorem rooted_self (node : PlanNode) : Rooted path before ⟨path, node⟩ :=
  fun _ _ _ => .inl

/-- What lies in an arm is rooted outside of the arm behind the branch. -/
theorem Rooted.outOfArm {branch : Spot} {head : String} {onSuccess : Bool}
    (rooted : Rooted (.arm head onSuccess :: branch.path) before spot) (among : branch ∈ before)
    (on : branch.node.branchesOn? = some head) (inArm : spot ∈ branch.arm onSuccess) :
    Rooted branch.path before spot := by
  intro other side outer around
  rcases rooted other side outer around with here | known
  · rcases List.suffix_cons_iff.mp here with same | outside
    · cases same
      exact .inr ⟨branch, among, rfl, on, inArm⟩
    · exact .inl outside
  · exact .inr known

theorem Rooted.outOfBody {owner name : String}
    (rooted : Rooted (.body owner name :: path) before spot) :
    Rooted path before spot := by
  intro head onSuccess outer around
  refine (rooted head onSuccess outer around).imp_left fun here => ?_
  exact (List.suffix_cons_iff.mp here).resolve_left nofun

end Spot

namespace PlanNode

open Spot

mutual

/-- **The arms that a node lies in are arms of branches in front of it.** -/
theorem rooted_spots (path : List Enclosure) (before : List Spot) (node : PlanNode) :
    EachAfter (Rooted path) before (spots path node) := by
  cases node with
  | step | inlined => exact .cons (rooted_self _) .nil
  | sequence nodes => exact .cons (rooted_self _) (rooted_spotsOfAll path _ nodes)
  | parallel nodes => exact .cons (rooted_self _) (rooted_spotsOfAll path _ nodes)
  | iteration s bodies => exact .cons (rooted_self _) (rooted_spotsOfBodies path _ s.node bodies)
  | branch head condition hoisted thenArm elseArm =>
      let here : Spot := ⟨path, .branch head condition hoisted thenArm elseArm⟩
      refine .cons (rooted_self _) (.append ?_ ?_)
      · refine (rooted_spots (.arm head true :: path) _ thenArm).imp fun front spot inThen rooted =>
          ?_
        exact @Rooted.outOfArm _ _ here head true rooted (by simp [here]) rfl inThen
      · refine (rooted_spots (.arm head false :: path) _ elseArm).imp fun front spot
          inElse rooted => ?_
        exact @Rooted.outOfArm _ _ here head false rooted (by simp [here]) rfl inElse

theorem rooted_spotsOfAll (path : List Enclosure) (before : List Spot) (nodes : List PlanNode) :
    EachAfter (Rooted path) before (spotsOfAll path nodes) := by
  cases nodes with
  | nil => exact .nil
  | cons node rest => exact (rooted_spots path before node).append (rooted_spotsOfAll path _ rest)

theorem rooted_spotsOfBodies (path : List Enclosure) (before : List Spot) (owner : String)
    (bodies : List (ScopeFrame × PlanNode)) :
    EachAfter (Rooted path) before (spotsOfBodies path owner bodies) := by
  cases bodies with
  | nil => exact .nil
  | cons entry rest =>
      refine .append ?_ (rooted_spotsOfBodies path _ owner rest)
      exact (rooted_spots _ before entry.2).imp fun _ _ _ => Rooted.outOfBody

end

end PlanNode

end WorkflowGraph
