/-
Every instance is placed once.

A region is live if it is the top level, or a scope of a scheduled instance in a live region. The
main statement is `scheduled_exactly_once`: a plan runs the scheduled instances of the live regions,
each once, as an iteration where the node type declares scopes, and its inlined nodes are
expressions. It holds for every workflow that can be scheduled.

* `Index.Under` — an instance is placed with another one: it is that one, or lies in one of its
  scopes.
* `Scheduler.Arranged.enumerates` — an arrangement of a block places all that lies under the members
  of the block, each once.
* `Binding.placings_placeAll` — a plan places what its arrangement places.
-/

import Mathlib.Data.List.Flatten
import Mathlib.Data.List.Nodup
import WorkflowGraph.Schedule
import WorkflowGraph.Proofs.Schedule.Formed

namespace WorkflowGraph

/-! ### Placings -/

/-- An instance that is placed. -/
inductive Placing where
  /-- An expression. -/
  | inlined (id : String)
  /-- A run of an instance without scopes. -/
  | step (id : String)
  /-- A run of an instance with the insides of its scopes. -/
  | iteration (id : String) (scopes : List String)

namespace Placing

/-- The run of an instance with the insides of some scopes. -/
def run (id : String) (scopes : List String) : Placing :=
  if scopes.isEmpty then .step id else .iteration id scopes

/-- The id of a scheduled instance. -/
def scheduled? : Placing → Option String
  | inlined _ => none
  | step id | iteration id _ => some id

/-- The scheduled instances among those that are placed. -/
def scheduled (placings : List Placing) : List String :=
  placings.filterMap scheduled?

@[simp] theorem scheduled_nil : scheduled [] = [] := rfl

@[simp] theorem scheduled_append (first second : List Placing) :
    scheduled (first ++ second) = scheduled first ++ scheduled second :=
  List.filterMap_append

@[simp] theorem scheduled_cons_run (id : String) (scopes : List String) (rest : List Placing) :
    scheduled (run id scopes :: rest) = id :: scheduled rest := by
  cases scopes <;> rfl

theorem scheduled_inlined (ids : List String) : scheduled (ids.map inlined) = [] := by
  induction ids with
  | nil => rfl
  | cons id rest ih => exact ih

/-- Whether an instance is placed as its node type says. -/
def Fits (index : Index) : Placing → Prop
  | inlined id => index.isExpression id = true
  | step id => ∃ type, index.nodeType? id = some type ∧ type.scopes = []
  | iteration id scopes =>
    ∃ type, index.nodeType? id = some type ∧ type.scopes = scopes ∧ scopes ≠ []

end Placing

namespace Placement

mutual

/-- What a placement places, in order. -/
def placings : Placement → List Placing
  | .inlined id => [.inlined id]
  | .node id bodies => .run id (bodies.map (·.1)) :: placingsOfBodies bodies
  | .branch cluster bodies thenArm elseArm =>
    .run cluster.head (bodies.map (·.1)) ::
      (placingsOfBodies bodies ++ (placingsOfAll thenArm ++ placingsOfAll elseArm))
  | .parallel clusters => placingsOfAll clusters

/-- What several placements place. -/
def placingsOfAll : List Placement → List Placing
  | [] => []
  | placement :: rest => placings placement ++ placingsOfAll rest

/-- What the insides of scopes place. -/
def placingsOfBodies : List (String × List Placement) → List Placing
  | [] => []
  | (_, body) :: rest => placingsOfAll body ++ placingsOfBodies rest

end

theorem placingsOfAll_eq (placements : List Placement) :
    placingsOfAll placements = placements.flatMap placings := by
  induction placements with
  | nil => rfl
  | cons placement rest ih => rw [placingsOfAll, List.flatMap_cons, ih]

theorem placingsOfBodies_eq (bodies : List (String × List Placement)) :
    placingsOfBodies bodies = bodies.flatMap fun entry => placingsOfAll entry.2 := by
  induction bodies with
  | nil => rfl
  | cons entry rest ih => rw [placingsOfBodies, List.flatMap_cons, ih]

theorem placingsOfAll_append (first second : List Placement) :
    placingsOfAll (first ++ second) = placingsOfAll first ++ placingsOfAll second := by
  rw [placingsOfAll_eq, placingsOfAll_eq, placingsOfAll_eq, List.flatMap_append]

theorem placingsOfAll_inlined (ids : List String) :
    placingsOfAll (ids.map .inlined) = ids.map .inlined := by
  induction ids with
  | nil => rfl
  | cons id rest ih => simp only [List.map_cons, placingsOfAll, placings, ih, List.singleton_append]

theorem placingsOfAll_together (placements : List Placement) :
    placingsOfAll (Scheduler.together placements) = placingsOfAll placements := by
  unfold Scheduler.together
  split
  · rfl
  · simp only [placingsOfAll, placings, List.append_nil]

/-- What one round places, and all that comes after it. -/
theorem placingsOfAll_round (inlined : List String) (placed rest : List Placement) :
    placingsOfAll (inlined.map .inlined ++ Scheduler.together placed ++ rest) =
      inlined.map .inlined ++ (placingsOfAll placed ++ placingsOfAll rest) := by
  rw [placingsOfAll_append, placingsOfAll_append, placingsOfAll_inlined, placingsOfAll_together,
    List.append_assoc]

end Placement

/-! ### Plans place what arrangements place -/

namespace PlanNode

/-- What a node of a plan places. -/
def placing? : PlanNode → Option Placing
  | step s => some (.step s.node)
  | iteration s bodies => some (.iteration s.node (bodies.map (·.1.name)))
  | inlined s => some (.inlined s.node)
  | _ => none

theorem walkAll_append (first second : List PlanNode) :
    walkAll (first ++ second) = walkAll first ++ walkAll second := by
  induction first with
  | nil => rfl
  | cons node rest ih => simp only [List.cons_append, walkAll, ih, List.append_assoc]

theorem placings_ofBlock (nodes : List PlanNode) :
    (walk (ofBlock nodes)).filterMap placing? = (walkAll nodes).filterMap placing? := by
  unfold ofBlock
  split
  · simp only [walkAll, List.append_nil]
  · simp only [walk, List.filterMap_cons, placing?]

end PlanNode

namespace Binding

open PlanNode Placement

theorem placings_runNode (step : Step) (bodies : List (ScopeFrame × PlanNode)) :
    (walk (runNode step bodies)).filterMap placing? =
      .run step.node (bodies.map (·.1.name)) :: (walkBodies bodies).filterMap placing? := by
  cases bodies <;> rfl

theorem names_placeBodies (index : Index) (merges : List Merge) (owner : String)
    (bodies : List (String × List Placement)) :
    (placeBodies index merges owner bodies).1.map (·.1.name) = bodies.map (·.1) := by
  induction bodies generalizing merges with
  | nil => rfl
  | cons entry rest ih =>
      obtain ⟨name, body⟩ := entry
      simp only [placeBodies, List.map_cons, ih, frame]

mutual

theorem placings_place (index : Index) (merges : List Merge) (placement : Placement) :
    (walkAll (place index merges placement).1).filterMap placing? = placement.placings := by
  cases placement with
  | inlined id => rfl
  | node id bodies =>
      simp only [place, walkAll, List.append_nil, placings_runNode, placings_placeBodies,
        names_placeBodies, placings, step]
  | branch cluster bodies thenArm elseArm =>
      simp only [place, walkAll, walk, List.append_nil, List.filterMap_append, placings_runNode,
        placings_placeBodies, names_placeBodies, placings_ofBlock, placings_placeAll,
        placings, step, List.filterMap_cons, placing?, List.cons_append]
  | parallel clusters =>
      simp only [place, walkAll, walk, List.append_nil, List.filterMap_cons, placing?,
        placings_placeEach, placings]

theorem placings_placeAll (index : Index) (merges : List Merge) (placements : List Placement) :
    (walkAll (placeAll index merges placements).1).filterMap placing? =
      placingsOfAll placements := by
  cases placements with
  | nil => rfl
  | cons placement rest =>
      simp only [placeAll, walkAll_append, List.filterMap_append, placings_place, placings_placeAll,
        placingsOfAll]

theorem placings_placeEach (index : Index) (merges : List Merge) (placements : List Placement) :
    (walkAll (placeEach index merges placements).1).filterMap placing? =
      placingsOfAll placements := by
  cases placements with
  | nil => rfl
  | cons placement rest =>
      simp only [placeEach, walkAll, List.filterMap_append, placings_ofBlock, placings_place,
        placings_placeEach, placingsOfAll]

theorem placings_placeBodies (index : Index) (merges : List Merge) (owner : String)
    (bodies : List (String × List Placement)) :
    (walkBodies (placeBodies index merges owner bodies).1).filterMap placing? =
      placingsOfBodies bodies := by
  cases bodies with
  | nil => rfl
  | cons entry rest =>
      obtain ⟨name, body⟩ := entry
      simp only [placeBodies, walkBodies, List.filterMap_append, placings_ofBlock,
        placings_placeAll, placings_placeBodies, placingsOfBodies]

end

end Binding

/-! ### What lies under an instance -/

theorem eraseDups_nodup (names : List String) : names.eraseDups.Nodup := by
  induction length : names.length using Nat.strongRecOn generalizing names with
  | ind length ih =>
      cases names with
      | nil => simp
      | cons name rest =>
          have shorter := List.length_filter_le (fun other => !other == name) rest
          rw [List.length_cons] at length
          rw [List.eraseDups_cons, List.nodup_cons]
          exact ⟨by simp [List.mem_eraseDups], ih _ (by omega) _ rfl⟩

theorem NodeType.scopes_nodup (type : NodeType) : type.scopes.Nodup :=
  eraseDups_nodup _

theorem NodeType.mem_scopes {type : NodeType} {name : String} :
    name ∈ type.scopes ↔ type.declaresScope name = true := by
  rw [scopes, List.mem_eraseDups, List.mem_filterMap, declaresScope, List.any_eq_true]
  simp only [decide_eq_true_eq]

namespace Index

/-- Whether an instance is placed with another one: it is that one, or a scheduled instance in one
of its scopes, or placed with one. -/
inductive Under (index : Index) : String → String → Prop
  | self (id : String) : Under index id id
  | inside {owner name child id : String} {type : NodeType} :
      index.nodeType? owner = some type → name ∈ type.scopes →
      child ∈ index.scheduledIn (some ⟨owner, name⟩) → Under index child id → Under index owner id

variable {workflow : Workflow}

theorem Under.trans {index : Index} {first second third : String} (upper : index.Under first second)
    (lower : index.Under second third) : index.Under first third := by
  induction upper with
  | self => exact lower
  | inside known declared member _ ih => exact .inside known declared member (ih lower)

/-- What is placed with an instance is held by it. -/
theorem Under.holds {owner id : String} (under : (ofWorkflow workflow).Under owner id) :
    (ofWorkflow workflow).Holds owner id := by
  induction under with
  | self => exact .inl rfl
  | @inside owner name child id _ _ _ member _ ih =>
      have here : (ofWorkflow workflow).NestedIn child owner :=
        ⟨name, regionOf_of_mem_scheduledIn member ▸ .refl _⟩
      exact .inr (here.of_holds ih)

end Index

/-! ### Enumerations -/

/-- Whether a list has all that lies under some instances, each once. -/
structure Enumerates (index : Index) (members ids : List String) : Prop where
  distinct : ids.Nodup
  mem_iff : ∀ id, id ∈ ids ↔ ∃ member ∈ members, index.Under member id

/-- Whether instances are different, and live on one level. -/
structure OnLevel (index : Index) (level : Nat) (members : List String) : Prop where
  distinct : members.Nodup
  level : ∀ member ∈ members, index.Level (index.regionOf member) level

namespace OnLevel

variable {index : Index} {level : Nat} {members others : List String}

theorem perm (here : OnLevel index level members) (same : members.Perm others) :
    OnLevel index level others :=
  ⟨same.nodup_iff.mp here.distinct, fun member inOthers =>
    here.level member (same.mem_iff.mpr inOthers)⟩

/-- The scheduled instances in the scopes of an instance live one level further inside. -/
theorem scopes {workflow : Workflow} {owner : String} {names : List String}
    (here : (Index.ofWorkflow workflow).Level ((Index.ofWorkflow workflow).regionOf owner) level)
    (distinct : names.Nodup) :
    OnLevel (.ofWorkflow workflow) (level + 1)
      (names.flatMap fun name => (Index.ofWorkflow workflow).scheduledIn (some ⟨owner, name⟩)) := by
  refine ⟨List.nodup_flatMap.mpr ⟨fun name _ => Index.scheduledIn_nodup _, ?_⟩, fun member inside =>
    ?_⟩
  · refine distinct.imp fun {first second} different child inFirst inSecond => different ?_
    have same := (Index.regionOf_of_mem_scheduledIn inFirst).symm.trans
      (Index.regionOf_of_mem_scheduledIn inSecond)
    cases same
    rfl
  · obtain ⟨name, _, inScope⟩ := List.mem_flatMap.mp inside
    rw [Index.regionOf_of_mem_scheduledIn inScope]
    exact .scope here

theorem scope {workflow : Workflow} {owner : String}
    (here : (Index.ofWorkflow workflow).Level ((Index.ofWorkflow workflow).regionOf owner) level)
    (name : String) :
    OnLevel (.ofWorkflow workflow) (level + 1)
      ((Index.ofWorkflow workflow).scheduledIn (some ⟨owner, name⟩)) := by
  have inside := scopes here (List.nodup_singleton name)
  rwa [List.flatMap_singleton] at inside

theorem top {workflow : Workflow} :
    OnLevel (.ofWorkflow workflow) 0 ((Index.ofWorkflow workflow).scheduledIn none) :=
  ⟨Index.scheduledIn_nodup none, fun _ member => Index.regionOf_of_mem_scheduledIn member ▸ .top⟩

theorem sublist (here : OnLevel index level members) (part : others.Sublist members) :
    OnLevel index level others :=
  ⟨here.distinct.sublist part, fun member inside => here.level member (part.subset inside)⟩

theorem left (here : OnLevel index level (members ++ others)) : OnLevel index level members :=
  here.sublist (List.sublist_append_left _ _)

theorem right (here : OnLevel index level (members ++ others)) : OnLevel index level others :=
  here.sublist (List.sublist_append_right _ _)

/-- The members of different clusters of a block live on its level. -/
theorem clusters {analysis : Analysis} {clusters : List Cluster}
    (here : OnLevel index level members)
    (among : clusters.Subperm (Cluster.ofBlock analysis members)) :
    OnLevel index level (clusters.flatMap Cluster.members) := by
  obtain ⟨ordered, same, part⟩ := among
  have all := here.perm (@Cluster.ofBlock_perm analysis members here.distinct).symm
  exact (all.sublist (part.flatMap Cluster.members)).perm (same.flatMap_right Cluster.members)

theorem cluster {analysis : Analysis} {cluster : Cluster} (here : OnLevel index level members)
    (member : cluster ∈ Cluster.ofBlock analysis members) :
    OnLevel index level cluster.members := by
  have single := here.clusters (List.singleton_subperm_iff.mpr member)
  rwa [List.flatMap_singleton] at single

end OnLevel

/-- The members of a block that comes up are different, and live on one level. -/
theorem Formed.onLevel {workflow : Workflow} {members : List String}
    (formed : Formed (.ofWorkflow workflow) members) :
    ∃ level, OnLevel (.ofWorkflow workflow) level members := by
  induction formed with
  | top => exact ⟨0, .top⟩
  | body _ member _ _ ih =>
      obtain ⟨level, here⟩ := ih
      exact ⟨level + 1, .scope (here.level _ (Cluster.exists_of_mem_ofBlock member).2.1) _⟩
  | arm _ member branching opposite ih =>
      obtain ⟨level, here⟩ := ih
      have arms := (Cluster.exists_of_mem_ofBlock member).2.2 _ branching
      exact ⟨level, here.sublist (opposite.sublist arms)⟩

theorem Formed.nodup {workflow : Workflow} {members : List String}
    (formed : Formed (.ofWorkflow workflow) members) : members.Nodup := by
  obtain ⟨level, here⟩ := formed.onLevel
  exact here.distinct

namespace Enumerates

variable {workflow : Workflow} {members others ids further : List String}

theorem nil (index : Index) : Enumerates index [] [] :=
  ⟨List.nodup_nil, fun id => by simp⟩

theorem perm {index : Index} (all : Enumerates index members ids) (same : members.Perm others) :
    Enumerates index others ids :=
  ⟨all.distinct, fun id => (all.mem_iff id).trans
    (exists_congr fun _ => and_congr_left fun _ => same.mem_iff)⟩

/-- What lies under different instances of one level is different. -/
theorem append {level : Nat} (first : Enumerates (.ofWorkflow workflow) members ids)
    (second : Enumerates (.ofWorkflow workflow) others further)
    (here : OnLevel (.ofWorkflow workflow) level (members ++ others)) :
    Enumerates (.ofWorkflow workflow) (members ++ others) (ids ++ further) := by
  refine ⟨List.nodup_append.mpr ⟨first.distinct, second.distinct, fun id inFirst other inSecond =>
    ?_⟩, fun id => ?_⟩
  · rintro rfl
    obtain ⟨member, inMembers, under⟩ := (first.mem_iff id).mp inFirst
    obtain ⟨other, inOthers, underOther⟩ := (second.mem_iff id).mp inSecond
    have same := under.holds.unique underOther.holds
      (here.level member (List.mem_append_left _ inMembers))
      (here.level other (List.mem_append_right _ inOthers))
    exact (List.nodup_append.mp here.distinct).2.2 member inMembers other inOthers same
  · rw [List.mem_append, first.mem_iff, second.mem_iff]
    constructor
    · rintro (⟨member, inside, under⟩ | ⟨member, inside, under⟩)
      · exact ⟨member, List.mem_append_left _ inside, under⟩
      · exact ⟨member, List.mem_append_right _ inside, under⟩
    · rintro ⟨member, inside, under⟩
      exact (List.mem_append.mp inside).imp (fun inMembers => ⟨member, inMembers, under⟩)
        fun inOthers => ⟨member, inOthers, under⟩

/-- What lies under several lists of instances of one level, one after the other. -/
theorem flatMap {α β : Type} {level : Nat} {first : List α} {second : List β}
    {under : α → List String} {placed : β → List String}
    (each : List.Forall₂ (fun left right =>
      Enumerates (.ofWorkflow workflow) (under left) (placed right)) first second)
    (here : OnLevel (.ofWorkflow workflow) level (first.flatMap under)) :
    Enumerates (.ofWorkflow workflow) (first.flatMap under) (second.flatMap placed) := by
  induction each with
  | nil => exact .nil _
  | cons one _ ih =>
      rw [List.flatMap_cons] at here ⊢
      rw [List.flatMap_cons]
      exact one.append (ih here.right) here

/-- What lies under an instance: itself, and what lies under the scheduled instances in its
scopes. -/
theorem owner {owner : String} {type : NodeType} {level : Nat}
    (known : (Index.ofWorkflow workflow).nodeType? owner = some type)
    (here : (Index.ofWorkflow workflow).Level ((Index.ofWorkflow workflow).regionOf owner) level)
    (inside : Enumerates (.ofWorkflow workflow)
      (type.scopes.flatMap fun name => (Index.ofWorkflow workflow).scheduledIn (some ⟨owner, name⟩))
      ids) :
    Enumerates (.ofWorkflow workflow) [owner] (owner :: ids) := by
  have below : ∀ id, id ∈ ids ↔ ∃ name ∈ type.scopes,
      ∃ child ∈ (Index.ofWorkflow workflow).scheduledIn (some ⟨owner, name⟩),
        (Index.ofWorkflow workflow).Under child id := by
    intro id
    rw [inside.mem_iff]
    constructor
    · rintro ⟨child, member, under⟩
      obtain ⟨name, declared, inScope⟩ := List.mem_flatMap.mp member
      exact ⟨name, declared, child, inScope, under⟩
    · rintro ⟨name, declared, child, inScope, under⟩
      exact ⟨child, List.mem_flatMap.mpr ⟨name, declared, inScope⟩, under⟩
  refine ⟨List.nodup_cons.mpr ⟨fun member => ?_, inside.distinct⟩, fun id => ?_⟩
  · -- the owner would lie inside its own scope
    obtain ⟨name, declared, child, inScope, under⟩ := (below owner).mp member
    have nested : (Index.ofWorkflow workflow).NestedIn child owner :=
      ⟨name, Index.regionOf_of_mem_scheduledIn inScope ▸ .refl _⟩
    exact Index.NestedIn.irrefl here (nested.of_holds under.holds)
  · rw [List.mem_cons, below]
    constructor
    · rintro (rfl | ⟨name, declared, child, inScope, under⟩)
      · exact ⟨id, List.mem_singleton_self _, .self id⟩
      · exact ⟨owner, List.mem_singleton_self _, .inside known declared inScope under⟩
    · rintro ⟨member, single, under⟩
      obtain rfl := List.mem_singleton.mp single
      cases under with
      | self => exact .inl rfl
      | inside found declared inScope further =>
          rw [known] at found
          cases found
          exact .inr ⟨_, declared, _, inScope, further⟩

end Enumerates

/-! ### Arrangements place everything once -/

namespace Scheduler

open Placement

variable {scheduler : Scheduler} {workflow : Workflow}

/-- What the insides of the scopes of an instance place. -/
theorem enumerates_bodies {owner : String} {level : Nat} {names : List String}
    {bodies : List (String × List Placement)}
    (headAt : (Index.ofWorkflow workflow).Level ((Index.ofWorkflow workflow).regionOf owner) level)
    (distinct : names.Nodup)
    (each : List.Forall₂ (fun name entry => Enumerates (.ofWorkflow workflow)
      ((Index.ofWorkflow workflow).scheduledIn (some ⟨owner, name⟩))
      (Placing.scheduled (placingsOfAll entry.2))) names bodies) :
    Enumerates (.ofWorkflow workflow)
      (names.flatMap fun name => (Index.ofWorkflow workflow).scheduledIn (some ⟨owner, name⟩))
      (Placing.scheduled (placingsOfBodies bodies)) := by
  rw [placingsOfBodies_eq, Placing.scheduled, List.filterMap_flatMap]
  exact .flatMap each (.scopes headAt distinct)

theorem enumerates_cases : Induction scheduler (.ofWorkflow workflow)
    (fun _ pending placements => Enumerates (.ofWorkflow workflow)
      (pending.flatMap Cluster.members) (Placing.scheduled (placingsOfAll placements)))
    (fun _ cluster placement => Enumerates (.ofWorkflow workflow) cluster.members
      (Placing.scheduled placement.placings)) where
  done _ _ := by
    rw [placingsOfAll_inlined, Placing.scheduled_inlined]
    exact .nil _
  round formed among parted _ placed rest := by
    obtain ⟨level, here⟩ := formed.onLevel
    have same := (splitReady_perm parted).flatMap_right Cluster.members
    have parts := (here.clusters among).perm same.symm
    rw [List.flatMap_append] at same parts
    rw [placingsOfAll_round, Placing.scheduled_append, Placing.scheduled_inlined, List.nil_append,
      Placing.scheduled_append]
    refine (Enumerates.append ?_ rest parts).perm same
    rw [placingsOfAll_eq, Placing.scheduled, List.filterMap_flatMap]
    exact .flatMap (placed.imp fun _ _ known => known.2) parts.left
  node {block cluster type bodies} formed member typed inside single := by
    obtain ⟨level, here⟩ := formed.onLevel
    have headAt := here.level _ (Cluster.exists_of_mem_ofBlock member).2.1
    have alone : cluster.members = [cluster.head] := by
      simp [Cluster.members, Cluster.armMembers, single]
    rw [alone, placings, Placing.scheduled_cons_run]
    refine .owner typed headAt (enumerates_bodies headAt type.scopes_nodup (inside.imp ?_))
    exact fun _ _ body => body.holds.perm (Cluster.ofBlock_perm body.formed.nodup)
  branch {block cluster type arms bodies thenArm elseArm} formed member typed inside branching
      onSuccess onFailure := by
    obtain ⟨level, here⟩ := formed.onLevel
    have headAt := here.level _ (Cluster.exists_of_mem_ofBlock member).2.1
    have parts := here.cluster member
    rw [Cluster.members_of_arms branching] at parts ⊢
    rw [placings, Placing.scheduled_cons_run, Placing.scheduled_append, Placing.scheduled_append,
      ← List.cons_append]
    have below : Enumerates (.ofWorkflow workflow) [cluster.head]
        (cluster.head :: Placing.scheduled (placingsOfBodies bodies)) := by
      refine .owner typed headAt (enumerates_bodies headAt type.scopes_nodup (inside.imp ?_))
      exact fun _ _ body => body.holds.perm (Cluster.ofBlock_perm body.formed.nodup)
    have thenAll := onSuccess.holds.perm (Cluster.ofBlock_perm onSuccess.formed.nodup)
    have elseAll := onFailure.holds.perm (Cluster.ofBlock_perm onFailure.formed.nodup)
    exact below.append (thenAll.append elseAll parts.right) parts

/-- **An arrangement of a block places all that lies under the members of the block, each once.** -/
theorem Arranged.enumerates {block : Block} {placements : List Placement}
    (arranged : Arranged scheduler (.ofWorkflow workflow) block placements)
    (formed : Formed (.ofWorkflow workflow) block.members) :
    Enumerates (.ofWorkflow workflow) block.members
      (Placing.scheduled (placingsOfAll placements)) :=
  (arranged.induction enumerates_cases formed).perm (Cluster.ofBlock_perm formed.nodup)

theorem Placed.enumerates {block : Block} {cluster : Cluster} {placement : Placement}
    (placed : Placed scheduler (.ofWorkflow workflow) block cluster placement)
    (formed : Formed (.ofWorkflow workflow) block.members)
    (member : cluster ∈ Cluster.ofBlock (.ofWorkflow workflow) block.members) :
    Enumerates (.ofWorkflow workflow) cluster.members (Placing.scheduled placement.placings) :=
  placed.induction enumerates_cases formed member

/-! ### Placings fit the node types -/

/-- What is placed in front of clusters, or at the end of a region, are expressions. -/
theorem isExpression_of_mem_neededBy {cluster : Cluster} {id : String}
    (needed : id ∈ (Analysis.ofWorkflow workflow).neededBy cluster) :
    (Index.ofWorkflow workflow).isExpression id = true := by
  rcases List.mem_append.mp needed with read | nested
  · exact (Analysis.sound_expressionsOf read).1
  · obtain ⟨reader, _, read⟩ := List.mem_flatMap.mp (List.mem_filter.mp nested).1
    exact (Analysis.sound_expressionsOf read).1

theorem isExpression_of_mem_sinks {block : Block} {id : String}
    (needed : id ∈ block.sinks (.ofWorkflow workflow)) :
    (Index.ofWorkflow workflow).isExpression id = true := by
  unfold Block.sinks at needed
  split at needed
  · obtain ⟨source, _, read⟩ := List.mem_flatMap.mp needed
    exact Dependencies.isExpression_of_mem_ofSource (Dependencies.tableSound_ofIndex _) read
  · cases needed

theorem inlined_fit {block : Block} {needed ids : List String}
    (found : (Analysis.ofWorkflow workflow).inlineNeeded block needed = .ok ids)
    (expressions : ∀ id ∈ needed, (Index.ofWorkflow workflow).isExpression id = true) :
    ∀ placing ∈ placingsOfAll (ids.map .inlined), placing.Fits (.ofWorkflow workflow) := by
  rw [placingsOfAll_inlined]
  intro placing member
  obtain ⟨id, inIds, rfl⟩ := List.mem_map.mp member
  exact expressions id ((Analysis.mem_inlineNeeded found).mp inIds).2.1

theorem BodyPlaced.names_eq {analysis : Analysis}
    {rounds : Block → List Cluster → List Placement → Prop} {block : Block} {owner : String}
    {names : List String} {bodies : List (String × List Placement)}
    (inside : List.Forall₂ (BodyPlaced scheduler analysis rounds block owner) names bodies) :
    bodies.map (·.1) = names := by
  induction inside with
  | nil => rfl
  | cons body _ ih => rw [List.map_cons, body.named, ih]

theorem run_fits {owner : String} {type : NodeType}
    (typed : (Index.ofWorkflow workflow).nodeType? owner = some type) :
    (Placing.run owner type.scopes).Fits (.ofWorkflow workflow) := by
  cases scopes : type.scopes with
  | nil => exact ⟨type, typed, scopes⟩
  | cons name names => exact ⟨type, typed, scopes, by simp⟩

theorem fits_cases : Induction scheduler (.ofWorkflow workflow)
    (fun _ _ placements => ∀ placing ∈ placingsOfAll placements,
      placing.Fits (.ofWorkflow workflow))
    (fun _ _ placement => ∀ placing ∈ placement.placings, placing.Fits (.ofWorkflow workflow)) where
  done _ ordered := inlined_fit ordered fun _ => isExpression_of_mem_sinks
  round _ _ _ ordered placed rest := by
    rw [placingsOfAll_round, ← placingsOfAll_inlined]
    refine List.forall_mem_append.mpr ⟨inlined_fit ordered fun id needed => ?_,
      List.forall_mem_append.mpr ⟨?_, rest⟩⟩
    · obtain ⟨cluster, _, needed⟩ := List.mem_flatMap.mp needed
      exact isExpression_of_mem_neededBy needed
    · rw [placingsOfAll_eq]
      exact forall_mem_flatMap_of_forall₂ placed fun _ _ known => known.2
  node _ _ typed inside _ := by
    rw [placings, BodyPlaced.names_eq inside, placingsOfBodies_eq]
    exact List.forall_mem_cons.mpr
      ⟨run_fits typed, forall_mem_flatMap_of_forall₂ inside fun _ _ body => body.holds⟩
  branch _ _ typed inside _ onSuccess onFailure := by
    rw [placings, BodyPlaced.names_eq inside, placingsOfBodies_eq]
    exact List.forall_mem_cons.mpr ⟨run_fits typed, List.forall_mem_append.mpr
      ⟨forall_mem_flatMap_of_forall₂ inside fun _ _ body => body.holds,
        List.forall_mem_append.mpr ⟨onSuccess.holds, onFailure.holds⟩⟩⟩

theorem Arranged.fits {block : Block} {placements : List Placement}
    (arranged : Arranged scheduler (.ofWorkflow workflow) block placements)
    (formed : Formed (.ofWorkflow workflow) block.members) :
    ∀ placing ∈ placingsOfAll placements, placing.Fits (.ofWorkflow workflow) :=
  arranged.induction fits_cases formed

/-! ### Plans -/

/-- **A plan comes from an arrangement of the top level.** -/
theorem exists_arranged {plan : Plan}
    (scheduled : (scheduler.schedule workflow).outcome = .ok plan) :
    ∃ placements, Arranged scheduler (.ofWorkflow workflow)
        (.ofRegion (.ofWorkflow workflow) none [] []) placements ∧
      plan = Binding.plan (.ofWorkflow workflow) placements := by
  unfold schedule at scheduled
  dsimp only at scheduled
  split at scheduled
  · cases scheduled
  · obtain ⟨placements, found, scheduled⟩ := Attempt.outcome_bind_eq_ok.mp scheduled
    cases scheduled
    exact ⟨placements, arranged_of_arrange found, rfl⟩

end Scheduler

theorem Binding.placings_plan (index : Index) (placements : List Placement) :
    (Binding.plan index placements).body.walk.filterMap PlanNode.placing? =
      Placement.placingsOfAll placements :=
  (PlanNode.placings_ofBlock _).trans (placings_placeAll index [] placements)

/-- Whether scheduled instances of a region are placed: the region is the top level, or a scope of a
scheduled instance of such a region. -/
inductive Workflow.Live (workflow : Workflow) : Region → Prop
  | top : Live workflow none
  | scope {owner name : String} {inst : Instance} {type : NodeType} :
      workflow.findInstance owner = some inst → Live workflow inst.parentScope →
      workflow.findNodeType inst.nodeType = some type → type.isExpression = false →
      type.declaresScope name = true → Live workflow (some ⟨owner, name⟩)

namespace Index

variable {workflow : Workflow}

theorem live_of_under {top id : String} {inst : Instance}
    (under : (ofWorkflow workflow).Under top id) (declared : workflow.findInstance top = some inst)
    (live : workflow.Live inst.parentScope)
    (ordinary : (ofWorkflow workflow).isExpression top = false) :
    ∃ lower, workflow.findInstance id = some lower ∧ workflow.Live lower.parentScope ∧
      (ofWorkflow workflow).isExpression id = false := by
  induction under generalizing inst with
  | self id => exact ⟨inst, declared, live, ordinary⟩
  | @inside owner name child id type known declares member _ ih =>
      obtain ⟨⟨below, found, lives⟩, childOrdinary⟩ := mem_scheduledIn.mp member
      refine ih (find?_ofWorkflow child ▸ found) (lives ▸ ?_) childOrdinary
      have typed := known
      rw [nodeType?_ofWorkflow, declared, Option.bind_some] at typed
      refine .scope declared live typed ?_ (NodeType.mem_scopes.mp declares)
      simpa [isExpression, known] using ordinary

theorem exists_under_of_live {id : String} {inst : Instance} {region : Region}
    (live : workflow.Live region) (declared : workflow.findInstance id = some inst)
    (lives : inst.parentScope = region) (ordinary : (ofWorkflow workflow).isExpression id = false) :
    ∃ top ∈ (ofWorkflow workflow).scheduledIn none, (ofWorkflow workflow).Under top id := by
  induction live generalizing id inst with
  | top =>
      exact ⟨id, mem_scheduledIn.mpr ⟨⟨inst, find?_ofWorkflow id ▸ declared, lives⟩, ordinary⟩,
        .self id⟩
  | @scope owner name holder type found _ typed plain declares ih =>
      have known : (ofWorkflow workflow).nodeType? owner = some type := by
        rw [nodeType?_ofWorkflow, found, Option.bind_some, typed]
      obtain ⟨top, member, under⟩ := ih found rfl (by simp [isExpression, known, plain])
      refine ⟨top, member,
        under.trans (.inside known (NodeType.mem_scopes.mpr declares) ?_ (.self id))⟩
      exact mem_scheduledIn.mpr ⟨⟨inst, find?_ofWorkflow id ▸ declared, lives⟩, ordinary⟩

end Index

/-- The ids of the scheduled runs of a plan. -/
def Plan.scheduled (plan : Plan) : List String :=
  (plan.body.walk.filter PlanNode.isScheduled).filterMap fun node => node.ran?.map (·.node)

theorem Plan.scheduled_eq (plan : Plan) :
    plan.scheduled = Placing.scheduled (plan.body.walk.filterMap PlanNode.placing?) := by
  rw [scheduled, Placing.scheduled, List.filterMap_filter, List.filterMap_filterMap]
  refine List.filterMap_congr fun node _ => ?_
  cases node <;> rfl

/-- Whether a node of a plan is as the node type of its instance says: an iteration has the insides
of all scopes of the type, a step has none, and an inlined node is an expression. -/
def PlanNode.Fits (index : Index) : PlanNode → Prop
  | step s => ∃ type, index.nodeType? s.node = some type ∧ type.scopes = []
  | iteration s bodies => ∃ type, index.nodeType? s.node = some type ∧
      type.scopes = bodies.map (·.1.name) ∧ bodies.map (·.1.name) ≠ []
  | inlined s => index.isExpression s.node = true
  | _ => True

theorem PlanNode.fits_of_placing {index : Index} {node : PlanNode}
    (fits : ∀ placing, node.placing? = some placing → placing.Fits index) : node.Fits index := by
  cases node with
  | step | iteration | inlined => exact fits _ rfl
  | sequence | parallel | branch => trivial

/-- **A plan runs the scheduled instances of the live regions, each once**, as iterations where
their node types declare scopes; all else that it computes are expressions. -/
theorem scheduled_exactly_once {scheduler : Scheduler} {workflow : Workflow} {plan : Plan}
    (scheduled : (scheduler.schedule workflow).outcome = .ok plan) :
    plan.scheduled.Nodup ∧
      (∀ id, id ∈ plan.scheduled ↔ ∃ inst, workflow.findInstance id = some inst ∧
        workflow.Live inst.parentScope ∧ (Index.ofWorkflow workflow).isExpression id = false) ∧
      ∀ node ∈ plan.body.walk, node.Fits (.ofWorkflow workflow) := by
  obtain ⟨placements, arranged, rfl⟩ := Scheduler.exists_arranged scheduled
  have all := arranged.enumerates .top
  rw [Plan.scheduled_eq, Binding.placings_plan]
  refine ⟨all.distinct, fun id => ?_, fun node member =>
    PlanNode.fits_of_placing fun placing found => ?_⟩
  · rw [all.mem_iff]
    constructor
    · rintro ⟨top, member, under⟩
      obtain ⟨⟨inst, found, lives⟩, ordinary⟩ := Index.mem_scheduledIn.mp member
      exact Index.live_of_under under (Index.find?_ofWorkflow top ▸ found) (lives ▸ .top) ordinary
    · rintro ⟨inst, declared, live, ordinary⟩
      exact Index.exists_under_of_live live declared rfl ordinary
  · refine arranged.fits .top placing ?_
    rw [← Binding.placings_plan (.ofWorkflow workflow)]
    exact List.mem_filterMap.mpr ⟨node, member, found⟩

theorem exists_of_toOption_map {ε α β : Type} {outcome : Except ε α} {view : α → β} {seen : β}
    (found : outcome.toOption.map view = some seen) :
    ∃ value, outcome = .ok value ∧ view value = seen := by
  cases outcome with
  | error => cases found
  | ok value =>
      cases found
      exact ⟨value, rfl, rfl⟩

/-- A loop in an arm of a branch. A second instance has the id of the one in the loop, and an
expression owns a scope in which nothing is placed. -/
def loopInArm : Workflow where
  name := "loop in arm"
  nodeTypes :=
    [.function "Task",
      (NodeType.function "Loop").withPort
        { Port.dataOutput "item" .string with scope := some "body" },
      (NodeType.expression "Idle").withPort
        { Port.dataOutput "item" .string with scope := some "body" }]
  instances :=
    [{ id := "h", nodeType := "Task" }, { id := "x", nodeType := "Task" },
      { id := "m", nodeType := "Loop" },
      { id := "f", nodeType := "Task", parentScope := some ⟨"m", "body"⟩ },
      { id := "f", nodeType := "Task" }, { id := "e", nodeType := "Idle" },
      { id := "g", nodeType := "Task", parentScope := some ⟨"e", "body"⟩ }]
  connections :=
    [⟨⟨"h", "onSuccess", none⟩, ⟨"x", "execute", none⟩⟩,
      ⟨⟨"h", "onFailure", none⟩, ⟨"m", "execute", none⟩⟩]

theorem scheduled_exactly_once_loopInArm :
    ∃ plan, (({} : Scheduler).schedule loopInArm).outcome = .ok plan ∧
      plan.scheduled = ["h", "x", "m", "f"] ∧ plan.scheduled.Nodup ∧
      (∀ id, id ∈ plan.scheduled ↔ ∃ inst, loopInArm.findInstance id = some inst ∧
        loopInArm.Live inst.parentScope ∧ (Index.ofWorkflow loopInArm).isExpression id = false) ∧
      ∀ node ∈ plan.body.walk, node.Fits (.ofWorkflow loopInArm) := by
  obtain ⟨plan, scheduled, ids⟩ := exists_of_toOption_map
    (show (({} : Scheduler).schedule loopInArm).outcome.toOption.map Plan.scheduled =
      some ["h", "x", "m", "f"] by decide +kernel)
  exact ⟨plan, scheduled, ids, scheduled_exactly_once scheduled⟩

end WorkflowGraph
