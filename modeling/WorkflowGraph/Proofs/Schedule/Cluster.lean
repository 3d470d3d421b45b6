/-
The clusters of a block.

* `Arms.ofHead_spec` — the arms of a branching head: what only its success or only its failure leads
  to, closed against triggers from outside. `stays_of_mem_close` says that nothing more would leave.
* `Cluster.ofBlock_perm` — the heads and the members of arms of all clusters of a block are the
  members of the block, each once.
* `Cluster.exists_of_mem_ofBlock` — what every cluster of a block is made of.
-/

import Mathlib.Data.List.Nodup
import Mathlib.Data.List.Pairwise
import Mathlib.Data.List.Perm.Basic
import Mathlib.Data.List.Perm.Lattice
import Mathlib.Data.List.Dedup
import WorkflowGraph.Schedule.Cluster
import WorkflowGraph.Proofs.Graph.Search
import WorkflowGraph.Proofs.Table

namespace WorkflowGraph

/-! ### Wiring -/

namespace Wiring

variable {analysis : Analysis} {block : List String}

/-- What a member of a block triggers there. -/
theorem mem_targetsOf {id : String} {target : String × String} :
    target ∈ (ofBlock analysis block).targetsOf id ↔
      id ∈ block ∧ target ∈ stepTargets analysis.index block id := by
  rw [targetsOf, ofBlock, Table.lookup_map_pair]
  by_cases member : id ∈ block <;> simp [member]

/-- Who follows an instance directly. -/
theorem mem_followers {id follower : String} :
    follower ∈ (ofBlock analysis block).followers id ↔
      follower ∈ block ∧ (id ∈ analysis.triggersOf follower ∨ id ∈ analysis.dataOf follower) := by
  rw [followers, ofBlock, List.mem_map]
  constructor
  · rintro ⟨entry, kept, rfl⟩
    obtain ⟨inLeaders, follows⟩ := List.mem_filter.mp kept
    obtain ⟨name, member, rfl⟩ := List.mem_map.mp inLeaders
    exact ⟨member, by simpa using follows⟩
  · rintro ⟨member, follows⟩
    exact ⟨(follower, analysis.triggersOf follower ++ analysis.dataOf follower),
      List.mem_filter.mpr ⟨List.mem_map.mpr ⟨follower, member, rfl⟩, by simpa using follows⟩, rfl⟩

theorem mem_dependents_self (head : String) : head ∈ (ofBlock analysis block).dependents head :=
  Graph.mem_reached_of_mem_starts (List.mem_singleton_self head)

/-- What follows a member that cannot run before the head cannot run before it either. -/
theorem mem_dependents_of_follows {head id follower : String}
    (after : id ∈ (ofBlock analysis block).dependents head) (member : follower ∈ block)
    (follows : id ∈ analysis.triggersOf follower ∨ id ∈ analysis.dataOf follower) :
    follower ∈ (ofBlock analysis block).dependents head :=
  Graph.mem_reached_of_mem (fun _ _ found => (mem_followers.mp found).1)
    (Nat.le_refl block.length) after (mem_followers.mpr ⟨member, follows⟩)

end Wiring

/-! ### Arms -/

namespace Arms

variable {predecessors : String → List String} {head : String} {afterHead : List String}

theorem closeWithin_sublist (rounds : Nat) (arm : List String) :
    (closeWithin predecessors head afterHead rounds arm).Sublist arm := by
  induction rounds generalizing arm with
  | zero => exact List.Sublist.refl _
  | succ rounds ih =>
      rw [closeWithin]
      split
      · exact List.Sublist.refl _
      · exact (ih _).trans List.filter_sublist

theorem close_sublist (arm : List String) :
    (close predecessors head afterHead arm).Sublist arm :=
  closeWithin_sublist _ _

theorem stays_of_mem_closeWithin {rounds : Nat} {arm : List String} (enough : arm.length ≤ rounds) :
    ∀ id ∈ closeWithin predecessors head afterHead rounds arm,
      stays predecessors head afterHead
        (closeWithin predecessors head afterHead rounds arm) id := by
  induction rounds generalizing arm with
  | zero =>
      obtain rfl := List.eq_nil_of_length_eq_zero (Nat.le_zero.mp enough)
      intro id member
      cases member
  | succ rounds ih =>
      rw [closeWithin]
      split
      · rename_i unchanged
        exact List.length_filter_eq_length_iff.mp unchanged
      · rename_i changed
        have shorter := List.length_filter_le (stays predecessors head afterHead arm) arm
        exact ih (by omega)

/-- **Every member of a closed arm stays in it.** -/
theorem stays_of_mem_close {arm : List String} {id : String}
    (member : id ∈ close predecessors head afterHead arm) :
    stays predecessors head afterHead (close predecessors head afterHead arm) id :=
  stays_of_mem_closeWithin (Nat.le_refl _) id member

/-- What triggers a member of a closed arm is in the arm too, if it cannot run before the head. -/
theorem mem_close_of_triggers {arm : List String} {id trigger : String}
    (member : id ∈ close predecessors head afterHead arm) (triggers : trigger ∈ predecessors id)
    (different : trigger ≠ head) (after : trigger ∈ afterHead) :
    trigger ∈ close predecessors head afterHead arm := by
  have stays := List.all_eq_true.mp (stays_of_mem_close member) trigger triggers
  simpa [different, after] using stays

variable {analysis : Analysis} {wiring : Wiring} {arms : Arms}

/-- An arm before it is closed: the members that one of two outputs leads to and the other does
not. -/
def candidates (wiring : Wiring) (head mine other : String) : List String :=
  wiring.members.filter fun id =>
    id ∈ wiring.ledTo head mine && id ∉ wiring.ledTo head other && id ≠ head

theorem mem_candidates {mine other id : String} :
    id ∈ candidates wiring head mine other ↔
      id ∈ wiring.members ∧ id ∈ wiring.ledTo head mine ∧ id ∉ wiring.ledTo head other ∧
        id ≠ head := by
  simp [candidates, and_assoc]

/-- **The arms of a head.** -/
theorem ofHead_spec (found : ofHead analysis wiring head = some arms) :
    arms.thenMembers = close analysis.triggersOf head (wiring.dependents head)
        (candidates wiring head Port.successName Port.failureName) ∧
      arms.elseMembers = close analysis.triggersOf head (wiring.dependents head)
        (candidates wiring head Port.failureName Port.successName) := by
  unfold ofHead at found
  split at found
  · dsimp only at found
    split at found
    · cases found
    · cases found
      exact ⟨rfl, rfl⟩
  · cases found

theorem then_sublist (found : ofHead analysis wiring head = some arms) :
    arms.thenMembers.Sublist wiring.members := by
  rw [(ofHead_spec found).1]
  exact (close_sublist _).trans List.filter_sublist

theorem else_sublist (found : ofHead analysis wiring head = some arms) :
    arms.elseMembers.Sublist wiring.members := by
  rw [(ofHead_spec found).2]
  exact (close_sublist _).trans List.filter_sublist

theorem mem_then (found : ofHead analysis wiring head = some arms) {id : String}
    (member : id ∈ arms.thenMembers) :
    id ∈ candidates wiring head Port.successName Port.failureName := by
  rw [(ofHead_spec found).1] at member
  exact (close_sublist _).subset member

theorem mem_else (found : ofHead analysis wiring head = some arms) {id : String}
    (member : id ∈ arms.elseMembers) :
    id ∈ candidates wiring head Port.failureName Port.successName := by
  rw [(ofHead_spec found).2] at member
  exact (close_sublist _).subset member

/-- The arms of a head share nothing. -/
theorem disjoint (found : ofHead analysis wiring head = some arms) {id : String}
    (inThen : id ∈ arms.thenMembers) : id ∉ arms.elseMembers := fun inElse =>
  (mem_candidates.mp (mem_then found inThen)).2.2.1 (mem_candidates.mp (mem_else found inElse)).2.1

theorem members_nodup (found : ofHead analysis wiring head = some arms)
    (distinct : wiring.members.Nodup) : arms.members.Nodup := by
  rw [members, List.nodup_append]
  refine ⟨(then_sublist found).nodup distinct, (else_sublist found).nodup distinct, ?_⟩
  intro first inThen second inElse
  rintro rfl
  exact disjoint found inThen inElse

theorem mem_members_iff {id : String} :
    id ∈ arms.members ↔ id ∈ arms.thenMembers ∨ id ∈ arms.elseMembers :=
  List.mem_append

/-- A member of an arm is another member of the block, and an output of the head leads to it. -/
theorem ledTo_of_mem (found : ofHead analysis wiring head = some arms) {id : String}
    (member : id ∈ arms.members) :
    id ∈ wiring.members ∧ id ≠ head ∧ ∃ port, id ∈ wiring.ledTo head port := by
  rcases mem_members_iff.mp member with inThen | inElse
  · obtain ⟨inBlock, led, _, different⟩ := mem_candidates.mp (mem_then found inThen)
    exact ⟨inBlock, different, _, led⟩
  · obtain ⟨inBlock, led, _, different⟩ := mem_candidates.mp (mem_else found inElse)
    exact ⟨inBlock, different, _, led⟩

end Arms

/-! ### Branches -/

namespace Cluster

variable {analysis : Analysis} {block : List String}

theorem withoutOverlap_sublist (nested taken : List String) (candidates : List (String × Arms)) :
    (withoutOverlap nested taken candidates).Sublist candidates := by
  induction candidates generalizing taken with
  | nil => exact List.Sublist.refl _
  | cons entry rest ih =>
      rw [withoutOverlap]
      split
      · exact (ih _).cons _
      · exact (ih _).cons_cons _

theorem head_notMem_nested {nested taken : List String} {candidates : List (String × Arms)}
    {entry : String × Arms} (member : entry ∈ withoutOverlap nested taken candidates) :
    entry.1 ∉ nested := by
  induction candidates generalizing taken with
  | nil => cases member
  | cons first rest ih =>
      rw [withoutOverlap] at member
      split at member
      · exact ih member
      · rename_i kept
        rcases List.mem_cons.mp member with rfl | later
        · exact fun inNested => kept (by simp [inNested])
        · exact ih later

/-- The arms of branches that are kept share nothing with each other or with what was taken
before. -/
theorem withoutOverlap_members_nodup {nested taken : List String}
    {candidates : List (String × Arms)} (each : ∀ entry ∈ candidates, entry.2.members.Nodup) :
    ((withoutOverlap nested taken candidates).flatMap fun entry => entry.2.members).Nodup ∧
      ∀ entry ∈ withoutOverlap nested taken candidates, ∀ id ∈ entry.2.members, id ∉ taken := by
  induction candidates generalizing taken with
  | nil => simp [withoutOverlap]
  | cons first rest ih =>
      have later := fun entry member => each entry (List.mem_cons_of_mem _ member)
      rw [withoutOverlap]
      split
      · exact ih later
      · rename_i kept
        have fresh : ∀ id ∈ first.2.members, id ∉ taken := by
          intro id member inTaken
          refine kept ?_
          rw [Bool.or_eq_true, List.any_eq_true]
          exact .inr ⟨id, member, by simpa using inTaken⟩
        obtain ⟨distinct, apart⟩ := @ih (taken ++ first.2.members) later
        refine ⟨?_, fun entry member id inArms => ?_⟩
        · rw [List.flatMap_cons, List.nodup_append]
          refine ⟨each first List.mem_cons_self, distinct, fun id inFirst other inRest => ?_⟩
          rintro rfl
          obtain ⟨entry, member, inArms⟩ := List.mem_flatMap.mp inRest
          exact apart entry member id inArms (List.mem_append_right _ inFirst)
        · rcases List.mem_cons.mp member with rfl | inRest
          · exact fresh id inArms
          · exact fun inTaken => apart entry inRest id inArms (List.mem_append_left _ inTaken)

/-- The branches of a block before those that overlap are left out. -/
def branchCandidates (analysis : Analysis) (block : List String) : List (String × Arms) :=
  block.filterMap fun id =>
    (Arms.ofHead analysis (Wiring.ofBlock analysis block) id).map fun arms => (id, arms)

theorem mem_branchCandidates {entry : String × Arms} :
    entry ∈ branchCandidates analysis block ↔
      entry.1 ∈ block ∧
        Arms.ofHead analysis (Wiring.ofBlock analysis block) entry.1 = some entry.2 := by
  obtain ⟨head, arms⟩ := entry
  rw [branchCandidates, List.mem_filterMap]
  constructor
  · rintro ⟨id, member, found⟩
    obtain ⟨_, branching, same⟩ := Option.map_eq_some_iff.mp found
    cases same
    exact ⟨member, branching⟩
  · rintro ⟨member, branching⟩
    exact ⟨head, member, by simp [branching]⟩

theorem branches_sublist (analysis : Analysis) (block : List String) :
    (branches analysis block).Sublist (branchCandidates analysis block) :=
  withoutOverlap_sublist _ _ _

theorem ofHead_of_mem_branches {entry : String × Arms} (member : entry ∈ branches analysis block) :
    entry.1 ∈ block ∧ Arms.ofHead analysis (Wiring.ofBlock analysis block) entry.1 = some entry.2 :=
  mem_branchCandidates.mp ((branches_sublist _ _).subset member)

/-- The heads of the branches stand in the order of the block. -/
theorem branches_heads_sublist (analysis : Analysis) (block : List String) :
    ((branches analysis block).map (·.1)).Sublist block := by
  refine ((branches_sublist analysis block).map _).trans ?_
  rw [branchCandidates, List.map_filterMap]
  have same : (fun id : String => ((Arms.ofHead analysis (Wiring.ofBlock analysis block) id).map
      fun arms => (id, arms)).map (·.1)) =
      Option.guard fun id => (Arms.ofHead analysis (Wiring.ofBlock analysis block) id).isSome := by
    funext id
    cases found : Arms.ofHead analysis (Wiring.ofBlock analysis block) id <;>
      simp [Option.guard, found]
  rw [same, List.filterMap_eq_filter]
  exact List.filter_sublist

/-- The members of the arms of all branches. -/
def taken (analysis : Analysis) (block : List String) : List String :=
  (branches analysis block).flatMap fun entry => entry.2.members

theorem taken_nodup (distinct : block.Nodup) : (taken analysis block).Nodup :=
  (withoutOverlap_members_nodup fun _ member =>
    Arms.members_nodup (mem_branchCandidates.mp member).2 distinct).1

theorem taken_subset : taken analysis block ⊆ block := by
  intro id member
  obtain ⟨entry, inBranches, inArms⟩ := List.mem_flatMap.mp member
  exact (Arms.ledTo_of_mem (ofHead_of_mem_branches inBranches).2 inArms).1

/-- No branching head lies in an arm. -/
theorem head_notMem_taken {entry : String × Arms} (member : entry ∈ branches analysis block) :
    entry.1 ∉ taken analysis block := by
  intro inTaken
  obtain ⟨other, inBranches, inArms⟩ := List.mem_flatMap.mp inTaken
  exact head_notMem_nested member
    (List.mem_flatMap.mpr ⟨other, (branches_sublist _ _).subset inBranches, inArms⟩)

/-! ### Clusters -/

/-- The head and the members of the arms of a cluster. -/
def members (cluster : Cluster) : List String :=
  cluster.head :: cluster.armMembers

@[simp] theorem make_head (head : String) (arms : Option Arms) :
    (make analysis head arms).head = head := rfl

@[simp] theorem make_arms (head : String) (arms : Option Arms) :
    (make analysis head arms).arms = arms := rfl

/-- The clusters of a block: one for each member in no arm, with the arms of its branch or with
none. -/
theorem ofBlock_eq (analysis : Analysis) (block : List String) :
    ofBlock analysis block = (block.filter fun id => id ∉ taken analysis block).map fun id =>
      make analysis id ((branches analysis block).lookup id) := by
  rw [← List.filterMap_eq_map, List.filterMap_filter, ofBlock]
  refine List.filterMap_congr fun id _ => ?_
  split
  · rename_i found
    have free := head_notMem_taken (Table.mem_of_lookup found)
    simp [free, found]
  · rename_i found
    show (if id ∈ taken analysis block then none else some (make analysis id none)) = _
    by_cases inTaken : id ∈ taken analysis block <;> simp [inTaken, found]

/-- **What a cluster of a block is made of**: a member of the block, and its arms if it branches. -/
theorem exists_of_mem_ofBlock {cluster : Cluster} (member : cluster ∈ ofBlock analysis block) :
    cluster = make analysis cluster.head cluster.arms ∧ cluster.head ∈ block ∧
      ∀ arms, cluster.arms = some arms →
        Arms.ofHead analysis (Wiring.ofBlock analysis block) cluster.head = some arms := by
  rw [ofBlock_eq] at member
  obtain ⟨id, inBlock, rfl⟩ := List.mem_map.mp member
  refine ⟨rfl, (List.mem_filter.mp inBlock).1, fun arms found => ?_⟩
  exact (ofHead_of_mem_branches (Table.mem_of_lookup found)).2

/-- No two clusters of a block are the same. -/
theorem ofBlock_nodup (analysis : Analysis) (distinct : block.Nodup) :
    (ofBlock analysis block).Nodup := by
  refine List.Nodup.of_map head ?_
  rw [ofBlock_eq, List.map_map]
  simpa [Function.comp_def] using distinct.filter _

/-- The inside of a cluster: its members, and what is nested in their scopes. -/
theorem mem_inside_iff {cluster : Cluster} (member : cluster ∈ ofBlock analysis block)
    {id : String} :
    id ∈ cluster.inside ↔ ∃ holder ∈ cluster.members, id = holder ∨
      id ∈ analysis.descendants holder := by
  rw [(exists_of_mem_ofBlock member).1]
  show id ∈ (cluster.members ++ cluster.members.flatMap analysis.descendants) ↔ _
  rw [List.mem_append, List.mem_flatMap]
  constructor
  · rintro (here | ⟨holder, inMembers, nested⟩)
    · exact ⟨id, here, .inl rfl⟩
    · exact ⟨holder, inMembers, .inr nested⟩
  · rintro ⟨holder, inMembers, rfl | nested⟩
    · exact .inl inMembers
    · exact .inr ⟨holder, inMembers, nested⟩

theorem head_mem_inside {cluster : Cluster} (member : cluster ∈ ofBlock analysis block) :
    cluster.head ∈ cluster.inside :=
  (mem_inside_iff member).mpr ⟨cluster.head, List.mem_cons_self, .inl rfl⟩

/-- What a cluster waits for: what its inside reads and what triggers its arms, from outside. -/
theorem mem_prerequisites_iff {cluster : Cluster} (member : cluster ∈ ofBlock analysis block)
    {id : String} :
    id ∈ cluster.prerequisites ↔
      ((∃ reader ∈ cluster.inside, id ∈ analysis.dataOf reader) ∨
        ∃ follower ∈ cluster.armMembers, id ∈ analysis.triggersOf follower) ∧
        id ∉ cluster.inside := by
  rw [(exists_of_mem_ofBlock member).1]
  show id ∈ (((cluster.members ++ cluster.members.flatMap analysis.descendants).flatMap
      analysis.dataOf ++ cluster.armMembers.flatMap analysis.triggersOf).eraseDups.filter fun id =>
        id ∉ cluster.members ++ cluster.members.flatMap analysis.descendants) ↔
    ((∃ reader ∈ cluster.members ++ cluster.members.flatMap analysis.descendants,
        id ∈ analysis.dataOf reader) ∨
      ∃ follower ∈ cluster.armMembers, id ∈ analysis.triggersOf follower) ∧
      id ∉ cluster.members ++ cluster.members.flatMap analysis.descendants
  rw [List.mem_filter, List.mem_eraseDups, List.mem_append, List.mem_flatMap, List.mem_flatMap,
    decide_eq_true_eq]

theorem armMembers_eq {cluster : Cluster} {arms : Arms} (branching : cluster.arms = some arms) :
    cluster.armMembers = arms.members := by
  rw [armMembers, branching, Option.map_some, Option.getD_some]

theorem members_of_arms {cluster : Cluster} {arms : Arms} (branching : cluster.arms = some arms) :
    cluster.members = [cluster.head] ++ (arms.thenMembers ++ arms.elseMembers) := by
  rw [members, armMembers_eq branching, Arms.members, List.singleton_append]

/-! ### Every member is in one cluster -/

theorem flatMap_lookup {entries : List (String × Arms)} {ids : List String}
    (heads : (entries.map (·.1)).Sublist ids) (distinct : ids.Nodup) :
    (ids.flatMap fun id => ((entries.lookup id).map Arms.members).getD []) =
      entries.flatMap fun entry => entry.2.members := by
  induction ids generalizing entries with
  | nil =>
      obtain rfl := List.map_eq_nil_iff.mp (List.sublist_nil.mp heads)
      rfl
  | cons id rest ih =>
      obtain ⟨fresh, distinct⟩ := List.nodup_cons.mp distinct
      rw [List.flatMap_cons]
      cases entries with
      | nil => simp
      | cons entry others =>
          obtain ⟨head, arms⟩ := entry
          by_cases same : id = head
          · subst same
            have later : (others.map (·.1)).Sublist rest := List.cons_sublist_cons.mp heads
            have elsewhere : ∀ other ∈ rest,
                ((((id, arms) :: others).lookup other).map Arms.members).getD [] =
                  ((others.lookup other).map Arms.members).getD [] := by
              intro other member
              have different : other ≠ id := fun same => fresh (same ▸ member)
              rw [List.lookup_cons, beq_false_of_ne different]
            rw [List.flatMap_congr elsewhere, ih later distinct]
            simp
          · have later : (((head, arms) :: others).map (·.1)).Sublist rest :=
              (List.sublist_cons_iff.mp heads).resolve_right
                fun ⟨_, first, _⟩ => same (List.cons.inj first).1.symm
            have absent : ((head, arms) :: others).lookup id = none := by
              rw [List.lookup_eq_none_iff]
              intro entry member
              refine bne_iff_ne.mpr fun equal => fresh ?_
              exact later.subset (List.mem_map.mpr ⟨entry, member, equal.symm⟩)
            rw [absent, ih later distinct]
            rfl

theorem free_append_taken_perm (distinct : block.Nodup) :
    ((block.filter fun id => id ∉ taken analysis block) ++ taken analysis block).Perm block := by
  have inTaken : (taken analysis block).Perm (block.filter fun id =>
      id ∈ taken analysis block) := by
    rw [List.perm_ext_iff_of_nodup (taken_nodup distinct) (distinct.filter _)]
    intro id
    simp only [List.mem_filter, decide_eq_true_eq]
    exact ⟨fun member => ⟨taken_subset member, member⟩, fun both => both.2⟩
  refine (inTaken.append_left _).trans (List.perm_append_comm.trans ?_)
  have parts := List.filter_append_perm (fun id => decide (id ∈ taken analysis block)) block
  simpa using parts

/-- **The heads and arms of the clusters of a block are the members of the block, each once.** -/
theorem ofBlock_perm (distinct : block.Nodup) :
    ((ofBlock analysis block).flatMap members).Perm block := by
  have free : ((branches analysis block).map (·.1)).Sublist
      (block.filter fun id => id ∉ taken analysis block) := by
    have heads := (branches_heads_sublist analysis block).filter fun id => id ∉ taken analysis block
    rwa [List.filter_eq_self.mpr] at heads
    intro head member
    obtain ⟨entry, inBranches, rfl⟩ := List.mem_map.mp member
    simpa using head_notMem_taken inBranches
  rw [ofBlock_eq, List.flatMap_map]
  refine (List.map_append_flatMap_perm _ _ _).symm.trans ?_
  have arms : ((block.filter fun id => id ∉ taken analysis block).flatMap fun id =>
      (make analysis id ((branches analysis block).lookup id)).armMembers) = taken analysis block :=
    flatMap_lookup free (distinct.filter _)
  rw [arms]
  simpa only [make_head, List.map_id'] using free_append_taken_perm distinct

/-- **No two clusters of a block share a member.** -/
theorem eq_of_mem_members (distinct : block.Nodup) {first second : Cluster}
    (inFirst : first ∈ ofBlock analysis block) (inSecond : second ∈ ofBlock analysis block)
    {id : String} (ofFirst : id ∈ first.members) (ofSecond : id ∈ second.members) :
    first = second := by
  have apart := (@ofBlock_perm analysis block distinct).nodup_iff.mpr distinct
  have symmetric : Std.Symm (Function.onFun List.Disjoint members) := ⟨fun _ _ one => one.symm⟩
  by_contra different
  exact (List.nodup_flatMap.mp apart).2.forall inFirst inSecond different ofFirst ofSecond

theorem members_subset {cluster : Cluster} (distinct : block.Nodup)
    (member : cluster ∈ ofBlock analysis block) : cluster.members ⊆ block := fun _ inMembers =>
  (ofBlock_perm distinct).subset (List.mem_flatMap.mpr ⟨cluster, member, inMembers⟩)

theorem exists_cluster_of_mem (distinct : block.Nodup) {id : String} (member : id ∈ block) :
    ∃ cluster ∈ ofBlock analysis block, id ∈ cluster.members :=
  List.mem_flatMap.mp ((ofBlock_perm distinct).mem_iff.mpr member)

end Cluster

end WorkflowGraph
