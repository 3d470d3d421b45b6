/-
Ways of triggers through the blocks of a region.

* `Workflow.TriggersIn` — what a member of a block triggers there. `Wiring.mem_ledTo_iff` says what
  an output leads to within a block.
* `Arms.onOutcome` — the arm of an outcome of a member of a block. `Certified.mem_side_of_between`
  says that it holds all that leads from the head to a member of the arm.
* `Certified.convex` — the blocks that come up are convex: what lies on a way through the region
  between two members is a member.
-/

import Mathlib.Logic.Relation
import WorkflowGraph.Proofs.Schedule.Enclosed

namespace WorkflowGraph

/-! ### Outcomes -/

/-- The step output that fires on an outcome. -/
def Port.outcomeName : Bool → String
  | true => successName
  | false => failureName

/-- Whether a step output of an instance, outside of its scopes, is connected with another
instance. -/
def Workflow.Fires (workflow : Workflow) (source port target : String) : Prop :=
  ∃ connection ∈ workflow.connections, connection.source.node = source ∧
    connection.source.port = port ∧ connection.target.node = target ∧
    ∃ port ∈ (Index.ofWorkflow workflow).sourcePort connection, port.isStep = true ∧
    port.scope = none

instance (workflow : Workflow) (source port target : String) :
    Decidable (workflow.Fires source port target) :=
  inferInstanceAs (Decidable (∃ connection ∈ workflow.connections, connection.source.node = source ∧
    connection.source.port = port ∧ connection.target.node = target ∧
    ∃ port ∈ (Index.ofWorkflow workflow).sourcePort connection, port.isStep = true ∧
    port.scope = none))

variable {workflow : Workflow}

/-- Whether a member of a block triggers another one. -/
def Workflow.TriggersIn (workflow : Workflow) (members : List String) (source target : String) :
    Prop :=
  source ∈ members ∧ target ∈ members ∧ workflow.Triggers source target

theorem Workflow.triggers_iff {source target : String} :
    workflow.Triggers source target ↔ ∃ port, workflow.Fires source port target := by
  constructor
  · rintro ⟨connection, member, from_, into, step⟩
    exact ⟨_, connection, member, from_, rfl, into, step⟩
  · rintro ⟨_, connection, member, from_, _, into, step⟩
    exact ⟨connection, member, from_, into, step⟩

/-! ### Wiring -/

namespace Wiring

variable {members : List String}

theorem mem_targetsOf_iff {source port target : String} :
    (port, target) ∈ (ofBlock (.ofWorkflow workflow) members).targetsOf source ↔
      source ∈ members ∧ target ∈ members ∧ workflow.Fires source port target := by
  rw [mem_targetsOf, stepTargets, List.mem_map]
  refine and_congr_right fun _ => ?_
  constructor
  · rintro ⟨entry, kept, same⟩
    cases same
    obtain ⟨leaves, fits⟩ := List.mem_filter.mp kept
    rw [Bool.and_eq_true, Option.any_eq_true, List.contains_iff_mem] at fits
    obtain ⟨⟨port, atSource, step⟩, inBlock⟩ := fits
    rw [Bool.and_eq_true, Option.isNone_iff_eq_none] at step
    obtain ⟨inside, from_⟩ := Index.exists_mem_outgoing.mp ⟨entry, leaves, rfl⟩
    exact ⟨inBlock, entry.2, inside, from_, rfl, rfl, port, atSource, step⟩
  · rintro ⟨inBlock, connection, inside, from_, rfl, rfl, port, atSource, step, plain⟩
    obtain ⟨entry, leaves, rfl⟩ := Index.exists_mem_outgoing.mpr ⟨inside, from_⟩
    refine ⟨entry, List.mem_filter.mpr ⟨leaves, ?_⟩, rfl⟩
    rw [Bool.and_eq_true, Option.any_eq_true, List.contains_iff_mem]
    exact ⟨⟨port, atSource, by simp [step, plain]⟩, inBlock⟩

theorem mem_map_targetsOf_iff {source target : String} :
    target ∈ ((ofBlock (.ofWorkflow workflow) members).targetsOf source).map (·.2) ↔
      workflow.TriggersIn members source target := by
  rw [Workflow.TriggersIn, Workflow.triggers_iff, List.mem_map]
  constructor
  · rintro ⟨⟨port, _⟩, wired, rfl⟩
    obtain ⟨sourceIn, targetIn, fires⟩ := mem_targetsOf_iff.mp wired
    exact ⟨sourceIn, targetIn, port, fires⟩
  · rintro ⟨sourceIn, targetIn, port, fires⟩
    exact ⟨(port, target), mem_targetsOf_iff.mpr ⟨sourceIn, targetIn, fires⟩, rfl⟩

/-- **What an output leads to**: what it fires, and what that triggers in turn. -/
theorem mem_ledTo_iff {head port id : String} :
    id ∈ (ofBlock (.ofWorkflow workflow) members).ledTo head port ↔
      ∃ first, (head ∈ members ∧ first ∈ members ∧ workflow.Fires head port first) ∧
        Relation.ReflTransGen (workflow.TriggersIn members) first id := by
  have next : (fun source target =>
      target ∈ ((ofBlock (.ofWorkflow workflow) members).targetsOf source).map (·.2)) =
      workflow.TriggersIn members := by
    funext source target
    exact propext mem_map_targetsOf_iff
  have starts : ∀ first, first ∈ (((ofBlock (.ofWorkflow workflow) members).targetsOf head).filter
      fun target => target.1 = port).map (·.2) ↔
      head ∈ members ∧ first ∈ members ∧ workflow.Fires head port first := by
    intro first
    rw [List.mem_map]
    constructor
    · rintro ⟨⟨name, _⟩, kept, rfl⟩
      obtain ⟨wired, named⟩ := List.mem_filter.mp kept
      obtain rfl : name = port := by simpa using named
      exact mem_targetsOf_iff.mp wired
    · exact fun fires => ⟨(port, first), List.mem_filter.mpr ⟨mem_targetsOf_iff.mpr fires, by simp⟩,
        rfl⟩
  have followers : ∀ source, ((ofBlock (.ofWorkflow workflow) members).targetsOf source).map
      (·.2) ⊆ members :=
    fun _ _ found => (mem_map_targetsOf_iff.mp found).2.1
  refine (Graph.mem_reached_iff followers (Nat.le_refl members.length)).trans ?_
  rw [Graph.Reachable, next]
  simp only [starts]

/-- What an output leads to, by the last step of the way. -/
theorem mem_ledTo_iff_last {head port id : String} :
    id ∈ (ofBlock (.ofWorkflow workflow) members).ledTo head port ↔
      (head ∈ members ∧ id ∈ members ∧ workflow.Fires head port id) ∨
        ∃ source ∈ (ofBlock (.ofWorkflow workflow) members).ledTo head port,
          workflow.TriggersIn members source id := by
  constructor
  · intro led
    obtain ⟨first, fired, path⟩ := mem_ledTo_iff.mp led
    cases path with
    | refl => exact .inl fired
    | tail path last => exact .inr ⟨_, mem_ledTo_iff.mpr ⟨first, fired, path⟩, last⟩
  · rintro (fired | ⟨source, led, last⟩)
    · exact mem_ledTo_iff.mpr ⟨id, fired, .refl⟩
    · obtain ⟨first, fired, path⟩ := mem_ledTo_iff.mp led
      exact mem_ledTo_iff.mpr ⟨first, fired, path.tail last⟩

theorem exists_mem_ledTo_iff {head id : String} :
    (∃ port, id ∈ (ofBlock (.ofWorkflow workflow) members).ledTo head port) ↔
      Relation.TransGen (workflow.TriggersIn members) head id := by
  simp only [mem_ledTo_iff, Relation.TransGen.head'_iff]
  constructor
  · rintro ⟨port, first, ⟨headIn, firstIn, fires⟩, path⟩
    exact ⟨first, ⟨headIn, firstIn, Workflow.triggers_iff.mpr ⟨port, fires⟩⟩, path⟩
  · rintro ⟨first, ⟨headIn, firstIn, triggers⟩, path⟩
    obtain ⟨port, fires⟩ := Workflow.triggers_iff.mp triggers
    exact ⟨port, first, ⟨headIn, firstIn, fires⟩, path⟩

end Wiring

/-! ### Handlers in arms -/

namespace Arms

theorem mem_closeWithin {predecessors : String → List String} {head : String}
    {afterHead : List String} {rounds : Nat} {arm : List String} {id : String} (member : id ∈ arm)
    (triggered : ∀ trigger ∈ predecessors id, trigger = head ∨
      trigger ∈ closeWithin predecessors head afterHead rounds arm) :
    id ∈ closeWithin predecessors head afterHead rounds arm := by
  induction rounds generalizing arm with
  | zero => exact member
  | succ rounds ih =>
      rw [closeWithin] at triggered ⊢
      split
      · exact member
      · rename_i changed
        rw [if_neg changed] at triggered
        refine ih (List.mem_filter.mpr ⟨member, List.all_eq_true.mpr fun trigger triggers => ?_⟩)
          triggered
        rcases triggered trigger triggers with same | kept
        · simp [same]
        · have inArm := (List.mem_filter.mp ((closeWithin_sublist _ _).subset kept)).1
          simp [inArm]

/-- **An instance stays in an arm if all its triggers do**, or are the head. -/
theorem mem_close {predecessors : String → List String} {head : String}
    {afterHead arm : List String} {id : String} (member : id ∈ arm)
    (triggered : ∀ trigger ∈ predecessors id, trigger = head ∨
      trigger ∈ close predecessors head afterHead arm) :
    id ∈ close predecessors head afterHead arm :=
  mem_closeWithin member triggered

/-- The arm of an outcome of a member of a block, as it is where the member gets its branch. -/
def onOutcome (workflow : Workflow) (members : List String) (head : String) (onSuccess : Bool) :
    List String :=
  close (Analysis.ofWorkflow workflow).triggersOf head
    ((Wiring.ofBlock (.ofWorkflow workflow) members).dependents head)
    (candidates (.ofBlock (.ofWorkflow workflow) members) head (Port.outcomeName onSuccess)
      (Port.outcomeName !onSuccess))

variable {members : List String} {head id : String} {onSuccess : Bool} {arms : Arms}

theorem side_eq
    (found : ofHead (.ofWorkflow workflow) (.ofBlock (.ofWorkflow workflow) members) head =
      some arms) (onSuccess : Bool) :
    arms.side onSuccess = onOutcome workflow members head onSuccess := by
  cases onSuccess with
  | true => exact (ofHead_spec found).1
  | false => exact (ofHead_spec found).2

/-- What is in the arm of an outcome: members that the outcome leads to and the other one does
not. -/
theorem ledTo_of_mem_onOutcome (inArm : id ∈ onOutcome workflow members head onSuccess) :
    id ∈ members ∧
      id ∈ (Wiring.ofBlock (.ofWorkflow workflow) members).ledTo head (Port.outcomeName onSuccess) ∧
      id ∉ (Wiring.ofBlock (.ofWorkflow workflow) members).ledTo head
        (Port.outcomeName !onSuccess) ∧
      id ≠ head :=
  mem_candidates.mp ((close_sublist _).subset inArm)

theorem mem_onOutcome (inBlock : id ∈ members)
    (led : id ∈ (Wiring.ofBlock (.ofWorkflow workflow) members).ledTo head
      (Port.outcomeName onSuccess))
    (notLed : id ∉ (Wiring.ofBlock (.ofWorkflow workflow) members).ledTo head
      (Port.outcomeName !onSuccess)) (different : id ≠ head)
    (triggered : ∀ trigger ∈ (Analysis.ofWorkflow workflow).triggersOf id,
      trigger = head ∨ trigger ∈ onOutcome workflow members head onSuccess) :
    id ∈ onOutcome workflow members head onSuccess :=
  mem_close (mem_candidates.mpr ⟨inBlock, led, notLed, different⟩) triggered

end Arms

theorem Port.outcomeName_ne (onSuccess : Bool) :
    outcomeName (!onSuccess) ≠ outcomeName onSuccess := by
  cases onSuccess <;> decide

/-! ### Ways in a block -/

namespace Certified

variable {region : Region} {head id : String}

theorem triggersOf_of_triggersIn (certified : Certified workflow) {members : List String}
    (block : IsBlock workflow region members) {source target : String}
    (triggers : workflow.TriggersIn members source target) :
    source ∈ (Analysis.ofWorkflow workflow).triggersOf target := by
  obtain ⟨sourceIn, targetIn, triggers⟩ := triggers
  exact triggersOf_of_triggers triggers (certified.ordinary_of_named (block.named sourceIn))
    (block.named targetIn)

/-- What an instance leads to has a higher rank, and cannot run before it. -/
theorem after_of_triggersIn {rank : String → Nat} (certified : Certified workflow)
    (ranks : Ranks workflow rank) {members : List String} (block : IsBlock workflow region members)
    (path : Relation.TransGen (workflow.TriggersIn members) head id) :
    rank head < rank id ∧ id ∈ (Wiring.ofBlock (.ofWorkflow workflow) members).dependents head := by
  obtain ⟨port, led⟩ := Wiring.exists_mem_ledTo_iff.mpr path
  exact certified.ledTo_cases ranks block led

/-- An arm holds all that leads from its head to a member of the arm. -/
theorem mem_side_of_between (certified : Certified workflow) {members : List String}
    (block : IsBlock workflow region members) {arms : Arms}
    (found : Arms.ofHead (.ofWorkflow workflow) (.ofBlock (.ofWorkflow workflow) members) head =
      some arms)
    {onSuccess : Bool} {middle : String}
    (before : Relation.TransGen (workflow.TriggersIn members) head middle)
    (after : Relation.ReflTransGen (workflow.TriggersIn members) middle id)
    (inArm : id ∈ arms.side onSuccess) :
    middle ∈ arms.side onSuccess := by
  obtain ⟨rank, ranks⟩ := certified.ranked
  rw [Arms.side_eq found] at inArm ⊢
  induction after using Relation.ReflTransGen.head_induction_on with
  | refl => exact inArm
  | @head middle next first _ ih =>
      obtain ⟨less, dependent⟩ := certified.after_of_triggersIn ranks block before
      refine Arms.mem_close_of_triggers (ih (before.tail first))
        (certified.triggersOf_of_triggersIn block first) ?_ dependent
      rintro rfl
      exact Nat.lt_irrefl _ less

end Certified

/-! ### Blocks are convex -/

variable {region : Region}

/-- Whether all ways through a region between members of a block stay in the block. -/
def Convex (workflow : Workflow) (region : Region) (members : List String) : Prop :=
  ∀ first middle last, first ∈ members → last ∈ members →
    Relation.ReflTransGen (workflow.TriggersIn ((Index.ofWorkflow workflow).scheduledIn region))
      first middle →
    Relation.ReflTransGen (workflow.TriggersIn ((Index.ofWorkflow workflow).scheduledIn region))
      middle last →
    middle ∈ members

variable {members : List String}

/-- A way between two members of a convex block is one in the block. -/
theorem Convex.triggersIn (convex : Convex workflow region members) {first last : String}
    (firstIn : first ∈ members) (lastIn : last ∈ members)
    (path : Relation.ReflTransGen
      (workflow.TriggersIn ((Index.ofWorkflow workflow).scheduledIn region)) first last) :
    Relation.ReflTransGen (workflow.TriggersIn members) first last := by
  induction path using Relation.ReflTransGen.head_induction_on with
  | refl => exact .refl
  | @head first next step rest ih =>
      have nextIn := convex first next last firstIn lastIn (.single step) rest
      exact .head ⟨firstIn, nextIn, step.2.2⟩ (ih nextIn)

theorem Convex.transGen_triggersIn (convex : Convex workflow region members) {first last : String}
    (firstIn : first ∈ members) (lastIn : last ∈ members)
    (path : Relation.TransGen (workflow.TriggersIn ((Index.ofWorkflow workflow).scheduledIn region))
      first last) : Relation.TransGen (workflow.TriggersIn members) first last := by
  obtain ⟨next, step, rest⟩ := Relation.TransGen.head'_iff.mp path
  have nextIn := convex first next last firstIn lastIn (.single step) rest
  exact .head' ⟨firstIn, nextIn, step.2.2⟩ (convex.triggersIn nextIn lastIn rest)

theorem Convex.whole {around : Region}
    (block : IsBlock workflow region ((Index.ofWorkflow workflow).scheduledIn around)) :
    Convex workflow region ((Index.ofWorkflow workflow).scheduledIn around) := by
  intro first middle last firstIn _ before _
  have same : region = around := by
    rw [← block.regionOf firstIn, Index.regionOf_of_mem_scheduledIn firstIn]
  subst same
  cases before with
  | refl => exact firstIn
  | tail _ step => exact step.2.1

namespace Certified

/-- **The blocks that come up are convex.** An arm holds all that lies between its head and its
members, so it is convex if its block is. -/
theorem convex (certified : Certified workflow) (formed : Formed (.ofWorkflow workflow) members)
    (block : IsBlock workflow region members) : Convex workflow region members := by
  induction formed with
  | top => exact .whole block
  | body => exact .whole block
  | @arm around cluster arms arm _ formed inBlock branching opposite ih =>
      intro first middle last firstIn lastIn before after
      obtain ⟨_, aroundBlock⟩ := formed.isBlock
      have found := (Cluster.exists_of_mem_ofBlock inBlock).2.2 arms branching
      have inAround : ∀ id ∈ arm, id ∈ around := fun id inArm =>
        (opposite.sublist found).subset inArm
      obtain rfl := (aroundBlock.regionOf (inAround first firstIn)).symm.trans
        (block.regionOf firstIn)
      have aroundConvex := ih aroundBlock
      have middleIn := aroundConvex first middle last (inAround first firstIn)
        (inAround last lastIn) before after
      have toMiddle := aroundConvex.triggersIn (inAround first firstIn) middleIn before
      have toLast := aroundConvex.triggersIn middleIn (inAround last lastIn) after
      obtain ⟨side, rfl⟩ := opposite.exists_side
      have fromHead : Relation.TransGen (workflow.TriggersIn around) cluster.head first := by
        rw [Arms.side_eq found] at firstIn
        exact Wiring.exists_mem_ledTo_iff.mp ⟨_, (Arms.ledTo_of_mem_onOutcome firstIn).2.1⟩
      exact certified.mem_side_of_between aroundBlock found (fromHead.trans_left toMiddle) toLast
        lastIn

end Certified

end WorkflowGraph
