/-
What runs on one outcome of an instance.

An instance handles an outcome of another one if only that step output triggers it. More generally
it runs on the outcome if all that triggers it is the outcome, or an instance that runs on it.

* `Formed.mem_of_triggers` — a block that comes up holds all that is triggered from inside of it
  alone.
* `Workflow.RunsOn.mem_of_formed` — arms of other branches that hold an instance hold all that runs
  on its outcomes.
* `Workflow.RunsOn.mem_side` — what runs on an outcome lies in the arm of the outcome.
-/

import WorkflowGraph.Proofs.Schedule.Ways

namespace WorkflowGraph

/-- Whether an instance handles an outcome of another one: nothing else triggers it. -/
structure Workflow.Handles (workflow : Workflow) (head : String) (onSuccess : Bool) (id : String) :
    Prop where
  fires : workflow.Fires head (Port.outcomeName onSuccess) id
  only : ∀ connection ∈ workflow.connections, connection.target.node = id →
    (Index.ofWorkflow workflow).isStep connection = true →
    connection.source.node = head ∧ connection.source.port = Port.outcomeName onSuccess

/-- Whether an instance runs on an outcome of another one: something triggers it, and all that does
is that outcome, or a scheduled instance of its region that runs on the outcome too. -/
inductive Workflow.RunsOn (workflow : Workflow) (head : String) (onSuccess : Bool) : String → Prop
  | intro {id : String} : (∃ source, workflow.Triggers source id) →
      (∀ source, workflow.Triggers source id →
        source ∈ (Index.ofWorkflow workflow).scheduledIn
          ((Index.ofWorkflow workflow).regionOf id)) →
      (∀ source port, workflow.Fires source port id →
        ¬ (source = head ∧ port = Port.outcomeName onSuccess) →
        RunsOn workflow head onSuccess source) →
      RunsOn workflow head onSuccess id

variable {workflow : Workflow}

/-! ### Handlers -/

namespace Workflow.Handles

variable {head id : String} {onSuccess : Bool} {region : Region} {members : List String}

/-- Only the instance whose outcome is handled triggers a handler. -/
theorem trigger_eq (handles : workflow.Handles head onSuccess id) {source port : String}
    (fires : workflow.Fires source port id) :
    source = head ∧ port = Port.outcomeName onSuccess := by
  obtain ⟨connection, member, rfl, rfl, into, port, atSource, step, _⟩ := fires
  refine handles.only connection member into ?_
  rw [Index.isStep, show _ = some port from atSource, Option.any_some, step]

/-- What leads to a handler leads to the instance whose outcome it handles, or is that outcome. -/
theorem ledTo_cases (handles : workflow.Handles head onSuccess id) {start port : String}
    (led : id ∈ (Wiring.ofBlock (.ofWorkflow workflow) members).ledTo start port) :
    start = head ∧ port = Port.outcomeName onSuccess ∨
      head ∈ (Wiring.ofBlock (.ofWorkflow workflow) members).ledTo start port := by
  rcases Wiring.mem_ledTo_iff_last.mp led with ⟨_, _, fires⟩ | ⟨source, ledToo, _, _, triggers⟩
  · exact .inl (handles.trigger_eq fires)
  · obtain ⟨port, fires⟩ := Workflow.triggers_iff.mp triggers
    exact .inr ((handles.trigger_eq fires).1 ▸ ledToo)

/-- An instance whose outcome is handled in its region is scheduled there. -/
theorem head_mem (handles : workflow.Handles head onSuccess id) (certified : Certified workflow)
    (known : head ∈ workflow.instances.map (·.id))
    (beside : (Index.ofWorkflow workflow).regionOf head = (Index.ofWorkflow workflow).regionOf id)
    (lives : id ∈ (Index.ofWorkflow workflow).scheduledIn region) :
    head ∈ (Index.ofWorkflow workflow).scheduledIn region := by
  obtain ⟨rank, ranks⟩ := certified.ranked
  obtain ⟨inst, declared, rfl⟩ := List.mem_map.mp known
  have triggers := Certified.triggersOf_of_triggers (Workflow.triggers_iff.mpr ⟨_, handles.fires⟩)
    (certified.ordinary inst declared) ((@IsBlock.whole workflow region).named lives)
  refine Index.mem_scheduledIn.mpr ⟨⟨inst, certified.find?_eq declared, ?_⟩,
    (certified.triggers_cases ranks triggers).2.1⟩
  rw [← certified.regionOf_eq declared, beside, Index.regionOf_of_mem_scheduledIn lives]

/-- A handler of an instance of its region runs on the outcome. -/
theorem runsOn (handles : workflow.Handles head onSuccess id) (certified : Certified workflow)
    (known : head ∈ workflow.instances.map (·.id))
    (beside : (Index.ofWorkflow workflow).regionOf head = (Index.ofWorkflow workflow).regionOf id)
    (lives : id ∈ (Index.ofWorkflow workflow).scheduledIn
      ((Index.ofWorkflow workflow).regionOf id)) :
    workflow.RunsOn head onSuccess id := by
  refine .intro ⟨head, Workflow.triggers_iff.mpr ⟨_, handles.fires⟩⟩ (fun source triggers => ?_)
    fun source port fires other => absurd (handles.trigger_eq fires) other
  obtain ⟨port, fires⟩ := Workflow.triggers_iff.mp triggers
  rw [(handles.trigger_eq fires).1]
  exact handles.head_mem certified known beside lives

end Workflow.Handles

/-! ### Blocks and arms -/

/-- **A block that comes up holds all that is triggered from inside of it alone**, in its region. -/
theorem Formed.mem_of_triggers {members : List String}
    (formed : Formed (.ofWorkflow workflow) members) (certified : Certified workflow) {id : String}
    (lives : id ∈ (Index.ofWorkflow workflow).scheduledIn ((Index.ofWorkflow workflow).regionOf id))
    (triggered : ∃ source, workflow.Triggers source id)
    (beside : ∀ source, workflow.Triggers source id →
      (Index.ofWorkflow workflow).regionOf source = (Index.ofWorkflow workflow).regionOf id)
    (inside : ∀ source, workflow.Triggers source id → source ∈ members) : id ∈ members := by
  obtain ⟨source, triggers⟩ := triggered
  have whole : ∀ {region}, source ∈ (Index.ofWorkflow workflow).scheduledIn region →
      id ∈ (Index.ofWorkflow workflow).scheduledIn region := fun sourceIn => by
    rwa [← beside source triggers, Index.regionOf_of_mem_scheduledIn sourceIn] at lives
  induction formed with
  | top => exact whole (inside source triggers)
  | body => exact whole (inside source triggers)
  | @arm members cluster arms _ _ formed member branching opposite ih =>
      obtain ⟨region, block⟩ := formed.isBlock
      have found := (Cluster.exists_of_mem_ofBlock member).2.2 arms branching
      have idIn := ih fun source triggers =>
        (opposite.sublist found).subset (inside source triggers)
      obtain ⟨side, rfl⟩ := opposite.exists_side
      rw [Arms.side_eq found] at inside ⊢
      have candidate := fun source triggers =>
        Arms.ledTo_of_mem_onOutcome (inside source triggers)
      have ledToo : id ∈ (Wiring.ofBlock (.ofWorkflow workflow) members).ledTo cluster.head
          (Port.outcomeName side) := by
        obtain ⟨sourceIn, led, _⟩ := candidate source triggers
        exact Wiring.mem_ledTo_iff_last.mpr (.inr ⟨source, led, sourceIn, idIn, triggers⟩)
      refine Arms.mem_onOutcome idIn ledToo (fun ledOtherwise => ?_) ?_ fun trigger listed =>
        .inr (inside trigger ((certified.mem_triggersOf_iff (block.named idIn)).mp listed).2)
      · -- the last step of the way would start in the arm
        rcases Wiring.mem_ledTo_iff_last.mp ledOtherwise with
          ⟨_, _, fires⟩ | ⟨last, ledLast, _, _, triggers⟩
        · exact (candidate cluster.head (Workflow.triggers_iff.mpr ⟨_, fires⟩)).2.2.2 rfl
        · exact (candidate last triggers).2.2.1 ledLast
      · rintro rfl
        exact certified.notMem_ledTo_self block _ _ ledToo

namespace Workflow.RunsOn

variable {head id : String} {onSuccess : Bool} {members : List String}

/-- **Every block that comes up holds what runs on an outcome of its members**, apart from arms of
the member itself. -/
theorem mem_of_formed (runs : workflow.RunsOn head onSuccess id) (certified : Certified workflow)
    (lives : id ∈ (Index.ofWorkflow workflow).scheduledIn ((Index.ofWorkflow workflow).regionOf id))
    (formed : Formed (.ofWorkflow workflow) members) (headIn : head ∈ members) : id ∈ members := by
  induction runs with
  | @intro id triggered beside further ih =>
      have regions := fun source triggers =>
        Index.regionOf_of_mem_scheduledIn (beside source triggers)
      refine formed.mem_of_triggers certified lives triggered regions fun source triggers => ?_
      obtain ⟨port, fires⟩ := Workflow.triggers_iff.mp triggers
      by_cases outcome : source = head ∧ port = Port.outcomeName onSuccess
      · exact outcome.1 ▸ headIn
      · exact ih source port fires outcome (regions source triggers ▸ beside source triggers)

/-- What runs on an outcome is not led to by the other one, and nothing makes it leave the arm. -/
theorem mem_onOutcome (runs : workflow.RunsOn head onSuccess id) (certified : Certified workflow)
    (lives : id ∈ (Index.ofWorkflow workflow).scheduledIn ((Index.ofWorkflow workflow).regionOf id))
    (formed : Formed (.ofWorkflow workflow) members) (headIn : head ∈ members) :
    id ∈ Arms.onOutcome workflow members head onSuccess := by
  obtain ⟨region, block⟩ := formed.isBlock
  have idIn := runs.mem_of_formed certified lives formed headIn
  induction runs with
  | @intro id triggered beside further ih =>
      have origin : ∀ source port, workflow.Fires source port id →
          source = head ∧ port = Port.outcomeName onSuccess ∨
            source ∈ Arms.onOutcome workflow members head onSuccess := by
        intro source port fires
        refine Classical.or_iff_not_imp_left.mpr fun other => ?_
        have sourceIn := beside source (Workflow.triggers_iff.mpr ⟨port, fires⟩)
        rw [← Index.regionOf_of_mem_scheduledIn sourceIn] at sourceIn
        exact ih source port fires other sourceIn
          ((further source port fires other).mem_of_formed certified sourceIn formed headIn)
      have led : id ∈ (Wiring.ofBlock (.ofWorkflow workflow) members).ledTo head
          (Port.outcomeName onSuccess) := by
        obtain ⟨source, triggers⟩ := triggered
        obtain ⟨port, fires⟩ := Workflow.triggers_iff.mp triggers
        rcases origin source port fires with ⟨rfl, rfl⟩ | inArm
        · exact Wiring.mem_ledTo_iff_last.mpr (.inl ⟨headIn, idIn, fires⟩)
        · obtain ⟨sourceIn, led, _⟩ := Arms.ledTo_of_mem_onOutcome inArm
          exact Wiring.mem_ledTo_iff_last.mpr (.inr ⟨source, led, sourceIn, idIn, triggers⟩)
      refine Arms.mem_onOutcome idIn led (fun ledToo => ?_) ?_ fun trigger listed => ?_
      · rcases Wiring.mem_ledTo_iff_last.mp ledToo with
          ⟨_, _, fires⟩ | ⟨last, ledLast, _, _, triggers⟩
        · rcases origin head _ fires with ⟨_, same⟩ | inArm
          · exact Port.outcomeName_ne onSuccess same
          · exact (Arms.ledTo_of_mem_onOutcome inArm).2.2.2 rfl
        · obtain ⟨port, fires⟩ := Workflow.triggers_iff.mp triggers
          rcases origin last port fires with ⟨rfl, _⟩ | inArm
          · exact certified.notMem_ledTo_self block _ _ ledLast
          · exact (Arms.ledTo_of_mem_onOutcome inArm).2.2.1 ledLast
      · rintro rfl
        exact certified.notMem_ledTo_self block _ _ led
      · have triggers := ((certified.mem_triggersOf_iff (block.named idIn)).mp listed).2
        obtain ⟨port, fires⟩ := Workflow.triggers_iff.mp triggers
        exact (origin trigger port fires).imp_left And.left

/-- **What runs on an outcome lies in the arm of the outcome.** -/
theorem mem_side (runs : workflow.RunsOn head onSuccess id) (certified : Certified workflow)
    (lives : id ∈ (Index.ofWorkflow workflow).scheduledIn ((Index.ofWorkflow workflow).regionOf id))
    (formed : Formed (.ofWorkflow workflow) members) (headIn : head ∈ members) {arms : Arms}
    (found : Arms.ofHead (.ofWorkflow workflow) (.ofBlock (.ofWorkflow workflow) members) head =
      some arms) : id ∈ arms.side onSuccess := by
  rw [Arms.side_eq found]
  exact runs.mem_onOutcome certified lives formed headIn

end Workflow.RunsOn

end WorkflowGraph
