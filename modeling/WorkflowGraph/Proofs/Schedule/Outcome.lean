/-
Handlers of outcomes.

An instance handles an outcome of another one if only that step output triggers it. The main
statement is `handler_keeps_outcome_iff`: a handler runs on its outcome only if and only if the plan
branches on the instance. A plan branches on every instance both of whose outcomes are connected,
unless the instance has rivals: other branching instances that lead to it or to what it leads to. A
rival takes nothing from the instance if the instance runs on one of its outcomes, as it does in an
arm of the rival. Where there are other rivals the plan may have no branch for the instance: in
`lostBranch_runs_both` a handler of a failure runs although nothing fails.

* `Workflow.Rivals`, `Workflow.Unrivalled` — the rivals of an instance, and that it has none but
  such.
* `Certified.exists_branch_of_unrivalled` — an instance without other rivals gets its arms.
-/

import WorkflowGraph.Proofs.Schedule.Handlers
import WorkflowGraph.Proofs.Schedule.Heads

namespace WorkflowGraph

variable {workflow : Workflow}

/-! ### Branching instances -/

/-- Whether both outcomes of an instance are connected. -/
def Workflow.Branching (workflow : Workflow) (id : String) : Prop :=
  ∀ onSuccess, ∃ connection ∈ workflow.connections, connection.source.node = id ∧
    connection.source.port = Port.outcomeName onSuccess ∧ connection.source.scope = none

instance (workflow : Workflow) (id : String) : Decidable (workflow.Branching id) :=
  inferInstanceAs
    (Decidable (∀ onSuccess, ∃ connection ∈ workflow.connections, connection.source.node = id ∧
    connection.source.port = Port.outcomeName onSuccess ∧ connection.source.scope = none))

/-- Whether an instance leads to another one of its region through step outputs. -/
def Workflow.LeadsTo (workflow : Workflow) : String → String → Prop :=
  Relation.TransGen fun source target => workflow.Triggers source target ∧
    target ∈ (Index.ofWorkflow workflow).scheduledIn ((Index.ofWorkflow workflow).regionOf source)

/-- Whether a branching instance competes for arms with another one of its region: it leads to that
one, or to what that one leads to, and is not led to by it. -/
structure Workflow.Rivals (workflow : Workflow) (other head : String) : Prop where
  different : other ≠ head
  beside : (Index.ofWorkflow workflow).regionOf other = (Index.ofWorkflow workflow).regionOf head
  branching : workflow.Branching other
  notLed : ¬ workflow.LeadsTo head other
  shares : ∃ target, workflow.LeadsTo other target ∧ (target = head ∨ workflow.LeadsTo head target)

/-- Whether an instance runs on one outcome of each of its rivals, and the same is true of the
rivals. -/
inductive Workflow.Unrivalled (workflow : Workflow) : String → Prop
  | intro {head : String} :
      (∀ other, workflow.Rivals other head → ∃ onSuccess, workflow.RunsOn other onSuccess head) →
      (∀ other, workflow.Rivals other head → Unrivalled workflow other) → Unrivalled workflow head

theorem Arms.fires_iff {head : String} {onSuccess : Bool} :
    fires (.ofWorkflow workflow) head (Port.outcomeName onSuccess) = true ↔
      ∃ connection ∈ workflow.connections, connection.source.node = head ∧
        connection.source.port = Port.outcomeName onSuccess ∧ connection.source.scope = none := by
  rw [fires, List.any_eq_true]
  constructor
  · rintro ⟨entry, leaves, named⟩
    obtain ⟨inside, from_⟩ := Index.exists_mem_outgoing.mp ⟨entry, leaves, rfl⟩
    exact ⟨entry.2, inside, from_, by simpa using named⟩
  · rintro ⟨connection, inside, from_, named⟩
    obtain ⟨entry, leaves, rfl⟩ := Index.exists_mem_outgoing.mpr ⟨inside, from_⟩
    exact ⟨entry, leaves, by simpa using named⟩

theorem Arms.branching_of_ofHead {wiring : Wiring} {head : String} {arms : Arms}
    (found : ofHead (.ofWorkflow workflow) wiring head = some arms) : workflow.Branching head := by
  unfold ofHead at found
  split at found
  · rename_i both
    obtain ⟨success, failure⟩ := Bool.and_eq_true_iff.mp both
    intro onSuccess
    cases onSuccess with
    | true => exact fires_iff.mp success
    | false => exact fires_iff.mp failure
  · cases found

theorem Arms.exists_ofHead {members : List String} {head : String}
    (branching : workflow.Branching head) {onSuccess : Bool} {id : String}
    (member : id ∈ onOutcome workflow members head onSuccess) :
    ∃ arms, ofHead (.ofWorkflow workflow) (.ofBlock (.ofWorkflow workflow) members) head =
      some arms := by
  have both : (fires (Analysis.ofWorkflow workflow).index head Port.successName &&
      fires (Analysis.ofWorkflow workflow).index head Port.failureName) = true :=
    Bool.and_eq_true_iff.mpr ⟨fires_iff.mpr (branching true), fires_iff.mpr (branching false)⟩
  unfold ofHead
  rw [if_pos both]
  dsimp only
  split
  · rename_i empty
    rw [List.isEmpty_iff, Arms.members, List.append_eq_nil_iff] at empty
    cases onSuccess with
    | true => exact absurd member (List.eq_nil_iff_forall_not_mem.mp empty.1 id)
    | false => exact absurd member (List.eq_nil_iff_forall_not_mem.mp empty.2 id)
  · exact ⟨_, rfl⟩

/-- A branch keeps its arms if its head lies in no arm, and no other branch of which that is true
shares a member with it. -/
theorem Cluster.mem_withoutOverlap {nested taken : List String} {candidates : List (String × Arms)}
    {entry : String × Arms} (member : entry ∈ candidates) (free : entry.1 ∉ nested)
    (untaken : ∀ id ∈ entry.2.members, id ∉ taken)
    (apart : ∀ other ∈ candidates, other ≠ entry → other.1 ∉ nested →
      ∀ id ∈ entry.2.members, id ∉ other.2.members) :
    entry ∈ withoutOverlap nested taken candidates := by
  induction candidates generalizing taken with
  | nil => cases member
  | cons first rest ih =>
      obtain ⟨apartFirst, apartRest⟩ := List.forall_mem_cons.mp apart
      rw [withoutOverlap]
      by_cases same : first = entry
      · subst same
        have kept : (decide (first.1 ∈ nested) || first.2.members.any (· ∈ taken)) = false := by
          simpa [free] using untaken
        simp [kept]
      · have later := (List.mem_cons.mp member).resolve_left (Ne.symm same)
        split
        · exact ih later untaken apartRest
        · rename_i kept
          have freeFirst : first.1 ∉ nested := fun inNested => kept (by simp [inNested])
          refine List.mem_cons_of_mem _ (ih later (fun id inArms => ?_) apartRest)
          rw [List.mem_append, not_or]
          exact ⟨untaken id inArms, apartFirst same freeFirst id inArms⟩

/-- Every branch of a block is one of its clusters. -/
theorem Cluster.exists_of_mem_branches {analysis : Analysis} {block : List String}
    {head : String} {arms : Arms} (member : (head, arms) ∈ branches analysis block) :
    ∃ cluster ∈ ofBlock analysis block, cluster.head = head ∧ cluster.arms = some arms := by
  obtain ⟨inBlock, found⟩ := ofHead_of_mem_branches member
  have lookup : (branches analysis block).lookup head = some arms := by
    cases first : (branches analysis block).lookup head with
    | none => exact absurd (List.lookup_eq_none_iff.mp first _ member) (by simp)
    | some other => rw [← (ofHead_of_mem_branches (Table.mem_of_lookup first)).2, found]
  rw [ofBlock_eq]
  refine ⟨make analysis head ((branches analysis block).lookup head),
    List.mem_map.mpr ⟨head, ?_, rfl⟩, rfl, lookup⟩
  exact List.mem_filter.mpr ⟨inBlock, by simpa using head_notMem_taken member⟩

namespace Certified

variable {region : Region} {members : List String} {head id : String}

/-- What an instance leads to is what it triggers in its region, directly or not. -/
theorem leadsTo_of_triggersIn (block : IsBlock workflow region members)
    (path : Relation.TransGen (workflow.TriggersIn members) head id) :
    workflow.LeadsTo head id := by
  refine Relation.TransGen.mono (fun source target step => ?_) head id path
  obtain ⟨sourceIn, targetIn, triggers⟩ := step
  refine ⟨triggers, ?_⟩
  rw [block.regionOf sourceIn]
  exact block.inside target targetIn

theorem triggersIn_of_leadsTo (inRegion : head ∈ (Index.ofWorkflow workflow).scheduledIn region)
    (leads : workflow.LeadsTo head id) :
    Relation.TransGen (workflow.TriggersIn ((Index.ofWorkflow workflow).scheduledIn region)) head
      id ∧ id ∈ (Index.ofWorkflow workflow).scheduledIn region := by
  induction leads with
  | single step =>
      rw [Index.regionOf_of_mem_scheduledIn inRegion] at step
      exact ⟨.single ⟨inRegion, step.2, step.1⟩, step.2⟩
  | tail _ step ih =>
      rw [Index.regionOf_of_mem_scheduledIn ih.2] at step
      exact ⟨ih.1.tail ⟨ih.2, step.2, step.1⟩, step.2⟩

/-- What is in the arms of a branching instance of a block is led to within the block. -/
theorem triggersIn_of_mem_arms {arms : Arms}
    (found : Arms.ofHead (.ofWorkflow workflow) (.ofBlock (.ofWorkflow workflow) members) head =
      some arms)
    (member : id ∈ arms.members) : Relation.TransGen (workflow.TriggersIn members) head id := by
  exact Wiring.exists_mem_ledTo_iff.mp (Arms.ledTo_of_mem found member).2.2

/-- A candidate of a block is a rival of a member that it has in its arms. -/
theorem rivals_of_mem_arms (certified : Certified workflow)
    (block : IsBlock workflow region members) {other : String} {arms : Arms}
    (otherIn : other ∈ members)
    (found : Arms.ofHead (.ofWorkflow workflow) (.ofBlock (.ofWorkflow workflow) members) other =
      some arms) (inArms : head ∈ arms.members) : workflow.Rivals other head := by
  obtain ⟨rank, ranks⟩ := certified.ranked
  have headIn := (Arms.ledTo_of_mem found inArms).1
  have path := triggersIn_of_mem_arms found inArms
  have less := (certified.after_of_triggersIn ranks block path).1
  refine ⟨fun same => Nat.lt_irrefl _ (same ▸ less), (block.regionOf otherIn).trans
    (block.regionOf headIn).symm, Arms.branching_of_ofHead found, fun back => ?_, head,
    leadsTo_of_triggersIn block path, .inl rfl⟩
  have way := (triggersIn_of_leadsTo (block.inside head headIn) back).1
  exact Nat.lt_asymm less (certified.after_of_triggersIn ranks (.whole region) way).1

/-- A candidate of a block keeps its arms if it lies in no arms there, and runs on an outcome of
each of its rivals. -/
theorem mem_branches (certified : Certified workflow)
    (formed : Formed (.ofWorkflow workflow) members) (headIn : head ∈ members) {arms : Arms}
    (found : Arms.ofHead (.ofWorkflow workflow) (.ofBlock (.ofWorkflow workflow) members) head =
      some arms)
    (free : ∀ other ∈ Cluster.branchCandidates (.ofWorkflow workflow) members,
      head ∉ other.2.members)
    (runs : ∀ other, workflow.Rivals other head →
      ∃ onSuccess, workflow.RunsOn other onSuccess head) :
    (head, arms) ∈ Cluster.branches (.ofWorkflow workflow) members := by
  obtain ⟨region, block⟩ := formed.isBlock
  have candidate : (head, arms) ∈ Cluster.branchCandidates (.ofWorkflow workflow) members :=
    Cluster.mem_branchCandidates.mpr ⟨headIn, found⟩
  refine Cluster.mem_withoutOverlap candidate ?_ (fun _ _ => List.not_mem_nil)
    fun other member different notNested id inArms inOther => ?_
  · intro nested
    obtain ⟨other, member, inArms⟩ := List.mem_flatMap.mp nested
    exact free other member inArms
  · obtain ⟨otherIn, otherFound⟩ := Cluster.mem_branchCandidates.mp member
    have toOther := triggersIn_of_mem_arms otherFound inOther
    by_cases downstream : workflow.LeadsTo head other.1
    · -- the other branch lies in an arm of this one
      have way := (certified.convex formed block).transGen_triggersIn headIn otherIn
        (triggersIn_of_leadsTo (block.inside head headIn) downstream).1
      obtain ⟨side, inSide⟩ := Arms.mem_members_iff_side.mp inArms
      have inArm := certified.mem_side_of_between block found way toOther.to_reflTransGen inSide
      refine notNested (List.mem_flatMap.mpr ⟨_, candidate, ?_⟩)
      exact Arms.mem_members_iff_side.mpr ⟨side, inArm⟩
    · -- this one lies in an arm of the other branch
      have otherHead : other.1 ≠ head := fun same => different <| by
        rw [same, found] at otherFound
        exact Prod.ext same (Option.some.inj otherFound).symm
      obtain ⟨side, runsOn⟩ := runs other.1 ⟨otherHead, (block.regionOf otherIn).trans
        (block.regionOf headIn).symm, Arms.branching_of_ofHead otherFound, downstream, id,
        leadsTo_of_triggersIn block toOther,
        .inr (leadsTo_of_triggersIn block (triggersIn_of_mem_arms found inArms))⟩
      have inSide := runsOn.mem_side certified (block.regionOf headIn ▸ block.inside head headIn)
        formed otherIn otherFound
      exact free other member (Arms.mem_members_iff_side.mpr ⟨side, inSide⟩)

/-- **A branching instance gets its arms if it runs on an outcome of each of its rivals**, and those
of their rivals in turn. -/
theorem exists_branch_of_unrivalled (certified : Certified workflow)
    (unrivalled : workflow.Unrivalled head) (branching : workflow.Branching head) {onSuccess : Bool}
    (runs : workflow.RunsOn head onSuccess id)
    (headLives : head ∈ (Index.ofWorkflow workflow).scheduledIn
      ((Index.ofWorkflow workflow).regionOf id))
    (lives : id ∈ (Index.ofWorkflow workflow).scheduledIn ((Index.ofWorkflow workflow).regionOf id))
    (formed : Formed (.ofWorkflow workflow)
      ((Index.ofWorkflow workflow).scheduledIn ((Index.ofWorkflow workflow).regionOf id))) :
    ∃ cluster, workflow.HasCluster cluster ∧ cluster.head = head ∧ cluster.arms.isSome = true := by
  induction unrivalled generalizing onSuccess id with
  | @intro head runsOn rivals ih =>
      obtain ⟨cluster, ⟨members, comesUp, inBlock⟩, rfl⟩ := formed.exists_hasCluster headLives
      obtain ⟨region, block⟩ := comesUp.isBlock
      have headIn := (Cluster.exists_of_mem_ofBlock inBlock).2.1
      obtain ⟨arms, found⟩ :=
        Arms.exists_ofHead branching (runs.mem_onOutcome certified lives comesUp headIn)
      have beside := Index.regionOf_of_mem_scheduledIn headLives
      rw [← beside] at headLives formed
      -- a candidate with the head in its arms would be a rival, and so have them where it is a head
      have free : ∀ other ∈ Cluster.branchCandidates (.ofWorkflow workflow) members,
          cluster.head ∉ other.2.members := by
        intro other candidate inArms
        obtain ⟨otherIn, otherFound⟩ := Cluster.mem_branchCandidates.mp candidate
        have rival := certified.rivals_of_mem_arms block otherIn otherFound inArms
        obtain ⟨side, runsOnOther⟩ := runsOn other.1 rival
        obtain ⟨holder, ⟨around, aroundFormed, holderInBlock⟩, heads, branches⟩ :=
          ih other.1 rival rival.branching runsOnOther
            (by rw [← rival.beside, block.regionOf otherIn]; exact block.inside _ otherIn)
            headLives formed
        obtain ⟨otherArms, armsEq⟩ := Option.isSome_iff_exists.mp branches
        obtain ⟨_, holderHeadIn, spec⟩ := Cluster.exists_of_mem_ofBlock holderInBlock
        rw [← heads] at runsOnOther otherIn
        have inSide := runsOnOther.mem_side certified headLives aroundFormed holderHeadIn
          (spec otherArms armsEq)
        exact comesUp.head_notMem_arms aroundFormed inBlock holderInBlock otherIn
          (Cluster.mem_armMembers_of_side armsEq inSide)
      obtain ⟨branch, member, heads, armsEq⟩ :=
        Cluster.exists_of_mem_branches (certified.mem_branches comesUp headIn found free runsOn)
      exact ⟨branch, ⟨members, comesUp, member⟩, heads, by rw [armsEq]; rfl⟩

end Certified

/-! ### Plans -/

/-- Whether some run of a plan lies in an arm of an instance. -/
def Plan.BranchesOn (plan : Plan) (head : String) : Prop :=
  ∃ place ∈ plan.body.places [], ∃ onSuccess, .arm head onSuccess ∈ place.1

theorem Binding.branchesOn_plan_iff {placements : List Placement} {head : String} :
    (plan (.ofWorkflow workflow) placements).BranchesOn head ↔
      ∃ stage ∈ stagesOfAll (.ofWorkflow workflow) [] [] placements, ∃ onSuccess,
        .arm head onSuccess ∈ stage.path := by
  rw [Plan.BranchesOn, places_plan]
  constructor
  · rintro ⟨_, member, around⟩
    obtain ⟨stage, bound, rfl⟩ := List.mem_map.mp member
    exact ⟨stage, bound, around⟩
  · rintro ⟨stage, bound, around⟩
    exact ⟨_, List.mem_map.mpr ⟨stage, bound, rfl⟩, around⟩

section Handlers

variable {scheduler : Scheduler} {placements : List Placement} {head id : String} {onSuccess : Bool}

/-- An instance runs only on one outcome of another one that the plan branches on. Otherwise the
other one may fail or succeed, and the arms around the instance are taken all the same. -/
theorem Scheduler.Arranged.branchesOn_of_keeps (arranged : Arranged scheduler (.ofWorkflow workflow)
      (.ofRegion (.ofWorkflow workflow) none [] []) placements) (certified : Certified workflow)
    (runs : id ∈ Placing.scheduled (Placement.placingsOfAll placements))
    (keeps : ∀ failures, id ∈ (DryRun.ofPlan (Binding.plan (.ofWorkflow workflow) placements)
      failures).executed → (head ∈ failures ↔ onSuccess = false)) :
    (Binding.plan (.ofWorkflow workflow) placements).BranchesOn head := by
  by_contra idle
  rw [Binding.branchesOn_plan_iff] at idle
  obtain ⟨formed, lives⟩ := arranged.formed runs
  obtain ⟨cluster, comesUp, rfl⟩ := formed.exists_hasCluster lives
  obtain ⟨stage, bound⟩ := comesUp.exists_boundAt certified arranged
  have entered : ∀ others : List String, (∀ other ∈ others, other = head) →
      stage.runs (Enclosure.failing stage.path ++ others) = true := fun others same =>
    Enclosure.all_isEntered bound.consistent fun other among side around =>
      idle ⟨stage, bound.member, side, same other among ▸ around⟩
  have kept := fun others same => keeps _ ((arranged.mem_executed_iff certified.toWired).mpr
    ⟨stage, bound.member, bound.node, entered others same⟩)
  cases onSuccess with
  | true =>
      have fails := (kept [head] fun other among => List.mem_singleton.mp among).mp (by simp)
      cases fails
  | false =>
      have fails := (kept [] fun other none => (nomatch none)).mpr rfl
      rw [List.append_nil, Enclosure.mem_failing] at fails
      exact idle ⟨stage, bound.member, false, fails⟩

namespace Workflow.RunsOn

/-- A branch of an instance has all that runs on an outcome of the instance in the arm of the
outcome. -/
theorem exists_stage (runsOn : workflow.RunsOn head onSuccess id) (certified : Certified workflow)
    (arranged : Scheduler.Arranged scheduler (.ofWorkflow workflow)
      (.ofRegion (.ofWorkflow workflow) none [] []) placements)
    (runs : id ∈ Placing.scheduled (Placement.placingsOfAll placements)) {cluster : Cluster}
    (comesUp : workflow.HasCluster cluster) (heads : cluster.head = head)
    (branches : cluster.arms.isSome = true) :
    ∃ stage ∈ Binding.stagesOfAll (.ofWorkflow workflow) [] [] placements,
      stage.node = id ∧ .arm head onSuccess ∈ stage.path := by
  subst heads
  obtain ⟨arms, branching⟩ := Option.isSome_iff_exists.mp branches
  refine comesUp.exists_stage_in_arm certified arranged branching ?_
  obtain ⟨members, formed, member⟩ := comesUp
  obtain ⟨_, headIn, spec⟩ := Cluster.exists_of_mem_ofBlock member
  exact runsOn.mem_side certified (arranged.formed runs).2 formed headIn (spec arms branching)

/-- What runs on an outcome of an instance that the plan branches on keeps to the outcome. -/
theorem keeps_of_branchesOn (runsOn : workflow.RunsOn head onSuccess id)
    (certified : Certified workflow) (arranged : Scheduler.Arranged scheduler (.ofWorkflow workflow)
      (.ofRegion (.ofWorkflow workflow) none [] []) placements)
    (runs : id ∈ Placing.scheduled (Placement.placingsOfAll placements))
    (branchesOn : (Binding.plan (.ofWorkflow workflow) placements).BranchesOn head)
    {failures : List String}
    (executed : id ∈ (DryRun.ofPlan (Binding.plan (.ofWorkflow workflow) placements)
      failures).executed) :
    head ∈ failures ↔ onSuccess = false := by
  obtain ⟨stage, bound, side, around⟩ := Binding.branchesOn_plan_iff.mp branchesOn
  obtain ⟨cluster, comesUp, heads, branches⟩ := arranged.comesUp bound around
  obtain ⟨handler, inHandler, node, inItsArm⟩ :=
    runsOn.exists_stage certified arranged runs comesUp heads branches
  -- the handler has run, and it is bound nowhere but in the arm
  obtain ⟨ran, inRan, ranNode, entered⟩ := (arranged.mem_executed_iff certified.toWired).mp executed
  obtain rfl := arranged.stage_unique inHandler inRan (node ▸ runs) (ranNode.trans node.symm)
  have taken := List.all_eq_true.mp entered _ inItsArm
  cases onSuccess <;> simpa [Enclosure.isEntered] using taken

/-- A plan branches on an instance without rivals on whose outcomes something runs. -/
theorem branchesOn_of_unrivalled (runsOn : workflow.RunsOn head onSuccess id)
    (certified : Certified workflow)
    (arranged : Scheduler.Arranged scheduler (.ofWorkflow workflow)
      (.ofRegion (.ofWorkflow workflow) none [] []) placements)
    (runs : id ∈ Placing.scheduled (Placement.placingsOfAll placements))
    (headLives : head ∈ (Index.ofWorkflow workflow).scheduledIn
      ((Index.ofWorkflow workflow).regionOf id))
    (branching : workflow.Branching head) (unrivalled : workflow.Unrivalled head) :
    (Binding.plan (.ofWorkflow workflow) placements).BranchesOn head := by
  obtain ⟨formed, lives⟩ := arranged.formed runs
  obtain ⟨cluster, comesUp, heads, branches⟩ :=
    certified.exists_branch_of_unrivalled unrivalled branching runsOn headLives lives formed
  obtain ⟨stage, bound, _, around⟩ :=
    runsOn.exists_stage certified arranged runs comesUp heads branches
  exact Binding.branchesOn_plan_iff.mpr ⟨stage, bound, onSuccess, around⟩

end Workflow.RunsOn

end Handlers

/-- **A handler keeps to its outcome if and only if the plan branches on the instance**, which it
does for every branching instance that has no rivals but such as it runs on an outcome of. -/
theorem handler_keeps_outcome_iff {scheduler : Scheduler} {plan : Plan}
    (valid : (validate workflow).hasErrors = false)
    (scheduled : (scheduler.schedule workflow).outcome = .ok plan) {head id : String}
    {onSuccess : Bool} (known : head ∈ workflow.instances.map (·.id))
    (handles : workflow.Handles head onSuccess id)
    (beside : (Index.ofWorkflow workflow).regionOf head = (Index.ofWorkflow workflow).regionOf id)
    (runs : id ∈ plan.scheduled) :
    ((∀ failures, id ∈ (DryRun.ofPlan plan failures).executed →
      (head ∈ failures ↔ onSuccess = false)) ↔
        plan.BranchesOn head) ∧
      (workflow.Branching head → workflow.Unrivalled head → plan.BranchesOn head) := by
  have certified := certified_of_validate valid
  obtain ⟨placements, arranged, rfl⟩ := Scheduler.exists_arranged scheduled
  rw [Plan.scheduled_eq, Binding.placings_plan] at runs
  obtain ⟨_, lives⟩ := arranged.formed runs
  have runsOn := handles.runsOn certified known beside lives
  refine ⟨⟨arranged.branchesOn_of_keeps certified runs, fun branchesOn failures executed => ?_⟩,
    runsOn.branchesOn_of_unrivalled certified arranged runs
    (handles.head_mem certified known beside lives)⟩
  exact runsOn.keeps_of_branchesOn certified arranged runs branchesOn executed

/-- A branch in an arm of another one. -/
def branchInArm : Workflow where
  name := "branch in arm"
  nodeTypes := [taskType]
  instances :=
    [{ id := "g", nodeType := "Task" }, { id := "a", nodeType := "Task" },
      { id := "h", nodeType := "Task" },
      { id := "x", nodeType := "Task" }, { id := "y", nodeType := "Task" }]
  connections :=
    [⟨⟨"g", "onSuccess", none⟩, ⟨"h", "execute", none⟩⟩,
      ⟨⟨"g", "onFailure", none⟩, ⟨"a", "execute", none⟩⟩,
      ⟨⟨"h", "onSuccess", none⟩, ⟨"x", "execute", none⟩⟩,
      ⟨⟨"h", "onFailure", none⟩, ⟨"y", "execute", none⟩⟩]

/-- The outer branch has no rival, and the one in its arm only the outer one, on whose success it
runs. -/
theorem branchInArm_unrivalled (certified : Certified branchInArm) :
    branchInArm.Unrivalled "g" ∧ branchInArm.Unrivalled "h" := by
  have heads : ∀ connection ∈ branchInArm.connections,
      connection.source.port = Port.outcomeName true →
        connection.source.node = "g" ∨ connection.source.node = "h" := by decide
  have branching : ∀ other, branchInArm.Branching other → other = "g" ∨ other = "h" := by
    intro other branches
    obtain ⟨connection, member, rfl, named, _⟩ := branches true
    exact heads connection member named
  have outer : ∀ other, ¬ branchInArm.Rivals other "g" := by
    intro other rival
    rcases branching other rival.branching with rfl | rfl
    · exact rival.different rfl
    · exact rival.notLed (.single ⟨by decide +kernel, by decide +kernel⟩)
  have unrivalled : branchInArm.Unrivalled "g" :=
    .intro (fun other rival => absurd rival (outer other)) fun other rival =>
      absurd rival (outer other)
  have inner : ∀ other, branchInArm.Rivals other "h" → other = "g" := fun other rival =>
    (branching other rival.branching).resolve_right rival.different
  have handles : branchInArm.Handles "g" true "h" := ⟨by decide +kernel, by decide +kernel⟩
  refine ⟨unrivalled, .intro (fun other rival => ⟨true, ?_⟩) fun other rival => ?_⟩
  · rw [inner other rival]
    exact handles.runsOn certified (by decide) (by decide +kernel) (by decide +kernel)
  · exact inner other rival ▸ unrivalled

theorem handler_keeps_outcome_iff_branchInArm :
    ∃ plan, (validate branchInArm).hasErrors = false ∧
      (({} : Scheduler).schedule branchInArm).outcome = .ok plan ∧
      plan.scheduled = ["g", "h", "x", "y", "a"] ∧
      branchInArm.Handles "g" false "a" ∧ branchInArm.Branching "g" ∧ branchInArm.Unrivalled "g" ∧
      plan.BranchesOn "g" ∧
      (∀ failures, "a" ∈ (DryRun.ofPlan plan failures).executed →
        ("g" ∈ failures ↔ false = false)) ∧
      branchInArm.Handles "h" false "y" ∧ branchInArm.Branching "h" ∧ branchInArm.Unrivalled "h" ∧
      plan.BranchesOn "h" ∧
      ∀ failures, "y" ∈ (DryRun.ofPlan plan failures).executed →
      ("h" ∈ failures ↔ false = false) := by
  have valid : (validate branchInArm).hasErrors = false := by decide +kernel
  obtain ⟨plan, scheduled, ids⟩ := exists_of_toOption_map
    (show (({} : Scheduler).schedule branchInArm).outcome.toOption.map Plan.scheduled =
      some ["g", "h", "x", "y", "a"] by decide +kernel)
  obtain ⟨outer, inner⟩ := branchInArm_unrivalled (certified_of_validate valid)
  have branching : ∀ head ∈ ["g", "h"], branchInArm.Branching head := by decide
  have ofOuter : branchInArm.Handles "g" false "a" := ⟨by decide +kernel, by decide +kernel⟩
  have ofInner : branchInArm.Handles "h" false "y" := ⟨by decide +kernel, by decide +kernel⟩
  obtain ⟨keeps, lone⟩ := handler_keeps_outcome_iff valid scheduled (by decide) ofOuter
    (by decide +kernel) (ids ▸ by decide)
  obtain ⟨keepsInner, loneInner⟩ := handler_keeps_outcome_iff valid scheduled (by decide) ofInner
    (by decide +kernel) (ids ▸ by decide)
  have onOuter := lone (branching "g" (by simp)) outer
  have onInner := loneInner (branching "h" (by simp)) inner
  exact ⟨plan, valid, scheduled, ids, ofOuter, branching "g" (by simp), outer, onOuter,
    keeps.mpr onOuter, ofInner, branching "h" (by simp), inner, onInner, keepsInner.mpr onInner⟩

/-- Three branching instances. Two of them share a handler, and the third is a handler of the one
that gets no arms. -/
def lostBranch : Workflow where
  name := "lost-branch"
  nodeTypes := [taskType]
  instances :=
    [{ id := "g", nodeType := "Task" }, { id := "k", nodeType := "Task" },
      { id := "a", nodeType := "Task" },
      { id := "c", nodeType := "Task" }, { id := "h", nodeType := "Task" },
      { id := "x", nodeType := "Task" }, { id := "y", nodeType := "Task" }]
  connections :=
    [⟨⟨"g", "onSuccess", none⟩, ⟨"c", "execute", none⟩⟩,
      ⟨⟨"g", "onFailure", none⟩, ⟨"a", "execute", none⟩⟩,
      ⟨⟨"k", "onSuccess", none⟩, ⟨"c", "execute", none⟩⟩,
      ⟨⟨"k", "onFailure", none⟩, ⟨"h", "execute", none⟩⟩,
      ⟨⟨"h", "onSuccess", none⟩, ⟨"x", "execute", none⟩⟩,
      ⟨⟨"h", "onFailure", none⟩, ⟨"y", "execute", none⟩⟩]

/-- **Both handlers of an instance may run**, although it has not failed. -/
theorem lostBranch_runs_both :
    (validate lostBranch).hasErrors = false ∧ lostBranch.Handles "h" true "x" ∧
      lostBranch.Handles "h" false "y" ∧
      (Index.ofWorkflow lostBranch).regionOf "h" = (Index.ofWorkflow lostBranch).regionOf "y" ∧
      ∃ plan, (({} : Scheduler).schedule lostBranch).outcome = .ok plan ∧
        "x" ∈ (DryRun.ofPlan plan []).executed ∧ "y" ∈ (DryRun.ofPlan plan []).executed := by
  refine ⟨by decide +kernel, ⟨by decide +kernel, by decide +kernel⟩,
    ⟨by decide +kernel, by decide +kernel⟩, by decide +kernel, ?_⟩
  obtain ⟨plan, scheduled, runs⟩ := exists_of_toOption_map
    (show (({} : Scheduler).schedule lostBranch).outcome.toOption.map
        (fun plan => (DryRun.ofPlan plan []).executed) =
      some ["k", "g", "c", "h", "x", "y"] by decide +kernel)
  exact ⟨plan, scheduled, runs ▸ by decide, runs ▸ by decide⟩

end WorkflowGraph
