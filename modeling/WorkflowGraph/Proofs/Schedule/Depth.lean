/-
How deep scopes nest in a plan, and what the limit on their depth does.

The main statement is `schedule_limit_iff`: a lower limit gives the plans of a higher one in which
iterations nest no deeper than the lower limit, and no others. So the limit only rejects plans and
never changes one. It holds for every workflow, also where scopes belong to nothing or to each
other.

* `PlanNode.nesting` — how deep iterations nest. `Binding.nesting_plan` says that plans nest as
  their arrangements do.
* `Scheduler.Arranged.nesting_le` — an arrangement of a block nests no deeper than the limit allows
  below the level of the block: the depth that the scheduler asks for is the number of iterations
  around a scope.
* `Scheduler.arrange_of_nesting_le` — what is arranged under one limit is arranged under any other
  one that allows for its nesting.
-/

import WorkflowGraph.Proofs.Schedule.Placement

namespace WorkflowGraph

/-! ### Nesting -/

namespace PlanNode

mutual

/-- How deep iterations nest in a node of a plan. -/
def nesting : PlanNode → Nat
  | .sequence steps => nestingOfAll steps
  | .parallel branches => nestingOfAll branches
  | .branch _ _ _ thenArm elseArm => max (nesting thenArm) (nesting elseArm)
  | .step _ => 0
  | .inlined _ => 0
  | .iteration _ bodies => nestingOfBodies bodies + 1

/-- How deep iterations nest in several nodes. -/
def nestingOfAll : List PlanNode → Nat
  | [] => 0
  | node :: rest => max (nesting node) (nestingOfAll rest)

/-- How deep iterations nest in the insides of scopes. -/
def nestingOfBodies : List (ScopeFrame × PlanNode) → Nat
  | [] => 0
  | (_, body) :: rest => max (nesting body) (nestingOfBodies rest)

end

theorem nestingOfAll_append (first second : List PlanNode) :
    nestingOfAll (first ++ second) = max (nestingOfAll first) (nestingOfAll second) := by
  induction first with
  | nil => exact (Nat.zero_max _).symm
  | cons node rest ih => rw [List.cons_append, nestingOfAll, nestingOfAll, ih, Nat.max_assoc]

theorem nesting_ofBlock (nodes : List PlanNode) :
    nesting (.ofBlock nodes) = nestingOfAll nodes := by
  unfold ofBlock
  split
  · exact (Nat.max_zero _).symm
  · rfl

end PlanNode

namespace Placement

mutual

/-- How deep the insides of scopes nest in a placement. -/
def nesting : Placement → Nat
  | .inlined _ => 0
  | .node _ bodies => nestingOfBodies bodies
  | .branch _ bodies thenArm elseArm =>
    max (nestingOfBodies bodies) (max (nestingOfAll thenArm) (nestingOfAll elseArm))
  | .parallel clusters => nestingOfAll clusters

/-- How deep the insides of scopes nest in several placements. -/
def nestingOfAll : List Placement → Nat
  | [] => 0
  | placement :: rest => max (nesting placement) (nestingOfAll rest)

/-- How deep the insides of scopes nest where some scopes are entered. -/
def nestingOfBodies : List (String × List Placement) → Nat
  | [] => 0
  | (_, body) :: rest => max (nestingOfAll body + 1) (nestingOfBodies rest)

end

theorem nestingOfAll_append (first second : List Placement) :
    nestingOfAll (first ++ second) = max (nestingOfAll first) (nestingOfAll second) := by
  induction first with
  | nil => exact (Nat.zero_max _).symm
  | cons placement rest ih => rw [List.cons_append, nestingOfAll, nestingOfAll, ih, Nat.max_assoc]

theorem nestingOfAll_inlined (ids : List String) : nestingOfAll (ids.map .inlined) = 0 := by
  induction ids with
  | nil => rfl
  | cons id rest ih => rw [List.map_cons, nestingOfAll, ih, nesting, Nat.max_zero]

theorem nestingOfAll_together (placements : List Placement) :
    nestingOfAll (Scheduler.together placements) = nestingOfAll placements := by
  unfold Scheduler.together
  split
  · rfl
  · rw [nestingOfAll, nesting, nestingOfAll, Nat.max_zero]

/-- Placements nest no deeper than the deepest of them. -/
theorem nestingOfAll_le {level bound : Nat} {placements : List Placement} (above : level ≤ bound)
    (each : ∀ placement ∈ placements, level + nesting placement ≤ bound) :
    level + nestingOfAll placements ≤ bound := by
  induction placements with
  | nil => exact above
  | cons placement rest ih =>
      obtain ⟨first, others⟩ := List.forall_mem_cons.mp each
      have below := ih others
      rw [nestingOfAll]
      omega

/-- The nesting of one round and all that comes after it. -/
theorem nestingOfAll_round (inlined : List String) (placed rest : List Placement) :
    nestingOfAll (inlined.map .inlined ++ Scheduler.together placed ++ rest) =
      max (nestingOfAll placed) (nestingOfAll rest) := by
  rw [nestingOfAll_append, nestingOfAll_append, nestingOfAll_inlined, nestingOfAll_together,
    Nat.zero_max]

end Placement

/-! ### Plans nest as arrangements do -/

namespace Binding

/-- One scope more around `depth` iterations. -/
theorem max_nesting_runNode (depth : Nat) (step : Step) (bodies : List (ScopeFrame × PlanNode)) :
    max depth (PlanNode.nestingOfBodies bodies) + 1 =
      max (depth + 1) (runNode step bodies).nesting := by
  cases bodies with
  | nil =>
      show max depth 0 + 1 = max (depth + 1) 0
      rw [Nat.max_zero, Nat.max_zero]
  | cons entry rest => exact (Nat.succ_max_succ _ _).symm

mutual

theorem nesting_place (index : Index) (merges : List Merge) (placement : Placement) :
    PlanNode.nestingOfAll (place index merges placement).1 = placement.nesting := by
  cases placement with
  | inlined id => rfl
  | node id bodies =>
      rw [place, PlanNode.nestingOfAll, PlanNode.nestingOfAll, Nat.max_zero, nesting_runNode,
        Placement.nesting]
  | branch cluster bodies thenArm elseArm =>
      rw [place, PlanNode.nestingOfAll, PlanNode.nestingOfAll, PlanNode.nestingOfAll, Nat.max_zero,
        nesting_runNode,
        PlanNode.nesting, PlanNode.nesting_ofBlock, PlanNode.nesting_ofBlock, nesting_placeAll,
        nesting_placeAll, Placement.nesting]
  | parallel clusters =>
      rw [place, PlanNode.nestingOfAll, PlanNode.nestingOfAll, Nat.max_zero, PlanNode.nesting,
        nesting_placeEach, Placement.nesting]

theorem nesting_placeAll (index : Index) (merges : List Merge) (placements : List Placement) :
    PlanNode.nestingOfAll (placeAll index merges placements).1 =
      Placement.nestingOfAll placements := by
  cases placements with
  | nil => rfl
  | cons placement rest =>
      rw [placeAll, PlanNode.nestingOfAll_append, nesting_place, nesting_placeAll,
        Placement.nestingOfAll]

theorem nesting_placeEach (index : Index) (merges : List Merge) (placements : List Placement) :
    PlanNode.nestingOfAll (placeEach index merges placements).1 =
      Placement.nestingOfAll placements := by
  cases placements with
  | nil => rfl
  | cons placement rest =>
      rw [placeEach, PlanNode.nestingOfAll, PlanNode.nesting_ofBlock, nesting_place,
        nesting_placeEach, Placement.nestingOfAll]

theorem nesting_runNode (index : Index) (merges : List Merge) (owner : String) (step : Step)
    (bodies : List (String × List Placement)) :
    (runNode step (placeBodies index merges owner bodies).1).nesting =
      Placement.nestingOfBodies bodies := by
  cases bodies with
  | nil => rfl
  | cons entry rest =>
      obtain ⟨name, body⟩ := entry
      rw [placeBodies, runNode, List.isEmpty_cons, if_neg Bool.false_ne_true, PlanNode.nesting,
        PlanNode.nestingOfBodies,
        PlanNode.nesting_ofBlock, nesting_placeAll, max_nesting_runNode _ step, nesting_runNode,
        Placement.nestingOfBodies]

end

theorem nesting_plan (index : Index) (placements : List Placement) :
    (plan index placements).body.nesting = Placement.nestingOfAll placements :=
  (PlanNode.nesting_ofBlock _).trans (nesting_placeAll index [] placements)

end Binding

/-! ### The limit bounds the nesting -/

/-- The depth that is found for a scope is the level inside of it. -/
theorem Index.depth_eq_of_level {index : Index} {owner name : String} {level depth : Nat}
    (here : index.Level (index.regionOf owner) level)
    (found : index.depth (some ⟨owner, name⟩) = some depth) :
    depth = level + 1 :=
  (level_of_depth found).1.unique (.scope here)

namespace Scheduler

open Placement

variable {scheduler : Scheduler} {workflow : Workflow}

/-- The insides of the scopes of an instance nest no deeper than the limit allows below it. -/
theorem nestingOfBodies_le {block : Block} {owner : String} {level : Nat} {names : List String}
    {bodies : List (String × List Placement)}
    (headAt : (Index.ofWorkflow workflow).Level ((Index.ofWorkflow workflow).regionOf owner) level)
    (inside : List.Forall₂ (BodyPlaced scheduler (.ofWorkflow workflow)
      (fun block _ placements => ∀ level, OnLevel (.ofWorkflow workflow) level block.members →
        level + nestingOfAll placements ≤ max level scheduler.maxScopeDepth)
      block owner) names bodies) :
    level + nestingOfBodies bodies ≤ max level scheduler.maxScopeDepth := by
  induction inside with
  | nil => exact Nat.le_max_left _ _
  | cons body _ ih =>
      obtain ⟨depth, found, shallow⟩ := body.shallow
      have deeper := Index.depth_eq_of_level headAt found
      have below := body.holds _ (OnLevel.scope headAt _)
      rw [nestingOfBodies]
      omega

theorem nesting_cases : Induction scheduler (.ofWorkflow workflow)
    (fun block _ placements => ∀ level, OnLevel (.ofWorkflow workflow) level block.members →
      level + nestingOfAll placements ≤ max level scheduler.maxScopeDepth)
    (fun block _ placement => ∀ level, OnLevel (.ofWorkflow workflow) level block.members →
      level + placement.nesting ≤ max level scheduler.maxScopeDepth) where
  done _ _ level _ := by
    rw [nestingOfAll_inlined]
    exact Nat.le_max_left _ _
  round _ _ _ _ placed rest level here := by
    have now : ∀ placement ∈ _, level + nesting placement ≤ max level scheduler.maxScopeDepth :=
      fun placement member => by
        obtain ⟨_, _, _, holds⟩ := exists_left_of_mem placed member
        exact holds level here
    have later := rest level here
    have all := nestingOfAll_le (Nat.le_max_left _ _) now
    rw [nestingOfAll_round]
    omega
  node _ member _ inside _ level here :=
    nestingOfBodies_le (here.level _ (Cluster.exists_of_mem_ofBlock member).2.1) inside
  branch _ member _ inside branching onSuccess onFailure level here := by
    have below := nestingOfBodies_le (here.level _ (Cluster.exists_of_mem_ofBlock member).2.1)
      inside
    have parts := here.cluster member
    rw [Cluster.members_of_arms branching] at parts
    have thenArm := onSuccess.holds level parts.right.left
    have elseArm := onFailure.holds level parts.right.right
    rw [nesting]
    omega

/-- **An arrangement nests no deeper than the limit allows** below the level of its block. -/
theorem Arranged.nesting_le {block : Block} {placements : List Placement} {level : Nat}
    (arranged : Arranged scheduler (.ofWorkflow workflow) block placements)
    (formed : Formed (.ofWorkflow workflow) block.members)
    (here : OnLevel (.ofWorkflow workflow) level block.members) :
    level + nestingOfAll placements ≤ max level scheduler.maxScopeDepth :=
  arranged.induction nesting_cases formed level here

/-! ### Limits that allow for the nesting -/

/-- Readiness does not depend on the limit. -/
theorem splitReady_limit (limit : Nat) (analysis : Analysis) (resolved : List String)
    (pending : List Cluster) :
    { scheduler with maxScopeDepth := limit }.splitReady analysis resolved pending =
      scheduler.splitReady analysis resolved pending := by
  induction pending with
  | nil => rfl
  | cons cluster rest ih =>
      rw [splitReady, splitReady, ih]
      rfl

/-- Whether a way to arrange blocks finds all that another one finds and that nests no deeper than a
limit allows below the level of the block. -/
def Recovers (workflow : Workflow) (limit : Nat)
    (first second : Block → Attempt ScheduleError (List Placement)) : Prop :=
  ∀ {block : Block} {placements : List Placement} {level : Nat}, OnLevel (.ofWorkflow workflow)
    level block.members →
    (first block).outcome = .ok placements → level + nestingOfAll placements ≤ max level limit →
    (second block).outcome = .ok placements

section Recovers

variable {limit level : Nat} {first second : Block → Attempt ScheduleError (List Placement)}
  {block : Block}

theorem placeBodies_of_nesting_le (recovers : Recovers workflow limit first second) {owner : String}
    {names : List String} {bodies : List (String × List Placement)}
    (here : (Index.ofWorkflow workflow).Level ((Index.ofWorkflow workflow).regionOf owner) level)
    (found : (scheduler.placeBodies (.ofWorkflow workflow) first block owner names).outcome =
      .ok bodies)
    (allowed : level + nestingOfBodies bodies ≤ max level limit) :
    ({ scheduler with maxScopeDepth := limit }.placeBodies (.ofWorkflow workflow) second block owner
      names).outcome = .ok bodies := by
  induction names generalizing bodies with
  | nil => exact found
  | cons name rest ih =>
      rw [placeBodies, Attempt.outcome_bind_eq_ok] at found
      obtain ⟨_, checked, found⟩ := found
      obtain ⟨body, arranged, found⟩ := Attempt.outcome_bind_eq_ok.mp found
      obtain ⟨others, placed, found⟩ := Attempt.outcome_bind_eq_ok.mp found
      cases found
      rw [nestingOfBodies] at allowed
      -- the scope itself is one of those that nest
      obtain ⟨depth, known, _⟩ := checkDepth_eq_ok.mp checked
      have deeper := Index.depth_eq_of_level here known
      rw [placeBodies]
      refine Attempt.outcome_bind_eq_ok.mpr ⟨(), checkDepth_eq_ok.mpr ⟨depth, known, ?_⟩, ?_⟩
      · show depth ≤ limit
        omega
      · refine Attempt.outcome_bind_eq_ok.mpr ⟨body, recovers (OnLevel.scope here name) arranged
          (by omega), ?_⟩
        exact Attempt.outcome_bind_eq_ok.mpr ⟨others, ih placed (by omega), rfl⟩

theorem placeCluster_of_nesting_le (recovers : Recovers workflow limit first second)
    {cluster : Cluster} {placement : Placement}
    (here : OnLevel (.ofWorkflow workflow) level cluster.members)
    (found : (scheduler.placeCluster (.ofWorkflow workflow) first block cluster).outcome =
      .ok placement) (allowed : level + placement.nesting ≤ max level limit) :
    ({ scheduler with maxScopeDepth := limit }.placeCluster (.ofWorkflow workflow) second block
      cluster).outcome = .ok placement := by
  have headAt := here.level cluster.head List.mem_cons_self
  rw [placeCluster, Attempt.outcome_bind_eq_ok] at found
  obtain ⟨type, required, found⟩ := found
  obtain ⟨bodies, placed, found⟩ := Attempt.outcome_bind_eq_ok.mp found
  rw [placeCluster]
  refine Attempt.outcome_bind_eq_ok.mpr ⟨type, required,
    Attempt.outcome_bind_eq_ok.mpr ⟨bodies, ?_⟩⟩
  cases arms : cluster.arms with
  | none =>
      rw [arms] at found
      cases found
      exact ⟨placeBodies_of_nesting_le recovers headAt placed allowed, rfl⟩
  | some arms' =>
      rw [arms] at found
      obtain ⟨thenArm, onSuccess, found⟩ := Attempt.outcome_bind_eq_ok.mp found
      obtain ⟨elseArm, onFailure, found⟩ := Attempt.outcome_bind_eq_ok.mp found
      cases found
      rw [nesting] at allowed
      rw [Cluster.members_of_arms arms] at here
      refine ⟨placeBodies_of_nesting_le recovers headAt placed (by omega), ?_⟩
      refine Attempt.outcome_bind_eq_ok.mpr
        ⟨thenArm, recovers here.right.left onSuccess (by omega), ?_⟩
      exact Attempt.outcome_bind_eq_ok.mpr
        ⟨elseArm, recovers here.right.right onFailure (by omega), rfl⟩

theorem placeEach_of_nesting_le (recovers : Recovers workflow limit first second)
    {clusters : List Cluster} {placements : List Placement}
    (here : OnLevel (.ofWorkflow workflow) level (clusters.flatMap Cluster.members))
    (found : (clusters.mapM (scheduler.placeCluster (.ofWorkflow workflow) first block)).outcome =
      .ok placements) (allowed : level + nestingOfAll placements ≤ max level limit) :
    (clusters.mapM
      ({ scheduler with maxScopeDepth := limit }.placeCluster (.ofWorkflow workflow) second
        block)).outcome =
      .ok placements := by
  induction clusters generalizing placements with
  | nil => exact found
  | cons cluster rest ih =>
      rw [List.mapM_cons, Attempt.outcome_bind_eq_ok] at found
      obtain ⟨placement, placed, found⟩ := found
      obtain ⟨others, placedRest, found⟩ := Attempt.outcome_bind_eq_ok.mp found
      cases found
      rw [nestingOfAll] at allowed
      rw [List.flatMap_cons] at here
      rw [List.mapM_cons]
      refine Attempt.outcome_bind_eq_ok.mpr
        ⟨placement, placeCluster_of_nesting_le recovers here.left placed (by omega), ?_⟩
      exact Attempt.outcome_bind_eq_ok.mpr ⟨others, ih here.right placedRest (by omega), rfl⟩

theorem arrangeRounds_of_nesting_le (recovers : Recovers workflow limit first second) {count : Nat}
    {pending : List Cluster} {placements : List Placement}
    (here : OnLevel (.ofWorkflow workflow) level (pending.flatMap Cluster.members))
    (found : (scheduler.arrangeRounds (.ofWorkflow workflow) first count block pending).outcome =
      .ok placements)
    (allowed : level + nestingOfAll placements ≤ max level limit) :
    ({ scheduler with maxScopeDepth := limit }.arrangeRounds (.ofWorkflow workflow) second count
      block pending).outcome = .ok placements := by
  induction count generalizing block pending placements with
  | zero =>
      cases pending with
      | nil => exact found
      | cons => cases found
  | succ count ih =>
      cases pending with
      | nil => exact found
      | cons cluster others =>
          rw [arrangeRounds, Attempt.outcome_bind_eq_ok] at found
          · obtain ⟨⟨ready, waiting⟩, parted, found⟩ := found
            cases ready with
            | nil => cases found
            | cons =>
                obtain ⟨inlined, ordered, found⟩ := Attempt.outcome_bind_eq_ok.mp found
                obtain ⟨placed, each, found⟩ := Attempt.outcome_bind_eq_ok.mp found
                obtain ⟨rest, further, found⟩ := Attempt.outcome_bind_eq_ok.mp found
                cases found
                have parts := here.perm
                  ((splitReady_perm parted).flatMap_right Cluster.members).symm
                rw [List.flatMap_append] at parts
                rw [nestingOfAll_round] at allowed
                have placedToo := placeEach_of_nesting_le recovers parts.left each (by omega)
                have furtherToo := ih parts.right further (by omega)
                rw [arrangeRounds]
                · refine Attempt.outcome_bind_eq_ok.mpr
                    ⟨_, (congrArg _ (splitReady_limit ..)).trans parted, ?_⟩
                  refine Attempt.outcome_bind_eq_ok.mpr ⟨inlined, ordered, ?_⟩
                  refine Attempt.outcome_bind_eq_ok.mpr ⟨placed, placedToo, ?_⟩
                  exact Attempt.outcome_bind_eq_ok.mpr ⟨rest, furtherToo, rfl⟩
                · simp
          · simp

end Recovers

/-- **What is arranged under one limit is arranged under any other one that allows for its
nesting.** -/
theorem arrange_of_nesting_le (limit levels : Nat) :
    Recovers workflow limit (scheduler.arrange (.ofWorkflow workflow) levels)
      ({ scheduler with maxScopeDepth := limit }.arrange (.ofWorkflow workflow) levels) := by
  induction levels with
  | zero => exact fun _ found _ => found
  | succ levels ih =>
      intro block placements level here found allowed
      have same := (@Cluster.ofBlock_perm (.ofWorkflow workflow) block.members here.distinct).symm
      exact arrangeRounds_of_nesting_le ih (here.perm same) found allowed

/-- A plan under one limit is the plan under any other one that allows for its nesting. -/
theorem schedule_of_nesting_le {plan : Plan} {limit : Nat}
    (scheduled : (scheduler.schedule workflow).outcome = .ok plan)
    (allowed : plan.body.nesting ≤ limit) :
    ({ scheduler with maxScopeDepth := limit }.schedule workflow).outcome = .ok plan := by
  unfold schedule at scheduled ⊢
  dsimp only at scheduled ⊢
  split at scheduled
  · cases scheduled
  · obtain ⟨placements, found, scheduled⟩ := Attempt.outcome_bind_eq_ok.mp scheduled
    cases scheduled
    rw [Binding.nesting_plan] at allowed
    refine Attempt.outcome_bind_eq_ok.mpr ⟨placements, ?_, rfl⟩
    exact arrange_of_nesting_le limit _ OnLevel.top found (by omega)

theorem nesting_le_of_schedule {plan : Plan}
    (scheduled : (scheduler.schedule workflow).outcome = .ok plan) :
    plan.body.nesting ≤ scheduler.maxScopeDepth := by
  obtain ⟨placements, arranged, rfl⟩ := exists_arranged scheduled
  have bound := arranged.nesting_le .top OnLevel.top
  rw [Binding.nesting_plan]
  omega

end Scheduler

/-- **The limit on the depth of scopes only rejects.** A lower limit gives a plan exactly if a
higher one gives the same plan and iterations nest no deeper in it than the lower limit. -/
theorem schedule_limit_iff (scheduler : Scheduler) (workflow : Workflow) (plan : Plan)
    {lower higher : Nat} (below : lower ≤ higher) :
    ({ scheduler with maxScopeDepth := lower }.schedule workflow).outcome = .ok plan ↔
      ({ scheduler with maxScopeDepth := higher }.schedule workflow).outcome = .ok plan ∧
      plan.body.nesting ≤ lower := by
  constructor
  · intro scheduled
    have bound : plan.body.nesting ≤ lower := Scheduler.nesting_le_of_schedule scheduled
    exact ⟨@Scheduler.schedule_of_nesting_le { scheduler with maxScopeDepth := lower }
      _ _ _ scheduled (Nat.le_trans bound below), bound⟩
  · rintro ⟨scheduled, bound⟩
    exact @Scheduler.schedule_of_nesting_le { scheduler with maxScopeDepth := higher } _ _ _
      scheduled bound

/-- A loop in an arm of a branch in another loop. One task lives in a scope of nothing, and two
loops live in each other. -/
def loopInLoop : Workflow where
  name := "loop in loop"
  nodeTypes :=
    [.function "Task",
      (NodeType.function "Loop").withPort
        { Port.dataOutput "item" .string with scope := some "body" }]
  instances :=
    [{ id := "m", nodeType := "Loop" },
      { id := "h", nodeType := "Task", parentScope := some ⟨"m", "body"⟩ },
      { id := "x", nodeType := "Task", parentScope := some ⟨"m", "body"⟩ },
      { id := "n", nodeType := "Loop", parentScope := some ⟨"m", "body"⟩ },
      { id := "f", nodeType := "Task", parentScope := some ⟨"n", "body"⟩ },
      { id := "g", nodeType := "Task", parentScope := some ⟨"nowhere", "body"⟩ },
      { id := "p", nodeType := "Loop", parentScope := some ⟨"q", "body"⟩ },
      { id := "q", nodeType := "Loop", parentScope := some ⟨"p", "body"⟩ }]
  connections :=
    [⟨⟨"h", "onSuccess", none⟩, ⟨"x", "execute", none⟩⟩,
      ⟨⟨"h", "onFailure", none⟩, ⟨"n", "execute", none⟩⟩]

theorem schedule_limit_iff_loopInLoop :
    ∃ plan, ({ maxScopeDepth := 2 : Scheduler }.schedule loopInLoop).outcome = .ok plan ∧
      plan.body.nesting = 2 ∧
      ({ maxScopeDepth := 9 : Scheduler }.schedule loopInLoop).outcome = .ok plan ∧
      ({ maxScopeDepth := 1 : Scheduler }.schedule loopInLoop).outcome ≠ .ok plan := by
  obtain ⟨plan, scheduled, nested⟩ := exists_of_toOption_map
    (show ({ maxScopeDepth := 2 : Scheduler }.schedule loopInLoop).outcome.toOption.map
        (·.body.nesting) = some 2 by
      decide +kernel)
  have wider := ((schedule_limit_iff {} loopInLoop plan (by decide : 2 ≤ 9)).mp scheduled).1
  have narrower := schedule_limit_iff {} loopInLoop plan (by decide : 1 ≤ 2)
  refine ⟨plan, scheduled, nested, wider, fun tooDeep => ?_⟩
  have bound := (narrower.mp tooDeep).2
  omega

end WorkflowGraph
