/-
The runs of an arrangement as they are bound.

A stage is a run with the merge bindings that are declared when its inputs are bound, and with the
arms of branches and the insides of scopes that it lies in.

* `Binding.stages` — the stages of a placement in the order of the plan. `node_stages` says that
  they are what the placement places.
* `ordered_stages` — a later stage knows all merge bindings of an earlier one.
* `trace_plan`, `places_plan` — the runs of the plan are the stages; a dry run meets those in arms
  that are taken.
-/

import WorkflowGraph.Proofs.Plan.Trace
import WorkflowGraph.Proofs.Schedule.Placement

namespace WorkflowGraph

/-- A run as it is bound. -/
structure Stage where
  node : String
  /-- The merge bindings that are declared by then. -/
  merges : List Merge
  /-- What the run lies in, the innermost first. -/
  path : List Enclosure

/-- The run of a stage. -/
def Stage.step (index : Index) (stage : Stage) : Step :=
  Binding.step index stage.merges stage.node

@[simp] theorem Stage.step_node (index : Index) (stage : Stage) :
    (stage.step index).node = stage.node := rfl

/-- The place of a stage in the plan. -/
def Stage.place (index : Index) (stage : Stage) : List Enclosure × Step :=
  (stage.path, stage.step index)

/-- Whether a stage runs where some instances fail. -/
def Stage.runs (failures : List String) (stage : Stage) : Bool :=
  stage.path.all (Enclosure.isEntered failures)

namespace Binding

variable {index : Index} {path : List Enclosure}

/-! ### Stages -/

mutual

/-- The stages of a place that lies in `path`, where `merges` have been declared before. -/
def stages (index : Index) (path : List Enclosure) (merges : List Merge) : Placement → List Stage
  | .inlined id => [⟨id, merges, path⟩]
  | .node id bodies => ⟨id, merges, path⟩ :: stagesOfBodies index path merges id bodies
  | .branch cluster bodies thenArm elseArm =>
    let merges := merges ++ Merge.declare index merges cluster
    let following := (placeBodies index merges cluster.head bodies).2
    ⟨cluster.head, merges, path⟩ :: (stagesOfBodies index path merges cluster.head bodies ++
      (stagesOfAll index (.arm cluster.head true :: path) following thenArm ++
        stagesOfAll index (.arm cluster.head false :: path) (placeAll index following thenArm).2
          elseArm))
  | .parallel clusters => stagesOfAll index path merges clusters

/-- The stages of several places. -/
def stagesOfAll (index : Index) (path : List Enclosure) (merges : List Merge) :
    List Placement → List Stage
  | [] => []
  | placement :: rest =>
    stages index path merges placement ++
      stagesOfAll index path (place index merges placement).2 rest

/-- The stages of the insides of scopes. -/
def stagesOfBodies (index : Index) (path : List Enclosure) (merges : List Merge) (owner : String) :
    List (String × List Placement) → List Stage
  | [] => []
  | (name, body) :: rest =>
    stagesOfAll index (.body owner name :: path) merges body ++
      stagesOfBodies index path (placeAll index merges body).2 owner rest

end

theorem placeEach_following (index : Index) (merges : List Merge) (placements : List Placement) :
    (placeEach index merges placements).2 = (placeAll index merges placements).2 := by
  induction placements generalizing merges with
  | nil => rfl
  | cons placement rest ih => exact ih _

theorem stagesOfAll_append (merges : List Merge) (first second : List Placement) :
    stagesOfAll index path merges (first ++ second) =
      stagesOfAll index path merges first ++
        stagesOfAll index path (placeAll index merges first).2 second := by
  induction first generalizing merges with
  | nil => rfl
  | cons placement rest ih =>
      rw [List.cons_append, stagesOfAll, ih, stagesOfAll, List.append_assoc]
      rfl

/-- Clusters side by side are bound as if they ran one after the other. -/
theorem stagesOfAll_together (merges : List Merge) (placements : List Placement) :
    stagesOfAll index path merges (Scheduler.together placements) =
      stagesOfAll index path merges placements := by
  unfold Scheduler.together
  split
  · rfl
  · exact List.append_nil _

/-- Expressions declare no merge bindings. -/
theorem placeAll_inlined (index : Index) (merges : List Merge) (ids : List String) :
    (placeAll index merges (ids.map .inlined)).2 = merges := by
  induction ids with
  | nil => rfl
  | cons id rest ih => exact ih

theorem stagesOfAll_inlined (merges : List Merge) (ids : List String) :
    stagesOfAll index path merges (ids.map .inlined) = ids.map fun id => ⟨id, merges, path⟩ := by
  induction ids with
  | nil => rfl
  | cons id rest ih => exact congrArg _ ih

/-- The stages of one round and of all that comes after it. -/
theorem stagesOfAll_round (merges : List Merge) (inlined : List String)
    (placed rest : List Placement) :
    ∃ further, stagesOfAll index path merges
        (inlined.map .inlined ++ Scheduler.together placed ++ rest) =
      inlined.map (fun id => ⟨id, merges, path⟩) ++ stagesOfAll index path merges placed ++
        stagesOfAll index path further rest := by
  rw [stagesOfAll_append, stagesOfAll_append, stagesOfAll_inlined, stagesOfAll_together,
    placeAll_inlined]
  exact ⟨_, rfl⟩

/-- The stages of several places are those of each of them. -/
theorem exists_of_mem_stagesOfAll {merges : List Merge} {placements : List Placement}
    {stage : Stage} (member : stage ∈ stagesOfAll index path merges placements) :
    ∃ placement ∈ placements, ∃ before, stage ∈ stages index path before placement := by
  induction placements generalizing merges with
  | nil => cases member
  | cons placement rest ih =>
      rcases List.mem_append.mp member with here | later
      · exact ⟨placement, List.mem_cons_self, merges, here⟩
      · obtain ⟨other, among, before, there⟩ := ih later
        exact ⟨other, List.mem_cons_of_mem _ among, before, there⟩

/-- The stages of the insides of scopes are those of each of them. -/
theorem exists_of_mem_stagesOfBodies {merges : List Merge} {owner : String}
    {bodies : List (String × List Placement)} {stage : Stage}
    (member : stage ∈ stagesOfBodies index path merges owner bodies) :
    ∃ entry ∈ bodies, ∃ before,
      stage ∈ stagesOfAll index (.body owner entry.1 :: path) before entry.2 := by
  induction bodies generalizing merges with
  | nil => cases member
  | cons entry rest ih =>
      rcases List.mem_append.mp member with here | later
      · exact ⟨entry, List.mem_cons_self, merges, here⟩
      · obtain ⟨other, among, before, there⟩ := ih later
        exact ⟨other, List.mem_cons_of_mem _ among, before, there⟩

theorem stages_of_mem {placement : Placement} {placements : List Placement}
    (member : placement ∈ placements) (path : List Enclosure) (merges : List Merge) :
    ∃ following, stages index path following placement ⊆
      stagesOfAll index path merges placements := by
  obtain ⟨before, after, rfl⟩ := List.append_of_mem member
  refine ⟨(placeAll index merges before).2, ?_⟩
  rw [stagesOfAll_append, stagesOfAll]
  exact List.subset_append_of_subset_right _ (List.subset_append_left _ _)

/-! ### Merge bindings only grow -/

mutual

theorem grows_place (index : Index) (merges : List Merge) (placement : Placement) :
    merges <+: (place index merges placement).2 := by
  cases placement with
  | inlined id => exact List.prefix_rfl
  | node id bodies => exact grows_placeBodies index merges id bodies
  | branch cluster bodies thenArm elseArm =>
      have declared := List.prefix_append merges (Merge.declare index merges cluster)
      exact ((declared.trans (grows_placeBodies index _ cluster.head bodies)).trans
        (grows_placeAll index _ thenArm)).trans (grows_placeAll index _ elseArm)
  | parallel clusters =>
      show merges <+: (placeEach index merges clusters).2
      rw [placeEach_following]
      exact grows_placeAll index merges clusters

theorem grows_placeAll (index : Index) (merges : List Merge) (placements : List Placement) :
    merges <+: (placeAll index merges placements).2 := by
  cases placements with
  | nil => exact List.prefix_rfl
  | cons placement rest =>
      exact (grows_place index merges placement).trans (grows_placeAll index _ rest)

theorem grows_placeBodies (index : Index) (merges : List Merge) (owner : String)
    (bodies : List (String × List Placement)) :
    merges <+: (placeBodies index merges owner bodies).2 := by
  cases bodies with
  | nil => exact List.prefix_rfl
  | cons entry rest =>
      obtain ⟨name, body⟩ := entry
      exact (grows_placeAll index merges body).trans (grows_placeBodies index _ owner rest)

end

mutual

/-- What is declared before a placement is declared at its stages, and what is declared at a stage
stays declared. -/
theorem merges_of_mem_stages {path : List Enclosure} {merges : List Merge} {placement : Placement}
    {stage : Stage} (member : stage ∈ stages index path merges placement) :
    merges <+: stage.merges ∧ stage.merges <+: (place index merges placement).2 := by
  cases placement with
  | inlined id =>
      rw [List.mem_singleton.mp member]
      exact ⟨List.prefix_rfl, List.prefix_rfl⟩
  | node id bodies =>
      rcases List.mem_cons.mp member with rfl | inside
      · exact ⟨List.prefix_rfl, grows_placeBodies index merges id bodies⟩
      · exact merges_of_mem_stagesOfBodies inside
  | branch cluster bodies thenArm elseArm =>
      have declared := List.prefix_append merges (Merge.declare index merges cluster)
      have toArms := declared.trans (grows_placeBodies index _ cluster.head bodies)
      have afterBodies := (grows_placeAll index (placeBodies index
        (merges ++ Merge.declare index merges cluster) cluster.head bodies).2 thenArm).trans
        (grows_placeAll index _ elseArm)
      rcases List.mem_cons.mp member with rfl | below
      · exact ⟨declared, (grows_placeBodies index _ cluster.head bodies).trans afterBodies⟩
      · rcases List.mem_append.mp below with inside | inArms
        · obtain ⟨lower, upper⟩ := merges_of_mem_stagesOfBodies inside
          exact ⟨declared.trans lower, upper.trans afterBodies⟩
        · rcases List.mem_append.mp inArms with inThen | inElse
          · obtain ⟨lower, upper⟩ := merges_of_mem_stagesOfAll inThen
            exact ⟨toArms.trans lower, upper.trans (grows_placeAll index _ elseArm)⟩
          · obtain ⟨lower, upper⟩ := merges_of_mem_stagesOfAll inElse
            exact ⟨(toArms.trans (grows_placeAll index _ thenArm)).trans lower, upper⟩
  | parallel clusters =>
      show merges <+: stage.merges ∧ stage.merges <+: (placeEach index merges clusters).2
      rw [placeEach_following]
      exact merges_of_mem_stagesOfAll member

theorem merges_of_mem_stagesOfAll {path : List Enclosure} {merges : List Merge}
    {placements : List Placement} {stage : Stage}
    (member : stage ∈ stagesOfAll index path merges placements) :
    merges <+: stage.merges ∧ stage.merges <+: (placeAll index merges placements).2 := by
  cases placements with
  | nil => cases member
  | cons placement rest =>
      rcases List.mem_append.mp member with here | later
      · obtain ⟨lower, upper⟩ := merges_of_mem_stages here
        exact ⟨lower, upper.trans (grows_placeAll index _ rest)⟩
      · obtain ⟨lower, upper⟩ := merges_of_mem_stagesOfAll later
        exact ⟨(grows_place index merges placement).trans lower, upper⟩

theorem merges_of_mem_stagesOfBodies {path : List Enclosure} {merges : List Merge} {owner : String}
    {bodies : List (String × List Placement)} {stage : Stage}
    (member : stage ∈ stagesOfBodies index path merges owner bodies) :
    merges <+: stage.merges ∧ stage.merges <+: (placeBodies index merges owner bodies).2 := by
  cases bodies with
  | nil => cases member
  | cons entry rest =>
      obtain ⟨name, body⟩ := entry
      rcases List.mem_append.mp member with here | later
      · obtain ⟨lower, upper⟩ := merges_of_mem_stagesOfAll here
        exact ⟨lower, upper.trans (grows_placeBodies index _ owner rest)⟩
      · obtain ⟨lower, upper⟩ := merges_of_mem_stagesOfBodies later
        exact ⟨(grows_placeAll index merges body).trans lower, upper⟩

end

/-- Whether later stages know all merge bindings of earlier ones. -/
def Ordered (stages : List Stage) : Prop :=
  stages.Pairwise fun earlier later => earlier.merges <+: later.merges

theorem Ordered.append {first second : List Stage} {middle : List Merge} (one : Ordered first)
    (other : Ordered second) (upper : ∀ stage ∈ first, stage.merges <+: middle)
    (lower : ∀ stage ∈ second, middle <+: stage.merges) : Ordered (first ++ second) :=
  List.pairwise_append.mpr ⟨one, other, fun earlier inFirst later inSecond =>
    (upper earlier inFirst).trans (lower later inSecond)⟩

mutual

/-- **A later stage knows all merge bindings of an earlier one.** -/
theorem ordered_stages (path : List Enclosure) (merges : List Merge) (placement : Placement) :
    Ordered (stages index path merges placement) := by
  cases placement with
  | inlined id => exact List.pairwise_singleton _ _
  | node id bodies =>
      refine List.pairwise_cons.mpr ⟨fun stage inside =>
        ?_, ordered_stagesOfBodies path merges id bodies⟩
      exact (merges_of_mem_stagesOfBodies inside).1
  | branch cluster bodies thenArm elseArm =>
      have inBodies := ordered_stagesOfBodies path (merges ++ Merge.declare index merges cluster)
        cluster.head bodies
      have bounds := fun stage => @merges_of_mem_stagesOfBodies index path
        (merges ++ Merge.declare index merges cluster) cluster.head bodies stage
      have toArms := grows_placeBodies index (merges ++ Merge.declare index merges cluster)
        cluster.head bodies
      rw [stages]
      generalize (placeBodies index (merges ++ Merge.declare index merges cluster)
        cluster.head bodies).2 = following at bounds toArms ⊢
      have inArms := (ordered_stagesOfAll (.arm cluster.head true :: path) following thenArm).append
        (ordered_stagesOfAll (.arm cluster.head false :: path) _ elseArm)
        (fun _ inThen => (merges_of_mem_stagesOfAll inThen).2)
        fun _ inElse => (merges_of_mem_stagesOfAll inElse).1
      have above : ∀ stage ∈ stagesOfAll index (.arm cluster.head true :: path) following thenArm ++
          stagesOfAll index (.arm cluster.head false :: path) (placeAll index following thenArm).2
          elseArm, following <+: stage.merges := by
        intro stage inArms
        rcases List.mem_append.mp inArms with inThen | inElse
        · exact (merges_of_mem_stagesOfAll inThen).1
        · exact (grows_placeAll index following thenArm).trans (merges_of_mem_stagesOfAll inElse).1
      refine List.pairwise_cons.mpr ⟨fun stage below => ?_,
        inBodies.append inArms (fun stage inside => (bounds stage inside).2) above⟩
      exact (List.mem_append.mp below).elim (fun inside => (bounds stage inside).1)
        fun inArms => toArms.trans (above stage inArms)
  | parallel clusters => exact ordered_stagesOfAll path merges clusters

theorem ordered_stagesOfAll (path : List Enclosure) (merges : List Merge)
    (placements : List Placement) :
    Ordered (stagesOfAll index path merges placements) := by
  cases placements with
  | nil => exact List.Pairwise.nil
  | cons placement rest =>
      exact (ordered_stages path merges placement).append (ordered_stagesOfAll path _ rest)
        (fun _ here => (merges_of_mem_stages here).2) fun _ later =>
        (merges_of_mem_stagesOfAll later).1

theorem ordered_stagesOfBodies (path : List Enclosure) (merges : List Merge) (owner : String)
    (bodies : List (String × List Placement)) :
    Ordered (stagesOfBodies index path merges owner bodies) := by
  cases bodies with
  | nil => exact List.Pairwise.nil
  | cons entry rest =>
      obtain ⟨name, body⟩ := entry
      exact (ordered_stagesOfAll _ merges body).append (ordered_stagesOfBodies path _ owner rest)
        (fun _ here => (merges_of_mem_stagesOfAll here).2) fun _ later =>
        (merges_of_mem_stagesOfBodies later).1

end

/-! ### Enclosures -/

mutual

/-- The stages of a placement lie in all that the placement lies in. -/
theorem path_of_mem_stages {path : List Enclosure} {merges : List Merge} {placement : Placement}
    {stage : Stage} (member : stage ∈ stages index path merges placement) :
    path <:+ stage.path := by
  cases placement with
  | inlined id =>
      obtain rfl := List.mem_singleton.mp member
      exact List.suffix_rfl
  | node id bodies =>
      rcases List.mem_cons.mp member with rfl | inside
      · exact List.suffix_rfl
      · exact path_of_mem_stagesOfBodies inside
  | branch cluster bodies thenArm elseArm =>
      rcases List.mem_cons.mp member with rfl | below
      · exact List.suffix_rfl
      · rcases List.mem_append.mp below with inside | inArms
        · exact path_of_mem_stagesOfBodies inside
        · rcases List.mem_append.mp inArms with inThen | inElse
          · exact (List.suffix_cons _ _).trans (path_of_mem_stagesOfAll inThen)
          · exact (List.suffix_cons _ _).trans (path_of_mem_stagesOfAll inElse)
  | parallel clusters => exact path_of_mem_stagesOfAll member

theorem path_of_mem_stagesOfAll {path : List Enclosure} {merges : List Merge}
    {placements : List Placement} {stage : Stage}
    (member : stage ∈ stagesOfAll index path merges placements) : path <:+ stage.path := by
  cases placements with
  | nil => cases member
  | cons placement rest =>
      rcases List.mem_append.mp member with here | later
      · exact path_of_mem_stages here
      · exact path_of_mem_stagesOfAll later

theorem path_of_mem_stagesOfBodies {path : List Enclosure} {merges : List Merge} {owner : String}
    {bodies : List (String × List Placement)} {stage : Stage}
    (member : stage ∈ stagesOfBodies index path merges owner bodies) : path <:+ stage.path := by
  cases bodies with
  | nil => cases member
  | cons entry rest =>
      obtain ⟨name, body⟩ := entry
      rcases List.mem_append.mp member with here | later
      · exact (List.suffix_cons _ _).trans (path_of_mem_stagesOfAll here)
      · exact path_of_mem_stagesOfBodies later

end

end Binding

/-- The id of an instance that is placed. -/
def Placing.id : Placing → String
  | inlined id | step id | iteration id _ => id

@[simp] theorem Placing.run_id (id : String) (scopes : List String) : (run id scopes).id = id := by
  cases scopes <;> rfl

namespace Binding

open Placement

variable {index : Index}

mutual

/-- The stages of a placement are what it places. -/
theorem node_stages (path : List Enclosure) (merges : List Merge) (placement : Placement) :
    (stages index path merges placement).map (·.node) = placement.placings.map Placing.id := by
  cases placement with
  | inlined id => rfl
  | node id bodies =>
      simp only [stages, placings, List.map_cons, node_stagesOfBodies, Placing.run_id]
  | branch cluster bodies thenArm elseArm =>
      simp only [stages, placings, List.map_cons, List.map_append, Placing.run_id,
        node_stagesOfBodies, node_stagesOfAll]
  | parallel clusters => exact node_stagesOfAll path merges clusters

theorem node_stagesOfAll (path : List Enclosure) (merges : List Merge)
    (placements : List Placement) : (stagesOfAll index path merges placements).map (·.node) =
      (placingsOfAll placements).map Placing.id := by
  cases placements with
  | nil => rfl
  | cons placement rest =>
      simp only [stagesOfAll, placingsOfAll, List.map_append, node_stages, node_stagesOfAll]

theorem node_stagesOfBodies (path : List Enclosure) (merges : List Merge) (owner : String)
    (bodies : List (String × List Placement)) :
    (stagesOfBodies index path merges owner bodies).map (·.node) =
      (placingsOfBodies bodies).map Placing.id := by
  cases bodies with
  | nil => rfl
  | cons entry rest =>
      obtain ⟨name, body⟩ := entry
      simp only [stagesOfBodies, placingsOfBodies, List.map_append, node_stagesOfAll,
        node_stagesOfBodies]

end

/-! ### Dry runs -/

open DryRun DryRun.State

variable {failures : List String}

theorem traceAll_append (state : State) (first second : List PlanNode) :
    traceAll failures state (first ++ second) =
      traceAll failures state first ++ traceAll failures (walkAll failures state first) second := by
  induction first generalizing state with
  | nil => rfl
  | cons node rest ih => rw [List.cons_append, traceAll, ih, traceAll, List.append_assoc, walkAll]

theorem trace_ofBlock (state : State) (nodes : List PlanNode) :
    trace failures state (.ofBlock nodes) = traceAll failures state nodes := by
  unfold PlanNode.ofBlock
  split
  · exact (List.append_nil _).symm
  · rfl

theorem trace_runNode (state : State) (step : Step) (bodies : List (ScopeFrame × PlanNode)) :
    trace failures state (runNode step bodies) =
      step :: traceBodies failures (state.run failures step) bodies := by
  cases bodies <;> rfl

theorem places_runNode (path : List Enclosure) (step : Step)
    (bodies : List (ScopeFrame × PlanNode)) :
    PlanNode.places path (runNode step bodies) =
      (path, step) :: PlanNode.placesOfBodies path step.node bodies := by
  cases bodies <;> rfl

/-- A branch behind a run of its head takes the arm that the failures choose. -/
theorem hasFired_success {state : State} {steps : List Step} {head : String}
    (ordinary : head ≠ startId) (ran : head ∈ steps.map (·.node)) :
    (after failures state steps).hasFired head Port.successName = !failures.contains head := by
  rw [hasFired, if_neg ordinary, outcome_after, if_pos ran]
  cases failures.contains head <;> rfl

theorem filter_runs_cons {stage : Stage}
    (taken : stage.path.all (Enclosure.isEntered failures) = true) (rest : List Stage) :
    (stage :: rest).filter (Stage.runs failures) = stage :: rest.filter (Stage.runs failures) :=
  List.filter_cons_of_pos taken

/-- The stages in an arm that is not taken do not run. -/
theorem filter_runs_eq_nil {path : List Enclosure}
    (idle : path.all (Enclosure.isEntered failures) = false) (merges : List Merge)
    (placements : List Placement) :
    (stagesOfAll index path merges placements).filter (Stage.runs failures) = [] := by
  refine List.filter_eq_nil_iff.mpr fun stage member runs => ?_
  obtain ⟨enclosure, around, closed⟩ := List.all_eq_false.mp idle
  exact closed (List.all_eq_true.mp runs enclosure ((path_of_mem_stagesOfAll member).subset around))

mutual

theorem trace_place {path : List Enclosure} (taken : path.all (Enclosure.isEntered failures) = true)
    (merges : List Merge) (state : State) (placement : Placement)
    (ordinary : ∀ id ∈ Placing.scheduled placement.placings, id ≠ startId) :
    traceAll failures state (place index merges placement).1 =
      ((stages index path merges placement).filter (Stage.runs failures)).map
      (Stage.step index) := by
  cases placement with
  | inlined id =>
      rw [stages, filter_runs_cons taken]
      rfl
  | node id bodies =>
      rw [placings, Placing.scheduled_cons_run] at ordinary
      have inside := fun id member => ordinary id (List.mem_cons_of_mem _ member)
      rw [place, traceAll, traceAll, List.append_nil, trace_runNode,
        trace_placeBodies taken _ _ _ bodies inside, stages, filter_runs_cons taken]
      rfl
  | branch cluster bodies thenArm elseArm =>
      rw [placings, Placing.scheduled_cons_run, Placing.scheduled_append, Placing.scheduled_append,
        List.forall_mem_cons, List.forall_mem_append, List.forall_mem_append] at ordinary
      obtain ⟨headOrdinary, inBodies, inThen, inElse⟩ := ordinary
      have fired := fun (steps : List Step) ran =>
        @hasFired_success failures state steps cluster.head headOrdinary ran
      rw [place, traceAll, traceAll, traceAll, List.append_nil, walk_eq_after, trace_runNode,
        trace_placeBodies taken _ _ _ bodies inBodies, trace, fired _ (by simp [step]),
        trace_ofBlock,
        trace_ofBlock, stages, filter_runs_cons taken, List.filter_append, List.filter_append]
      by_cases fails : failures.contains cluster.head = true
      · have onFailure : (.arm cluster.head false :: path).all (Enclosure.isEntered failures) =
            true := by
          rw [List.all_cons, taken, Enclosure.isEntered, fails]
          rfl
        have idle : (.arm cluster.head true :: path).all (Enclosure.isEntered failures) =
            false := by
          rw [List.all_cons, Enclosure.isEntered, fails]
          rfl
        rw [filter_runs_eq_nil idle, trace_placeAll onFailure _ _ elseArm inElse, fails]
        simp [Stage.step]
      · rw [Bool.not_eq_true] at fails
        have onSuccess : (.arm cluster.head true :: path).all (Enclosure.isEntered failures) =
            true := by
          rw [List.all_cons, taken, Enclosure.isEntered, fails]
          rfl
        have idle : (.arm cluster.head false :: path).all (Enclosure.isEntered failures) =
            false := by
          rw [List.all_cons, Enclosure.isEntered, fails]
          rfl
        rw [filter_runs_eq_nil idle, trace_placeAll onSuccess _ _ thenArm inThen, fails]
        simp [Stage.step]
  | parallel clusters =>
      rw [place, traceAll, traceAll, List.append_nil, trace]
      exact trace_placeEach taken merges state clusters ordinary

theorem trace_placeAll {path : List Enclosure}
    (taken : path.all (Enclosure.isEntered failures) = true) (merges : List Merge) (state : State)
    (placements : List Placement)
    (ordinary : ∀ id ∈ Placing.scheduled (placingsOfAll placements), id ≠ startId) :
    traceAll failures state (placeAll index merges placements).1 =
      ((stagesOfAll index path merges placements).filter (Stage.runs failures)).map
      (Stage.step index) := by
  cases placements with
  | nil => rfl
  | cons placement rest =>
      rw [placingsOfAll, Placing.scheduled_append, List.forall_mem_append] at ordinary
      rw [placeAll, traceAll_append, trace_place taken _ _ _ ordinary.1,
        trace_placeAll taken _ _ _ ordinary.2, ← List.map_append, ← List.filter_append]
      rfl

theorem trace_placeEach {path : List Enclosure}
    (taken : path.all (Enclosure.isEntered failures) = true) (merges : List Merge) (state : State)
    (placements : List Placement)
    (ordinary : ∀ id ∈ Placing.scheduled (placingsOfAll placements), id ≠ startId) :
    traceAll failures state (placeEach index merges placements).1 =
      ((stagesOfAll index path merges placements).filter (Stage.runs failures)).map
      (Stage.step index) := by
  cases placements with
  | nil => rfl
  | cons placement rest =>
      rw [placingsOfAll, Placing.scheduled_append, List.forall_mem_append] at ordinary
      rw [placeEach, traceAll, trace_ofBlock, trace_place taken _ _ _ ordinary.1,
        trace_placeEach taken _ _ _ ordinary.2, ← List.map_append, ← List.filter_append]
      rfl

theorem trace_placeBodies {path : List Enclosure}
    (taken : path.all (Enclosure.isEntered failures) = true) (merges : List Merge) (state : State)
    (owner : String) (bodies : List (String × List Placement))
    (ordinary : ∀ id ∈ Placing.scheduled (placingsOfBodies bodies), id ≠ startId) :
    traceBodies failures state (placeBodies index merges owner bodies).1 =
      ((stagesOfBodies index path merges owner bodies).filter (Stage.runs failures)).map
        (Stage.step index) := by
  cases bodies with
  | nil => rfl
  | cons entry rest =>
      obtain ⟨name, body⟩ := entry
      rw [placingsOfBodies, Placing.scheduled_append, List.forall_mem_append] at ordinary
      have entered : (.body owner name :: path).all (Enclosure.isEntered failures) = true := taken
      rw [placeBodies, traceBodies, trace_ofBlock, trace_placeAll entered _ _ _ ordinary.1,
        trace_placeBodies taken _ _ _ _ ordinary.2, ← List.map_append, ← List.filter_append]
      rfl

end

open PlanNode

mutual

theorem places_place (path : List Enclosure) (merges : List Merge) (placement : Placement) :
    placesOfAll path (place index merges placement).1 =
      (stages index path merges placement).map (Stage.place index) := by
  cases placement with
  | inlined id => rfl
  | node id bodies =>
      rw [place, placesOfAll, placesOfAll, List.append_nil, places_runNode, stages, List.map_cons]
      exact congrArg _ (places_placeBodies path merges id bodies)
  | branch cluster bodies thenArm elseArm =>
      rw [place, placesOfAll, placesOfAll, placesOfAll, List.append_nil, places_runNode, places,
        places_ofBlock,
        places_ofBlock, places_placeAll, places_placeAll, stages, List.map_cons, List.map_append,
        List.map_append, ← places_placeBodies]
      rfl
  | parallel clusters =>
      rw [place, placesOfAll, placesOfAll, List.append_nil, places]
      exact places_placeEach path merges clusters

theorem places_placeAll (path : List Enclosure) (merges : List Merge)
    (placements : List Placement) :
    placesOfAll path (placeAll index merges placements).1 =
      (stagesOfAll index path merges placements).map (Stage.place index) := by
  cases placements with
  | nil => rfl
  | cons placement rest =>
      rw [placeAll, placesOfAll_append, places_place, places_placeAll, ← List.map_append]
      rfl

theorem places_placeEach (path : List Enclosure) (merges : List Merge)
    (placements : List Placement) :
    placesOfAll path (placeEach index merges placements).1 =
      (stagesOfAll index path merges placements).map (Stage.place index) := by
  cases placements with
  | nil => rfl
  | cons placement rest =>
      rw [placeEach, placesOfAll, places_ofBlock, places_place, places_placeEach, ← List.map_append]
      rfl

theorem places_placeBodies (path : List Enclosure) (merges : List Merge) (owner : String)
    (bodies : List (String × List Placement)) :
    placesOfBodies path owner (placeBodies index merges owner bodies).1 =
      (stagesOfBodies index path merges owner bodies).map (Stage.place index) := by
  cases bodies with
  | nil => rfl
  | cons entry rest =>
      obtain ⟨name, body⟩ := entry
      rw [placeBodies, placesOfBodies, places_ofBlock, places_placeAll,
        places_placeBodies, ← List.map_append]
      rfl

end

/-- **The runs of a plan are the stages.** -/
theorem places_plan (placements : List Placement) :
    places [] (plan index placements).body =
      (stagesOfAll index [] [] placements).map (Stage.place index) :=
  (places_ofBlock [] _).trans (places_placeAll [] [] placements)

/-- **A dry run meets the stages in arms that are taken.** -/
theorem trace_plan (placements : List Placement) (state : State)
    (ordinary : ∀ id ∈ Placing.scheduled (placingsOfAll placements), id ≠ startId) :
    trace failures state (plan index placements).body =
      ((stagesOfAll index [] [] placements).filter (Stage.runs failures)).map (Stage.step index) :=
  (trace_ofBlock state _).trans (trace_placeAll rfl [] state placements ordinary)

end Binding

end WorkflowGraph
