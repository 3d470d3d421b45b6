/-
What a dry run depends on.

The main statement is `dryRun_eq_of_agree`: a dry run of any plan is decided by the outcomes of the
instances that it runs. Sets of failures that agree on these give the same run and the same returns,
whatever they say of all others, even where a branch is on an instance that has not run. What runs
is a part of the plan, in its order.

* `DryRun.walk_congr` — a walk is the same for failures that agree on all that it meets.
* `DryRun.trace_sublist` — a walk meets instances of the plan, in the order of the plan.
-/

import WorkflowGraph.Proofs.Plan.Trace

namespace WorkflowGraph

namespace DryRun

/-! ### Failures that agree -/

/-- Whether two sets of failures agree on the outcomes of some runs. -/
def Agree (failures others : List String) (steps : List Step) : Prop :=
  ∀ step ∈ steps, others.contains step.node = failures.contains step.node

theorem agree_append {failures others : List String} {first second : List Step} :
    Agree failures others (first ++ second) ↔ Agree failures others first ∧
      Agree failures others second :=
  List.forall_mem_append

theorem agree_cons {failures others : List String} {step : Step} {rest : List Step} :
    Agree failures others (step :: rest) ↔
      others.contains step.node = failures.contains step.node ∧ Agree failures others rest :=
  List.forall_mem_cons

theorem State.run_congr {failures others : List String} {step : Step}
    (agree : others.contains step.node = failures.contains step.node) (state : State) :
    state.run others step = state.run failures step := by
  rw [run, run, agree]

mutual

/-- **A walk is the same for failures that agree on all that it meets.** -/
theorem walk_congr {failures others : List String} {state : State} {node : PlanNode}
    (agree : Agree failures others (trace failures state node)) :
    walk others state node = walk failures state node := by
  cases node with
  | sequence steps => exact walkAll_congr agree
  | parallel branches => exact walkAll_congr agree
  | step s | inlined s => exact State.run_congr (agree_cons.mp agree).1 state
  | branch node condition hoisted thenArm elseArm =>
      -- whether the branch is taken depends on what has run, not on the failures
      rw [trace] at agree
      rw [walk, walk]
      split at agree
      · rename_i fired
        rw [if_pos fired, if_pos fired]
        exact walk_congr agree
      · rename_i idle
        rw [if_neg idle, if_neg idle]
        exact walk_congr agree
  | iteration s bodies =>
      obtain ⟨here, inside⟩ := agree_cons.mp agree
      rw [walk, walk, State.run_congr here]
      exact walkBodies_congr inside

theorem walkAll_congr {failures others : List String} {state : State} {nodes : List PlanNode}
    (agree : Agree failures others (traceAll failures state nodes)) :
    walkAll others state nodes = walkAll failures state nodes := by
  cases nodes with
  | nil => rfl
  | cons node rest =>
      obtain ⟨here, later⟩ := agree_append.mp agree
      rw [walkAll, walkAll, walk_congr here]
      exact walkAll_congr later

theorem walkBodies_congr {failures others : List String} {state : State}
    {bodies : List (ScopeFrame × PlanNode)}
    (agree : Agree failures others (traceBodies failures state bodies)) :
    walkBodies others state bodies = walkBodies failures state bodies := by
  cases bodies with
  | nil => rfl
  | cons entry rest =>
      obtain ⟨frame, body⟩ := entry
      obtain ⟨here, later⟩ := agree_append.mp agree
      rw [walkBodies, walkBodies, walk_congr here]
      exact walkBodies_congr later

end

/-! ### What is met -/

/-- The instances that some nodes run. -/
def ranBy (nodes : List PlanNode) : List String :=
  nodes.filterMap fun node => node.ran?.map (·.node)

theorem ranBy_append (first second : List PlanNode) :
    ranBy (first ++ second) = ranBy first ++ ranBy second :=
  List.filterMap_append

mutual

/-- **A walk meets instances of the plan, in the order of the plan.** -/
theorem trace_sublist (failures : List String) (state : State) (node : PlanNode) :
    ((trace failures state node).map (·.node)).Sublist node.instances := by
  cases node with
  | sequence steps => exact traceAll_sublist failures state steps
  | parallel branches => exact traceAll_sublist failures state branches
  | step s | inlined s => exact .refl _
  | branch node condition hoisted thenArm elseArm =>
      show List.Sublist _ (ranBy (thenArm.walk ++ elseArm.walk))
      rw [trace, ranBy_append]
      split
      · exact (trace_sublist failures state thenArm).trans (List.sublist_append_left _ _)
      · exact (trace_sublist failures state elseArm).trans (List.sublist_append_right _ _)
  | iteration s bodies =>
      exact (traceBodies_sublist failures (state.run failures s) bodies).cons_cons s.node

theorem traceAll_sublist (failures : List String) (state : State) (nodes : List PlanNode) :
    ((traceAll failures state nodes).map (·.node)).Sublist (ranBy (PlanNode.walkAll nodes)) := by
  cases nodes with
  | nil => exact .slnil
  | cons node rest =>
      rw [traceAll, PlanNode.walkAll, List.map_append, ranBy_append]
      exact (trace_sublist failures state node).append (traceAll_sublist failures _ rest)

theorem traceBodies_sublist (failures : List String) (state : State)
    (bodies : List (ScopeFrame × PlanNode)) :
    ((traceBodies failures state bodies).map (·.node)).Sublist
      (ranBy (PlanNode.walkBodies bodies)) := by
  cases bodies with
  | nil => exact .slnil
  | cons entry rest =>
      obtain ⟨frame, body⟩ := entry
      rw [traceBodies, PlanNode.walkBodies, List.map_append, ranBy_append]
      exact (trace_sublist failures state body).append (traceBodies_sublist failures _ rest)

end

end DryRun

/-- **A dry run is decided by the outcomes of what it runs.** Failures that agree on the instances
that are executed give the same run and the same returns, and these instances are a part of the
plan, in its order. -/
theorem dryRun_eq_of_agree (plan : Plan) (failures : List String) :
    (DryRun.ofPlan plan failures).executed.Sublist plan.instances ∧
      ∀ others : List String, (∀ id ∈ (DryRun.ofPlan plan failures).executed, id ∈ others ↔
        id ∈ failures) → DryRun.ofPlan plan others = DryRun.ofPlan plan failures := by
  rw [DryRun.executed_ofPlan]
  refine ⟨DryRun.trace_sublist failures {} plan.body, fun others same => ?_⟩
  have agree : DryRun.Agree failures others (DryRun.trace failures {} plan.body) := by
    intro step met
    rw [Bool.eq_iff_iff, List.contains_iff_mem, List.contains_iff_mem]
    exact same step.node (List.mem_map_of_mem met)
  rw [DryRun.ofPlan, DryRun.ofPlan, DryRun.walk_congr agree]

/-- A run of a task that writes the binding `kept`. -/
def keeper (id : String) : Step :=
  ⟨id, "Task", [], [⟨"out", "kept"⟩]⟩

/-- A task that runs twice and writes one binding each time, once in front of a branch on a task
that never runs and once in a loop behind it. -/
def twiceAroundBranch : Plan where
  workflow := "twice around branch"
  body :=
    .sequence [.step (keeper "a"), .branch "z" "onSuccess" [] (.step (keeper "b"))
      (.step (keeper "c")), .branch "a" "onFailure" [] (.step (keeper "d")) (.sequence []),
      .iteration ⟨"m", "Loop", [], []⟩
        [(⟨"body", [], []⟩, .parallel [.step (keeper "a"), .inlined (keeper "e")])]]
  returns := [⟨"result", [.merged "kept"]⟩, ⟨"failed", [.signal "a" "onFailure"]⟩]

theorem dryRun_eq_of_agree_twiceAroundBranch :
    (DryRun.ofPlan twiceAroundBranch ["a"]).executed = ["a", "c", "d", "m", "a", "e"] ∧
      (DryRun.ofPlan twiceAroundBranch ["a"]).executed.Sublist twiceAroundBranch.instances ∧
      (DryRun.ofPlan twiceAroundBranch ["a"]).returns.get? "result" = some (.string "e.out") ∧
      (DryRun.ofPlan twiceAroundBranch ["a"]).returns.get? "failed" = some (.bool true) ∧
      DryRun.ofPlan twiceAroundBranch ["z", "a", "b"] = DryRun.ofPlan twiceAroundBranch ["a"] := by
  obtain ⟨part, decided⟩ := dryRun_eq_of_agree twiceAroundBranch ["a"]
  exact ⟨by decide +kernel, part, by decide +kernel, by decide +kernel,
    decided ["z", "a", "b"] (by decide +kernel)⟩

end WorkflowGraph
