/-
Dry runs, one run after the other.

* `DryRun.trace` — the runs that a walk through a plan meets, in order. `walk_eq_after` says that a
  walk is nothing but these runs: the state at any moment is the state after the runs before it.
* `State.hasRun_after`, `outcome_after` — what a state knows of the nodes that ran.
* `exists_of_binding_after`, `binding_after_of_mem` — what a state knows of the merge bindings that
  were written.
* `PlanNode.places` — the runs of a plan, each with the arms of branches and the insides of scopes
  that it lies in.
-/

import Mathlib.Data.List.Induction
import WorkflowGraph.Plan.DryRun
import WorkflowGraph.Proofs.Table

namespace WorkflowGraph.DryRun

/-! ### States -/

namespace State

variable {failures : List String} {state : State}

/-- The state after some runs. -/
def after (failures : List String) (state : State) (steps : List Step) : State :=
  steps.foldl (run failures) state

theorem after_append (failures : List String) (state : State) (first second : List Step) :
    after failures state (first ++ second) = after failures (after failures state first) second :=
  List.foldl_append

theorem after_concat (failures : List String) (state : State) (steps : List Step) (step : Step) :
    after failures state (steps ++ [step]) = (after failures state steps).run failures step :=
  after_append failures state steps [step]

/-- Writing merge bindings does not change what has run. -/
theorem foldl_set (exports : List Export) (value : Export → Json) (state : State) :
    let written := exports.foldl (fun state sent => state.set sent.binding (value sent)) state
    written.outcomes = state.outcomes ∧ written.executed = state.executed := by
  induction exports generalizing state with
  | nil => exact ⟨rfl, rfl⟩
  | cons sent rest ih => exact ih (state.set sent.binding (value sent))

@[simp] theorem run_outcomes (step : Step) :
    (state.run failures step).outcomes =
      state.outcomes.insert step.node (!failures.contains step.node) :=
  (foldl_set step.exports _ _).1

@[simp] theorem run_executed (step : Step) :
    (state.run failures step).executed = state.executed ++ [step.node] :=
  (foldl_set step.exports _ _).2

theorem executed_after (steps : List Step) :
    (after failures state steps).executed = state.executed ++ steps.map (·.node) := by
  induction steps generalizing state with
  | nil => exact (List.append_nil _).symm
  | cons step rest ih =>
      show (after failures (state.run failures step) rest).executed = _
      rw [ih, run_executed, List.map_cons, List.append_assoc, List.singleton_append]

/-- **A node that ran succeeded if it is not among the failures.** -/
theorem outcome_after (steps : List Step) (node : String) :
    (after failures state steps).outcomes.get? node =
      if node ∈ steps.map (·.node) then some (!failures.contains node)
      else state.outcomes.get? node := by
  induction steps generalizing state with
  | nil => rfl
  | cons step rest ih =>
      show (after failures (state.run failures step) rest).outcomes.get? node = _
      rw [ih, run_outcomes, Table.get?_insert, List.map_cons]
      by_cases later : node ∈ rest.map (·.node)
      · rw [if_pos later, if_pos (List.mem_cons_of_mem _ later)]
      · rw [if_neg later]
        by_cases here : node = step.node
        · rw [if_pos here, here, if_pos List.mem_cons_self]
        · rw [if_neg here, if_neg (List.not_mem_cons_of_ne_of_not_mem here later)]

theorem hasRun_after {steps : List Step} {node : String} :
    (after failures {} steps).hasRun node = true ↔ node ∈ steps.map (·.node) := by
  rw [hasRun, Table.contains, outcome_after]
  split
  · rename_i ran
    simp [ran]
  · rename_i idle
    simp [idle, Table.get?, Table.empty]

/-! ### Merge bindings -/

@[simp] theorem set_bindings (binding : String) (value : Json) :
    (state.set binding value).bindings = state.bindings.insert binding value := rfl

/-- A merge binding is written by an export, or was written before. -/
theorem binding_foldl_set {exports : List Export} {value : Export → Json}
    {binding : String} {held : Json}
    (found : (exports.foldl (fun state sent => state.set sent.binding (value sent))
      state).bindings.get? binding = some held) :
    (∃ sent ∈ exports, sent.binding = binding ∧ held = value sent) ∨
      state.bindings.get? binding = some held := by
  induction exports generalizing state with
  | nil => exact .inr found
  | cons sent rest ih =>
      rcases ih found with ⟨other, member, writes, same⟩ | before
      · exact .inl ⟨other, List.mem_cons_of_mem _ member, writes, same⟩
      · rw [set_bindings, Table.get?_insert] at before
        split at before
        · rename_i same
          cases before
          exact .inl ⟨sent, List.mem_cons_self, same.symm, rfl⟩
        · exact .inr before

/-- What has been written stays there, and every export is written. -/
theorem foldl_set_binding {exports : List Export} {value : Export → Json} {binding : String}
    (written : (∃ sent ∈ exports, sent.binding = binding) ∨
      (state.bindings.get? binding).isSome = true) :
    ((exports.foldl (fun state sent => state.set sent.binding (value sent)) state).bindings.get?
      binding).isSome = true := by
  induction exports generalizing state with
  | nil => exact written.resolve_left fun ⟨_, absent, _⟩ => nomatch absent
  | cons sent rest ih =>
      refine ih ?_
      rw [set_bindings, Table.get?_insert]
      by_cases here : binding = sent.binding
      · exact .inr (by simp [here])
      · rw [if_neg here]
        refine written.imp_left fun ⟨other, member, writes⟩ => ⟨other, ?_, writes⟩
        exact (List.mem_cons.mp member).resolve_left fun same => here (same ▸ writes.symm)

/-- **Who wrote a merge binding.** -/
theorem exists_of_binding_after {steps : List Step} {binding : String} {held : Json}
    (found : (after failures {} steps).bindings.get? binding = some held) :
    ∃ step ∈ steps, ∃ sent ∈ step.exports, sent.binding = binding ∧
      held = .string (step.node ++ "." ++ sent.port) := by
  induction steps using List.reverseRecOn with
  | nil => cases found
  | append_singleton steps step ih =>
      rw [after_concat] at found
      rcases binding_foldl_set found with ⟨sent, member, writes, same⟩ | before
      · exact ⟨step, by simp, sent, member, writes, same⟩
      · obtain ⟨earlier, member, rest⟩ := ih before
        exact ⟨earlier, List.mem_append_left _ member, rest⟩

/-- **What was exported can be read.** -/
theorem binding_after_of_mem {steps : List Step} {step : Step} {sent : Export}
    (member : step ∈ steps) (exported : sent ∈ step.exports) :
    ((after failures {} steps).bindings.get? sent.binding).isSome = true := by
  induction steps using List.reverseRecOn with
  | nil => cases member
  | append_singleton steps last ih =>
      rw [after_concat]
      refine foldl_set_binding ?_
      rcases List.mem_append.mp member with earlier | here
      · exact .inr (ih earlier)
      · rw [List.mem_singleton.mp here] at exported
        exact .inl ⟨sent, exported, rfl⟩

end State

/-! ### Traces -/

open State

mutual

/-- The runs that a walk through a node meets, in order. -/
def trace (failures : List String) (state : State) : PlanNode → List Step
  | .sequence steps => traceAll failures state steps
  | .parallel branches => traceAll failures state branches
  | .step s => [s]
  | .inlined s => [s]
  | .branch node condition _ thenArm elseArm =>
    if state.hasFired node condition then trace failures state thenArm
    else trace failures state elseArm
  | .iteration s bodies => s :: traceBodies failures (state.run failures s) bodies

/-- The runs that a walk through several nodes meets. -/
def traceAll (failures : List String) (state : State) : List PlanNode → List Step
  | [] => []
  | node :: rest => trace failures state node ++ traceAll failures (walk failures state node) rest

/-- The runs that a walk through the insides of scopes meets. -/
def traceBodies (failures : List String) (state : State) : List (ScopeFrame × PlanNode) → List Step
  | [] => []
  | (_, body) :: rest =>
      trace failures state body ++ traceBodies failures (walk failures state body) rest

end

mutual

/-- **A walk is the runs of its trace.** -/
theorem walk_eq_after (failures : List String) (state : State) (node : PlanNode) :
    walk failures state node = state.after failures (trace failures state node) := by
  cases node with
  | sequence steps => exact walkAll_eq_after failures state steps
  | parallel branches => exact walkAll_eq_after failures state branches
  | step s | inlined s => rfl
  | branch node condition hoisted thenArm elseArm =>
      rw [walk, trace]
      split
      · exact walk_eq_after failures state thenArm
      · exact walk_eq_after failures state elseArm
  | iteration s bodies =>
      rw [walk, trace]
      exact walkBodies_eq_after failures (state.run failures s) bodies

theorem walkAll_eq_after (failures : List String) (state : State) (nodes : List PlanNode) :
    walkAll failures state nodes = state.after failures (traceAll failures state nodes) := by
  cases nodes with
  | nil => rfl
  | cons node rest =>
      rw [walkAll, traceAll, after_append, ← walk_eq_after failures state node]
      exact walkAll_eq_after failures _ rest

theorem walkBodies_eq_after (failures : List String) (state : State)
    (bodies : List (ScopeFrame × PlanNode)) :
    walkBodies failures state bodies =
      state.after failures (traceBodies failures state bodies) := by
  cases bodies with
  | nil => rfl
  | cons entry rest =>
      obtain ⟨frame, body⟩ := entry
      rw [walkBodies, traceBodies, after_append, ← walk_eq_after failures state body]
      exact walkBodies_eq_after failures _ rest

end

/-- What a dry run executes are the runs that it meets. -/
theorem executed_ofPlan (plan : Plan) (failures : List String) :
    (ofPlan plan failures).executed = (trace failures {} plan.body).map (·.node) := by
  show (walk failures {} plan.body).executed = _
  rw [walk_eq_after, State.executed_after, List.nil_append]

end WorkflowGraph.DryRun

namespace WorkflowGraph

/-! ### Places -/

/-- What a run of a plan lies in. -/
inductive Enclosure where
  /-- An arm of a branch, which runs if the head succeeds or if it fails. -/
  | arm (head : String) (onSuccess : Bool)
  /-- The inside of a scope. -/
  | body (owner name : String)
deriving DecidableEq

/-- Whether a dry run enters an enclosure once it gets there. -/
def Enclosure.isEntered (failures : List String) : Enclosure → Bool
  | arm head onSuccess => failures.contains head != onSuccess
  | body _ _ => true

namespace PlanNode

mutual

/-- The runs of a node that lies in `path`, each with all that it lies in, the innermost first. -/
def places (path : List Enclosure) : PlanNode → List (List Enclosure × Step)
  | .sequence steps => placesOfAll path steps
  | .parallel branches => placesOfAll path branches
  | .step s => [(path, s)]
  | .inlined s => [(path, s)]
  | .branch node _ _ thenArm elseArm =>
    places (.arm node true :: path) thenArm ++ places (.arm node false :: path) elseArm
  | .iteration s bodies => (path, s) :: placesOfBodies path s.node bodies

/-- The runs of several nodes. -/
def placesOfAll (path : List Enclosure) : List PlanNode → List (List Enclosure × Step)
  | [] => []
  | node :: rest => places path node ++ placesOfAll path rest

/-- The runs of the insides of scopes. -/
def placesOfBodies (path : List Enclosure) (owner : String) :
    List (ScopeFrame × PlanNode) → List (List Enclosure × Step)
  | [] => []
  | (frame, body) :: rest =>
    places (.body owner frame.name :: path) body ++ placesOfBodies path owner rest

end

theorem placesOfAll_append (path : List Enclosure) (first second : List PlanNode) :
    placesOfAll path (first ++ second) = placesOfAll path first ++ placesOfAll path second := by
  induction first with
  | nil => rfl
  | cons node rest ih => rw [List.cons_append, placesOfAll, ih, placesOfAll, List.append_assoc]

theorem places_ofBlock (path : List Enclosure) (nodes : List PlanNode) :
    places path (.ofBlock nodes) = placesOfAll path nodes := by
  unfold PlanNode.ofBlock
  split
  · exact (List.append_nil _).symm
  · rfl

end PlanNode

end WorkflowGraph
