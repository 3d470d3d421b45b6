/-
Leaving out rules.

The main statement is `composable_by_code`: rules do not look at each other, and no two groups
report under one code. So the report under a configuration is the full one without the diagnostics
whose codes belong to groups that are left out. The rule of data flow only warns, so that leaving it
out changes neither whether a workflow can be compiled nor its plan.

* `validateWith_filter` — choosing groups is choosing codes, for whatever condition on the groups.
* `hasErrors_validateWith_ne_dataFlow` — the rule of data flow does not decide whether there are
  errors.
-/

import WorkflowGraph.Compiler
import WorkflowGraph.Proofs.Certified
import WorkflowGraph.Proofs.Report

namespace WorkflowGraph

/-! ### Groups and codes -/

namespace RuleGroup

theorem mem_all (group : RuleGroup) : group ∈ all := by
  cases group <;> decide

/-- Groups are told by their ids. -/
theorem id_injective : Function.Injective RuleGroup.id := by
  have distinct : ∀ first ∈ all, ∀ second ∈ all, first.id = second.id → first = second := by decide
  exact fun first second => distinct first (mem_all first) second (mem_all second)

/-- Of the diagnostics of one group a condition on groups keeps all or none. -/
theorem Owns.filter_group {group : RuleGroup} {diagnostics : List Diagnostic}
    (owns : group.Owns diagnostics) (keep : RuleGroup → Bool) :
    (diagnostics.filter fun diagnostic => keep diagnostic.code.group) =
      if keep group then diagnostics else [] := by
  split
  · rename_i kept
    exact List.filter_eq_self.mpr fun diagnostic member => (owns diagnostic member).symm ▸ kept
  · rename_i left
    exact List.filter_eq_nil_iff.mpr fun diagnostic member => (owns diagnostic member).symm ▸ left

/-- Leaving out one more group takes it from those that are left, wherever its id stands in the
configuration. -/
theorem enabled_insert (group : RuleGroup) (before after : List String) (depth : Nat) :
    enabled ⟨before ++ group.id :: after, depth⟩ =
      (enabled ⟨before ++ after, depth⟩).filter (· ≠ group) := by
  rw [enabled, enabled, List.filter_filter]
  refine congrArg all.filter (funext fun other => ?_)
  have same : other.id = group.id ↔ other = group := id_injective.eq_iff
  simp only [Config.ruleEnabled, List.contains_eq_mem, List.mem_append, List.mem_cons, same]
  by_cases left : other = group <;> simp [left]

end RuleGroup

/-- **The report of the groups that a condition keeps is the part of the report with codes of these
groups**, in the same order. -/
theorem validateWith_filter (groups : List RuleGroup) (keep : RuleGroup → Bool)
    (workflow : Workflow) : (validateWith (groups.filter keep) workflow).diagnostics =
      (validateWith groups workflow).diagnostics.filter fun diagnostic =>
      keep diagnostic.code.group := by
  simp only [validateWith, List.filter_flatMap,
    (RuleGroup.owns_check (.ofWorkflow workflow) _).filter_group keep]
  induction groups with
  | nil => rfl
  | cons group rest ih =>
      rw [List.filter_cons, List.flatMap_cons, ← ih]
      cases keep group <;> rfl

/-! ### The rule of data flow -/

theorem DataFlow.noErrors_check (index : Index) : NoErrors (check index) := by
  have warns {condition : Bool} {code : DiagnosticCode} {message : String} {location : Location} :
      NoErrors (Diagnostic.when condition (.warning code message location)) := by
    cases condition
    · exact .nil
    · exact List.forall_mem_singleton.mpr rfl
  have inst (inst : Instance) : NoErrors (checkInstance index inst) := by
    unfold checkInstance
    dsimp only
    split
    · exact List.forall_mem_singleton.mpr rfl
    · split
      · exact .nil
      · exact List.forall_mem_map.mpr fun _ _ => rfl
  have returned (port : Port) : NoErrors (checkReturn index port) := by
    unfold checkReturn
    dsimp only
    split
    · exact .nil
    · split
      · exact List.forall_mem_singleton.mpr rfl
      · exact .nil
      · exact List.forall_mem_singleton.mpr rfl
  simp [check, warns, inst, returned]

/-- **The rule of data flow does not decide whether there are errors.** -/
theorem hasErrors_validateWith_ne_dataFlow (groups : List RuleGroup) (workflow : Workflow) :
    (validateWith (groups.filter (· ≠ .dataFlow)) workflow).hasErrors =
      (validateWith groups workflow).hasErrors := by
  simp only [validateWith, Report.hasErrors, List.any_flatMap, List.any_filter]
  refine List.any_congr rfl fun group => ?_
  by_cases isDataFlow : group = .dataFlow
  · subst isDataFlow
    have silent : (RuleGroup.dataFlow.check (.ofWorkflow workflow)).any Diagnostic.isError =
        false :=
      List.any_eq_false.mpr fun diagnostic member => by
        rw [DataFlow.noErrors_check _ diagnostic member]
        exact Bool.false_ne_true
    rw [silent, Bool.and_false]
  · simp [isDataFlow]

/-! ### Compilation -/

/-- The plan that compilation gives depends on the configuration through its depth and the presence
of errors only. -/
theorem plan_compile_congr {first second : Config} (predicates : Table Predicate)
    {workflow : Workflow} (depth : first.maxScopeDepth = second.maxScopeDepth)
    (errors : (validateWith (RuleGroup.enabled first) workflow).hasErrors =
      (validateWith (RuleGroup.enabled second) workflow).hasErrors) :
    (compile first predicates workflow).consultations =
      (compile second predicates workflow).consultations ∧
      (compile first predicates workflow).outcome.toOption.map (·.plan) =
        (compile second predicates workflow).outcome.toOption.map (·.plan) := by
  unfold compile
  simp only [errors, depth]
  split
  · exact ⟨rfl, rfl⟩
  · simp only [bind, Attempt.andThen, Attempt.mapError]
    cases (Scheduler.schedule { predicates, maxScopeDepth := second.maxScopeDepth }
      workflow).outcome <;> exact ⟨rfl, rfl⟩

/-- **Rules are composed by the codes of what they report.** No two groups report under one code,
for whatever workflows. The report under a configuration is the full report without the diagnostics
whose codes belong to a group that is left out, in the same order. Leaving out the rule of data
flow, too, changes neither whether the workflow can be compiled nor the plan, nor what is asked of
predicates. -/
theorem composable_by_code (before after : List String) (depth : Nat) (predicates : Table Predicate)
    (workflow : Workflow) :
    (∀ (first second : RuleGroup) (other : Workflow), ∀ found ∈ first.check (.ofWorkflow workflow),
        ∀ foundToo ∈ second.check (.ofWorkflow other), found.code = foundToo.code →
          first = second) ∧
      (validateWith (RuleGroup.enabled ⟨before ++ after, depth⟩) workflow).diagnostics =
        ((validate workflow).diagnostics.filter fun diagnostic =>
          diagnostic.code.group.id ∉ before ++ after) ∧
      (compile ⟨before ++ RuleGroup.dataFlow.id :: after, depth⟩ predicates
        workflow).consultations =
        (compile ⟨before ++ after, depth⟩ predicates workflow).consultations ∧
      (compile ⟨before ++ RuleGroup.dataFlow.id :: after, depth⟩ predicates
        workflow).outcome.toOption.map (·.plan) =
        (compile ⟨before ++ after, depth⟩ predicates workflow).outcome.toOption.map (·.plan) := by
  refine ⟨fun first second other found inFirst foundToo inSecond same => ?_, ?_,
    plan_compile_congr predicates rfl ?_⟩
  · have owned := first.owns_check _ found inFirst
    rw [same, second.owns_check _ foundToo inSecond] at owned
    exact owned.symm
  · rw [RuleGroup.enabled, validateWith_filter]
    simp only [Config.ruleEnabled, List.contains_eq_mem, decide_not, validate]
  · rw [RuleGroup.enabled_insert, hasErrors_validateWith_ne_dataFlow]

/-- A task without the value that it needs, and to which nothing leads. -/
def looseEnds : Workflow where
  name := "loose ends"
  nodeTypes := [(NodeType.function "Task").withInput "in" .string]
  instances := [{ id := "a", nodeType := "Task" }]
  connections := [⟨⟨"a", "onSuccess", none⟩, ⟨"Exit", "onSuccess", none⟩⟩]

theorem composable_by_code_looseEnds :
    (validate looseEnds).diagnostics.map (·.code) = [.missingRequiredInput, .noStartConnections] ∧
      (∃ found ∈ RuleGroup.requiredInputs.check (.ofWorkflow looseEnds),
        found.code = .missingRequiredInput ∧
        ∀ group : RuleGroup, found ∈ group.check (.ofWorkflow looseEnds) →
          .requiredInputs = group) ∧
      (validateWith (RuleGroup.enabled ⟨["required-inputs"], 16⟩) looseEnds).diagnostics =
        ((validate looseEnds).diagnostics.filter fun diagnostic =>
          diagnostic.code.group.id ∉ ["required-inputs"]) ∧
      ∃ plan, plan.instances = ["a"] ∧
        (compile ⟨["required-inputs"], 16⟩ .empty looseEnds).outcome.toOption.map (·.plan) =
          some plan ∧
        (compile ⟨["required-inputs", "data-flow"], 16⟩ .empty looseEnds).outcome.toOption.map
        (·.plan) = some plan := by
  obtain ⟨apart, report, _, plans⟩ := composable_by_code ["required-inputs"] [] 16 .empty looseEnds
  have codes : (RuleGroup.requiredInputs.check (.ofWorkflow looseEnds)).map (·.code) =
      [.missingRequiredInput] := by
    decide +kernel
  obtain ⟨found, member, code⟩ := List.mem_map.mp (codes ▸ List.mem_singleton_self _)
  have compiled : (compile ⟨["required-inputs"], 16⟩ .empty looseEnds).outcome.toOption.map
      (fun compiled => compiled.plan.instances) = some ["a"] := by decide +kernel
  obtain ⟨result, succeeds, runs⟩ := Option.map_eq_some_iff.mp compiled
  have planned : (compile ⟨["required-inputs"], 16⟩ .empty looseEnds).outcome.toOption.map
      (·.plan) = some result.plan := by rw [succeeds, Option.map_some]
  refine ⟨by decide +kernel, ⟨found, member, code, fun group memberToo => ?_⟩, report, result.plan,
    runs, planned, plans.trans planned⟩
  exact apart .requiredInputs group looseEnds found member found memberToo rfl

end WorkflowGraph
