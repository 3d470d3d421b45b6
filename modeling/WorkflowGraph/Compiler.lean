/-
Compilation: a workflow is validated, and scheduled if validation finds no error.
-/

import WorkflowGraph.Schedule
import WorkflowGraph.Validation

namespace WorkflowGraph

/-- A plan with the warnings that validation gave. -/
structure Compiled where
  plan : Plan
  warnings : List Diagnostic

/-- Why a workflow cannot be compiled. -/
inductive CompileError where
  /-- Validation found errors. -/
  | invalid (workflow : String) (report : Report)
  /-- The workflow cannot be scheduled, though validation found no error. -/
  | unscheduled (error : ScheduleError)

/-- Why a workflow cannot be compiled, in words. -/
def CompileError.message : CompileError → String
  | invalid workflow report =>
    "Workflow '" ++ workflow ++ "' failed validation with " ++ Nat.repr report.errors.length ++
      " error(s)"
  | unscheduled error => "Scheduler defect: " ++ error.message

/-- Compiles a workflow under a configuration, with the predicates that instances may wait for. -/
def compile (config : Config) (predicates : Table Predicate) (workflow : Workflow) :
    Attempt CompileError Compiled :=
  let report := validateWith (RuleGroup.enabled config) workflow
  if report.hasErrors then .fail (.invalid workflow.name report)
  else do
    let scheduler : Scheduler := { predicates, maxScopeDepth := config.maxScopeDepth }
    let plan ← (scheduler.schedule workflow).mapError .unscheduled
    return ⟨plan, report.diagnostics⟩

end WorkflowGraph
