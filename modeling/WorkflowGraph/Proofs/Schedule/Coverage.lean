/-
Which instances a plan runs.

The main statement is `runs_iff_no_expression_around`: a plan of a workflow without errors runs an
instance that is no expression if and only if it lies in no scope of an expression, at whatever
depth. An expression may declare scopes and own instances, but what it owns is never placed:
`hiddenBody_lost` is a workflow without errors whose plan leaves out a function instance.

* `Workflow.Live.ordinary_around`, `Certified.live_of_ordinary` — the live regions are those in no
  scope of an expression.
-/

import WorkflowGraph.Proofs.Schedule.Progress
import WorkflowGraph.Proofs.Schedule.Standing

namespace WorkflowGraph

variable {workflow : Workflow}

/-- A live region lies in scopes of scheduled instances only. -/
theorem Workflow.Live.ordinary_around {region : Region} (live : workflow.Live region)
    {owner : String} (around : (Index.ofWorkflow workflow).Around owner region) :
    (Index.ofWorkflow workflow).isExpression owner = false := by
  obtain ⟨name, within⟩ := around
  induction live with
  | top => cases within
  | @scope holder _ inst type found _ typed plain _ ih =>
      have known : (Index.ofWorkflow workflow).nodeType? holder = some type := by
        rw [Index.nodeType?_ofWorkflow, found, Option.bind_some, typed]
      cases within with
      | refl => simp [Index.isExpression, known, plain]
      | outward further =>
          rw [Index.regionOf_of_find? (Index.find?_ofWorkflow holder ▸ found)] at further
          exact ih further

/-- A region in scopes of scheduled instances only is live, if an instance lives there. -/
theorem Certified.live_of_ordinary (certified : Certified workflow) {inst : Instance}
    (declared : inst ∈ workflow.instances) (ordinary : ∀ owner,
      (Index.ofWorkflow workflow).Around owner inst.parentScope →
      (Index.ofWorkflow workflow).isExpression owner = false) : workflow.Live inst.parentScope := by
  obtain ⟨level, at_, -⟩ := certified.leveled inst declared
  generalize lives : inst.parentScope = region at at_ ordinary ⊢
  induction at_ generalizing inst with
  | top => exact .top
  | @scope owner name _ _ ih =>
      obtain ⟨type, typed, declares⟩ := certified.owned inst declared _ lives
      obtain ⟨holder, found⟩ := Index.find?_of_nodeType? typed
      have holderLives := Index.regionOf_of_find? found
      have plain := ordinary owner ⟨name, .refl _⟩
      rw [Index.find?_ofWorkflow] at found
      have known := typed
      rw [Index.nodeType?_ofWorkflow, found, Option.bind_some] at known
      refine .scope found ?_ known (by simpa [Index.isExpression, typed] using plain) declares
      have outwards : ∀ further, (Index.ofWorkflow workflow).Around further
          ((Index.ofWorkflow workflow).regionOf owner) →
          (Index.ofWorkflow workflow).isExpression further = false := by
        rintro further ⟨scope, within⟩
        exact ordinary further ⟨scope, .outward within⟩
      exact holderLives ▸ ih (List.mem_of_find?_eq_some found) holderLives.symm outwards

/-- **A plan runs an instance that is no expression if and only if it lies in no scope of an
expression.** -/
theorem runs_iff_no_expression_around {scheduler : Scheduler} {plan : Plan}
    (valid : (validate workflow).hasErrors = false)
    (scheduled : (scheduler.schedule workflow).outcome = .ok plan) {inst : Instance}
    (declared : inst ∈ workflow.instances)
    (ordinary : (Index.ofWorkflow workflow).isExpression inst.id = false) :
    inst.id ∈ plan.scheduled ↔ ∀ owner, (Index.ofWorkflow workflow).NestedIn inst.id owner →
      (Index.ofWorkflow workflow).isExpression owner = false := by
  have certified := certified_of_validate valid
  have found := certified.find?_eq declared
  have lives := certified.regionOf_eq declared
  rw [Index.find?_ofWorkflow] at found
  obtain ⟨placements, arranged, rfl⟩ := Scheduler.exists_arranged scheduled
  rw [Plan.scheduled_eq, Binding.placings_plan, (arranged.enumerates .top).mem_iff]
  constructor
  · rintro ⟨top, member, under⟩ owner ⟨name, within⟩
    obtain ⟨⟨first, held, livesTop⟩, plain⟩ := Index.mem_scheduledIn.mp member
    obtain ⟨lower, again, live, _⟩ :=
      Index.live_of_under under (Index.find?_ofWorkflow top ▸ held) (livesTop ▸ .top) plain
    rw [found] at again
    cases again
    exact live.ordinary_around ⟨name, lives ▸ within⟩
  · intro around
    refine Index.exists_under_of_live (certified.live_of_ordinary declared fun owner ⟨name,
      within⟩ => ?_) found
      rfl ordinary
    exact around owner ⟨name, lives ▸ within⟩

theorem runs_iff_no_expression_around_loopAfterBranch :
    ∃ plan, (validate loopAfterBranch).hasErrors = false ∧
      (({} : Scheduler).schedule loopAfterBranch).outcome = .ok plan ∧
      plan.scheduled = ["h", "x", "y", "m", "f"] ∧
      ∀ owner, (Index.ofWorkflow loopAfterBranch).NestedIn "f" owner →
        (Index.ofWorkflow loopAfterBranch).isExpression owner = false := by
  have valid : (validate loopAfterBranch).hasErrors = false := by decide +kernel
  obtain ⟨plan, scheduled, ids⟩ := exists_of_toOption_map
    (show (({} : Scheduler).schedule loopAfterBranch).outcome.toOption.map Plan.scheduled =
      some ["h", "x", "y", "m", "f"] by decide +kernel)
  have runs : "f" ∈ plan.scheduled := ids ▸ by decide
  exact ⟨plan, valid, scheduled, ids,
    (@runs_iff_no_expression_around loopAfterBranch _ plan valid scheduled
    { id := "f", nodeType := "Task", parentScope := some ⟨"m", "body"⟩ } (by decide +kernel)
    (by decide +kernel)).mp runs⟩

/-- A function instance in a scope of an expression. -/
def hiddenBody : Workflow where
  name := "hidden-body"
  nodeTypes :=
    [taskType, ((NodeType.expression "Each").withOutput "out" .string).withPort
      { Port.dataOutput "item" .string with scope := some "body" }]
  instances :=
    [{ id := "e", nodeType := "Each" },
      { id := "g", nodeType := "Task", parentScope := some ⟨"e", "body"⟩ },
      { id := "v", nodeType := "Task" }]
  connections :=
    [⟨⟨"e", "item", none⟩, ⟨"g", "in", none⟩⟩,
      ⟨⟨"e", "out", none⟩, ⟨"v", "in", none⟩⟩]
  scopes := [⟨"e", "body", ["g"]⟩]

/-- **A plan of a workflow without errors may leave out a function instance.** -/
theorem hiddenBody_lost :
    (validate hiddenBody).hasErrors = false ∧
      (∃ inst ∈ hiddenBody.instances, inst.id = "g" ∧
        (Index.ofWorkflow hiddenBody).isExpression inst.id = false) ∧
      ∃ plan, (({} : Scheduler).schedule hiddenBody).outcome = .ok plan ∧ "g" ∉ plan.scheduled := by
  refine ⟨by decide +kernel, by decide +kernel, ?_⟩
  obtain ⟨plan, scheduled, ids⟩ := exists_of_toOption_map
    (show (({} : Scheduler).schedule hiddenBody).outcome.toOption.map Plan.scheduled = some ["v"]
      by decide +kernel)
  exact ⟨plan, scheduled, ids ▸ by decide⟩

end WorkflowGraph
