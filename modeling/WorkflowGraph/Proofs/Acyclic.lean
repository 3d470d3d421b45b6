/-
Dependencies run in no circle.

The main statement is `dependencies_acyclic`: in a workflow without errors no instance waits for
itself, through whatever steps, values and scopes. The rule of graph shape reports less than all
circles: those of the steps within one region, and those through which a value runs. With the rules
on scopes in force there are no others, as an edge without a value stays in its region or leads
outwards.

* `Workflow.Precedes` — an instance is finished before another one can be: a connection joins them
  outside of all scopes, or it lives in a scope of the other one.
* `Certified.rank_of_precedes` — ranks rise from what is finished first.
-/

import Mathlib.Logic.Relation
import WorkflowGraph.Proofs.Certified

namespace WorkflowGraph

/-- Whether an instance is finished before another one can be. -/
inductive Workflow.Precedes (workflow : Workflow) : String → String → Prop
  /-- A connection joins two instances through ports outside of all scopes. -/
  | connection {connection : Connection} {source target : Port} :
      connection ∈ workflow.connections →
      connection.source.node ∈ workflow.instances.map (·.id) →
      connection.target.node ∈ workflow.instances.map (·.id) →
      (Index.ofWorkflow workflow).sourcePort connection = some source → source.scope = none →
      (Index.ofWorkflow workflow).targetPort connection = some target → target.scope = none →
      Precedes workflow connection.source.node connection.target.node
  /-- An instance lives in a scope of its owner. -/
  | owner {inst : Instance} {scope : ScopeRef} :
      inst ∈ workflow.instances → inst.parentScope = some scope →
        Precedes workflow inst.id scope.owner

variable {workflow : Workflow}

namespace Certified

/-- **Ranks rise from what is finished first.** -/
theorem rank_of_precedes {rank : String → Nat} (certified : Certified workflow)
    (ranks : Ranks workflow rank) {first second : String}
    (precedes : workflow.Precedes first second) : rank first < rank second := by
  cases precedes with
  | connection member sourceKnown targetKnown atSource sourcePlain atTarget targetPlain =>
      have sourceOrdinary := certified.ordinary_of_named sourceKnown
      have targetOrdinary := certified.ordinary_of_named targetKnown
      exact ranks.connection _ member (isPlain_iff.mpr
        ⟨sourceOrdinary, targetOrdinary, ⟨_, atSource, sourcePlain⟩, ⟨_, atTarget, targetPlain⟩⟩)
  | owner member lives => exact ranks.owner _ member _ lives

theorem rank_of_transGen {rank : String → Nat} (certified : Certified workflow)
    (ranks : Ranks workflow rank) {first second : String}
    (path : Relation.TransGen workflow.Precedes first second) :
    rank first < rank second := by
  induction path with
  | single step => exact certified.rank_of_precedes ranks step
  | tail _ step ih =>
      have last := certified.rank_of_precedes ranks step
      omega

end Certified

/-- **In a workflow without errors no instance waits for itself.** -/
theorem dependencies_acyclic (valid : (validate workflow).hasErrors = false) (id : String) :
    ¬ Relation.TransGen workflow.Precedes id id := by
  intro circle
  have certified := certified_of_validate valid
  obtain ⟨rank, ranks⟩ := certified.ranked
  exact Nat.lt_irrefl _ (certified.rank_of_transGen ranks circle)

/-- A loop that starts after a task and gives a value to another one. Its inside reads from the
first task, too. -/
def loopBetweenTasks : Workflow where
  name := "loop between tasks"
  nodeTypes :=
    [((NodeType.function "Task").withOptionalInput "in" .string).withOutput "out" .string,
      ((NodeType.function "Loop").withPort
        { Port.dataOutput "item" .string with scope := some "body" }).withOutput
        "out" .string]
  instances :=
    [{ id := "a", nodeType := "Task" }, { id := "m", nodeType := "Loop" },
      { id := "f", nodeType := "Task", parentScope := some ⟨"m", "body"⟩ },
      { id := "z", nodeType := "Task" }]
  connections :=
    [⟨⟨"a", "onSuccess", none⟩, ⟨"m", "execute", none⟩⟩, ⟨⟨"a", "out", none⟩, ⟨"f", "in", none⟩⟩,
      ⟨⟨"m", "out", none⟩, ⟨"z", "in", none⟩⟩]
  scopes := [⟨"m", "body", ["f"]⟩]

theorem dependencies_acyclic_loopBetweenTasks :
    (validate loopBetweenTasks).hasErrors = false ∧ loopBetweenTasks.Precedes "a" "f" ∧
      loopBetweenTasks.Precedes "f" "m" ∧ loopBetweenTasks.Precedes "a" "m" ∧
      loopBetweenTasks.Precedes "m" "z" ∧
      ∀ id, ¬ Relation.TransGen loopBetweenTasks.Precedes id id := by
  have valid : (validate loopBetweenTasks).hasErrors = false := by decide +kernel
  have joins : ∀ connection ∈ loopBetweenTasks.connections,
      loopBetweenTasks.Precedes connection.source.node connection.target.node := by
    intro connection member
    have known : ∀ connection ∈ loopBetweenTasks.connections,
        connection.source.node ∈ loopBetweenTasks.instances.map (·.id) ∧
        connection.target.node ∈ loopBetweenTasks.instances.map (·.id) ∧
        (∃ port ∈ (Index.ofWorkflow loopBetweenTasks).sourcePort connection, port.scope = none) ∧
        ∃ port ∈ (Index.ofWorkflow loopBetweenTasks).targetPort connection, port.scope = none := by
      decide +kernel
    obtain ⟨fromKnown, toKnown, ⟨source, atSource, plain⟩, target, atTarget, plainToo⟩ :=
      known connection member
    exact .connection member fromKnown toKnown atSource plain atTarget plainToo
  refine ⟨valid, ?_, ?_, ?_, ?_, dependencies_acyclic valid⟩
  · exact joins ⟨⟨"a", "out", none⟩, ⟨"f", "in", none⟩⟩ (by decide)
  · exact .owner (List.mem_of_elem_eq_true (by decide) :
      ({ id := "f", nodeType := "Task", parentScope := some ⟨"m", "body"⟩ } : Instance) ∈ _) rfl
  · exact joins ⟨⟨"a", "onSuccess", none⟩, ⟨"m", "execute", none⟩⟩ (by decide)
  · exact joins ⟨⟨"m", "out", none⟩, ⟨"z", "in", none⟩⟩ (by decide)

end WorkflowGraph
