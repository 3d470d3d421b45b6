/-
What the rule of graph shape reports.

The main statement is `step_cycle_reported_iff`: for any workflow, with errors or without, the rule
reports a circle of control exactly if there is one, and what it lists is such a circle. Nodes of
the boundary are on no circle, even where an instance has the id of one.

* `Workflow.StepsTo` — control leads from an instance to another one of its region, outside of all
  scopes.
* `stepsTo_of_mem_stepGraph`, `exists_mem_stepGraph` — the step graph has the edges that it should
  have.
* `GraphShape.mem_check_cycleDetected` — the circles of control that are reported are those that the
  search finds.
-/

import Mathlib.Data.List.Chain
import Mathlib.Logic.Relation
import WorkflowGraph.Proofs.Certified

namespace WorkflowGraph

/-- Whether control leads from one instance to another: a connection that carries control joins them
within one region, through ports outside of all scopes. -/
inductive Workflow.StepsTo (workflow : Workflow) : String → String → Prop
  | connection {connection : Connection} {source target : Port} :
      connection ∈ workflow.connections →
      connection.source.node ∈ workflow.instances.map (·.id) →
      connection.target.node ∈ workflow.instances.map (·.id) →
      (Index.ofWorkflow workflow).regionOf connection.source.node =
        (Index.ofWorkflow workflow).regionOf connection.target.node →
      (Index.ofWorkflow workflow).sourcePort connection = some source → source.isStep = true →
        source.scope = none →
      (Index.ofWorkflow workflow).targetPort connection = some target → target.scope = none →
      StepsTo workflow connection.source.node connection.target.node

/-- Whether nodes are a circle of control: each leads to the next, the first one stands again at the
end, and no other is met twice. -/
def Workflow.StepCircle (workflow : Workflow) (nodes : List String) : Prop :=
  ∃ first rest, nodes = first :: rest ++ [first] ∧ (first :: rest).Nodup ∧
    nodes.IsChain workflow.StepsTo

/-! ### Closed walks -/

theorem transGen_of_isChain {Rel : String → String → Prop} {first last : String}
    {middle : List String} (chain : (first :: middle ++ [last]).IsChain Rel) :
    Relation.TransGen Rel first last := by
  induction middle generalizing first with
  | nil => exact .single (List.isChain_cons_cons.mp chain).1
  | cons next rest ih =>
      obtain ⟨step, later⟩ := List.isChain_cons_cons.mp chain
      exact .head step (ih later)

/-- The nodes of a cycle that is found: a circle through the graph that meets no node twice. -/
theorem Graph.circle_of_mem_cycles {graph : List Edge} {roots : List String} {cycle : Cycle}
    (found : cycle ∈ cycles graph roots) :
    ∃ first rest, cycle.nodes = first :: rest ++ [first] ∧ (first :: rest).Nodup ∧
      cycle.nodes.IsChain fun earlier later => ∃ edge ∈ graph, edge.source = earlier ∧
      edge.target = later := by
  have distinct := nodup_dropLast_of_mem_cycles found
  obtain ⟨start, steps, nodes, _, chain, mark, ends⟩ := real_of_mem_cycles found
  obtain ⟨middle, rfl⟩ := List.getLast?_eq_some_iff.mp ends
  have shape : cycle.nodes = start.1 :: middle.map (·.1) ++ [start.1] := by
    rw [nodes, List.map_append, List.map_singleton, List.cons_append]
  refine ⟨start.1, middle.map (·.1), shape, ?_, ?_⟩
  · rwa [shape, List.dropLast_concat] at distinct
  · rw [nodes, ← List.map_cons, List.isChain_map]
    exact chain.imp fun earlier later follows => ⟨_, follows, rfl, rfl⟩

/-! ### The step graph -/

variable {workflow : Workflow}

theorem isStepEdge_iff {index : Index} {connection : Connection} :
    GraphShape.isStepEdge index connection = true ↔
      isBoundary connection.source.node = false ∧ isBoundary connection.target.node = false ∧
        index.regionOf connection.source.node = index.regionOf connection.target.node ∧
        (∃ port, index.sourcePort connection = some port ∧ port.isStep = true ∧ port.scope = none) ∧
        ∃ port, index.targetPort connection = some port ∧ port.scope = none := by
  rw [GraphShape.isStepEdge, Bool.and_eq_true, Bool.and_eq_true, isPlain_iff,
    decide_eq_true_eq, Index.isStep, Option.any_eq_true]
  constructor
  · rintro ⟨⟨⟨port, atSource, step⟩, fromInstance, intoInstance, ⟨same, atSame, plain⟩, atTarget⟩,
      region⟩
    rw [atSource] at atSame
    cases atSame
    exact ⟨fromInstance, intoInstance, region, ⟨port, atSource, step, plain⟩, atTarget⟩
  · rintro ⟨fromInstance, intoInstance, region, ⟨port, atSource, step, plain⟩, atTarget⟩
    exact ⟨⟨⟨port, atSource, step⟩, fromInstance, intoInstance, ⟨port, atSource, plain⟩, atTarget⟩,
      region⟩

/-- Control leads along the edges of the step graph. -/
theorem stepsTo_of_mem_stepGraph {edge : Graph.Edge}
    (member : edge ∈ GraphShape.stepGraph (.ofWorkflow workflow)) :
    workflow.StepsTo edge.source edge.target := by
  obtain ⟨connection, kept, rfl⟩ := List.mem_map.mp (Graph.mem_ofEdges member)
  obtain ⟨inside, isEdge⟩ := List.mem_filter.mp kept
  obtain ⟨fromInstance, intoInstance, region, ⟨source, atSource, step, plain⟩, target,
      atTarget, plainToo⟩ :=
    isStepEdge_iff.mp isEdge
  exact .connection inside (Wired.named_of_resolve atSource fromInstance)
    (Wired.named_of_resolve atTarget intoInstance) region atSource step plain atTarget plainToo

/-- Where control leads, apart from the boundary, the step graph has an edge. -/
theorem exists_mem_stepGraph {first second : String} (steps : workflow.StepsTo first second)
    (notStart : first ≠ startId) (notExit : second ≠ exitId) :
    ∃ edge ∈ GraphShape.stepGraph (.ofWorkflow workflow), edge.source = first ∧
      edge.target = second := by
  cases steps with
  | @connection connection source target member _ _ region atSource step plain atTarget plainToo =>
      have fromInstance : isBoundary connection.source.node = false := by
        simp [isBoundary, notStart, Index.ne_exit_of_sourcePort atSource]
      have intoInstance : isBoundary connection.target.node = false := by
        simp [isBoundary, notExit, Index.ne_start_of_targetPort atTarget]
      have isEdge := isStepEdge_iff.mpr
        ⟨fromInstance, intoInstance, region, ⟨source, atSource, step, plain⟩, target,
          atTarget, plainToo⟩
      obtain ⟨edge, inGraph, fromSource, toTarget, _⟩ := Graph.ofEdges_covers
        (List.mem_map.mpr ⟨connection, List.mem_filter.mpr ⟨member, isEdge⟩, rfl⟩)
      exact ⟨edge, inGraph, fromSource, toTarget⟩

theorem Workflow.StepsTo.ne_exit {first second : String} (steps : workflow.StepsTo first second) :
    first ≠ exitId := by
  cases steps with
  | connection _ _ _ _ atSource => exact Index.ne_exit_of_sourcePort atSource

theorem Workflow.StepsTo.ne_start {first second : String} (steps : workflow.StepsTo first second) :
    second ≠ startId := by
  cases steps with
  | connection _ _ _ _ _ _ _ atTarget => exact Index.ne_start_of_targetPort atTarget

theorem Workflow.StepsTo.named {first second : String} (steps : workflow.StepsTo first second) :
    first ∈ workflow.instances.map (·.id) := by
  cases steps with
  | connection _ known => exact known

/-- Ranks that rise along the edges of the step graph rise along every way of control, apart from
its ends on the boundary. -/
theorem rank_of_stepsTo_transGen {rank : String → Nat}
    (ranked : ∀ edge ∈ GraphShape.stepGraph (.ofWorkflow workflow),
      edge.source ∈ workflow.instances.map (·.id) →
      rank edge.source < rank edge.target) {first last : String}
    (path : Relation.TransGen workflow.StepsTo first last) :
    first ≠ exitId ∧ last ≠ startId ∧
      (first = startId ∨ last = exitId ∨ rank first < rank last) := by
  have rises : ∀ {first second}, workflow.StepsTo first second →
      first = startId ∨ second = exitId ∨ rank first < rank second := by
    intro first second steps
    by_cases start : first = startId
    · exact .inl start
    · by_cases exit : second = exitId
      · exact .inr (.inl exit)
      · obtain ⟨edge, inGraph, rfl, rfl⟩ := exists_mem_stepGraph steps start exit
        exact .inr (.inr (ranked edge inGraph steps.named))
  induction path with
  | single step => exact ⟨step.ne_exit, step.ne_start, rises step⟩
  | @tail middle last _ step ih =>
      obtain ⟨notExit, notStart, before⟩ := ih
      refine ⟨notExit, step.ne_start, ?_⟩
      -- the node in the middle is left and entered, so that it is not on the boundary
      rcases before with start | exit | less
      · exact .inl start
      · exact absurd exit step.ne_exit
      · rcases rises step with start | exit | lessToo
        · exact absurd start notStart
        · exact .inr (.inl exit)
        · exact .inr (.inr (less.trans lessToo))

/-- **Where the search finds nothing, control runs in no circle.** -/
theorem not_stepsTo_transGen_of_cycles_eq_nil
    (none : Graph.cycles (GraphShape.stepGraph (.ofWorkflow workflow))
      (workflow.instances.map (·.id)) = [])
    (id : String) :
    ¬ Relation.TransGen workflow.StepsTo id id := by
  intro circle
  obtain ⟨rank, ranked⟩ := Graph.exists_rank_of_cycles_eq_nil none
  obtain ⟨notExit, notStart, rises⟩ := rank_of_stepsTo_transGen ranked circle
  rcases rises with start | exit | less
  · exact notStart start
  · exact notExit exit
  · exact Nat.lt_irrefl _ less

/-! ### Reports -/

/-- The circles of control that are reported are those that the search finds. -/
theorem GraphShape.mem_check_cycleDetected {index : Index} {diagnostic : Diagnostic} :
    diagnostic ∈ check index ∧ diagnostic.code = .cycleDetected ↔
      ∃ cycle ∈ Graph.cycles (stepGraph index) (index.workflow.instances.map (·.id)),
        report index .cycleDetected "Step cycle detected: " cycle = diagnostic := by
  rw [check, List.mem_append, List.mem_map]
  constructor
  · rintro ⟨found | ofData, code⟩
    · exact found
    · obtain ⟨cycle, _, rfl⟩ := List.mem_map.mp ofData
      cases code
  · rintro ⟨cycle, found, rfl⟩
    exact ⟨.inl ⟨cycle, found, rfl⟩, rfl⟩

/-- **The rule of graph shape reports a circle of control exactly if there is one**, for workflows
with errors, too. Each report lists the nodes of a circle, with the first one again at the end. -/
theorem step_cycle_reported_iff (workflow : Workflow) :
    ((∃ diagnostic ∈ GraphShape.check (.ofWorkflow workflow), diagnostic.code = .cycleDetected) ↔
        ∃ id, Relation.TransGen workflow.StepsTo id id) ∧
      ∀ diagnostic ∈ GraphShape.check (.ofWorkflow workflow), diagnostic.code = .cycleDetected →
        ∃ nodes, workflow.StepCircle nodes ∧
          diagnostic.message = "Step cycle detected: " ++ String.intercalate " → " nodes := by
  have lists : ∀ diagnostic ∈ GraphShape.check (.ofWorkflow workflow),
      diagnostic.code = .cycleDetected → ∃ nodes, workflow.StepCircle nodes ∧
        diagnostic.message = "Step cycle detected: " ++ String.intercalate " → " nodes := by
    intro diagnostic member code
    obtain ⟨cycle, found, rfl⟩ := GraphShape.mem_check_cycleDetected.mp ⟨member, code⟩
    obtain ⟨first, rest, shape, distinct, chain⟩ := Graph.circle_of_mem_cycles found
    refine ⟨cycle.nodes, ⟨first, rest, shape, distinct, chain.imp ?_⟩, rfl⟩
    rintro _ _ ⟨edge, inGraph, rfl, rfl⟩
    exact stepsTo_of_mem_stepGraph inGraph
  refine ⟨⟨?_, ?_⟩, lists⟩
  · rintro ⟨diagnostic, member, code⟩
    obtain ⟨nodes, ⟨first, rest, rfl, _, chain⟩, _⟩ := lists diagnostic member code
    exact ⟨first, transGen_of_isChain chain⟩
  · rintro ⟨id, circle⟩
    by_contra silent
    refine not_stepsTo_transGen_of_cycles_eq_nil (List.eq_nil_iff_forall_not_mem.mpr fun cycle
      found => ?_) id circle
    obtain ⟨member, code⟩ := GraphShape.mem_check_cycleDetected.mpr ⟨cycle, found, rfl⟩
    exact silent ⟨_, member, code⟩

/-- A task in front of two that lead to each other, the second one also to itself. -/
def twoCircles : Workflow where
  name := "two circles"
  nodeTypes := [.function "Task"]
  instances := ["a", "b", "c"].map fun id => { id := id, nodeType := "Task" }
  connections :=
    [⟨⟨"a", "onSuccess", none⟩, ⟨"b", "execute", none⟩⟩,
      ⟨⟨"b", "onSuccess", none⟩, ⟨"c", "execute", none⟩⟩,
      ⟨⟨"c", "onSuccess", none⟩, ⟨"b", "execute", none⟩⟩,
      ⟨⟨"c", "onFailure", none⟩, ⟨"c", "execute", none⟩⟩]

theorem step_cycle_reported_iff_twoCircles :
    (GraphShape.check (.ofWorkflow twoCircles)).map (fun diagnostic =>
      (diagnostic.code, diagnostic.message)) =
        [(.cycleDetected, "Step cycle detected: b → c → b"),
          (.cycleDetected, "Step cycle detected: c → c")] ∧
      (∃ id, Relation.TransGen twoCircles.StepsTo id id) ∧
      ∀ diagnostic ∈ GraphShape.check (.ofWorkflow twoCircles), ∃ nodes,
        twoCircles.StepCircle nodes ∧
        diagnostic.message = "Step cycle detected: " ++ String.intercalate " → " nodes := by
  have codes : ∀ diagnostic ∈ GraphShape.check (.ofWorkflow twoCircles),
      diagnostic.code = .cycleDetected := by
    decide +kernel
  have reported : ∃ diagnostic ∈ GraphShape.check (.ofWorkflow twoCircles),
      diagnostic.code = .cycleDetected := by
    decide +kernel
  obtain ⟨exactly, lists⟩ := step_cycle_reported_iff twoCircles
  exact ⟨by decide +kernel, exactly.mp reported, fun diagnostic member =>
    lists diagnostic member (codes _ member)⟩

end WorkflowGraph
