/-
Circles through which a value runs, and which of them the rule of graph shape reports.

The search follows each edge of the dependency graph once, so it reports one circle for each edge
that leads back. Where a circle without values shares an edge with one through which a value runs,
it may be the first one that is closed by that edge, and the other one is never walked:
`hiddenCircle` is such a workflow. The main statement is `data_cycle_reported`: what is reported is
a circle through which a value runs; a circle is reported if a value runs through it and none of its
edges is on a circle without values; and no workflow with a circle is free of errors.

* `Workflow.ComesBefore` — an instance waits for another one, and may be given a value by it.
* `mem_dependencyGraph_iff` — the dependency graph has an edge where one instance waits for another,
  marked if a value is given.
* `exists_rank_of_unmarked` — where the search finds no circle of a value, ranks rise along all
  edges but those on circles without values: an edge that closes a cycle without a mark is on one.
-/

import WorkflowGraph.Proofs.Acyclic
import WorkflowGraph.Proofs.GraphShape

namespace WorkflowGraph

open Relation (ReflTransGen TransGen)

/-! ### Circles -/

/-- Whether an instance comes before another one, which waits for it, and whether it gives it a
value. A connection to a node of the boundary joins no two instances, even where an instance has the
id of that node. -/
inductive Workflow.ComesBefore (workflow : Workflow) : Bool → String → String → Prop
  /-- A connection joins the two through ports outside of all scopes. -/
  | connection {connection : Connection} {source target : Port} :
      connection ∈ workflow.connections →
      connection.source.node ∈ workflow.instances.map (·.id) →
        isBoundary connection.source.node = false →
      connection.target.node ∈ workflow.instances.map (·.id) →
        isBoundary connection.target.node = false →
      (Index.ofWorkflow workflow).sourcePort connection = some source → source.scope = none →
      (Index.ofWorkflow workflow).targetPort connection = some target → target.scope = none →
      ComesBefore workflow source.isData connection.source.node connection.target.node
  /-- The first one lives in a scope of the other one. -/
  | owner {inst : Instance} {scope : ScopeRef} :
      inst ∈ workflow.instances → inst.parentScope = some scope →
        ComesBefore workflow false inst.id scope.owner

namespace Workflow

variable (workflow : Workflow)

/-- Whether an instance comes before another one, with a value or without. -/
def Before (first second : String) : Prop :=
  ∃ carries, workflow.ComesBefore carries first second

/-- Whether an instance comes before another one and gives it no value. -/
def BeforeBare (first second : String) : Prop :=
  workflow.ComesBefore false first second ∧ ¬ workflow.ComesBefore true first second

/-- Whether an instance comes before another one, but not along an edge of a circle without
values. -/
def BeforeApart (first second : String) : Prop :=
  workflow.Before first second ∧
    (workflow.BeforeBare first second → ¬ ReflTransGen workflow.BeforeBare second first)

/-- Whether a value comes back to the instance that gave it. -/
def ValueReturns (along : String → String → Prop) : Prop :=
  ∃ first second, workflow.ComesBefore true first second ∧ ReflTransGen along second first

/-- Whether nodes are a circle through which a value runs: each leads to the next, the first one
stands again at the end, and no other is met twice. -/
def DataCircle (nodes : List String) : Prop :=
  ∃ first rest, nodes = first :: rest ++ [first] ∧ (first :: rest).Nodup ∧
    nodes.IsChain workflow.Before ∧
    ∃ before giver taker after, nodes = before ++ giver :: taker :: after ∧
    workflow.ComesBefore true giver taker

end Workflow

variable {workflow : Workflow}

theorem Workflow.ComesBefore.named {carries : Bool} {first second : String}
    (comes : workflow.ComesBefore carries first second) :
    first ∈ workflow.instances.map (·.id) := by
  cases comes with
  | connection _ known => exact known
  | owner member => exact List.mem_map_of_mem member

/-- On a closed walk there is a way back along each of its edges. -/
theorem reflTransGen_back {Rel : String → String → Prop} {first giver taker : String}
    {rest before after : List String} (chain : (first :: rest ++ [first]).IsChain Rel)
    (split : first :: rest ++ [first] = before ++ giver :: taker :: after) :
    ReflTransGen Rel taker giver := by
  rw [split, List.append_cons] at chain
  obtain ⟨toGiver, fromTaker, _⟩ := List.isChain_append.mp chain
  -- both parts of the walk have the first node at their end or at their head
  have onwards : ReflTransGen Rel taker first := by
    refine List.relationReflTransGen_of_exists_isChain_cons after fromTaker ?_
    have last := congrArg List.getLast? split
    rw [List.getLast?_concat, List.getLast?_append_cons, List.getLast?_cons_cons] at last
    exact (List.getLast_eq_iff_getLast?_eq_some _).mpr last.symm
  have backwards : ReflTransGen Rel first giver := by
    cases before with
    | nil =>
        obtain ⟨rfl, _⟩ := List.cons.inj split
        exact .refl
    | cons head before =>
        obtain ⟨rfl, _⟩ := List.cons.inj split
        exact List.relationReflTransGen_of_exists_isChain_cons _ toGiver (by simp)
  exact onwards.trans backwards

/-- A value that runs through a circle comes back. -/
theorem Workflow.DataCircle.returns {nodes : List String} (circle : workflow.DataCircle nodes) :
    workflow.ValueReturns workflow.Before := by
  obtain ⟨first, rest, rfl, _, chain, before, giver, taker, after, split, value⟩ := circle
  exact ⟨giver, taker, value, reflTransGen_back chain split⟩

/-! ### The dependency graph -/

theorem mem_dependencies_iff {first second : String} {carries : Bool} :
    ⟨first, second, carries⟩ ∈
      (workflow.connections.filter (GraphShape.isPlain (.ofWorkflow workflow))).map
          (GraphShape.edgeOf (.ofWorkflow workflow)) ++ GraphShape.ownerEdges workflow ↔
      workflow.ComesBefore carries first second := by
  have marked : ∀ {connection : Connection} {port : Port},
      (Index.ofWorkflow workflow).sourcePort connection = some port →
      (Index.ofWorkflow workflow).isData connection = port.isData := fun atSource => by
    rw [Index.isData, atSource, Option.any_some]
  rw [List.mem_append, List.mem_map, GraphShape.ownerEdges, List.mem_filterMap]
  constructor
  · rintro (⟨connection, kept, same⟩ | ⟨inst, member, found⟩)
    · cases same
      obtain ⟨member, plain⟩ := List.mem_filter.mp kept
      obtain ⟨ordinary, ordinaryToo, ⟨source, atSource, unscoped⟩, target, atTarget, unscopedToo⟩ :=
        isPlain_iff.mp plain
      rw [marked atSource]
      exact .connection member (Wired.named_of_resolve atSource ordinary) ordinary
        (Wired.named_of_resolve atTarget ordinaryToo) ordinaryToo atSource unscoped
        atTarget unscopedToo
    · obtain ⟨scope, lives, same⟩ := Option.map_eq_some_iff.mp found
      cases same
      exact .owner member lives
  · intro comes
    cases comes with
    | @connection connection source target member _ ordinary _ ordinaryToo atSource unscoped
        atTarget unscopedToo =>
        have plain := isPlain_iff.mpr ⟨ordinary, ordinaryToo, ⟨_, atSource, unscoped⟩, _,
          atTarget, unscopedToo⟩
        exact .inl ⟨connection, List.mem_filter.mpr ⟨member, plain⟩, by rw [GraphShape.edgeOf,
          marked atSource]⟩
    | owner member lives => exact .inr ⟨_, member, by rw [lives, Option.map_some]⟩

instance (carries : Bool) (first second : String) :
    Decidable (workflow.ComesBefore carries first second) :=
  decidable_of_iff _ mem_dependencies_iff

instance (first second : String) : Decidable (workflow.BeforeBare first second) :=
  inferInstanceAs (Decidable (_ ∧ _))

/-- **The dependency graph has an edge where one instance waits for another, marked if a value is
given.** -/
theorem mem_dependencyGraph_iff {first second : String} {marked : Bool} :
    ⟨first, second, marked⟩ ∈ GraphShape.dependencyGraph (.ofWorkflow workflow) ↔
      workflow.Before first second ∧ (marked = true ↔ workflow.ComesBefore true first second) := by
  have sound : ∀ {marked}, ⟨first, second, marked⟩ ∈
      GraphShape.dependencyGraph (.ofWorkflow workflow) →
      workflow.Before first second ∧ (marked = true ↔ workflow.ComesBefore true first second) := by
    intro marked member
    have comes := mem_dependencies_iff.mp (Graph.mem_ofEdges member)
    refine ⟨⟨marked, comes⟩, fun isMarked => isMarked ▸ comes, fun value => ?_⟩
    exact @Graph.marked_of_mem_ofEdges _ _ ⟨first, second, marked⟩ member
      (mem_dependencies_iff.mpr value) rfl rfl
  refine ⟨sound, ?_⟩
  rintro ⟨⟨carries, comes⟩, exactly⟩
  obtain ⟨⟨_, _, found⟩, inGraph, rfl, rfl, _⟩ :=
    Graph.ofEdges_covers (mem_dependencies_iff.mpr comes)
  rwa [Bool.eq_iff_iff.mpr (exactly.trans (sound inGraph).2.symm)]

/-- An edge without a mark is one along which no value is given. -/
theorem mem_dependencyGraph_bare {first second : String} :
    ⟨first, second, false⟩ ∈ GraphShape.dependencyGraph (.ofWorkflow workflow) ↔
      workflow.BeforeBare first second := by
  rw [mem_dependencyGraph_iff]
  constructor
  · rintro ⟨⟨carries, comes⟩, exactly⟩
    have none : ¬ workflow.ComesBefore true first second :=
      fun value => Bool.false_ne_true (exactly.mpr value)
    cases carries with
    | true => exact absurd comes none
    | false => exact ⟨comes, none⟩
  · rintro ⟨comes, none⟩
    exact ⟨⟨false, comes⟩, by simpa using none⟩

/-! ### The search -/

/-- Ranks rise wherever one instance comes before another outside of circles without values, if the
search finds no circle through which a value runs. -/
theorem exists_rank_of_unmarked
    (none : ∀ cycle ∈ Graph.cycles (GraphShape.dependencyGraph (.ofWorkflow workflow))
      (workflow.instances.map (·.id)), cycle.marked = false) :
    ∃ rank : String → Nat, ∀ {first second}, workflow.BeforeApart first second →
      rank first < rank second := by
  classical
  have spared : ∀ cycle ∈ Graph.cycles (GraphShape.dependencyGraph (.ofWorkflow workflow))
      (workflow.instances.map (·.id)),
      ∀ edge ∈ (GraphShape.dependencyGraph (.ofWorkflow workflow)).filter fun edge =>
        workflow.BeforeApart edge.source edge.target,
      ¬ cycle.ClosedBy (GraphShape.dependencyGraph (.ofWorkflow workflow)) edge := by
    intro cycle found edge inWalk closed
    obtain ⟨bare, back⟩ := closed.unmarked (none cycle found)
    obtain ⟨inGraph, apart⟩ := List.mem_filter.mp inWalk
    obtain ⟨source, target, marked⟩ := edge
    cases bare
    exact (of_decide_eq_true apart).2 (mem_dependencyGraph_bare.mp inGraph)
      (ReflTransGen.mono (fun _ _ member => mem_dependencyGraph_bare.mp member) _ _ back)
  obtain ⟨rank, rises⟩ := Graph.exists_rank_of_spares (List.filter_subset_self _) spared
  refine ⟨rank, fun {first second} apart => ?_⟩
  obtain ⟨carries, comes⟩ := apart.1
  obtain ⟨⟨_, _, marked⟩, inGraph, rfl, rfl, _⟩ :=
    Graph.ofEdges_covers (mem_dependencies_iff.mpr comes)
  exact rises _ (List.mem_filter.mpr ⟨inGraph, decide_eq_true apart⟩) comes.named

/-- **A value that comes back outside of circles without values is on a circle that the search
finds.** -/
theorem exists_marked_of_returns (returns : workflow.ValueReturns workflow.BeforeApart) :
    ∃ cycle ∈ Graph.cycles (GraphShape.dependencyGraph (.ofWorkflow workflow))
      (workflow.instances.map (·.id)), cycle.marked = true := by
  by_contra none
  obtain ⟨rank, rises⟩ := @exists_rank_of_unmarked workflow (by simpa using none)
  obtain ⟨first, second, value, back⟩ := returns
  have there : rank first < rank second := rises ⟨⟨true, value⟩, fun bare => absurd value bare.2⟩
  have along : rank second ≤ rank first := by
    clear there value
    induction back with
    | refl => exact Nat.le_refl _
    | tail _ step ih => exact ih.trans (rises step).le
  exact Nat.not_lt.mpr along there

/-- **A cycle with a mark that the search finds is a circle through which a value runs.** -/
theorem dataCircle_of_mem_cycles {roots : List String} {cycle : Graph.Cycle}
    (found : cycle ∈ Graph.cycles (GraphShape.dependencyGraph (.ofWorkflow workflow)) roots)
    (marked : cycle.marked = true) : workflow.DataCircle cycle.nodes := by
  obtain ⟨first, rest, shape, distinct, chain⟩ := Graph.circle_of_mem_cycles found
  refine ⟨first, rest, shape, distinct, chain.imp ?_, ?_⟩
  · rintro _ _ ⟨edge, inGraph, rfl, rfl⟩
    exact (mem_dependencyGraph_iff.mp inGraph).1
  · obtain ⟨start, steps, nodes, mark, follows, _⟩ := Graph.real_of_mem_cycles found
    obtain ⟨before, giver, taker, after, split, edge⟩ :=
      Graph.exists_marked_of_chain follows (mark.symm.trans marked)
    exact ⟨before, giver, taker, after, nodes.trans split,
      (mem_dependencyGraph_iff.mp edge).2.mp rfl⟩

/-! ### Reports -/

/-- The circles that are reported as those of a value are those with a mark that the search
finds. -/
theorem GraphShape.mem_check_dataCycleDetected {index : Index} {diagnostic : Diagnostic} :
    diagnostic ∈ check index ∧ diagnostic.code = .dataCycleDetected ↔
      ∃ cycle ∈ Graph.cycles (dependencyGraph index) (index.workflow.instances.map (·.id)),
        cycle.marked = true ∧
        report index .dataCycleDetected "Data dependency cycle detected: " cycle = diagnostic := by
  rw [check, List.mem_append, List.mem_map, List.mem_map]
  constructor
  · rintro ⟨⟨cycle, _, rfl⟩ | ⟨cycle, kept, same⟩, code⟩
    · cases code
    · obtain ⟨found, marked⟩ := List.mem_filter.mp kept
      exact ⟨cycle, found, marked, same⟩
  · rintro ⟨cycle, found, marked, rfl⟩
    exact ⟨.inr ⟨cycle, List.mem_filter.mpr ⟨found, marked⟩, rfl⟩, rfl⟩

theorem Workflow.Before.precedes {first second : String} (before : workflow.Before first second) :
    workflow.Precedes first second := by
  obtain ⟨carries, comes⟩ := before
  cases comes with
  | connection member known _ knownToo _ atSource unscoped atTarget unscopedToo =>
      exact .connection member known knownToo atSource unscoped atTarget unscopedToo
  | owner member lives => exact .owner member lives

/-- In a workflow without errors no value comes back. -/
theorem hasErrors_of_returns (returns : workflow.ValueReturns workflow.Before) :
    (validate workflow).hasErrors = true := by
  by_contra none
  have certified := certified_of_validate (Bool.eq_false_iff.mpr none)
  obtain ⟨rank, ranks⟩ := certified.ranked
  obtain ⟨first, second, value, back⟩ := returns
  have circle : TransGen workflow.Precedes first first :=
    .head' (Workflow.Before.precedes ⟨true, value⟩)
      (ReflTransGen.mono (fun _ _ => Workflow.Before.precedes) _ _ back)
  exact Nat.lt_irrefl _ (certified.rank_of_transGen ranks circle)

/-- **Which circles of values the rule of graph shape reports.** A report lists a circle through
which a value runs, and there is a report where a value comes back without passing an edge on a
circle without values. Even where there is no report of this kind, a workflow in which a value comes
back has errors. -/
theorem data_cycle_reported (workflow : Workflow) :
    ((∃ diagnostic ∈ GraphShape.check (.ofWorkflow workflow),
      diagnostic.code = .dataCycleDetected) →
        workflow.ValueReturns workflow.Before) ∧
      (workflow.ValueReturns workflow.BeforeApart →
        ∃ diagnostic ∈ GraphShape.check (.ofWorkflow workflow),
          diagnostic.code = .dataCycleDetected) ∧
      (workflow.ValueReturns workflow.Before → (validate workflow).hasErrors = true) ∧
      ∀ diagnostic ∈ GraphShape.check (.ofWorkflow workflow), diagnostic.code = .dataCycleDetected →
        ∃ nodes, workflow.DataCircle nodes ∧
          diagnostic.message = "Data dependency cycle detected: " ++ String.intercalate
          " → " nodes := by
  have lists : ∀ diagnostic ∈ GraphShape.check (.ofWorkflow workflow),
      diagnostic.code = .dataCycleDetected → ∃ nodes, workflow.DataCircle nodes ∧
        diagnostic.message = "Data dependency cycle detected: " ++ String.intercalate
        " → " nodes := by
    intro diagnostic member code
    obtain ⟨cycle, found, marked, rfl⟩ := GraphShape.mem_check_dataCycleDetected.mp ⟨member, code⟩
    exact ⟨cycle.nodes, dataCircle_of_mem_cycles found marked, rfl⟩
  refine ⟨?_, fun returns => ?_, hasErrors_of_returns, lists⟩
  · rintro ⟨diagnostic, member, code⟩
    obtain ⟨nodes, circle, _⟩ := lists diagnostic member code
    exact circle.returns
  · obtain ⟨cycle, found, marked⟩ := exists_marked_of_returns returns
    obtain ⟨member, code⟩ := GraphShape.mem_check_dataCycleDetected.mpr ⟨cycle, found, marked, rfl⟩
    exact ⟨_, member, code⟩

/-- Two tasks that lead to each other. One of them gives a value to a third one, which leads back to
it. -/
def circlesSideBySide : Workflow where
  name := "circles side by side"
  nodeTypes :=
    [((NodeType.function "Task").withOptionalInput "in" .string).withOutput "out" .string]
  instances := ["a", "b", "c"].map fun id => { id := id, nodeType := "Task" }
  connections :=
    [⟨⟨"a", "onSuccess", none⟩, ⟨"b", "execute", none⟩⟩,
      ⟨⟨"b", "onSuccess", none⟩, ⟨"a", "execute", none⟩⟩,
      ⟨⟨"b", "out", none⟩, ⟨"c", "in", none⟩⟩, ⟨⟨"c", "onSuccess", none⟩, ⟨"b", "execute", none⟩⟩]

theorem data_cycle_reported_circlesSideBySide :
    circlesSideBySide.BeforeBare "a" "b" ∧ circlesSideBySide.BeforeBare "b" "a" ∧
      circlesSideBySide.ValueReturns circlesSideBySide.BeforeApart ∧
      (∃ diagnostic ∈ GraphShape.check (.ofWorkflow circlesSideBySide),
        diagnostic.code = .dataCycleDetected) ∧
      circlesSideBySide.ValueReturns circlesSideBySide.Before ∧
      (validate circlesSideBySide).hasErrors = true ∧
      ∀ diagnostic ∈ GraphShape.check (.ofWorkflow circlesSideBySide),
        diagnostic.code = .dataCycleDetected → ∃ nodes, circlesSideBySide.DataCircle nodes ∧
          diagnostic.message = "Data dependency cycle detected: " ++ String.intercalate
          " → " nodes := by
  have edges : circlesSideBySide.BeforeBare "a" "b" ∧ circlesSideBySide.BeforeBare "b" "a" ∧
      circlesSideBySide.ComesBefore false "c" "b" ∧ circlesSideBySide.ComesBefore true "b" "c" ∧
      ∀ id ∈ circlesSideBySide.instances.map (·.id), ¬ circlesSideBySide.ComesBefore
      false id "c" := by
    decide +kernel
  obtain ⟨forth, around, leaves, value, onlyValue⟩ := edges
  -- nothing but a value leads to the third task
  have apart : circlesSideBySide.BeforeApart "c" "b" := by
    refine ⟨⟨false, leaves⟩, fun _ back => ?_⟩
    obtain same | ⟨before, _, step⟩ := back.cases_tail
    · exact absurd same (by decide)
    · exact onlyValue before step.1.named step.1
  have returns : circlesSideBySide.ValueReturns circlesSideBySide.BeforeApart :=
    ⟨"b", "c", value, .single apart⟩
  obtain ⟨sound, complete, errors, lists⟩ := data_cycle_reported circlesSideBySide
  have reported := complete returns
  exact ⟨forth, around, returns, reported, sound reported, errors (sound reported), lists⟩

/-- Two tasks that lead to each other, the first one also to a third one, which gives a value to the
second one. -/
def hiddenCircle : Workflow where
  name := "hidden circle"
  nodeTypes :=
    [((NodeType.function "Task").withOptionalInput "in" .string).withOutput "out" .string]
  instances := ["a", "b", "c"].map fun id => { id := id, nodeType := "Task" }
  connections :=
    [⟨⟨"a", "onSuccess", none⟩, ⟨"b", "execute", none⟩⟩,
      ⟨⟨"b", "onSuccess", none⟩, ⟨"a", "execute", none⟩⟩,
      ⟨⟨"a", "onSuccess", none⟩, ⟨"c", "execute", none⟩⟩, ⟨⟨"c", "out", none⟩, ⟨"b", "in", none⟩⟩]

/-- The circle of the value closes with the edge that closes the circle without one, which is found
first. -/
theorem hiddenCircle_not_reported :
    (GraphShape.check (.ofWorkflow hiddenCircle)).map (fun diagnostic =>
      (diagnostic.code, diagnostic.message)) =
        [(.cycleDetected, "Step cycle detected: a → b → a")] ∧
      ¬ ((∃ diagnostic ∈ GraphShape.check (.ofWorkflow hiddenCircle),
        diagnostic.code = .dataCycleDetected) ↔
        hiddenCircle.ValueReturns hiddenCircle.Before) := by
  have listed : (GraphShape.check (.ofWorkflow hiddenCircle)).map (fun diagnostic =>
      (diagnostic.code, diagnostic.message)) =
        [(.cycleDetected, "Step cycle detected: a → b → a")] := by
    decide +kernel
  have edges : hiddenCircle.ComesBefore false "b" "a" ∧ hiddenCircle.ComesBefore false "a" "c" ∧
      hiddenCircle.ComesBefore true "c" "b" := by
    decide +kernel
  obtain ⟨around, leaves, value⟩ := edges
  have back : ReflTransGen hiddenCircle.Before "b" "c" :=
    .head ⟨false, around⟩ (.single ⟨false, leaves⟩)
  refine ⟨listed, fun exactly => ?_⟩
  obtain ⟨diagnostic, member, code⟩ := exactly.mpr ⟨"c", "b", value, back⟩
  have inList := List.mem_map_of_mem (f := fun diagnostic : Diagnostic =>
    (diagnostic.code, diagnostic.message)) member
  rw [listed, List.mem_singleton, code] at inList
  cases (Prod.mk.inj inList).1

end WorkflowGraph
