/-
What an analysis says that an instance waits for.

An instance waits for the instances that trigger it and for those whose values it reads. What it
reads is collected once for each instance, from what has been collected for the expressions in
between. The main statement on that is `dependencies_exact`: if no expression feeds itself, the
collected lists have exactly those instances and expressions from which a chain of connections leads
through expressions to the instance, in whatever order the instances are declared.

The inside of a scope is run with the owner of the scope, which cannot wait for it. The main
statement on that is `body_awaited_iff`: in a workflow without errors an owner never reads from the
inside of its scopes, but it is triggered from there by connections into step inputs in its scopes.
Then an owner that waits for all its triggers is in no plan; `bodyReports_awaited` is such a
workflow.

* `Workflow.Chain` — a chain of connections from an instance through expressions to another one;
  `reads_iff_exists_chain` says that chains are what reading is.
* `Workflow.StepsBack` — control leads from an instance to an input in a scope of another one.
-/

import Mathlib.Data.List.Chain
import Mathlib.Logic.Relation
import WorkflowGraph.Proofs.Schedule.Order

namespace WorkflowGraph

variable {workflow : Workflow}

/-! ### Chains of connections -/

/-- Whether a connection carries values from a node that is not on the boundary to another one, both
ends outside of all scopes. -/
def Workflow.Carries (workflow : Workflow) (source target : String) : Prop :=
  isBoundary source = false ∧ workflow.Gives source target

/-- Whether a connection carries values from an expression to an expression. -/
def Workflow.CarriesOn (workflow : Workflow) (source target : String) : Prop :=
  (Index.ofWorkflow workflow).isExpression source = true ∧
    (Index.ofWorkflow workflow).isExpression target = true ∧
    workflow.Carries source target

/-- Whether values come from a node through some expressions, one after another, to another node. -/
def Workflow.Chain (workflow : Workflow) (source : String) (between : List String)
    (target : String) : Prop :=
  (source :: between ++ [target]).IsChain workflow.Carries ∧
    ∀ id ∈ between, (Index.ofWorkflow workflow).isExpression id = true

namespace Workflow

theorem carries_iff_mem_readSources {source target : String} :
    workflow.Carries source target ↔ source ∈ (Index.ofWorkflow workflow).readSources target := by
  unfold Carries
  constructor
  · rintro ⟨ordinary, gives⟩
    exact (gives_iff_mem_readSources ordinary).mp gives
  · intro listed
    have ordinary := Index.Reads.source_ordinary (.direct listed)
    exact ⟨ordinary, (gives_iff_mem_readSources ordinary).mpr listed⟩

/-- A chain that goes on through its end. -/
theorem Chain.extend {source middle target : String} {between : List String}
    (chain : workflow.Chain source between middle)
    (expression : (Index.ofWorkflow workflow).isExpression middle = true)
    (carries : workflow.Carries middle target) :
    workflow.Chain source (between ++ [middle]) target := by
  refine ⟨?_, List.forall_mem_append.mpr ⟨chain.2, List.forall_mem_singleton.mpr expression⟩⟩
  show ((source :: (between ++ [middle])) ++ [target]).IsChain workflow.Carries
  rw [List.isChain_append]
  refine ⟨chain.1, List.isChain_singleton target, fun last found next first => ?_⟩
  rw [← List.cons_append, List.getLast?_concat, Option.mem_some_iff] at found
  rw [List.head?_singleton, Option.mem_some_iff] at first
  rwa [← found, ← first]

theorem Chain.reads {source target : String} {between : List String}
    (chain : workflow.Chain source between target) :
    (Index.ofWorkflow workflow).Reads target source := by
  induction between generalizing source with
  | nil =>
      have carries := (List.isChain_cons_cons.mp chain.1).1
      exact .direct (carries_iff_mem_readSources.mp carries)
  | cons first rest ih =>
      obtain ⟨carries, later⟩ := List.isChain_cons_cons.mp chain.1
      obtain ⟨expression, expressions⟩ := List.forall_mem_cons.mp chain.2
      have further := ih ⟨later, expressions⟩
      exact further.trans expression (.direct (carries_iff_mem_readSources.mp carries))

/-- **An instance reads what chains lead from.** -/
theorem reads_iff_exists_chain {source target : String} :
    (Index.ofWorkflow workflow).Reads target source ↔
      ∃ between, workflow.Chain source between target := by
  constructor
  · intro reads
    induction reads with
    | direct listed =>
        have carries := carries_iff_mem_readSources.mpr listed
        exact ⟨[], List.isChain_pair.mpr carries, List.forall_mem_nil _⟩
    | through listed expression _ ih =>
        obtain ⟨between, chain⟩ := ih
        exact ⟨_, chain.extend expression (carries_iff_mem_readSources.mpr listed)⟩
  · rintro ⟨between, chain⟩
    exact chain.reads

/-- **No expression reads itself exactly if connections between expressions run in no circle.** -/
theorem expressionsAcyclic_iff :
    (Index.ofWorkflow workflow).ExpressionsAcyclic ↔
      ∀ id, ¬ Relation.TransGen workflow.CarriesOn id id := by
  have path_of_reads : ∀ {target source}, (Index.ofWorkflow workflow).Reads target source →
      (Index.ofWorkflow workflow).isExpression source = true →
      (Index.ofWorkflow workflow).isExpression target = true →
      Relation.TransGen workflow.CarriesOn source target := by
    intro target source reads isSource
    induction reads with
    | direct listed =>
        exact fun isTarget => .single ⟨isSource, isTarget, carries_iff_mem_readSources.mpr listed⟩
    | through listed expression _ ih =>
        intro isTarget
        exact (ih isSource expression).tail ⟨expression, isTarget,
          carries_iff_mem_readSources.mpr listed⟩
  have reads_of_path : ∀ {source target}, Relation.TransGen workflow.CarriesOn source target →
      (Index.ofWorkflow workflow).isExpression target = true ∧
      (Index.ofWorkflow workflow).Reads target source := by
    intro source target path
    induction path with
    | single step => exact ⟨step.2.1, .direct (carries_iff_mem_readSources.mp step.2.2)⟩
    | tail _ step ih =>
        exact ⟨step.2.1, .through (carries_iff_mem_readSources.mp step.2.2) step.1 ih.2⟩
  constructor
  · intro acyclic id circle
    exact acyclic id (reads_of_path circle).1 (reads_of_path circle).2
  · intro acyclic id expression reads
    exact acyclic id (path_of_reads reads expression expression)

end Workflow

theorem Index.Reads.source_named {id source : String}
    (reads : (Index.ofWorkflow workflow).Reads id source) :
    source ∈ workflow.instances.map (·.id) := by
  induction reads with
  | direct listed =>
      obtain ⟨connection, _, _, _, found⟩ := Index.mem_readSources.mp listed
      obtain ⟨rfl, ordinary, _, atSource, _⟩ := Index.dataSource?_eq_some.mp found
      exact Wired.named_of_resolve atSource ordinary
  | through _ _ _ ih => exact ih

/-- **What is collected of an instance is exactly what chains lead from**, in any workflow in which
connections between expressions run in no circle: the instances that are no expressions in one list,
the expressions in the other. -/
theorem dependencies_exact (acyclic : ∀ id, ¬ Relation.TransGen workflow.CarriesOn id id)
    {id : String} (known : id ∈ workflow.instances.map (·.id)) :
    ∃ found, (Analysis.ofWorkflow workflow).dependencies.get? id = some found ∧
      (∀ source, source ∈ found.data ↔
        source ∈ workflow.instances.map (·.id) ∧
          (Index.ofWorkflow workflow).isExpression source = false ∧
          ∃ between, workflow.Chain source between id) ∧
      ∀ source, source ∈ found.expressions ↔
        source ∈ workflow.instances.map (·.id) ∧
          (Index.ofWorkflow workflow).isExpression source = true ∧
          ∃ between, workflow.Chain source between id := by
  have noCircle := Workflow.expressionsAcyclic_iff.mpr acyclic
  obtain ⟨inst, declared, rfl⟩ := List.mem_map.mp known
  obtain ⟨found, held⟩ := Table.contains_iff.mp
    ((Dependencies.ofIndex_complete noCircle fun _ => Analysis.isExpression_named).2 inst declared)
  have held : (Analysis.ofWorkflow workflow).dependencies.get? inst.id = some found := held
  have data : (Analysis.ofWorkflow workflow).dataOf inst.id = found.data := by
    rw [Analysis.dataOf, held]; rfl
  have expressions : (Analysis.ofWorkflow workflow).expressionsOf inst.id = found.expressions := by
    rw [Analysis.expressionsOf, held]; rfl
  refine ⟨found, held, fun source => ?_, fun source => ?_⟩
  · rw [← data, ← Workflow.reads_iff_exists_chain]
    constructor
    · intro listed
      obtain ⟨ordinary, reads⟩ := Analysis.sound_dataOf listed
      exact ⟨reads.source_named, ordinary, reads⟩
    · rintro ⟨_, ordinary, reads⟩
      exact Analysis.mem_dataOf noCircle known reads ordinary
  · rw [← expressions, ← Workflow.reads_iff_exists_chain]
    constructor
    · intro listed
      obtain ⟨expression, reads⟩ := Analysis.sound_expressionsOf listed
      exact ⟨reads.source_named, expression, reads⟩
    · rintro ⟨_, expression, reads⟩
      exact Analysis.mem_expressionsOf noCircle known reads expression

/-- A loop with an input in its scope that collects values, and with one that control comes back
to. -/
def reportedType : NodeType :=
  (((((NodeType.function "Loop").withOptionalInput "in" .string).withOutput "out" .string).withPort
    { Port.stepOutput "start" with scope := some "body" }).withPort
    { Port.stepInput "done" with scope := some "body" }).withPort
    { Port.dataInput "sum" .string with optional := true, scope := some "body" }

/-- An expression over two values. -/
def pairType : NodeType :=
  (((NodeType.expression "Pair").withInput "first" .string).withInput "second" .string).withOutput
    "out" .string

/-- Tasks that read two others through two expressions, one of them in a loop that collects its
value. Readers are declared in front of what they read. -/
def readersFirst : Workflow where
  name := "readers first"
  nodeTypes := [taskType, pairType, reportedType]
  instances :=
    [{ id := "d", nodeType := "Task", parentScope := some ⟨"m", "body"⟩ },
      { id := "c", nodeType := "Task" },
      { id := "m", nodeType := "Loop" }, { id := "twice", nodeType := "Pair" },
      { id := "sum", nodeType := "Pair" },
      { id := "b", nodeType := "Task" }, { id := "a", nodeType := "Task" }]
  connections :=
    [⟨⟨"twice", "out", none⟩, ⟨"d", "in", none⟩⟩, ⟨⟨"d", "out", none⟩, ⟨"m", "sum", some "body"⟩⟩,
      ⟨⟨"twice", "out", none⟩, ⟨"c", "in", none⟩⟩, ⟨⟨"c", "out", none⟩, ⟨"m", "in", none⟩⟩,
      ⟨⟨"sum", "out", none⟩, ⟨"twice", "first", none⟩⟩,
      ⟨⟨"sum", "out", none⟩, ⟨"twice", "second", none⟩⟩,
      ⟨⟨"b", "out", none⟩, ⟨"sum", "first", none⟩⟩, ⟨⟨"a", "out", none⟩, ⟨"sum", "second", none⟩⟩]
  scopes := [⟨"m", "body", ["d"]⟩]

theorem dependencies_exact_readersFirst :
    (∀ id, ¬ Relation.TransGen readersFirst.CarriesOn id id) ∧
      "c" ∈ readersFirst.instances.map (·.id) ∧
      (Analysis.ofWorkflow readersFirst).dependencies.get? "c" =
        some ⟨["b", "a"], ["twice", "sum"]⟩ ∧
      (∃ between, readersFirst.Chain "a" between "c") ∧ "m" ∈ readersFirst.instances.map (·.id) ∧
      (Analysis.ofWorkflow readersFirst).dependencies.get? "m" = some ⟨["c"], []⟩ ∧
      ¬ ∃ between, readersFirst.Chain "d" between "m" := by
  have valid : (validate readersFirst).hasErrors = false := by decide +kernel
  have acyclic :=
    Workflow.expressionsAcyclic_iff.mp (certified_of_validate valid).expressionsAcyclic
  have task : "c" ∈ readersFirst.instances.map (·.id) := by decide
  have loop : "m" ∈ readersFirst.instances.map (·.id) := by decide
  have ofTask : (Analysis.ofWorkflow readersFirst).dependencies.get? "c" =
      some ⟨["b", "a"], ["twice", "sum"]⟩ := by
    decide +kernel
  have ofLoop : (Analysis.ofWorkflow readersFirst).dependencies.get? "m" = some ⟨["c"], []⟩ := by
    decide +kernel
  refine ⟨acyclic, task, ofTask, ?_, loop, ofLoop, fun chain => ?_⟩
  · obtain ⟨found, held, data, _⟩ := dependencies_exact acyclic task
    cases held.symm.trans ofTask
    exact ((data "a").mp (by decide)).2.2
  · obtain ⟨found, held, data, _⟩ := dependencies_exact acyclic loop
    cases held.symm.trans ofLoop
    exact absurd ((data "d").mpr ⟨by decide, by decide +kernel, chain⟩) (by decide)

/-! ### The inside of scopes -/

/-- Whether control leads from an instance to an input in a scope of another one. -/
def Workflow.StepsBack (workflow : Workflow) (source owner : String) : Prop :=
  ∃ connection ∈ workflow.connections, connection.source.node = source ∧
    connection.target.node = owner ∧
    (∃ port ∈ (Index.ofWorkflow workflow).sourcePort connection, port.isStep = true ∧
      port.scope = none) ∧
    ∃ port ∈ (Index.ofWorkflow workflow).targetPort connection, port.scope.isSome = true

instance (workflow : Workflow) (source owner : String) :
    Decidable (workflow.StepsBack source owner) :=
  inferInstanceAs (Decidable (∃ connection ∈ workflow.connections, connection.source.node = source ∧
    connection.target.node = owner ∧
    (∃ port ∈ (Index.ofWorkflow workflow).sourcePort connection, port.isStep = true ∧
      port.scope = none) ∧
    ∃ port ∈ (Index.ofWorkflow workflow).targetPort connection, port.scope.isSome = true))

namespace Certified

/-- An instance never reads from the inside of its scopes. -/
theorem not_nested_of_reads (certified : Certified workflow) {owner source : String}
    (known : owner ∈ workflow.instances.map (·.id))
    (reads : (Index.ofWorkflow workflow).Reads owner source) :
    ¬ (Index.ofWorkflow workflow).NestedIn source owner := by
  intro nested
  have self := nested.of_within (certified.reads_inwards known reads).2
  exact certified.not_nested_self known self

/-- An instance beside another one is not nested in it. -/
theorem not_nested_of_beside (certified : Certified workflow) {owner source : String}
    (known : owner ∈ workflow.instances.map (·.id))
    (beside : (Index.ofWorkflow workflow).regionOf source =
      (Index.ofWorkflow workflow).regionOf owner) :
    ¬ (Index.ofWorkflow workflow).NestedIn source owner := by
  rintro ⟨name, within⟩
  rw [beside] at within
  exact certified.not_nested_self known ⟨name, within⟩

/-- **An instance is triggered from the inside of its scopes by what steps back to it, and by
nothing else.** -/
theorem triggers_nested_iff (certified : Certified workflow) {owner source : String}
    (known : owner ∈ workflow.instances.map (·.id)) :
    source ∈ (Analysis.ofWorkflow workflow).triggersOf owner ∧
      (Index.ofWorkflow workflow).NestedIn source owner ↔
      workflow.StepsBack source owner := by
  have ownerOrdinary := certified.ordinary_of_named known
  constructor
  · rintro ⟨triggers, nested⟩
    obtain ⟨connection, member, into, found⟩ :=
      Index.mem_stepPredecessors.mp (Analysis.mem_triggersOf.mp triggers).2
    obtain ⟨rfl, ordinary, port, atSource, step, plain⟩ := Index.stepSource?_eq_some.mp found
    obtain ⟨_, target, _, atTarget, _⟩ := certified.ports connection member
    refine ⟨connection, member, rfl, into, ⟨port, atSource, step, plain⟩, target, atTarget, ?_⟩
    -- a connection that ends outside of all scopes would stay in the region of the owner
    by_contra noScope
    have targetPlain : target.scope = none := by simpa using noScope
    subst into
    have beside := certified.step_region member atSource atTarget step
    rw [Wired.regionAt_plain ordinary plain,
      Wired.regionAt_plain ownerOrdinary targetPlain] at beside
    exact certified.not_nested_of_beside known beside nested
  · rintro ⟨connection, member, rfl, rfl, ⟨port, atSource, step, plain⟩, target, atTarget, inScope⟩
    obtain ⟨name, scope⟩ := Option.isSome_iff_exists.mp inScope
    have inside := certified.step_region member atSource atTarget step
    have targetRegion : (Index.ofWorkflow workflow).regionAt connection.target target =
        some ⟨connection.target.node, name⟩ := by
      simp [Index.regionAt, ownerOrdinary, scope]
    rw [targetRegion] at inside
    have ordinary : isBoundary connection.source.node = false := by
      by_contra boundary
      simp [Index.regionAt, boundary] at inside
    rw [Wired.regionAt_plain ordinary plain] at inside
    refine ⟨Certified.triggersOf_of_triggers ⟨connection, member, rfl, rfl, port, atSource, step,
      plain⟩ ordinary known, name, ?_⟩
    rw [inside]
    exact .refl _

/-- What a plan runs after all its triggers is not triggered from the inside of its scopes. -/
theorem not_nested_of_scheduled (certified : Certified workflow) {scheduler : Scheduler}
    {plan : Plan} (scheduled : (scheduler.schedule workflow).outcome = .ok plan)
    {owner source : String} {type : NodeType} (runs : owner ∈ plan.scheduled)
    (typed : (Index.ofWorkflow workflow).nodeType? owner = some type)
    (conjunction : type.trigger = .conjunction)
    (triggers : source ∈ (Analysis.ofWorkflow workflow).triggersOf owner) :
    ¬ (Index.ofWorkflow workflow).NestedIn source owner := by
  obtain ⟨placements, arranged, rfl⟩ := Scheduler.exists_arranged scheduled
  rw [Plan.scheduled_eq, Binding.placings_plan] at runs
  obtain ⟨before, after, split⟩ := List.append_of_mem runs
  obtain ⟨first, stage, rest, stages, rfl, _⟩ := exists_stage_of_scheduled split
  have turn := arranged.turns certified .top (.top certified) first stage rest stages
  have beside := (turn.triggers_beside certified (arranged.ordinary runs) typed
    conjunction triggers).1
  exact certified.not_nested_of_beside (arranged.named runs) beside

end Certified

/-- **An owner reads nothing from the inside of its scopes, and is triggered from there exactly by
what steps back to it.** An owner that something steps back to is in no plan, if it waits for all
its triggers. -/
theorem body_awaited_iff (valid : (validate workflow).hasErrors = false) {owner : String}
    (known : owner ∈ workflow.instances.map (·.id)) :
    (∀ source ∈ (Analysis.ofWorkflow workflow).dataOf owner, ¬ (Index.ofWorkflow workflow).NestedIn
      source owner) ∧ (∀ source, source ∈ (Analysis.ofWorkflow workflow).triggersOf owner ∧
          (Index.ofWorkflow workflow).NestedIn source owner ↔
        workflow.StepsBack source owner) ∧
      ∀ source type, workflow.StepsBack source owner →
        (Index.ofWorkflow workflow).nodeType? owner = some type → type.trigger = .conjunction →
        ∀ (scheduler : Scheduler) plan, (scheduler.schedule workflow).outcome = .ok plan →
          owner ∉ plan.scheduled := by
  have certified := certified_of_validate valid
  refine ⟨fun source listed => ?_, fun source => certified.triggers_nested_iff known,
    fun source type stepsBack typed conjunction scheduler plan scheduled runs => ?_⟩
  · exact certified.not_nested_of_reads known (Analysis.sound_dataOf listed).2
  · obtain ⟨triggers, nested⟩ := (certified.triggers_nested_iff known).mpr stepsBack
    exact certified.not_nested_of_scheduled scheduled runs typed conjunction triggers nested

/-- Two loops, one after the other. The first collects the values of its inside, to the second its
inside steps back. -/
def twoLoops : Workflow where
  name := "two loops"
  nodeTypes := [taskType, reportedType]
  instances :=
    [{ id := "a", nodeType := "Task" }, { id := "m", nodeType := "Loop" },
      { id := "b", nodeType := "Task", parentScope := some ⟨"m", "body"⟩ },
      { id := "n", nodeType := "Loop" },
      { id := "c", nodeType := "Task", parentScope := some ⟨"n", "body"⟩ }]
  connections :=
    [⟨⟨"a", "onSuccess", none⟩, ⟨"m", "execute", none⟩⟩, ⟨⟨"a", "out", none⟩, ⟨"m", "in", none⟩⟩,
      ⟨⟨"m", "start", some "body"⟩, ⟨"b", "execute", none⟩⟩,
      ⟨⟨"b", "out", none⟩, ⟨"m", "sum", some "body"⟩⟩,
      ⟨⟨"m", "out", none⟩, ⟨"n", "in", none⟩⟩,
      ⟨⟨"n", "start", some "body"⟩, ⟨"c", "execute", none⟩⟩,
      ⟨⟨"c", "onSuccess", none⟩, ⟨"n", "done", some "body"⟩⟩]
  scopes := [⟨"m", "body", ["b"]⟩, ⟨"n", "body", ["c"]⟩]

theorem body_awaited_iff_twoLoops :
    (validate twoLoops).hasErrors = false ∧
      ("m" ∈ twoLoops.instances.map (·.id) ∧ (Analysis.ofWorkflow twoLoops).triggersOf "m" = ["a"] ∧
        ¬ (Index.ofWorkflow twoLoops).NestedIn "a" "m") ∧
      ("n" ∈ twoLoops.instances.map (·.id) ∧ (Analysis.ofWorkflow twoLoops).dataOf "n" = ["m"] ∧
        ¬ (Index.ofWorkflow twoLoops).NestedIn "m" "n") ∧
      twoLoops.StepsBack "c" "n" ∧ "c" ∈ (Analysis.ofWorkflow twoLoops).triggersOf "n" ∧
      (Index.ofWorkflow twoLoops).NestedIn "c" "n" := by
  have valid : (validate twoLoops).hasErrors = false := by decide +kernel
  have first : "m" ∈ twoLoops.instances.map (·.id) := by decide
  have second : "n" ∈ twoLoops.instances.map (·.id) := by decide
  have triggers : (Analysis.ofWorkflow twoLoops).triggersOf "m" = ["a"] := by decide +kernel
  have data : (Analysis.ofWorkflow twoLoops).dataOf "n" = ["m"] := by decide +kernel
  have stepsBack : twoLoops.StepsBack "c" "n" := by decide +kernel
  have notBack : ¬ twoLoops.StepsBack "a" "m" := by decide +kernel
  refine ⟨valid, ⟨first, triggers, fun nested => notBack ?_⟩, ⟨second, data, ?_⟩, stepsBack,
    ((body_awaited_iff valid second).2.1 "c").mpr stepsBack⟩
  · exact ((body_awaited_iff valid first).2.1 "a").mp ⟨triggers ▸ List.mem_singleton_self _, nested⟩
  · exact (body_awaited_iff valid second).1 "m" (data ▸ List.mem_singleton_self _)

/-- A loop whose inside steps back to it. -/
def bodyReports : Workflow where
  name := "body-reports"
  nodeTypes := [taskType, reportedType]
  instances :=
    [{ id := "m", nodeType := "Loop" },
      { id := "b", nodeType := "Task", parentScope := some ⟨"m", "body"⟩ }]
  connections :=
    [⟨⟨startId, "execute", none⟩, ⟨"m", "execute", none⟩⟩,
      ⟨⟨"m", "start", some "body"⟩, ⟨"b", "execute", none⟩⟩,
      ⟨⟨"b", "onSuccess", none⟩, ⟨"m", "done", some "body"⟩⟩,
      ⟨⟨"m", "onSuccess", none⟩, ⟨exitId, "onSuccess", none⟩⟩]
  scopes := [⟨"m", "body", ["b"]⟩]

/-- **An owner may wait for the inside of its own scope**, in a workflow without errors, and then it
cannot be placed. -/
theorem bodyReports_awaited :
    (validate bodyReports).hasErrors = false ∧
      "b" ∈ (Analysis.ofWorkflow bodyReports).triggersOf "m" ∧
      (Index.ofWorkflow bodyReports).NestedIn "b" "m" ∧
      (({} : Scheduler).schedule bodyReports).outcome = .error (.stuck none ["m"]) := by
  refine ⟨by decide +kernel, by decide +kernel, ⟨"body", .refl _⟩, ?_⟩
  exact error_of_map_eq_error (fun _ => ()) (by decide +kernel)

end WorkflowGraph
