/-
Plans keep to the dependencies between instances.

The main statement is `ordered_by_dependencies`: in the order of a plan every scheduled instance
comes after all instances that feed it, directly or through expressions, and after all its triggers
if it waits for all of them.

* `Workflow.Feeds`, `Workflow.Triggers` — dependencies as the connections of a workflow have them.
* `Turn.placed_of_reads`, `Turn.placed_of_triggers` — what an instance waits for has been bound when
  it is its turn.
-/

import WorkflowGraph.Proofs.Schedule.Progress
import WorkflowGraph.Proofs.Schedule.Turn

namespace WorkflowGraph

/-! ### Dependencies -/

/-- Whether a connection carries values from an instance to another one, both ends outside of all
scopes. -/
def Workflow.Gives (workflow : Workflow) (source target : String) : Prop :=
  ∃ connection ∈ workflow.connections, connection.source.node = source ∧
    connection.target.node = target ∧
    (∃ port ∈ (Index.ofWorkflow workflow).sourcePort connection, port.isData = true ∧
      port.scope = none) ∧
    ∃ port ∈ (Index.ofWorkflow workflow).targetPort connection, port.scope = none

/-- Whether the values of an instance come to another one, directly or through expressions. -/
inductive Workflow.Feeds (workflow : Workflow) : String → String → Prop
  | direct {source target : String} : workflow.Gives source target → Feeds workflow source target
  | through {source middle target : String} : workflow.Gives source middle →
      (Index.ofWorkflow workflow).isExpression middle = true → Feeds workflow middle target →
      Feeds workflow source target

/-- Whether a step output of an instance outside of its scopes is connected with another
instance. -/
def Workflow.Triggers (workflow : Workflow) (source target : String) : Prop :=
  ∃ connection ∈ workflow.connections, connection.source.node = source ∧
    connection.target.node = target ∧
    ∃ port ∈ (Index.ofWorkflow workflow).sourcePort connection, port.isStep = true ∧
    port.scope = none

instance (workflow : Workflow) (source target : String) :
    Decidable (workflow.Gives source target) :=
  inferInstanceAs (Decidable (∃ connection ∈ workflow.connections, connection.source.node = source ∧
    connection.target.node = target ∧
    (∃ port ∈ (Index.ofWorkflow workflow).sourcePort connection, port.isData = true ∧
      port.scope = none) ∧
    ∃ port ∈ (Index.ofWorkflow workflow).targetPort connection, port.scope = none))

instance (workflow : Workflow) (source target : String) :
    Decidable (workflow.Triggers source target) :=
  inferInstanceAs (Decidable (∃ connection ∈ workflow.connections, connection.source.node = source ∧
    connection.target.node = target ∧
    ∃ port ∈ (Index.ofWorkflow workflow).sourcePort connection, port.isStep = true ∧
    port.scope = none))

variable {workflow : Workflow}

namespace Workflow

theorem gives_iff_mem_readSources {source id : String} (ordinary : isBoundary source = false) :
    workflow.Gives source id ↔ source ∈ (Index.ofWorkflow workflow).readSources id := by
  rw [Index.mem_readSources]
  constructor
  · rintro ⟨connection, member, rfl, into, output, input⟩
    exact ⟨connection, member, into, input, Index.dataSource?_eq_some.mpr ⟨rfl, ordinary, output⟩⟩
  · rintro ⟨connection, member, into, input, found⟩
    obtain ⟨same, _, output⟩ := Index.dataSource?_eq_some.mp found
    exact ⟨connection, member, same, into, output, input⟩

theorem Feeds.trans {source middle target : String} (first : workflow.Feeds source middle)
    (expression : (Index.ofWorkflow workflow).isExpression middle = true)
    (second : workflow.Feeds middle target) : workflow.Feeds source target := by
  induction first with
  | direct gives => exact .through gives expression second
  | through gives between _ ih => exact .through gives between (ih expression second)

/-- **To be fed by an instance is to read it**, if ids of instances are not those of the ends. -/
theorem feeds_iff_reads (plain : ∀ inst ∈ workflow.instances, isBoundary inst.id = false)
    {source id : String} (ordinary : isBoundary source = false) :
    workflow.Feeds source id ↔ (Index.ofWorkflow workflow).Reads id source := by
  have ofExpression : ∀ middle, (Index.ofWorkflow workflow).isExpression middle = true →
      isBoundary middle = false := by
    intro middle expression
    obtain ⟨inst, member, rfl⟩ := List.mem_map.mp (Analysis.isExpression_named expression)
    exact plain inst member
  constructor
  · intro feeds
    induction feeds with
    | direct gives => exact .direct ((gives_iff_mem_readSources ordinary).mp gives)
    | through gives expression _ ih =>
        exact (ih (ofExpression _ expression)).trans expression
          (.direct ((gives_iff_mem_readSources ordinary).mp gives))
  · intro reads
    induction reads with
    | direct member => exact .direct ((gives_iff_mem_readSources ordinary).mpr member)
    | through member expression _ ih =>
        exact (ih ordinary).trans expression
          (.direct ((gives_iff_mem_readSources (ofExpression _ expression)).mpr member))

end Workflow

namespace Certified

theorem reads_of_feeds (certified : Certified workflow) {source id : String}
    (feeds : workflow.Feeds source id) (ordinary : isBoundary source = false) :
    (Index.ofWorkflow workflow).Reads id source :=
  (Workflow.feeds_iff_reads certified.ordinary ordinary).mp feeds

theorem triggersOf_of_triggers {source id : String} (triggers : workflow.Triggers source id)
    (ordinary : isBoundary source = false) (known : id ∈ workflow.instances.map (·.id)) :
    source ∈ (Analysis.ofWorkflow workflow).triggersOf id := by
  obtain ⟨connection, member, rfl, into, output⟩ := triggers
  exact Analysis.mem_triggersOf.mpr ⟨known, Index.mem_stepPredecessors.mpr
    ⟨connection, member, into, Index.stepSource?_eq_some.mpr ⟨rfl, ordinary, output⟩⟩⟩

/-- An instance has a higher rank than those that give it values. -/
theorem rank_of_gives {rank : String → Nat} (certified : Certified workflow)
    (ranks : Ranks workflow rank) {source id : String}
    (declared : source ∈ workflow.instances.map (·.id)) (known : id ∈ workflow.instances.map (·.id))
    (gives : workflow.Gives source id) : rank source < rank id := by
  have listed :=
    (Workflow.gives_iff_mem_readSources (certified.ordinary_of_named declared)).mp gives
  exact (certified.readSources_cases ranks known listed).2.1

/-- The instances that trigger an instance. -/
theorem mem_triggersOf_iff (certified : Certified workflow) {source id : String}
    (known : id ∈ workflow.instances.map (·.id)) :
    source ∈ (Analysis.ofWorkflow workflow).triggersOf id ↔
      source ∈ workflow.instances.map (·.id) ∧ workflow.Triggers source id := by
  constructor
  · intro listed
    obtain ⟨connection, inside, into, found⟩ :=
      Index.mem_stepPredecessors.mp (Analysis.mem_triggersOf.mp listed).2
    obtain ⟨rfl, ordinary, port, atSource, step⟩ := Index.stepSource?_eq_some.mp found
    exact ⟨Wired.named_of_resolve atSource ordinary, connection, inside, rfl, into, port,
      atSource, step⟩
  · rintro ⟨declared, triggers⟩
    exact triggersOf_of_triggers triggers (certified.ordinary_of_named declared) known

end Certified

/-! ### Turns of scheduled instances -/

/-- What has been placed around a block has been bound. -/
theorem Context.bound {block : Block} {path : List Enclosure} {pending : List Cluster}
    {before : List Stage} (context : Context workflow block path pending before) {id : String}
    (placed : id ∈ block.resolved)
    (visible : (Index.ofWorkflow workflow).Within block.region
      ((Index.ofWorkflow workflow).regionOf id)) :
    id ∈ before.map (·.node) := by
  rcases context.resolved id placed visible with ⟨stage, among, same, _⟩ | ⟨⟨stage, among, same⟩, _⟩
  · exact List.mem_map.mpr ⟨stage, among, same⟩
  · exact List.mem_map.mpr ⟨stage, among, same⟩

namespace Turn

variable {before : List Stage} {stage : Stage}

/-- **What an instance reads has been bound when it is its turn.** -/
theorem placed_of_reads (turn : Turn workflow before stage) (certified : Certified workflow)
    {source : String} (reads : (Index.ofWorkflow workflow).Reads stage.node source)
    (ordinary : (Index.ofWorkflow workflow).isExpression source = false) :
    source ∈ before.map (·.node) := by
  obtain ⟨block, pending, context, readable, known, _⟩ := turn.exists_context certified
  exact context.bound (readable.placed source reads ordinary)
    (readable.inwards.trans (certified.reads_inwards known reads).2)

/-- The triggers of an instance that waits for all of them are in its region and have been bound
when it is its turn. -/
theorem triggers_beside (turn : Turn workflow before stage) (certified : Certified workflow)
    (ordinary : (Index.ofWorkflow workflow).isExpression stage.node = false) {type : NodeType}
    {source : String} (typed : (Index.ofWorkflow workflow).nodeType? stage.node = some type)
    (conjunction : type.trigger = .conjunction)
    (triggers : source ∈ (Analysis.ofWorkflow workflow).triggersOf stage.node) :
    (Index.ofWorkflow workflow).regionOf source = (Index.ofWorkflow workflow).regionOf stage.node ∧
      source ∈ before.map (·.node) := by
  obtain ⟨rank, ranks⟩ := certified.ranked
  cases turn with
  | inlined _ expression _ _ =>
      rw [show _ = true from expression] at ordinary
      cases ordinary
  | head context member waited _ =>
      obtain ⟨_, _, isBlock, inBlock⟩ := context.formed
      have placed := waited.triggers type typed conjunction source triggers
      rcases certified.triggers_nested ranks triggers with ⟨same, _⟩ | nested
      · refine ⟨same, context.bound placed ?_⟩
        rw [same, isBlock.regionOf (Cluster.exists_of_mem_ofBlock (inBlock member)).2.1]
        exact .refl _
      · -- what lies in the scopes of the head has not been placed yet
        refine absurd ⟨_, member, ?_⟩ (context.fresh source placed)
        exact (certified.mem_inside isBlock (inBlock member)).mpr
          ⟨(certified.triggers_cases ranks triggers).1, _, List.mem_cons_self, .inr nested⟩

/-- **All triggers of an instance that waits for them have been bound when it is its turn.** -/
theorem placed_of_triggers (turn : Turn workflow before stage) (certified : Certified workflow)
    (ordinary : (Index.ofWorkflow workflow).isExpression stage.node = false) {type : NodeType}
    {source : String} (typed : (Index.ofWorkflow workflow).nodeType? stage.node = some type)
    (conjunction : type.trigger = .conjunction)
    (triggers : source ∈ (Analysis.ofWorkflow workflow).triggersOf stage.node) :
    source ∈ before.map (·.node) :=
  (turn.triggers_beside certified ordinary typed conjunction triggers).2

end Turn

/-! ### The order of a plan -/

theorem Scheduler.Arranged.ordinary {scheduler : Scheduler} {resolved available : List String}
    {placements : List Placement} (arranged : Arranged scheduler (.ofWorkflow workflow)
      (.ofRegion (.ofWorkflow workflow) none resolved available) placements) {id : String}
    (scheduled : id ∈ Placing.scheduled (Placement.placingsOfAll placements)) :
    (Index.ofWorkflow workflow).isExpression id = false := by
  obtain ⟨top, member, under⟩ := ((arranged.enumerates .top).mem_iff id).mp scheduled
  obtain ⟨⟨inst, found, lives⟩, ordinary⟩ := Index.mem_scheduledIn.mp member
  obtain ⟨_, _, _, notExpression⟩ :=
    Index.live_of_under under (Index.find?_ofWorkflow top ▸ found) (lives ▸ .top) ordinary
  exact notExpression

/-- A place in the order of the scheduled instances is a place in the order of the stages. -/
theorem exists_stage_of_scheduled {placements : List Placement} {before after : List String}
    {id : String} (split : Placing.scheduled (Placement.placingsOfAll placements) = before ++
      id :: after) :
    ∃ first stage rest, Binding.stagesOfAll (.ofWorkflow workflow) [] [] placements = first ++
      stage :: rest ∧ stage.node = id ∧ ∃ front, front ⊆ Placement.placingsOfAll placements ∧
        first.map (·.node) = front.map Placing.id ∧ Placing.scheduled front = before := by
  obtain ⟨front, others, placings, scheduled, later⟩ := List.filterMap_eq_append_iff.mp split
  obtain ⟨idle, placing, back, rfl, none, here, _⟩ := List.filterMap_eq_cons_iff.mp later
  have nodes := @Binding.node_stagesOfAll (.ofWorkflow workflow) [] [] placements
  rw [placings, ← List.append_assoc, List.map_append, List.map_cons] at nodes
  obtain ⟨first, others, split, firstNodes, later⟩ := List.map_eq_append_iff.mp nodes
  obtain ⟨stage, rest, rfl, same, _⟩ := List.map_eq_cons_iff.mp later
  refine ⟨first, stage, rest, split, same.trans ?_, front ++ idle, ?_, firstNodes, ?_⟩
  · cases placing <;> cases here <;> rfl
  · rw [placings, ← List.append_assoc]
    exact List.subset_append_left _ _
  · rw [Placing.scheduled_append, show Placing.scheduled front = before from scheduled,
      show Placing.scheduled idle = [] from List.filterMap_eq_nil_iff.mpr none, List.append_nil]

/-- **A plan runs every scheduled instance after all that feeds it**, directly or through
expressions, and after all its triggers if it waits for all of them. -/
theorem ordered_by_dependencies {scheduler : Scheduler} {plan : Plan}
    (valid : (validate workflow).hasErrors = false)
    (scheduled : (scheduler.schedule workflow).outcome = .ok plan) {before after : List String}
    {id : String} (split : plan.scheduled = before ++ id :: after) :
    (∀ source ∈ workflow.instances.map (·.id),
      (Index.ofWorkflow workflow).isExpression source = false →
        workflow.Feeds source id → source ∈ before) ∧
      ∀ type, (Index.ofWorkflow workflow).nodeType? id = some type → type.trigger = .conjunction →
        ∀ source ∈ workflow.instances.map (·.id), workflow.Triggers source id →
        source ∈ before := by
  have certified := certified_of_validate valid
  obtain ⟨rank, ranks⟩ := certified.ranked
  obtain ⟨placements, arranged, rfl⟩ := Scheduler.exists_arranged scheduled
  rw [Plan.scheduled_eq, Binding.placings_plan] at split
  have isScheduled : id ∈ Placing.scheduled (Placement.placingsOfAll placements) := split ▸ by simp
  have known := arranged.named isScheduled
  obtain ⟨first, stage, rest, stages, rfl, front, subset, nodes, rfl⟩ :=
    exists_stage_of_scheduled split
  have turn := arranged.turns certified .top (.top certified) first stage rest stages
  rw [List.nil_append] at turn
  have inFront : ∀ source ∈ first.map (·.node),
      (Index.ofWorkflow workflow).isExpression source = false → source ∈ Placing.scheduled front :=
    fun source bound => arranged.scheduled_of_placed .top subset (nodes ▸ bound)
  refine ⟨fun source named ordinary feeds => ?_, fun type typed conjunction source named triggers =>
    ?_⟩
  · refine inFront source (turn.placed_of_reads certified ?_ ordinary) ordinary
    exact certified.reads_of_feeds feeds (certified.ordinary_of_named named)
  · have triggers :=
      Certified.triggersOf_of_triggers triggers (certified.ordinary_of_named named) known
    exact inFront source (turn.placed_of_triggers certified (arranged.ordinary isScheduled)
      typed conjunction triggers) (certified.triggers_cases ranks triggers).2.1

/-- A loop in an arm of a branch, in which an instance reads a value through two expressions. -/
def readerInLoop : Workflow where
  name := "reader in loop"
  nodeTypes :=
    [taskType, ((NodeType.expression "Upper").withInput "in" .string).withOutput "out" .string,
      (NodeType.function "Loop").withPort
        { Port.dataOutput "item" .string with scope := some "body" }]
  instances :=
    [{ id := "h", nodeType := "Task" }, { id := "x", nodeType := "Task" },
      { id := "y", nodeType := "Task" }, { id := "m", nodeType := "Loop" },
      { id := "f", nodeType := "Task", parentScope := some ⟨"m", "body"⟩ },
      { id := "d", nodeType := "Task" }, { id := "first", nodeType := "Upper" },
      { id := "second", nodeType := "Upper" }]
  connections :=
    [⟨⟨"h", "onSuccess", none⟩, ⟨"x", "execute", none⟩⟩,
      ⟨⟨"h", "onFailure", none⟩, ⟨"y", "execute", none⟩⟩,
      ⟨⟨"x", "onSuccess", none⟩, ⟨"m", "execute", none⟩⟩,
      ⟨⟨"d", "out", none⟩, ⟨"first", "in", none⟩⟩,
      ⟨⟨"first", "out", none⟩, ⟨"second", "in", none⟩⟩,
      ⟨⟨"second", "out", none⟩, ⟨"f", "in", none⟩⟩]
  scopes := [⟨"m", "body", ["f"]⟩]

theorem ordered_by_dependencies_readerInLoop :
    ∃ plan, (validate readerInLoop).hasErrors = false ∧
      (({} : Scheduler).schedule readerInLoop).outcome = .ok plan ∧
      plan.scheduled = ["d", "h", "x", "m"] ++ "f" :: ["y"] ∧ readerInLoop.Feeds "d" "f" ∧
      "d" ∈ ["d", "h", "x", "m"] ∧
      plan.scheduled = ["d", "h", "x"] ++ "m" :: ["f", "y"] ∧ readerInLoop.Triggers "x" "m" ∧
      "x" ∈ ["d", "h", "x"] := by
  have valid : (validate readerInLoop).hasErrors = false := by decide +kernel
  obtain ⟨plan, scheduled, ids⟩ := exists_of_toOption_map
    (show (({} : Scheduler).schedule readerInLoop).outcome.toOption.map Plan.scheduled =
      some ["d", "h", "x", "m", "f", "y"] by decide +kernel)
  have feeds : readerInLoop.Feeds "d" "f" :=
    .through (by decide +kernel : readerInLoop.Gives "d" "first") (by decide +kernel)
      (.through (by decide +kernel : readerInLoop.Gives "first" "second") (by decide +kernel)
        (.direct (by decide +kernel)))
  have triggers : readerInLoop.Triggers "x" "m" := by decide +kernel
  obtain ⟨type, typed, conjunction⟩ : ∃ type ∈ (Index.ofWorkflow readerInLoop).nodeType? "m",
      type.trigger = .conjunction := by decide +kernel
  exact ⟨plan, valid, scheduled, ids, feeds,
    (ordered_by_dependencies valid scheduled ids).1 "d" (by decide) (by decide +kernel) feeds,
    ids, triggers,
    (ordered_by_dependencies valid scheduled ids).2 type typed conjunction "x" (by decide) triggers⟩

end WorkflowGraph
