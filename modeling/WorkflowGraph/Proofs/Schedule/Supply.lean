/-
Values are produced before they are read.

The main statement is `reads_produced_iff`: every run reads from instances that have run before,
whatever fails, exactly if no connection is stray, and so it is if every expression in a scope is
read. An expression in a scope that nothing reads may need a value of an arm all the same;
`idleReader_reads_nothing` is a workflow without errors whose plan reads from an instance that has
not run.

* `Workflow.Stray` — a connection out of an arm into an expression that is computed outside of the
  arm, though none of its readers runs there. Branches declare no merge binding for it.
* `Turn.given`, `Turn.served` — whatever is read has been bound. It is in reach, leaves an arm, or
  the connection is stray.
* `Scheduler.Arranged.readsInReach` — without stray connections all sources are in reach of their
  readers.
* `Scheduler.Arranged.exists_failures` — a stray connection has failures with which its source does
  not run, but its reader does.
-/

import WorkflowGraph.Proofs.Schedule.Declared

namespace WorkflowGraph

/-! ### What is read -/

/-- Whether the sources of all inputs of their own have a place before the reader, in nothing but
what the reader lies in. -/
def Plan.ReadsInReach (workflow : Workflow) (plan : Plan) : Prop :=
  ∀ before place after, plan.body.places [] = before ++ place :: after →
    ∀ port, workflow.OwnInput place.2.node port → ∀ input ∈ place.2.inputs, input.port = port.name →
      ∀ id, input.source.producer? = some id → ∃ earlier ∈ before, earlier.2.node = id ∧
        earlier.1 <:+ place.1

/-- Whether a dry run has run the sources of all inputs of their own when it comes to the reader. -/
def Plan.ReadsProduced (workflow : Workflow) (plan : Plan) (failures : List String) : Prop :=
  ∀ before step after, DryRun.trace failures {} plan.body = before ++ step :: after →
    ∀ port, workflow.OwnInput step.node port → ∀ input ∈ step.inputs, input.port = port.name →
      ∀ id, input.source.producer? = some id →
        (DryRun.State.after failures {} before).hasRun id = true

/-- Whether a connection carries a value out of an arm of a branch into an expression that is needed
outside of the branch, though it is not read there by an instance that is scheduled or by the end of
a region. -/
structure Workflow.Stray (workflow : Workflow) (connection : Connection) : Prop where
  member : connection ∈ workflow.connections
  input : ∃ port, workflow.OwnInput connection.target.node port ∧ connection.target.port = port.name
  output : ∃ port, (Index.ofWorkflow workflow).sourcePort connection = some port ∧
    port.isData = true ∧ port.scope = none
  needed : ∃ cluster branch, workflow.HasCluster cluster ∧ workflow.HasCluster branch ∧
    connection.target.node ∈ (Analysis.ofWorkflow workflow).neededBy cluster ∧
    connection.source.node ∈ branch.armMembers ∧ cluster.head ∉ branch.inside
  unread : ∀ branch, workflow.HasCluster branch → connection.source.node ∈ branch.armMembers →
    ¬ Merge.Escapes (.ofWorkflow workflow) branch connection

/-- Whether the values of an expression come to a scheduled instance or to the end of a region,
directly or through other expressions. -/
def Workflow.IsRead (workflow : Workflow) (id : String) : Prop :=
  (∃ reader ∈ workflow.instances.map (·.id),
    (Index.ofWorkflow workflow).isExpression reader = false ∧ workflow.Feeds id reader) ∨
  ∃ connection ∈ workflow.connections, Merge.intoSink (.ofWorkflow workflow) connection = true ∧
    (Index.ofWorkflow workflow).isData connection = true ∧
    (Index.ofWorkflow workflow).isExpression connection.source.node = true ∧
    (connection.source.node = id ∨ workflow.Feeds id connection.source.node)

variable {workflow : Workflow}

/-! ### Sources at a turn -/

/-- Where the source of a connection has been bound when a reader is that lies in `path`: in reach,
or aside in an arm of a branch. There the value leaves the branch, if it is not only needed
outside. -/
inductive Given (workflow : Workflow) (before : List Stage) (path : List Enclosure)
    (connection : Connection) : Prop
  | inReach : InReach before path connection.source.node → Given workflow before path connection
  | aside {stage : Stage} {branch : Cluster} :
      stage ∈ before → stage.node = connection.source.node → workflow.HasCluster branch →
      connection.source.node ∈ branch.armMembers → InReach before path branch.head →
      (∃ port, (Index.ofWorkflow workflow).sourcePort connection = some port ∧ port.isData = true ∧
        port.scope = none) →
      (Merge.Escapes (.ofWorkflow workflow) branch connection ∨
        ∃ cluster, workflow.HasCluster cluster ∧
        connection.target.node ∈ (Analysis.ofWorkflow workflow).neededBy cluster ∧
        cluster.head ∉ branch.inside) →
      Given workflow before path connection

theorem Given.exists_stage {before : List Stage} {path : List Enclosure} {connection : Connection}
    (given : Given workflow before path connection) :
    ∃ stage ∈ before, stage.node = connection.source.node := by
  cases given with
  | inReach inReach =>
      obtain ⟨stage, among, same, _⟩ := inReach
      exact ⟨stage, among, same⟩
  | aside among same => exact ⟨_, among, same⟩

/-- How the value of a connection comes to a reader that lies in `path`. -/
inductive Served (workflow : Workflow) (before : List Stage) (path : List Enclosure)
    (connection : Connection) :
    Prop
  | inReach : InReach before path connection.source.node → Served workflow before path connection
  | merged {stage : Stage} {branch : Cluster} :
      stage ∈ before → stage.node = connection.source.node → workflow.HasCluster branch →
      connection ∈ Merge.leaving (.ofWorkflow workflow) branch →
        Served workflow before path connection
  | stray : workflow.Stray connection → Served workflow before path connection

/-- **What is read when it is the turn of an instance has been bound.** -/
theorem Turn.given {before : List Stage} {stage : Stage} (turn : Turn workflow before stage)
    (certified : Certified workflow) {port : Port} (own : workflow.OwnInput stage.node port)
    {connection : Connection} (member : connection ∈ workflow.connections)
    (into : connection.target.node = stage.node) (named : connection.target.port = port.name)
    (notStart : connection.source.node ≠ startId) :
    Given workflow before stage.path connection := by
  obtain ⟨block, pending, context, readable, known, expressions⟩ := turn.exists_context certified
  obtain ⟨atTarget, _⟩ := certified.target_eq own member into named
  obtain ⟨source, _, atSource, found, kinds⟩ := certified.ports connection member
  rw [atTarget] at found
  cases found
  have typed := own
  obtain ⟨type, typed, isInput, _⟩ := typed
  obtain ⟨_, _, data, plain⟩ := NodeType.mem_dataInputs.mp isInput
  have ordinary := certified.source_ordinary member notStart
  have targetOrdinary : isBoundary connection.target.node = false :=
    into ▸ certified.ordinary_of_typed typed
  have sourceData : source.isStep = false := by simpa [Port.isData, kinds] using data
  cases inScope : source.scope with
  | some name =>
      -- an item of a scope that the reader lies in
      have within := (certified.data_region member atSource atTarget sourceData).1
      rw [Wired.regionAt_plain targetOrdinary plain, Index.regionAt, ordinary, inScope,
        into] at within
      exact .inReach (context.owners _ ⟨name, readable.inwards.trans within⟩)
  | none =>
      have output : ∃ port, (Index.ofWorkflow workflow).sourcePort connection = some port ∧
          port.isData = true ∧ port.scope = none :=
        ⟨source, atSource, by simp [Port.isData, sourceData], inScope⟩
      have given : connection.source.node ∈ (Index.ofWorkflow workflow).readSources stage.node :=
        Index.mem_readSources.mpr ⟨connection, member, into, ⟨port, atTarget, plain⟩,
          Index.dataSource?_eq_some.mpr ⟨rfl, ordinary, output⟩⟩
      by_cases expression : (Index.ofWorkflow workflow).isExpression connection.source.node = true
      · exact .inReach (expressions _ given expression)
      · have placed := readable.placed _ (.direct given) (by simpa using expression)
        have visible := readable.inwards.trans (certified.reads_inwards known (.direct given)).2
        rcases context.resolved _ placed visible with inReach | ⟨⟨earlier, among, same⟩, branch,
          comesUp, inArm, head, outside⟩
        · exact .inReach inReach
        · refine .aside among same comesUp inArm head output ?_
          rcases readable.leaves branch comesUp outside with exposed | ⟨cluster, found⟩
          · exact .inl (exposed connection member into ⟨port, atTarget, plain⟩)
          · exact .inr ⟨cluster, into ▸ found⟩

/-- What is read is in reach, or leaves the arm that it has been bound in, unless the connection is
stray. -/
theorem Turn.served {before : List Stage} {stage : Stage} (turn : Turn workflow before stage)
    (certified : Certified workflow) {port : Port} (own : workflow.OwnInput stage.node port)
    {connection : Connection} (member : connection ∈ workflow.connections)
    (into : connection.target.node = stage.node) (named : connection.target.port = port.name)
    (notStart : connection.source.node ≠ startId) :
    Served workflow before stage.path connection := by
  cases turn.given certified own member into named notStart with
  | inReach inReach => exact .inReach inReach
  | @aside earlier branch among same comesUp inArm _ output read =>
      by_cases leaves : ∃ branch, workflow.HasCluster branch ∧
          connection ∈ Merge.leaving (.ofWorkflow workflow) branch
      · obtain ⟨branch, comesUp, leaves⟩ := leaves
        exact .merged among same comesUp leaves
      · have unread : ∀ branch, workflow.HasCluster branch →
            connection.source.node ∈ branch.armMembers →
            ¬ Merge.Escapes (.ofWorkflow workflow) branch connection :=
            fun branch comesUp inArm escapes =>
          leaves ⟨branch, comesUp, Merge.mem_leaving.mpr ⟨member, inArm, output, escapes⟩⟩
        obtain ⟨cluster, comesUpToo, needed, apart⟩ :=
          read.resolve_left (unread branch comesUp inArm)
        exact .stray ⟨member, ⟨port, into ▸ own, named⟩, output,
          ⟨cluster, branch, comesUpToo, comesUp, needed, inArm, apart⟩, unread⟩

/-! ### Merge bindings of connections -/

/-- A stray connection comes from an instance that is scheduled. -/
theorem Workflow.Stray.source_scheduled {connection : Connection}
    (stray : workflow.Stray connection) :
    connection.source.node ∈ workflow.instances.map (·.id) ∧
      (Index.ofWorkflow workflow).isExpression connection.source.node = false := by
  obtain ⟨_, branch, _, comesUp, _, inArm, _⟩ := stray.needed
  exact comesUp.member_scheduled (List.mem_cons_of_mem _ inArm)

/-- Branches declare no merge binding for a stray connection. -/
theorem Workflow.Stray.bindingFor_eq_none {connection : Connection}
    (stray : workflow.Stray connection) (wired : Wired workflow) {merges : List Merge}
    (known : Merge.FromBranches workflow merges) :
    Merge.bindingFor merges connection = none := by
  obtain ⟨port, own, named⟩ := stray.input
  refine (known.bindingFor_eq_none_iff wired own stray.member rfl named).mpr fun merge among => ?_
  by_contra consumes
  obtain ⟨producer, produces⟩ := List.exists_mem_of_ne_nil _ (known.written merge among)
  obtain ⟨branch, comesUp, other, leaves, rfl, consumesToo⟩ :=
    known.producer merge among producer produces
  obtain ⟨inside, inArm, _, escapes⟩ := Merge.mem_leaving.mp leaves
  -- the connection that leaves is the only one into the input
  obtain ⟨atNode, atPort⟩ := Merge.samePort_iff.mp
    (Merge.samePort_trans (Merge.samePort_symm consumesToo) (Bool.not_eq_false _ ▸ consumes))
  obtain rfl := wired.connection_unique own inside atNode (atPort.trans named)
    stray.member rfl named
  exact stray.unread branch comesUp inArm escapes

/-- What a cluster needs are instances. -/
theorem Workflow.HasCluster.named_of_needed {cluster : Cluster}
    (comesUp : workflow.HasCluster cluster) (certified : Certified workflow) {id : String}
    (needed : id ∈ (Analysis.ofWorkflow workflow).neededBy cluster) :
    id ∈ workflow.instances.map (·.id) := by
  obtain ⟨_, formed, inBlock⟩ := comesUp
  obtain ⟨_, isBlock⟩ := formed.isBlock
  exact Analysis.isExpression_named ((certified.mem_neededBy_iff isBlock inBlock).mp needed).1

namespace Scheduler

variable {scheduler : Scheduler} {placements : List Placement}

/-- **A connection with a merge binding is read through it by all that is bound after its source.**
The merge binding has been declared by the time the source is bound. -/
theorem Arranged.bindingFor_of_bound (arranged : Arranged scheduler (.ofWorkflow workflow)
      (.ofRegion (.ofWorkflow workflow) none [] []) placements) {first rest : List Stage}
    {stage source : Stage}
    (stages : Binding.stagesOfAll (.ofWorkflow workflow) [] [] placements = first ++ stage :: rest)
    (among : source ∈ first) {connection : Connection} (same : source.node = connection.source.node)
    {binding : String}
    (found : Merge.bindingFor (Binding.placeAll (.ofWorkflow workflow) [] placements).2 connection =
      some binding) :
    Merge.bindingFor stage.merges connection = some binding := by
  obtain ⟨_, final, unwritten⟩ := arranged.settled (stages ▸ List.mem_append_left _ among)
  rw [final, Merge.bindingFor_append (same ▸ unwritten)] at found
  have ordered := @Binding.ordered_stagesOfAll (.ofWorkflow workflow) [] [] placements
  rw [stages] at ordered
  obtain ⟨between, merges⟩ := (List.pairwise_append.mp ordered).2.2 source among stage
    List.mem_cons_self
  rw [← merges]
  exact Merge.bindingFor_append_of_eq_some found

/-! ### Plans without stray connections -/

/-- **Without stray connections all sources are in reach of their readers.** A value that leaves an
arm has a merge binding by the time its source is bound, and so it has when the reader is. -/
theorem Arranged.readsInReach (arranged : Arranged scheduler (.ofWorkflow workflow)
      (.ofRegion (.ofWorkflow workflow) none [] []) placements) (certified : Certified workflow)
    (settled : ∀ connection, ¬ workflow.Stray connection) :
    (Binding.plan (.ofWorkflow workflow) placements).ReadsInReach workflow := by
  intro before place after split port own input member named id produced
  rw [Binding.places_plan] at split
  obtain ⟨first, others, stages, rfl, later⟩ := List.map_eq_append_iff.mp split
  obtain ⟨stage, rest, rfl, rfl, _⟩ := List.map_eq_cons_iff.mp later
  have turn := arranged.turns certified .top (.top certified) first stage rest stages
  rw [List.nil_append] at turn
  obtain ⟨connection, inside, into, atPort, unbound, notStart, rfl⟩ :=
    own.exists_connection member named produced
  cases turn.served certified own inside into atPort notStart with
  | inReach inReach =>
      obtain ⟨earlier, among, same, suffix⟩ := inReach
      exact ⟨_, List.mem_map.mpr ⟨earlier, among, rfl⟩, same, suffix⟩
  | stray stray => exact absurd stray (settled connection)
  | @merged source branch among same comesUp leaves =>
      have known := arranged.fromBranches
      obtain ⟨merge, declared, consumes⟩ := arranged.declared certified comesUp leaves
      cases bound : Merge.bindingFor (Binding.placeAll (.ofWorkflow workflow) [] placements).2
        connection with
      | none =>
          have free := (known.bindingFor_eq_none_iff certified.toWired own inside into atPort).mp
            bound merge declared
          rw [consumes] at free
          cases free
      | some binding =>
          have read := arranged.bindingFor_of_bound stages among same bound
          rw [show Merge.bindingFor stage.merges connection = none from unbound] at read
          cases read

/-- What is in reach of a reader has run when the reader does. -/
theorem Arranged.readsProduced (arranged : Arranged scheduler (.ofWorkflow workflow)
      (.ofRegion (.ofWorkflow workflow) none [] []) placements) (wired : Wired workflow)
    (inReach : (Binding.plan (.ofWorkflow workflow) placements).ReadsInReach workflow)
    (failures : List String) :
    (Binding.plan (.ofWorkflow workflow) placements).ReadsProduced workflow failures := by
  intro before step after split port own input member named id produced
  rw [arranged.trace_eq wired] at split
  obtain ⟨_, _, filtered, rfl, later⟩ := List.map_eq_append_iff.mp split
  obtain ⟨stage, _, rfl, rfl, _⟩ := List.map_eq_cons_iff.mp later
  obtain ⟨front, others, stages, rfl, later⟩ := List.filter_eq_append_iff.mp filtered
  obtain ⟨idle, rest, rfl, closed, runs, _⟩ := List.filter_eq_cons_iff.mp later
  rw [← List.append_assoc] at stages
  obtain ⟨_, inPlaces, same, suffix⟩ :=
    inReach ((front ++ idle).map (Stage.place (.ofWorkflow workflow)))
    (stage.place (.ofWorkflow workflow)) (rest.map (Stage.place (.ofWorkflow workflow)))
    (by rw [Binding.places_plan, stages, List.map_append, List.map_cons]) port own input member
    named id produced
  obtain ⟨earlier, among, rfl⟩ := List.mem_map.mp inPlaces
  -- the source lies in nothing but what the reader lies in, and that has been entered
  have runsToo : earlier.runs failures = true :=
    List.all_eq_true.mpr fun enclosure around =>
      List.all_eq_true.mp runs enclosure (suffix.subset around)
  rcases List.mem_append.mp among with inFront | inIdle
  · exact DryRun.State.hasRun_after.mpr (List.mem_map.mpr ⟨_, List.mem_map.mpr
      ⟨earlier, List.mem_filter.mpr ⟨inFront, runsToo⟩, rfl⟩, same⟩)
  · exact absurd runsToo (closed earlier inIdle)

/-! ### Plans with a stray connection -/

/-- **A stray connection has failures with which its source does not run, but its reader does.** The
head of the cluster that needs the reader lies in no arm of the branch, so all arms around it can be
entered while the arm of the source is not. -/
theorem Arranged.exists_failures (arranged : Arranged scheduler (.ofWorkflow workflow)
      (.ofRegion (.ofWorkflow workflow) none [] []) placements) (certified : Certified workflow)
    {connection : Connection} (stray : workflow.Stray connection) :
    ∃ failures, (∃ stage ∈ Binding.stagesOfAll (.ofWorkflow workflow) [] [] placements,
        stage.node = connection.target.node ∧ stage.runs failures = true) ∧
      ∀ stage ∈ Binding.stagesOfAll (.ofWorkflow workflow) [] [] placements,
        stage.node = connection.source.node → stage.runs failures = false := by
  have isSource := stray.source_scheduled
  obtain ⟨cluster, branch, comesUp, branchComesUp, needed, inArm, outside⟩ := stray.needed
  obtain ⟨head, bound⟩ := comesUp.exists_boundAt certified arranged
  obtain ⟨reader, isStage, readerNode, suffix⟩ :=
    bound.needed _ needed (comesUp.named_of_needed certified needed)
  obtain ⟨_, _, inBlock⟩ := comesUp
  have apart : ∀ onSuccess, .arm branch.head onSuccess ∉ head.path := by
    intro onSuccess around
    obtain ⟨other, _, otherUp, _, heads, holds⟩ := bound.around _ _ around
    obtain rfl := otherUp.unique branchComesUp heads
    exact outside (holds _ (Cluster.head_mem_inside inBlock)).1
  obtain ⟨arms, onSuccess, branching, inSide⟩ := Cluster.exists_side inArm
  obtain ⟨source, inStages, sourceNode, inPath⟩ :=
    branchComesUp.exists_stage_in_arm certified arranged branching inSide
  have scheduled : source.node ∈ Placing.scheduled (Placement.placingsOfAll placements) :=
    arranged.scheduled_of_placed .top (List.Subset.refl _)
      (Binding.node_of_mem_stagesOfAll inStages) (sourceNode ▸ isSource.2)
  -- the heads around the reader fail as they have to, and the branch so that the arm of the source
  -- is left out
  let others := if onSuccess then [branch.head] else []
  have isHead : ∀ id ∈ others, id = branch.head := by
    intro id member
    cases onSuccess with
    | true => exact List.mem_singleton.mp member
    | false => exact absurd member List.not_mem_nil
  have entered := Enclosure.all_isEntered bound.consistent fun id other => isHead id other ▸ apart
  have leftOut : Enclosure.isEntered (Enclosure.failing head.path ++ others)
      (.arm branch.head onSuccess) = false := by
    have succeeds : branch.head ∉ Enclosure.failing head.path := fun fails =>
      apart false (Enclosure.mem_failing.mp fails)
    cases onSuccess <;> simp [Enclosure.isEntered, others, succeeds]
  refine ⟨_, ⟨reader, isStage, readerNode, List.all_eq_true.mpr fun enclosure around =>
    List.all_eq_true.mp entered enclosure (suffix.subset around)⟩, fun stage isStage same => ?_⟩
  obtain rfl := arranged.stage_unique inStages isStage scheduled (same.trans sourceNode.symm)
  exact List.all_eq_false.mpr ⟨_, inPath, Bool.eq_false_iff.mp leftOut⟩

/-- A plan with a stray connection reads from an instance that has not run. -/
theorem Arranged.exists_not_readsProduced (arranged : Arranged scheduler (.ofWorkflow workflow)
      (.ofRegion (.ofWorkflow workflow) none [] []) placements) (certified : Certified workflow)
    {connection : Connection} (stray : workflow.Stray connection) :
    ∃ failures,
      ¬ (Binding.plan (.ofWorkflow workflow) placements).ReadsProduced workflow failures := by
  obtain ⟨failures, ⟨reader, isStage, readerNode, runs⟩, idle⟩ :=
    arranged.exists_failures certified stray
  refine ⟨failures, fun readsProduced => ?_⟩
  obtain ⟨port, own, named⟩ := stray.input
  -- the reader has no merge binding for the connection, so it reads from the source
  have unbound : Merge.bindingFor reader.merges connection = none := by
    obtain ⟨rest, final⟩ := (Binding.merges_of_mem_stagesOfAll isStage).2
    cases found : Merge.bindingFor reader.merges connection with
    | none => rfl
    | some binding =>
        have stays := @Merge.bindingFor_append_of_eq_some _ _ rest _ found
        rw [final, stray.bindingFor_eq_none certified.toWired
          (.placeAll (arranged.isBranch .top))] at stays
        cases stays
  have notStart := certified.ne_start_of_named stray.source_scheduled.1
  have ownToo : workflow.OwnInput reader.node port := readerNode ▸ own
  obtain ⟨input, member, atPort, produced⟩ :=
    ownToo.exists_input certified.toWired stray.member readerNode.symm named
    unbound notStart
  obtain ⟨before, after, split⟩ := List.append_of_mem (List.mem_map.mpr
    ⟨reader, List.mem_filter.mpr ⟨isStage, runs⟩, rfl⟩ : reader.step (.ofWorkflow workflow) ∈
      ((Binding.stagesOfAll (.ofWorkflow workflow) [] [] placements).filter
        (Stage.runs failures)).map (Stage.step (.ofWorkflow workflow)))
  have ran := DryRun.State.hasRun_after.mp (readsProduced before _ after
    ((arranged.trace_eq certified.toWired failures).trans split) port ownToo input member
    atPort _ produced)
  obtain ⟨step, among, same⟩ := List.mem_map.mp ran
  obtain ⟨stage, isRun, rfl⟩ := List.mem_map.mp (split ▸ List.mem_append_left _ among)
  obtain ⟨isStage, runs⟩ := List.mem_filter.mp isRun
  rw [idle stage isStage same] at runs
  cases runs

end Scheduler

/-! ### Expressions that are read -/

namespace Certified

variable {branch : Cluster}

/-- What an instance holds that lives inwards of a block lies in no cluster of the block that the
instance does not lie in. -/
theorem notMem_inside (certified : Certified workflow) {region : Region} {members : List String}
    (block : IsBlock workflow region members)
    (member : branch ∈ Cluster.ofBlock (.ofWorkflow workflow) members) {owner id : String}
    (known : owner ∈ workflow.instances.map (·.id))
    (inwards : (Index.ofWorkflow workflow).Within ((Index.ofWorkflow workflow).regionOf owner)
      region) (holds : (Index.ofWorkflow workflow).Holds owner id)
    (outside : owner ∉ branch.inside) :
    id ∉ branch.inside := by
  intro inside
  obtain ⟨_, holder, inMembers, holdsToo⟩ := (certified.mem_inside block member).mp inside
  rcases holds.linear holdsToo with (rfl | ⟨name, within⟩) | above
  · exact outside ((certified.mem_inside block member).mpr ⟨known, _, inMembers, .inl rfl⟩)
  · rw [block.regionOf (Cluster.members_subset block.distinct member inMembers)] at within
    exact certified.not_nested_self known ⟨name, inwards.trans within⟩
  · exact outside ((certified.mem_inside block member).mpr ⟨known, holder, inMembers, above⟩)

/-- What an instance holds that lies outside of a branch is exposed, if it is read at all. -/
theorem exposed_of_holds (certified : Certified workflow) {region : Region} {members : List String}
    (block : IsBlock workflow region members)
    (member : branch ∈ Cluster.ofBlock (.ofWorkflow workflow) members) {owner id : String}
    (known : owner ∈ workflow.instances.map (·.id))
    (inwards : (Index.ofWorkflow workflow).Within ((Index.ofWorkflow workflow).regionOf owner)
      region) (outside : owner ∉ branch.inside) (named : id ∈ workflow.instances.map (·.id))
    (holds : (Index.ofWorkflow workflow).Holds owner id)
    (isRead : (Index.ofWorkflow workflow).isExpression id = true →
      (Index.ofWorkflow workflow).NestedIn id owner ∧ workflow.IsRead id) :
    Merge.Exposed workflow branch id := by
  have scheduled : ∀ reader ∈ workflow.instances.map (·.id),
      (Index.ofWorkflow workflow).Holds owner reader →
      (Index.ofWorkflow workflow).isExpression reader = false →
      Merge.Exposed workflow branch reader :=
    fun reader named holds ordinary =>
      Merge.exposed_of_notMem (certified.ordinary_of_named named) ordinary
      (certified.notMem_inside block member known inwards holds outside)
  cases expression : (Index.ofWorkflow workflow).isExpression id with
  | false => exact scheduled id named holds expression
  | true =>
      obtain ⟨⟨name, nested⟩, isRead⟩ := isRead expression
      have ordinary := certified.ordinary_of_named named
      rcases isRead with ⟨reader, readerNamed, readerOrdinary, feeds⟩ |
        ⟨connection, inside, sink, data, lastExpression, last⟩
      · -- a reader lives inwards of what it reads
        have reads := certified.reads_of_feeds feeds ordinary
        have within := (certified.reads_inwards readerNamed reads).2.trans nested
        exact (scheduled reader readerNamed (.inr ⟨name, within⟩) readerOrdinary).of_reads
          reads expression
      · have exposed : Merge.Exposed workflow branch connection.source.node :=
          Merge.exposed_of_escapes
            (certified.ordinary_of_named (Analysis.isExpression_named lastExpression))
            lastExpression (Merge.mem_dataConnections.mpr ⟨inside, rfl, data⟩)
            (.direct (by simp [Merge.leavesDirectly, sink]))
        rcases last with rfl | feeds
        · exact exposed
        · exact exposed.of_reads (certified.reads_of_feeds feeds ordinary) expression

/-- **If every expression in a scope is read, a value that is needed outside of a branch is read
there.** -/
theorem escapes_of_needed (certified : Certified workflow)
    (allRead : ∀ inst ∈ workflow.instances,
      (Index.ofWorkflow workflow).isExpression inst.id = true → inst.parentScope ≠ none →
      workflow.IsRead inst.id) {connection : Connection}
    (inside : connection ∈ workflow.connections) {port : Port}
    (own : workflow.OwnInput connection.target.node port)
    (named : connection.target.port = port.name)
    (output : ∃ port, (Index.ofWorkflow workflow).sourcePort connection = some port ∧
      port.isData = true ∧
      port.scope = none) {cluster : Cluster} (clusterUp : workflow.HasCluster cluster)
    (needed : connection.target.node ∈ (Analysis.ofWorkflow workflow).neededBy cluster)
    (branchUp : workflow.HasCluster branch) (inArm : connection.source.node ∈ branch.armMembers)
    (outside : cluster.head ∉ branch.inside) :
    Merge.Escapes (.ofWorkflow workflow) branch connection := by
  obtain ⟨atTarget, _⟩ := certified.target_eq own inside rfl named
  obtain ⟨_, _, isInput, _⟩ := own
  have plain := (NodeType.mem_dataInputs.mp isInput).2.2.2
  have sourceKnown := (branchUp.member_scheduled (List.mem_cons_of_mem _ inArm)).1
  obtain ⟨around, aroundFormed, inAround⟩ := clusterUp
  obtain ⟨region, isBlock⟩ := aroundFormed.isBlock
  have headInBlock := (Cluster.exists_of_mem_ofBlock inAround).2.1
  obtain ⟨expression, visible, reader, readerKnown, holds, reads⟩ :=
    (certified.mem_neededBy_iff isBlock inAround).mp needed
  obtain ⟨members, formed, member⟩ := branchUp
  obtain ⟨branchRegion, branchBlock⟩ := formed.isBlock
  have given : connection.source.node ∈
      (Index.ofWorkflow workflow).readSources connection.target.node :=
    Index.mem_readSources.mpr ⟨connection, inside, rfl, ⟨port, atTarget, plain⟩,
      Index.dataSource?_eq_some.mpr ⟨rfl, certified.ordinary_of_named sourceKnown, output⟩⟩
  -- the cluster lives inwards of the expression, which lives inwards of the branch
  have inwards : (Index.ofWorkflow workflow).Within
      ((Index.ofWorkflow workflow).regionOf cluster.head)
      branchRegion := by
    have lives := branchBlock.regionOf
      (Cluster.members_subset branchBlock.distinct member (List.mem_cons_of_mem _ inArm))
    rw [isBlock.regionOf headInBlock, ← lives]
    exact visible.trans (certified.reads_inwards (Analysis.isExpression_named expression)
      (.direct given)).2
  have exposed : Merge.Exposed workflow branch reader := by
    refine certified.exposed_of_holds branchBlock member (isBlock.named headInBlock) inwards outside
      readerKnown holds fun isExpression => ?_
    have nested : (Index.ofWorkflow workflow).NestedIn reader cluster.head := by
      refine holds.resolve_left fun same => ?_
      rw [same, (Index.mem_scheduledIn.mp (isBlock.inside _ headInBlock)).2] at isExpression
      cases isExpression
    refine ⟨nested, ?_⟩
    obtain ⟨inst, declared, rfl⟩ := List.mem_map.mp readerKnown
    refine allRead inst declared isExpression fun top => ?_
    obtain ⟨_, within⟩ := nested
    rw [certified.regionOf_eq declared, top] at within
    cases within
  exact exposed.of_reads reads expression connection inside rfl ⟨port, atTarget, plain⟩

/-- **No connection is stray if every expression in a scope is read.** -/
theorem not_stray (certified : Certified workflow)
    (allRead : ∀ inst ∈ workflow.instances,
      (Index.ofWorkflow workflow).isExpression inst.id = true → inst.parentScope ≠ none →
      workflow.IsRead inst.id) (connection : Connection) :
    ¬ workflow.Stray connection := by
  intro stray
  obtain ⟨port, own, named⟩ := stray.input
  obtain ⟨cluster, branch, clusterUp, branchUp, needed, inArm, outside⟩ := stray.needed
  exact stray.unread branch branchUp inArm (certified.escapes_of_needed allRead stray.member own
    named stray.output clusterUp needed branchUp inArm outside)

end Certified

/-! ### Plans -/

/-- **A plan reads nothing but what has been produced, whatever fails, exactly if no connection is
stray.** Then all sources are in reach of their readers. So it is if every expression in a scope is
read. -/
theorem reads_produced_iff {scheduler : Scheduler} {plan : Plan}
    (valid : (validate workflow).hasErrors = false)
    (scheduled : (scheduler.schedule workflow).outcome = .ok plan) :
    (plan.ReadsInReach workflow ↔ ∀ connection, ¬ workflow.Stray connection) ∧
      ((∀ failures, plan.ReadsProduced workflow failures) ↔
        ∀ connection, ¬ workflow.Stray connection) ∧
      ((∀ inst ∈ workflow.instances, (Index.ofWorkflow workflow).isExpression inst.id = true →
        inst.parentScope ≠ none → workflow.IsRead inst.id) →
        plan.ReadsInReach workflow ∧ ∀ failures, plan.ReadsProduced workflow failures) := by
  have certified := certified_of_validate valid
  obtain ⟨placements, arranged, rfl⟩ := Scheduler.exists_arranged scheduled
  have produced := arranged.readsProduced certified.toWired
  have inReach := arranged.readsInReach certified
  have settled : (∀ failures, (Binding.plan (.ofWorkflow workflow) placements).ReadsProduced
      workflow failures) → ∀ connection, ¬ workflow.Stray connection := by
    intro readsProduced connection stray
    obtain ⟨failures, fails⟩ := arranged.exists_not_readsProduced certified stray
    exact fails (readsProduced failures)
  refine ⟨⟨fun reads => settled (produced reads), inReach⟩,
    ⟨settled, fun none => produced (inReach none)⟩, fun allRead => ?_⟩
  have reads := inReach (certified.not_stray allRead)
  exact ⟨reads, produced reads⟩

/-- A value of an arm that an expression reads for another one in a loop, which nothing reads. -/
def idleReader : Workflow where
  name := "idle-reader"
  nodeTypes :=
    [taskType, ((NodeType.expression "Upper").withInput "in" .string).withOutput "out" .string,
      (NodeType.function "Loop").withPort
        { Port.dataOutput "item" .string with scope := some "body" }]
  instances :=
    [{ id := "h", nodeType := "Task" }, { id := "x", nodeType := "Task" },
      { id := "y", nodeType := "Task" },
      { id := "e", nodeType := "Upper" }, { id := "m", nodeType := "Loop" },
      { id := "f", nodeType := "Upper", parentScope := some ⟨"m", "body"⟩ }]
  connections :=
    [⟨⟨"h", "onSuccess", none⟩, ⟨"x", "execute", none⟩⟩,
      ⟨⟨"h", "onFailure", none⟩, ⟨"y", "execute", none⟩⟩,
      ⟨⟨"x", "out", none⟩, ⟨"e", "in", none⟩⟩, ⟨⟨"e", "out", none⟩, ⟨"f", "in", none⟩⟩]
  scopes := [⟨"m", "body", ["f"]⟩]

/-- **An expression may read from an arm that has not been taken**, if it is only needed for an
expression in a scope that nothing reads. -/
theorem idleReader_reads_nothing :
    ∃ plan, (validate idleReader).hasErrors = false ∧
      (({} : Scheduler).schedule idleReader).outcome = .ok plan ∧
      (∃ before step after, DryRun.trace ["h"] {} plan.body = before ++ step :: after ∧
        step.node = "e" ∧ ⟨"in", .output "x" "out"⟩ ∈ step.inputs ∧ "x" ∉ before.map (·.node)) ∧
      ¬ plan.ReadsProduced idleReader ["h"] := by
  obtain ⟨plan, scheduled, runs⟩ := exists_of_toOption_map
    (show (({} : Scheduler).schedule idleReader).outcome.toOption.map (fun plan =>
        (DryRun.trace ["h"] {} plan.body).map fun step => (step.node, step.inputs)) =
      some ([("h", [⟨"in", .unbound⟩]), ("y", [⟨"in", .unbound⟩])] ++
        ("e", [⟨"in", .output "x" "out"⟩]) :: [("m", [])]) by decide +kernel)
  obtain ⟨before, others, split, first, later⟩ := List.map_eq_append_iff.mp runs
  obtain ⟨step, after, rfl, same, _⟩ := List.map_eq_cons_iff.mp later
  obtain ⟨isReader, inputs⟩ := Prod.mk.inj same
  have reads : (⟨"in", .output "x" "out"⟩ : InputBinding) ∈ step.inputs :=
    inputs ▸ List.mem_singleton_self _
  have idle : "x" ∉ before.map (·.node) := by
    have nodes : before.map (·.node) = ["h", "y"] := by
      have fst := congrArg (List.map Prod.fst) first
      rwa [List.map_map] at fst
    rw [nodes]
    decide
  refine ⟨plan, by decide +kernel, scheduled, ⟨before, step, after, split, isReader, reads, idle⟩,
    fun produced => ?_⟩
  obtain ⟨type, typed, port, isInput, named, unshared⟩ :
      ∃ type ∈ (Index.ofWorkflow idleReader).nodeType? "e",
      ∃ port ∈ type.dataInputs, port.name = "in" ∧ type.Unshared port.name := by decide +kernel
  have ran := produced before step after split port ⟨type, isReader ▸ typed, isInput, unshared⟩ _
    reads named.symm "x"
    rfl
  exact idle (DryRun.State.hasRun_after.mp ran)

/-- The same with a task in the loop that reads what the loop computes. -/
def busyReader : Workflow :=
  { idleReader with
    name := "busy reader"
    instances := idleReader.instances ++
      [{ id := "g", nodeType := "Task", parentScope := some ⟨"m", "body"⟩ }]
    connections := idleReader.connections ++ [⟨⟨"f", "out", none⟩, ⟨"g", "in", none⟩⟩]
    scopes := [⟨"m", "body", ["f", "g"]⟩] }

theorem reads_produced_iff_busyReader :
    ∃ plan, (validate busyReader).hasErrors = false ∧
      (({} : Scheduler).schedule busyReader).outcome = .ok plan ∧
      (DryRun.trace ["h"] {} plan.body).map (fun step => (step.node, step.inputs.map (·.source))) =
        [("h", [.unbound]), ("y", [.unbound]), ("e", [.merged "e.in"]), ("m", []),
          ("f", [.output "e" "out"]), ("g", [.output "f" "out"])] ∧
      plan.ReadsInReach busyReader ∧ ∀ failures, plan.ReadsProduced busyReader failures := by
  have valid : (validate busyReader).hasErrors = false := by decide +kernel
  obtain ⟨plan, scheduled, runs⟩ := exists_of_toOption_map
    (show (({} : Scheduler).schedule busyReader).outcome.toOption.map (fun plan =>
        (DryRun.trace ["h"] {} plan.body).map fun step => (step.node, step.inputs.map (·.source))) =
      some [("h", [.unbound]), ("y", [.unbound]), ("e", [.merged "e.in"]), ("m", []),
          ("f", [.output "e" "out"]), ("g", [.output "f" "out"])] by decide +kernel)
  have inScope : ∀ inst ∈ busyReader.instances,
      (Index.ofWorkflow busyReader).isExpression inst.id = true → inst.parentScope ≠ none →
      inst.id = "f" := by decide +kernel
  refine ⟨plan, valid, scheduled, runs,
    (reads_produced_iff valid scheduled).2.2 fun inst member expression nested => ?_⟩
  rw [inScope inst member expression nested]
  exact .inl ⟨"g", by decide, by decide +kernel, .direct (by decide +kernel)⟩

end WorkflowGraph
