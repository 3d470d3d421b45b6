/-
What has to be at hand when a cluster is placed, and when a region ends.

* `Certified.mem_prerequisites_of_visible` — a cluster waits for all that its head reads from
  around, in its scopes too.
* `Certified.mem_neededBy_iff` — the expressions that a cluster needs are those from around that its
  head reads, in its scopes too. They are closed under reading (`neededBy_closed`), and the cluster
  waits for what they read (`mem_prerequisites_of_neededBy`).
* `Analysis.mem_sinkExpressions` — the expressions that the end of a region reads. They are exposed,
  whatever the branch (`Certified.exposed_of_sink`).
-/

import WorkflowGraph.Proofs.Schedule.Merge
import WorkflowGraph.Proofs.Schedule.Waiting

namespace WorkflowGraph

variable {workflow : Workflow}

/-! ### What a cluster waits for -/

namespace Certified

variable {region : Region} {members : List String} {cluster : Cluster}

/-- What is inside a cluster and lives around its block is a member of the cluster. -/
theorem mem_members_of_visible (certified : Certified workflow)
    (block : IsBlock workflow region members)
    (member : cluster ∈ Cluster.ofBlock (.ofWorkflow workflow) members) {id : String}
    (inside : id ∈ cluster.inside)
    (visible : (Index.ofWorkflow workflow).Within region
      ((Index.ofWorkflow workflow).regionOf id)) :
    id ∈ cluster.members := by
  obtain ⟨_, holder, inMembers, rfl | ⟨name, within⟩⟩ :=
    (certified.mem_inside block member).mp inside
  · exact inMembers
  · have inBlock := Cluster.members_subset block.distinct member inMembers
    refine absurd ⟨name, ?_⟩ (certified.not_nested_self (block.named inBlock))
    rw [block.regionOf inBlock]
    exact visible.trans within

/-- **A cluster waits for all that its head reads from around**, in its scopes too. -/
theorem mem_prerequisites_of_visible (certified : Certified workflow)
    (block : IsBlock workflow region members)
    (member : cluster ∈ Cluster.ofBlock (.ofWorkflow workflow) members) {reader source : String}
    (known : reader ∈ workflow.instances.map (·.id))
    (held : (Index.ofWorkflow workflow).Holds cluster.head reader)
    (reads : source ∈ (Analysis.ofWorkflow workflow).dataOf reader)
    (visible : (Index.ofWorkflow workflow).Within region
      ((Index.ofWorkflow workflow).regionOf source)) :
    source ∈ cluster.prerequisites := by
  obtain ⟨rank, ranks⟩ := certified.ranked
  have readerInside : reader ∈ cluster.inside :=
    (certified.mem_inside block member).mpr ⟨known, _, List.mem_cons_self, held⟩
  refine (mem_prerequisites_of_reads member readerInside reads).resolve_right fun inside => ?_
  obtain ⟨_, less, _⟩ := certified.reads_cases ranks known (Analysis.sound_dataOf reads).2
  -- a member of the cluster has no lower rank than the head
  have below : rank reader ≤ rank cluster.head := by
    rcases held with rfl | nested
    · exact Nat.le_refl _
    · exact Nat.le_of_lt (certified.rank_of_nested ranks known nested)
  rcases List.mem_cons.mp (certified.mem_members_of_visible block member inside visible) with
    rfl | inArms
  · omega
  · have := certified.rank_of_mem_arms ranks block member inArms
    omega

/-- **What a cluster needs at hand**: the expressions from around that its head reads, in its scopes
too. -/
theorem mem_neededBy_iff (certified : Certified workflow) (block : IsBlock workflow region members)
    (member : cluster ∈ Cluster.ofBlock (.ofWorkflow workflow) members) {id : String} :
    id ∈ (Analysis.ofWorkflow workflow).neededBy cluster ↔
      (Index.ofWorkflow workflow).isExpression id = true ∧
        (Index.ofWorkflow workflow).Within region ((Index.ofWorkflow workflow).regionOf id) ∧
        ∃ reader ∈ workflow.instances.map (·.id),
          (Index.ofWorkflow workflow).Holds cluster.head reader ∧
            (Index.ofWorkflow workflow).Reads reader id := by
  have headInBlock := (Cluster.exists_of_mem_ofBlock member).2.1
  have headKnown := block.named headInBlock
  have headRegion := block.regionOf headInBlock
  rw [Analysis.neededBy, List.mem_append, List.mem_filter, List.mem_flatMap, decide_eq_true_eq]
  constructor
  · rintro (ofHead | ⟨⟨reader, nested, listed⟩, outside⟩)
    · obtain ⟨expression, reads⟩ := Analysis.sound_expressionsOf ofHead
      exact ⟨expression, headRegion ▸ (certified.reads_inwards headKnown reads).2, _,
        headKnown, .inl rfl, reads⟩
    · obtain ⟨expression, reads⟩ := Analysis.sound_expressionsOf listed
      obtain ⟨known, name, within⟩ := certified.mem_descendants.mp nested
      refine ⟨expression, ?_, reader, known, .inr ⟨name, within⟩, reads⟩
      -- the expression lives on the way outwards from the reader, but not in a scope of the head
      have notNested : ¬ (Index.ofWorkflow workflow).NestedIn id cluster.head := fun nested =>
        outside (certified.mem_descendants.mpr ⟨Analysis.isExpression_named expression, nested⟩)
      have held : (Index.ofWorkflow workflow).Holds cluster.head reader := .inr ⟨name, within⟩
      exact headRegion ▸
        (held.within_or_nested (certified.reads_inwards known reads).2).resolve_right notNested
  · rintro ⟨expression, visible, reader, known, rfl | nested, reads⟩
    · exact .inl (Analysis.mem_expressionsOf certified.expressionsAcyclic known reads expression)
    · refine .inr ⟨⟨reader, certified.mem_descendants.mpr ⟨known, nested⟩,
        Analysis.mem_expressionsOf certified.expressionsAcyclic known reads expression⟩,
          fun inside => ?_⟩
      obtain ⟨_, name, within⟩ := certified.mem_descendants.mp inside
      exact certified.not_nested_self headKnown ⟨name, headRegion ▸ visible.trans within⟩

/-- An expression that is read by one that is needed is needed too. -/
theorem neededBy_closed (certified : Certified workflow) (block : IsBlock workflow region members)
    (member : cluster ∈ Cluster.ofBlock (.ofWorkflow workflow) members) {id source : String}
    (needed : id ∈ (Analysis.ofWorkflow workflow).neededBy cluster)
    (reads : (Index.ofWorkflow workflow).Reads id source)
    (expression : (Index.ofWorkflow workflow).isExpression source = true) :
    source ∈ (Analysis.ofWorkflow workflow).neededBy cluster := by
  rw [certified.mem_neededBy_iff block member] at needed ⊢
  obtain ⟨middle, visible, reader, known, held, given⟩ := needed
  have inwards := (certified.reads_inwards (Analysis.isExpression_named middle) reads).2
  exact ⟨expression, visible.trans inwards, reader, known, held, given.trans middle reads⟩

/-- **A cluster waits for what the expressions read that it needs.** -/
theorem mem_prerequisites_of_neededBy (certified : Certified workflow)
    (block : IsBlock workflow region members)
    (member : cluster ∈ Cluster.ofBlock (.ofWorkflow workflow) members) {id source : String}
    (needed : id ∈ (Analysis.ofWorkflow workflow).neededBy cluster)
    (reads : (Index.ofWorkflow workflow).Reads id source)
    (ordinary : (Index.ofWorkflow workflow).isExpression source = false) :
    source ∈ cluster.prerequisites := by
  obtain ⟨middle, visible, reader, known, held, given⟩ :=
    (certified.mem_neededBy_iff block member).mp needed
  have inwards := (certified.reads_inwards (Analysis.isExpression_named middle) reads).2
  exact certified.mem_prerequisites_of_visible block member known held
    (Analysis.mem_dataOf certified.expressionsAcyclic known (given.trans middle reads) ordinary)
    (visible.trans inwards)

/-- What is read in a scope of a head lives there, or the cluster waits for it. -/
theorem mem_prerequisites_of_scope (certified : Certified workflow)
    (block : IsBlock workflow region members)
    (member : cluster ∈ Cluster.ofBlock (.ofWorkflow workflow) members)
    {name reader source : String} (known : reader ∈ workflow.instances.map (·.id))
    (lives : (Index.ofWorkflow workflow).regionOf reader = some ⟨cluster.head, name⟩)
    (reads : source ∈ (Analysis.ofWorkflow workflow).dataOf reader) :
    source ∈ cluster.prerequisites ∨
      (Index.ofWorkflow workflow).regionOf source = some ⟨cluster.head, name⟩ := by
  have inwards := (certified.reads_inwards known (Analysis.sound_dataOf reads).2).2
  generalize found : (Index.ofWorkflow workflow).regionOf source = sourceRegion at inwards ⊢
  rw [lives] at inwards
  cases inwards with
  | refl => exact .inr rfl
  | outward further =>
      have nested : (Index.ofWorkflow workflow).NestedIn reader cluster.head :=
        ⟨name, lives ▸ .refl _⟩
      refine .inl (certified.mem_prerequisites_of_visible block member known (.inr nested) reads ?_)
      rw [found, ← block.regionOf (Cluster.exists_of_mem_ofBlock member).2.1]
      exact further

end Certified

/-! ### What the end of a region reads -/

namespace Analysis

theorem cases_of_mem_sinkConnections {region : Region} {connection : Connection}
    (member : connection ∈ (ofWorkflow workflow).sinkConnections region) :
    connection ∈ workflow.connections ∧
      (region = none ∧ connection.target.node = exitId ∨
        ∃ scope port, region = some scope ∧ connection.target.node = scope.owner ∧
          (Index.ofWorkflow workflow).targetPort connection = some port ∧
          port.scope = some scope.name) := by
  cases region with
  | none =>
      obtain ⟨entry, incoming, rfl⟩ := List.mem_map.mp member
      obtain ⟨inside, into⟩ := Index.exists_mem_incoming.mp ⟨entry, incoming, rfl⟩
      exact ⟨inside, .inl ⟨rfl, into⟩⟩
  | some scope =>
      obtain ⟨among, collects⟩ := List.mem_filter.mp member
      obtain ⟨entry, incoming, rfl⟩ := List.mem_map.mp among
      obtain ⟨inside, into⟩ := Index.exists_mem_incoming.mp ⟨entry, incoming, rfl⟩
      obtain ⟨port, atTarget, named⟩ := Option.any_eq_true _ _ |>.mp collects
      exact ⟨inside, .inr ⟨scope, port, rfl, into, atTarget, by simpa using named⟩⟩

/-- **The expressions that the end of a region reads.** -/
theorem mem_sinkExpressions (acyclic : (Index.ofWorkflow workflow).ExpressionsAcyclic)
    {region : Region} {id : String} :
    id ∈ (ofWorkflow workflow).sinkExpressions region ↔
      (Index.ofWorkflow workflow).isExpression id = true ∧
        ∃ connection ∈ (ofWorkflow workflow).sinkConnections region, ∃ source,
          (Index.ofWorkflow workflow).dataSource? connection = some source ∧
            (Index.ofWorkflow workflow).isExpression source = true ∧
            (id = source ∨ (Index.ofWorkflow workflow).Reads source id) := by
  rw [sinkExpressions, List.mem_flatMap]
  constructor
  · rintro ⟨source, given, listed⟩
    obtain ⟨connection, member, found⟩ := List.mem_filterMap.mp given
    unfold Dependencies.ofSource at listed
    split at listed
    · rename_i expression
      rcases Dependencies.mem_union_expressions.mp listed with same | further
      · obtain rfl := List.mem_singleton.mp same
        exact ⟨expression, connection, member, id, found, expression, .inl rfl⟩
      · obtain ⟨expressionToo, reads⟩ := sound_expressionsOf further
        exact ⟨expressionToo, connection, member, source, found, expression, .inr reads⟩
    · cases listed
  · rintro ⟨expression, connection, member, source, found, sourceExpression, read⟩
    refine ⟨source, List.mem_filterMap.mpr ⟨connection, member, found⟩, ?_⟩
    rw [Dependencies.ofSource,
        if_pos (show (ofWorkflow workflow).index.isExpression source = true from
      sourceExpression), Dependencies.mem_union_expressions]
    rcases read with rfl | reads
    · exact .inl (List.mem_singleton_self _)
    · exact .inr (mem_expressionsOf acyclic (isExpression_named sourceExpression) reads expression)

end Analysis

namespace Certified

variable {region : Region} {id : String}

/-- An expression that is read by one that the end of a region reads is read there too. -/
theorem sinkExpressions_closed (certified : Certified workflow) {source : String}
    (sinks : id ∈ (Analysis.ofWorkflow workflow).sinkExpressions region)
    (reads : (Index.ofWorkflow workflow).Reads id source)
    (expression : (Index.ofWorkflow workflow).isExpression source = true) :
    source ∈ (Analysis.ofWorkflow workflow).sinkExpressions region := by
  rw [Analysis.mem_sinkExpressions certified.expressionsAcyclic] at sinks ⊢
  obtain ⟨middle, connection, member, first, found, firstExpression, read⟩ := sinks
  refine ⟨expression, connection, member, first, found, firstExpression, .inr ?_⟩
  rcases read with rfl | further
  · exact reads
  · exact further.trans middle reads

/-- **What the end of a region reads is exposed**, whatever the branch. -/
theorem exposed_of_sink (certified : Certified workflow)
    (sinks : id ∈ (Analysis.ofWorkflow workflow).sinkExpressions region) (branch : Cluster) :
    Merge.Exposed workflow branch id := by
  obtain ⟨expression, connection, member, source, found, sourceExpression, read⟩ :=
    (Analysis.mem_sinkExpressions certified.expressionsAcyclic).mp sinks
  obtain ⟨inside, ends⟩ := Analysis.cases_of_mem_sinkConnections member
  obtain ⟨rfl, ordinary, port, atSource, data, _⟩ := Index.dataSource?_eq_some.mp found
  have sink : Merge.intoSink (.ofWorkflow workflow) connection = true := by
    rcases ends with ⟨_, exit⟩ | ⟨scope, target, _, _, atTarget, named⟩
    · simp [Merge.intoSink, exit]
    · simp [Merge.intoSink, atTarget, named]
  have exposed : Merge.Exposed workflow branch connection.source.node := by
    refine Merge.exposed_of_escapes ordinary sourceExpression
      (Merge.mem_dataConnections.mpr ⟨inside, rfl, by simp [Index.isData, atSource, data]⟩)
      (.direct ?_)
    simp [Merge.leavesDirectly, sink]
  rcases read with rfl | reads
  · exact exposed
  · exact exposed.of_reads reads expression

/-- The end of a region reads expressions that live there, and those that they read. -/
theorem reader_of_sink (certified : Certified workflow)
    (owned : ∀ scope, region = some scope → isBoundary scope.owner = false)
    (sinks : id ∈ (Analysis.ofWorkflow workflow).sinkExpressions region) :
    ∃ reader ∈ workflow.instances.map (·.id), (Index.ofWorkflow workflow).regionOf reader = region ∧
      (Index.ofWorkflow workflow).isExpression reader = true ∧
      (id = reader ∨ (Index.ofWorkflow workflow).Reads reader id) := by
  obtain ⟨_, connection, member, source, found, sourceExpression, read⟩ :=
    (Analysis.mem_sinkExpressions certified.expressionsAcyclic).mp sinks
  obtain ⟨inside, ends⟩ := Analysis.cases_of_mem_sinkConnections member
  obtain ⟨rfl, ordinary, port, atSource, data, plain⟩ := Index.dataSource?_eq_some.mp found
  obtain ⟨_, target, _, atTarget, _⟩ := certified.ports connection inside
  obtain ⟨within, same⟩ :=
    certified.data_region inside atSource atTarget (by simpa [Port.isData] using data)
  rw [Wired.regionAt_plain ordinary plain] at within same
  refine ⟨_, Analysis.isExpression_named sourceExpression, ?_, sourceExpression, read⟩
  rcases ends with ⟨rfl, exit⟩ | ⟨scope, port, rfl, into, atTargetToo, named⟩
  · have atEnd : (Index.ofWorkflow workflow).regionAt connection.target target = none := by
      rw [Index.regionAt, exit]
      rfl
    rw [atEnd] at within
    generalize (Index.ofWorkflow workflow).regionOf connection.source.node = lives at within ⊢
    cases within
    rfl
  · rw [atTarget] at atTargetToo
    cases atTargetToo
    rw [same (by simp [named]), Index.regionAt, into, owned scope rfl, named]
    rfl

end Certified

end WorkflowGraph
