/-
Merge bindings and the connections behind them.

* `Merge.Escapes` — the value of a connection is read outside of a cluster, directly or through
  expressions.
* `Merge.Exposed` — all that is given to a node is read outside of a cluster; `Exposed.of_reads`
  says that this passes on to the expressions that the node reads.
* `Merge.mem_leaving` — the connections that carry values out of the arms of a branch.
* `Merge.collected_declare` — a branch declares one merge binding for each input that is not
  declared already, and its producers are the sources of the connections that leave for that input.
* `bindingFor_append`, `exportsOf_append` — later merge bindings change nothing for an instance that
  does not write them.
-/

import Mathlib.Data.List.Pairwise
import WorkflowGraph.Schedule.Merge
import WorkflowGraph.Proofs.Graph.Search
import WorkflowGraph.Proofs.Schedule.Dependencies

namespace WorkflowGraph.Merge

/-! ### Ports -/

theorem samePort_iff {first second : PortRef} :
    samePort first second = true ↔ first.node = second.node ∧ first.port = second.port := by
  rw [samePort, decide_eq_true_eq]

theorem samePort_symm {first second : PortRef} (same : samePort first second = true) :
    samePort second first = true :=
  samePort_iff.mpr ((samePort_iff.mp same).imp Eq.symm Eq.symm)

theorem samePort_trans {first second third : PortRef} (one : samePort first second = true)
    (other : samePort second third = true) : samePort first third = true :=
  samePort_iff.mpr ⟨(samePort_iff.mp one).1.trans (samePort_iff.mp other).1,
    (samePort_iff.mp one).2.trans (samePort_iff.mp other).2⟩

/-- The outputs of an instance that write a merge binding. -/
theorem mem_portsOf {merge : Merge} {node port : String} :
    port ∈ merge.portsOf node ↔ ∃ producer ∈ merge.producers, producer.node = node ∧
      producer.port = port := by
  rw [portsOf, Table.mem_names_ofList, List.map_map, List.mem_map]
  simp only [List.mem_filter, decide_eq_true_eq, Function.comp_apply, and_assoc]

/-! ### Values that leave -/

/-- Whether the value of a connection is read outside of a cluster, directly or through
expressions. -/
inductive Escapes (index : Index) (cluster : Cluster) : Connection → Prop
  | direct {connection : Connection} : leavesDirectly index cluster connection = true →
      Escapes index cluster connection
  | through {connection next : Connection} : intoExpression index connection = true →
      next ∈ dataConnections index connection.target.node → Escapes index cluster next →
      Escapes index cluster connection

section

variable {workflow : Workflow} {cluster : Cluster} {connection : Connection}

theorem mem_dataConnections {id : String} :
    connection ∈ dataConnections (.ofWorkflow workflow) id ↔
      connection ∈ workflow.connections ∧ connection.source.node = id ∧
        (Index.ofWorkflow workflow).isData connection = true := by
  rw [dataConnections, List.mem_filter, List.mem_map, Index.exists_mem_outgoing, and_assoc]

theorem mem_expressionTargets {index : Index} {connections : List Connection} {id : String} :
    id ∈ expressionTargets index connections ↔
      ∃ connection ∈ connections, intoExpression index connection = true ∧
      connection.target.node = id := by
  rw [expressionTargets, List.mem_map]
  simp only [List.mem_filter, and_assoc]

theorem isExpression_of_intoExpression {index : Index}
    (into : intoExpression index connection = true) :
    index.isExpression connection.target.node = true := by
  rw [intoExpression, Bool.and_eq_true] at into
  exact into.2

/-- The nodes that the search for readers looks at: a connection leads into an expression, and from
there through expressions. -/
theorem leaves_iff :
    leaves (.ofWorkflow workflow) cluster connection = true ↔
      leavesDirectly (.ofWorkflow workflow) cluster connection = true ∨
        ∃ last, (∃ id, Graph.Reachable
            (fun id => expressionTargets (.ofWorkflow workflow)
              (dataConnections (.ofWorkflow workflow) id))
            (expressionTargets (.ofWorkflow workflow) [connection]) id ∧
          last ∈ dataConnections (.ofWorkflow workflow) id) ∧
          leavesDirectly (.ofWorkflow workflow) cluster last = true := by
  have named : ∀ id, expressionTargets (.ofWorkflow workflow)
      (dataConnections (.ofWorkflow workflow) id) ⊆ workflow.instances.map (·.id) := by
    intro id target member
    obtain ⟨_, _, into, rfl⟩ := mem_expressionTargets.mp member
    exact Analysis.isExpression_named (isExpression_of_intoExpression into)
  have search := fun id =>
    @Graph.mem_reached_iff _ _ (expressionTargets (.ofWorkflow workflow) [connection])
    workflow.instances.length named (by simp) id
  rw [leaves, List.any_cons, Bool.or_eq_true, List.any_eq_true]
  simp only [List.mem_flatMap]
  exact or_congr_right (exists_congr fun last => and_congr_left fun _ => exists_congr fun id =>
    and_congr_left fun _ => search id)

/-- **The search through expressions finds out whether a value is read outside of a cluster.** -/
theorem leaves_iff_escapes :
    leaves (.ofWorkflow workflow) cluster connection = true ↔
      Escapes (.ofWorkflow workflow) cluster connection := by
  constructor
  · intro leaves
    rcases leaves_iff.mp leaves with here | ⟨last, ⟨id, ⟨start, isStart, path⟩, outOf⟩, leaves⟩
    · exact .direct here
    · obtain ⟨_, same, into, rfl⟩ := mem_expressionTargets.mp isStart
      rw [List.mem_singleton.mp same] at into path
      have escapes : ∀ first, Relation.ReflTransGen (fun earlier later => later ∈
          expressionTargets (.ofWorkflow workflow) (dataConnections (.ofWorkflow workflow) earlier))
          first id →
          ∃ next ∈ dataConnections (.ofWorkflow workflow) first,
            Escapes (.ofWorkflow workflow) cluster next := by
        intro first path
        induction path using Relation.ReflTransGen.head_induction_on with
        | refl => exact ⟨last, outOf, .direct leaves⟩
        | head follows _ ih =>
            obtain ⟨next, outOfNext, escapes⟩ := ih
            obtain ⟨middle, inside, into, rfl⟩ := mem_expressionTargets.mp follows
            exact ⟨middle, inside, .through into outOfNext escapes⟩
      obtain ⟨next, outOf, escapes⟩ := escapes _ path
      exact .through into outOf escapes
  · intro escapes
    induction escapes with
    | direct here => exact leaves_iff.mpr (.inl here)
    | @through connection next into outOf _ ih =>
        have start := mem_expressionTargets.mpr ⟨connection, List.mem_singleton_self _, into, rfl⟩
        refine leaves_iff.mpr (.inr ?_)
        rcases leaves_iff.mp ih with here | ⟨last, ⟨id, ⟨first, isStart, path⟩, outOfLast⟩, leaves⟩
        · exact ⟨next, ⟨_, ⟨_, start, .refl⟩, outOf⟩, here⟩
        · obtain ⟨_, same, intoNext, rfl⟩ := mem_expressionTargets.mp isStart
          rw [List.mem_singleton.mp same] at intoNext path
          have follows := mem_expressionTargets.mpr ⟨next, outOf, intoNext, rfl⟩
          exact ⟨last, ⟨id, ⟨_, start, .head follows path⟩, outOfLast⟩, leaves⟩

/-- What is read outside of a cluster is read outside of all that lies in the cluster. -/
theorem Escapes.mono {index : Index} {inner : Cluster} (escapes : Escapes index cluster connection)
    (subset : ∀ id ∈ inner.inside, id ∈ cluster.inside) : Escapes index inner connection := by
  induction escapes with
  | @direct connection leaves =>
      refine .direct ?_
      simp only [leavesDirectly, Bool.or_eq_true, Bool.and_eq_true, decide_eq_true_eq] at leaves ⊢
      exact leaves.imp_right fun ⟨plain, outside⟩ =>
        ⟨plain, fun inside => outside (subset _ inside)⟩
  | through into outOf _ ih => exact .through into outOf ih

/-- Whether all that is given to a node outside of scopes is read outside of a cluster. -/
def Exposed (workflow : Workflow) (cluster : Cluster) (id : String) : Prop :=
  ∀ connection ∈ workflow.connections, connection.target.node = id →
    (∃ port, (Index.ofWorkflow workflow).targetPort connection = some port ∧ port.scope = none) →
    Escapes (.ofWorkflow workflow) cluster connection

theorem exposed_of_notMem {id : String} (ordinary : isBoundary id = false)
    (plain : (Index.ofWorkflow workflow).isExpression id = false) (outside : id ∉ cluster.inside) :
    Exposed workflow cluster id := by
  intro connection _ into _
  refine .direct ?_
  simp [leavesDirectly, into, ordinary, plain, outside]

/-- What is given to an expression is read where the expression is. -/
theorem exposed_of_escapes {id : String} (ordinary : isBoundary id = false)
    (expression : (Index.ofWorkflow workflow).isExpression id = true)
    (outOf : connection ∈ dataConnections (.ofWorkflow workflow) id)
    (escapes : Escapes (.ofWorkflow workflow) cluster connection) :
    Exposed workflow cluster id := by
  rintro given _ into ⟨port, atTarget, plain⟩
  refine .through ?_ (into ▸ outOf) escapes
  have notExit : id ≠ exitId := by
    rintro rfl
    cases ordinary
  simp [intoExpression, intoSink, into, notExit, atTarget, plain, ordinary, expression]

/-- **What a node reads through expressions is exposed with the node.** -/
theorem Exposed.of_reads {id source : String} (exposed : Exposed workflow cluster id)
    (reads : (Index.ofWorkflow workflow).Reads id source)
    (expression : (Index.ofWorkflow workflow).isExpression source = true) :
    Exposed workflow cluster source := by
  have step : ∀ id source, Exposed workflow cluster id →
      source ∈ (Index.ofWorkflow workflow).readSources id →
      (Index.ofWorkflow workflow).isExpression source = true → Exposed workflow cluster source := by
    intro id source exposed given expression
    obtain ⟨connection, member, into, plain, found⟩ := Index.mem_readSources.mp given
    obtain ⟨rfl, ordinary, port, atSource, data, _⟩ := Index.dataSource?_eq_some.mp found
    refine exposed_of_escapes ordinary expression (mem_dataConnections.mpr ⟨member, rfl, ?_⟩)
      (exposed connection member into plain)
    rw [Index.isData, atSource, Option.any_some, data]
  induction reads with
  | direct given => exact step _ _ exposed given expression
  | through given between _ ih => exact ih (step _ _ exposed given between) expression

/-- **The connections that carry values out of the arms of a branch.** -/
theorem mem_leaving :
    connection ∈ leaving (.ofWorkflow workflow) cluster ↔
      connection ∈ workflow.connections ∧ connection.source.node ∈ cluster.armMembers ∧
        (∃ port, (Index.ofWorkflow workflow).sourcePort connection = some port ∧
          port.isData = true ∧ port.scope = none) ∧
        Escapes (.ofWorkflow workflow) cluster connection := by
  rw [leaving, List.mem_flatMap]
  simp only [List.mem_filter, List.mem_map, Bool.and_eq_true, Option.any_eq_true,
    Option.isNone_iff_eq_none, leaves_iff_escapes]
  constructor
  · rintro ⟨member, inArms, ⟨entry, out, rfl⟩, plain, leaves⟩
    obtain ⟨inside, rfl⟩ := Index.exists_mem_outgoing.mp ⟨entry, out, rfl⟩
    exact ⟨inside, inArms, plain, leaves⟩
  · rintro ⟨inside, inArms, plain, leaves⟩
    obtain ⟨entry, out, same⟩ := Index.exists_mem_outgoing.mpr ⟨inside, rfl⟩
    exact ⟨_, inArms, ⟨entry, out, same⟩, plain, leaves⟩

end

/-! ### Declarations -/

/-- Whether merge bindings are those of some connections: one for each input, with the sources of
the connections into that input as producers. -/
structure Collected (connections : List Connection) (merges : List Merge) : Prop where
  distinct : merges.Pairwise fun first second => samePort first.consumer second.consumer = false
  consumer : ∀ merge ∈ merges, ∃ connection ∈ connections, merge.consumer = connection.target
  producer : ∀ merge ∈ merges, ∀ producer ∈ merge.producers, ∃ connection ∈ connections,
    connection.source = producer ∧ samePort merge.consumer connection.target = true
  all : ∀ connection ∈ connections, ∃ merge ∈ merges,
    samePort merge.consumer connection.target = true ∧ connection.source ∈ merge.producers

variable {index : Index} {connection : Connection}

/-- What adding a producer does to merge bindings: it is written down with the binding for its
target, which may be a new one; all else stays. -/
theorem mem_addProducer {merges : List Merge} {merge : Merge}
    (member : merge ∈ addProducer index connection merges) :
    (merge ∈ merges ∨
      (∃ old ∈ merges, samePort old.consumer connection.target = true ∧
        merge.consumer = old.consumer ∧ merge.producers = old.producers ++ [connection.source]) ∨
      (merge.consumer = connection.target ∧ merge.producers = [connection.source])) := by
  induction merges with
  | nil =>
      rw [List.mem_singleton.mp member]
      exact .inr (.inr ⟨rfl, rfl⟩)
  | cons first rest ih =>
      rw [addProducer] at member
      split at member
      · rename_i same
        rcases List.mem_cons.mp member with rfl | later
        · exact .inr (.inl ⟨first, List.mem_cons_self, same, rfl, rfl⟩)
        · exact .inl (List.mem_cons_of_mem _ later)
      · rcases List.mem_cons.mp member with rfl | later
        · exact .inl List.mem_cons_self
        · rcases ih later with kept | ⟨old, among, rest⟩ | new
          · exact .inl (List.mem_cons_of_mem _ kept)
          · exact .inr (.inl ⟨old, List.mem_cons_of_mem _ among, rest⟩)
          · exact .inr (.inr new)

/-- No merge binding loses a producer, and the new one is among them. -/
theorem exists_mem_addProducer (merges : List Merge) :
    (∃ merge ∈ addProducer index connection merges,
      samePort merge.consumer connection.target = true ∧ connection.source ∈ merge.producers) ∧
    ∀ old ∈ merges, ∃ merge ∈ addProducer index connection merges,
      merge.consumer = old.consumer ∧ old.producers ⊆ merge.producers := by
  induction merges with
  | nil =>
      refine ⟨⟨_, List.mem_singleton_self _, samePort_iff.mpr ⟨rfl, rfl⟩,
        List.mem_singleton_self _⟩, ?_⟩
      exact fun _ none => (nomatch none)
  | cons first rest ih =>
      rw [addProducer]
      split
      · rename_i same
        refine ⟨⟨_, List.mem_cons_self, same, by simp⟩, fun old member => ?_⟩
        rcases List.mem_cons.mp member with rfl | later
        · exact ⟨_, List.mem_cons_self, rfl, List.subset_append_left _ _⟩
        · exact ⟨old, List.mem_cons_of_mem _ later, rfl, List.Subset.refl _⟩
      · obtain ⟨⟨merge, among, isNew⟩, kept⟩ := ih
        refine ⟨⟨merge, List.mem_cons_of_mem _ among, isNew⟩, fun old member => ?_⟩
        rcases List.mem_cons.mp member with rfl | later
        · exact ⟨old, List.mem_cons_self, rfl, List.Subset.refl _⟩
        · obtain ⟨merge, among, same⟩ := kept old later
          exact ⟨merge, List.mem_cons_of_mem _ among, same⟩

theorem distinct_addProducer {merges : List Merge}
    (distinct : merges.Pairwise fun first second =>
      samePort first.consumer second.consumer = false) :
    (addProducer index connection merges).Pairwise fun first second =>
      samePort first.consumer second.consumer = false := by
  induction merges with
  | nil => exact List.pairwise_singleton _ _
  | cons first rest ih =>
      obtain ⟨apart, others⟩ := List.pairwise_cons.mp distinct
      rw [addProducer]
      split
      · exact List.pairwise_cons.mpr ⟨apart, others⟩
      · rename_i different
        refine List.pairwise_cons.mpr ⟨fun merge member => ?_, ih others⟩
        rcases mem_addProducer member with kept | ⟨old, among, _, same, _⟩ | ⟨same, _⟩
        · exact apart merge kept
        · exact same ▸ apart old among
        · exact same ▸ Bool.not_eq_true _ ▸ different

theorem Collected.addProducer {connections : List Connection} {merges : List Merge}
    (collected : Collected connections merges) :
    Collected (connections ++ [connection]) (addProducer index connection merges) := by
  have here : connection ∈ connections ++ [connection] := by simp
  refine ⟨distinct_addProducer collected.distinct, fun merge member =>
    ?_, fun merge member producer writes => ?_, fun other member => ?_⟩
  · rcases mem_addProducer member with kept | ⟨old, among, _, same, _⟩ | ⟨same, _⟩
    · obtain ⟨other, inside, consumes⟩ := collected.consumer merge kept
      exact ⟨other, List.mem_append_left _ inside, consumes⟩
    · obtain ⟨other, inside, consumes⟩ := collected.consumer old among
      exact ⟨other, List.mem_append_left _ inside, same.trans consumes⟩
    · exact ⟨connection, here, same⟩
  · have earlier : ∀ old ∈ merges, producer ∈ old.producers → merge.consumer = old.consumer →
        ∃ other ∈ connections ++ [connection], other.source = producer ∧
          samePort merge.consumer other.target = true := by
      intro old among writes same
      obtain ⟨other, inside, source, into⟩ := collected.producer old among producer writes
      exact ⟨other, List.mem_append_left _ inside, source, same ▸ into⟩
    rcases mem_addProducer member with
      kept | ⟨old, among, into, same, producers⟩ | ⟨same, producers⟩
    · exact earlier merge kept writes rfl
    · rw [producers] at writes
      rcases List.mem_append.mp writes with before | new
      · exact earlier old among before same
      · exact ⟨connection, here, (List.mem_singleton.mp new).symm, same ▸ into⟩
    · rw [producers] at writes
      refine ⟨connection, here, (List.mem_singleton.mp writes).symm, ?_⟩
      rw [same]
      exact samePort_iff.mpr ⟨rfl, rfl⟩
  · obtain ⟨isNew, kept⟩ := @exists_mem_addProducer index connection merges
    rcases List.mem_append.mp member with before | new
    · obtain ⟨old, among, into, writes⟩ := collected.all other before
      obtain ⟨merge, inside, same, more⟩ := kept old among
      exact ⟨merge, inside, same ▸ into, more writes⟩
    · rw [List.mem_singleton.mp new]
      exact isNew

/-- **A branch declares one merge binding for each input that its arms write and that is not
declared already.** -/
theorem collected_declare (index : Index) (outer : List Merge) (cluster : Cluster) :
    Collected ((leaving index cluster).filter fun connection =>
      !outer.any fun merge => samePort merge.consumer connection.target)
      (declare index outer cluster) := by
  have fold : ∀ (connections earlier : List Connection) (merges : List Merge),
      Collected earlier merges → Collected (earlier ++ connections)
        (connections.foldl (fun declared connection => addProducer index connection declared)
          merges) := by
    intro connections
    induction connections with
    | nil => exact fun earlier merges collected => (List.append_nil earlier).symm ▸ collected
    | cons connection rest ih =>
        intro earlier merges collected
        have := ih _ _ (@collected.addProducer index connection)
        rwa [List.append_assoc, List.singleton_append] at this
  refine fold _ [] [] ⟨List.Pairwise.nil, ?_, ?_, ?_⟩ <;> exact fun _ none => (nomatch none)

/-- A branch declares nothing for an input that has a merge binding already. -/
theorem fresh_of_mem_declare {outer : List Merge} {cluster : Cluster} {merge : Merge}
    (declares : merge ∈ declare index outer cluster) :
    ∀ known ∈ outer, samePort known.consumer merge.consumer = false := by
  intro known among
  obtain ⟨connection, leaves, same⟩ :=
    (collected_declare index outer cluster).consumer merge declares
  have absent := (List.mem_filter.mp leaves).2
  rw [Bool.not_eq_true', List.any_eq_false] at absent
  exact same ▸ Bool.not_eq_true _ ▸ absent known among

/-- Once a branch is bound, there is a merge binding for all that leaves its arms. -/
theorem exists_mem_of_leaving {cluster : Cluster} (leaves : connection ∈ leaving index cluster)
    (outer : List Merge) :
    ∃ merge ∈ outer ++ declare index outer cluster,
      samePort merge.consumer connection.target = true := by
  by_cases already : outer.any (fun merge => samePort merge.consumer connection.target) = true
  · obtain ⟨merge, among, consumes⟩ := List.any_eq_true.mp already
    exact ⟨merge, List.mem_append_left _ among, consumes⟩
  · obtain ⟨merge, among, consumes, _⟩ := (collected_declare index outer cluster).all connection
      (List.mem_filter.mpr ⟨leaves, by simpa using already⟩)
    exact ⟨merge, List.mem_append_right _ among, consumes⟩

/-! ### Use -/

/-- **Later merge bindings change nothing for an instance that does not write them.** -/
theorem bindingFor_append {merges rest : List Merge}
    (unwritten : ∀ merge ∈ rest, ∀ producer ∈ merge.producers,
      producer.node ≠ connection.source.node) :
    bindingFor (merges ++ rest) connection = bindingFor merges connection := by
  rw [bindingFor, bindingFor, List.find?_append]
  cases merges.find? fun merge => samePort merge.consumer connection.target with
  | some merge => rfl
  | none =>
      rw [Option.none_or]
      cases found : rest.find? fun merge => samePort merge.consumer connection.target with
      | none => rfl
      | some merge =>
          have silent : merge.producers.any (samePort connection.source) = false := by
            refine List.any_eq_false.mpr fun producer writes same => ?_
            exact unwritten merge (List.mem_of_find?_eq_some found) producer writes
              (samePort_iff.mp same).1.symm
          simp only [Option.filter_some, silent, Bool.false_eq_true, if_false, Option.filter_none]

theorem exportsOf_append {merges rest : List Merge} {node : String}
    (unwritten : ∀ merge ∈ rest, ∀ producer ∈ merge.producers, producer.node ≠ node) :
    exportsOf (merges ++ rest) node = exportsOf merges node := by
  have silent : exportsOf rest node = [] := by
    rw [exportsOf, List.flatMap_eq_nil_iff]
    intro merge member
    rw [List.map_eq_nil_iff, List.eq_nil_iff_forall_not_mem]
    intro port writes
    obtain ⟨producer, among, same, _⟩ := mem_portsOf.mp writes
    exact unwritten merge member producer among same
  rw [exportsOf, List.flatMap_append, ← exportsOf, ← exportsOf, silent, List.append_nil]

/-- A merge binding that is found stays the one that is found. -/
theorem bindingFor_append_of_eq_some {merges rest : List Merge} {binding : String}
    (found : bindingFor merges connection = some binding) :
    bindingFor (merges ++ rest) connection = some binding := by
  rw [bindingFor] at found ⊢
  obtain ⟨merge, kept, named⟩ := Option.map_eq_some_iff.mp found
  obtain ⟨first, writes⟩ := Option.filter_eq_some_iff.mp kept
  rw [List.find?_append, first, Option.some_or]
  simp only [Option.filter_some, writes, if_true, Option.map_some, named]

theorem bindingFor_eq_some {merges : List Merge} {binding : String} :
    bindingFor merges connection = some binding → ∃ merge ∈ merges,
      samePort merge.consumer connection.target = true ∧ merge.id = binding ∧
        merge.producers.any (samePort connection.source) = true := by
  intro found
  obtain ⟨merge, kept, named⟩ := Option.map_eq_some_iff.mp found
  obtain ⟨first, writes⟩ := Option.filter_eq_some_iff.mp kept
  have into := List.find?_some first
  exact ⟨merge, List.mem_of_find?_eq_some first, into, named, writes⟩

theorem mem_exportsOf {merges : List Merge} {node : String} {sent : Export} :
    sent ∈ exportsOf merges node ↔ ∃ merge ∈ merges, sent.binding = merge.id ∧
      ∃ producer ∈ merge.producers, producer.node = node ∧ producer.port = sent.port := by
  rw [exportsOf, List.mem_flatMap]
  refine exists_congr fun merge => and_congr_right fun _ => ?_
  rw [List.mem_map]
  constructor
  · rintro ⟨port, writes, rfl⟩
    exact ⟨rfl, mem_portsOf.mp writes⟩
  · rintro ⟨named, writes⟩
    exact ⟨sent.port, mem_portsOf.mpr writes, by rw [← named]⟩

end WorkflowGraph.Merge
