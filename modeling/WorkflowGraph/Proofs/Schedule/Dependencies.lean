/-
What instances are triggered by and what they read.

* `Index.Reads` — one instance reads another, directly or through expressions.
* `mem_triggersOf`, `mem_descendants` — the tables of an analysis hold what the index says.
* `sound_dataOf`, `sound_expressionsOf` — what the analysis lists for an instance is read by it, in
  any workflow.
* `mem_dataOf`, `mem_expressionsOf` — all that an instance reads is listed, if no expression reads
  itself.
-/

import Mathlib.Data.List.Nodup
import Mathlib.Data.List.Perm.Subperm
import WorkflowGraph.Schedule.Dependencies
import WorkflowGraph.Proofs.Region

namespace WorkflowGraph

/-! ### Sources of connections -/

namespace Index

/-- The instance where a connection starts, if it starts at a port of a kind outside of all
scopes. -/
theorem plainSource_eq_some {index : Index} {connection : Connection} {id : String}
    (kind : Port → Bool) :
    (if (index.sourcePort connection).any (fun port => kind port && port.scope.isNone) &&
        !isBoundary connection.source.node then some connection.source.node else none) = some id ↔
      connection.source.node = id ∧ isBoundary id = false ∧
        ∃ port, index.sourcePort connection = some port ∧ kind port = true ∧ port.scope = none := by
  cases index.sourcePort connection with
  | none => simp
  | some port =>
      simp only [Option.any_some, Bool.and_eq_true, Option.isNone_iff_eq_none, Bool.not_eq_true',
        Option.some.injEq, exists_eq_left']
      split
      · rename_i both
        rw [Option.some.injEq]
        exact ⟨fun same => ⟨same, same ▸ both.2, both.1⟩, fun known => known.1⟩
      · rename_i neither
        refine ⟨fun none => (nomatch none), fun known => absurd ⟨known.2.2, ?_⟩ neither⟩
        exact known.1 ▸ known.2.1

theorem stepSource?_eq_some {index : Index} {connection : Connection} {id : String} :
    index.stepSource? connection = some id ↔
      connection.source.node = id ∧ isBoundary id = false ∧
        ∃ port, index.sourcePort connection = some port ∧ port.isStep = true ∧ port.scope = none :=
  plainSource_eq_some Port.isStep

theorem dataSource?_eq_some {index : Index} {connection : Connection} {id : String} :
    index.dataSource? connection = some id ↔
      connection.source.node = id ∧ isBoundary id = false ∧
        ∃ port, index.sourcePort connection = some port ∧ port.isData = true ∧ port.scope = none :=
  plainSource_eq_some Port.isData

variable {workflow : Workflow}

/-- What a function picks from the connections into a node. -/
theorem mem_filterMap_incoming {pick : Connection → Option String} {id picked : String} :
    (picked ∈ ((ofWorkflow workflow).incoming id).filterMap fun entry => pick entry.2) ↔
      ∃ connection ∈ workflow.connections, connection.target.node = id ∧
        pick connection = some picked := by
  rw [List.mem_filterMap]
  constructor
  · rintro ⟨entry, member, found⟩
    obtain ⟨inside, into⟩ := exists_mem_incoming.mp ⟨entry, member, rfl⟩
    exact ⟨entry.2, inside, into, found⟩
  · rintro ⟨connection, inside, into, found⟩
    obtain ⟨entry, member, rfl⟩ := exists_mem_incoming.mpr ⟨inside, into⟩
    exact ⟨entry, member, found⟩

theorem mem_stepPredecessors {id source : String} :
    source ∈ (ofWorkflow workflow).stepPredecessors id ↔
      ∃ connection ∈ workflow.connections, connection.target.node = id ∧
        (ofWorkflow workflow).stepSource? connection = some source := by
  rw [stepPredecessors, List.mem_eraseDups, mem_filterMap_incoming]

theorem mem_readSources {id source : String} :
    source ∈ (ofWorkflow workflow).readSources id ↔
      ∃ connection ∈ workflow.connections, connection.target.node = id ∧
        (∃ port, (ofWorkflow workflow).targetPort connection = some port ∧ port.scope = none) ∧
        (ofWorkflow workflow).dataSource? connection = some source := by
  unfold readSources
  rw [@mem_filterMap_incoming workflow fun connection =>
    if ((ofWorkflow workflow).targetPort connection).any (·.scope.isNone) then
      (ofWorkflow workflow).dataSource? connection else none]
  simp [Option.any_eq_true]

theorem mem_expressionSources {id source : String} :
    source ∈ (ofWorkflow workflow).expressionSources id ↔
      (ofWorkflow workflow).isExpression source = true ∧
        ∃ connection ∈ workflow.connections, connection.target.node = id ∧
          (ofWorkflow workflow).dataSource? connection = some source := by
  rw [expressionSources, List.mem_filter, mem_filterMap_incoming, and_comm]

/-! ### Reading -/

/-- Whether an instance reads another one, directly or through expressions. -/
inductive Reads (index : Index) : String → String → Prop
  | direct {id source : String} : source ∈ index.readSources id → Reads index id source
  | through {id middle source : String} :
      middle ∈ index.readSources id → index.isExpression middle = true →
      Reads index middle source → Reads index id source

/-- Whether no expression reads itself. -/
def ExpressionsAcyclic (index : Index) : Prop :=
  ∀ id, index.isExpression id = true → ¬ index.Reads id id

theorem Reads.trans {index : Index} {id middle source : String} (first : index.Reads id middle)
    (expression : index.isExpression middle = true) (second : index.Reads middle source) :
    index.Reads id source := by
  induction first with
  | direct member => exact .through member expression second
  | through member between _ ih => exact .through member between (ih expression second)

end Index

namespace Dependencies

variable {index : Index}

/-! ### What is listed is read -/

/-- Whether an instance reads all that is listed, and what is listed stands in the right list. -/
structure Sound (index : Index) (id : String) (found : Dependencies) : Prop where
  data : ∀ source ∈ found.data, index.isExpression source = false ∧ index.Reads id source
  expressions : ∀ source ∈ found.expressions,
    index.isExpression source = true ∧ index.Reads id source

/-- Whether a table is sound for every instance in it. -/
def TableSound (index : Index) (table : Table Dependencies) : Prop :=
  ∀ id found, table.get? id = some found → Sound index id found

theorem Sound.empty (id : String) : Sound index id {} :=
  ⟨fun _ member => (nomatch member), fun _ member => (nomatch member)⟩

theorem mem_union_data {first second : Dependencies} {source : String} :
    source ∈ (first.union second).data ↔ source ∈ first.data ∨ source ∈ second.data := by
  rw [union, List.mem_eraseDups, List.mem_append]

theorem mem_union_expressions {first second : Dependencies} {source : String} :
    source ∈ (first.union second).expressions ↔
      source ∈ first.expressions ∨ source ∈ second.expressions := by
  rw [union, List.mem_eraseDups, List.mem_append]

theorem Sound.union {id : String} {first second : Dependencies} (one : Sound index id first)
    (other : Sound index id second) : Sound index id (first.union second) where
  data source member := (mem_union_data.mp member).elim (one.data source) (other.data source)
  expressions source member :=
    (mem_union_expressions.mp member).elim (one.expressions source) (other.expressions source)

theorem Sound.ofSource {table : Table Dependencies} (sound : TableSound index table)
    {id source : String} (member : source ∈ index.readSources id) :
    Sound index id (ofSource index table source) := by
  unfold Dependencies.ofSource
  split
  · rename_i expression
    refine Sound.union ⟨fun _ none => (nomatch none), fun other listed => ?_⟩ ?_
    · rw [List.mem_singleton.mp listed]
      exact ⟨expression, .direct member⟩
    · cases known : table.get? source with
      | none => exact .empty id
      | some held =>
          have inner := sound source held known
          exact ⟨fun other listed =>
              ⟨(inner.data other listed).1, .through member expression (inner.data other listed).2⟩,
            fun other listed => ⟨(inner.expressions other listed).1,
              .through member expression (inner.expressions other listed).2⟩⟩
  · rename_i ordinary
    refine ⟨fun other listed => ?_, fun _ none => nomatch none⟩
    rw [List.mem_singleton.mp listed]
    exact ⟨by simpa using ordinary, .direct member⟩

theorem tableSound_insert {table : Table Dependencies} (sound : TableSound index table)
    {id : String} {found : Dependencies} (here : Sound index id found) :
    TableSound index (table.insert id found) := by
  intro other held known
  rw [Table.get?_insert] at known
  split at known
  · rename_i same
    cases known
    exact same ▸ here
  · exact sound other held known

/-- Adds what is read of one more source, which `visit` adds to the table before if it is an
expression. -/
def collect (index : Index) (visit : Table Dependencies → String → Table Dependencies)
    (state : Table Dependencies × Dependencies) (source : String) :
    Table Dependencies × Dependencies :=
  let table := if index.isExpression source then visit state.1 source else state.1
  (table, state.2.union (ofSource index table source))

/-- An instance that is not in a table is added with what is collected from its sources. -/
theorem add_eq (levels : Nat) {visiting : List String} {table : Table Dependencies} {id : String}
    (absent : table.get? id = none) (fresh : id ∉ visiting) :
    add index (levels + 1) visiting table id =
      let state := (index.readSources id).foldl
        (collect index (add index levels (id :: visiting))) (table, {})
      state.1.insert id state.2 := by
  rw [add, if_neg (by simp [Table.contains, absent, fresh])]
  rfl

theorem tableSound_add {levels : Nat} {visiting : List String} {table : Table Dependencies}
    {id : String} (sound : TableSound index table) :
    TableSound index (add index levels visiting table id) := by
  induction levels generalizing visiting table id with
  | zero => exact sound
  | succ levels ih =>
      by_cases skipped : (table.contains id || decide (id ∈ visiting)) = true
      · rw [add, if_pos skipped]
        exact sound
      · rw [Bool.or_eq_true, not_or, Bool.not_eq_true, Table.contains_eq_false_iff,
          decide_eq_true_eq] at skipped
        rw [add_eq levels skipped.1 skipped.2]
        -- the table stays sound, and what has been collected so far is read by the instance
        have collected : ∀ state : Table Dependencies × Dependencies,
            TableSound index state.1 ∧ Sound index id state.2 → ∀ source ∈ index.readSources id,
            TableSound index (collect index (add index levels (id :: visiting)) state source).1 ∧
              Sound index id (collect index (add index levels (id :: visiting)) state
                source).2 := by
          intro state known source member
          have later : TableSound index
              (collect index (add index levels (id :: visiting)) state source).1 := by
            unfold collect
            dsimp only
            split
            · exact ih known.1
            · exact known.1
          exact ⟨later, known.2.union (.ofSource later member)⟩
        have folded := List.foldlRecOn
          (motive := fun state : Table Dependencies × Dependencies =>
            TableSound index state.1 ∧ Sound index id state.2)
          (b := (table, {})) (index.readSources id) _ ⟨sound, .empty id⟩ collected
        exact tableSound_insert folded.1 folded.2

theorem tableSound_ofIndex (index : Index) : TableSound index (ofIndex index) :=
  List.foldlRecOn (motive := TableSound index) index.workflow.instances _
    (fun _ _ known => nomatch known) fun _ sound _ _ => tableSound_add sound

/-- What is read of a source besides instances are expressions. -/
theorem isExpression_of_mem_ofSource {table : Table Dependencies} (sound : TableSound index table)
    {source id : String} (listed : id ∈ (ofSource index table source).expressions) :
    index.isExpression id = true := by
  unfold ofSource at listed
  split at listed
  · rename_i expression
    rcases mem_union_expressions.mp listed with here | further
    · exact List.mem_singleton.mp here ▸ expression
    · cases known : table.get? source with
      | none =>
          rw [known] at further
          cases further
      | some found =>
          rw [known] at further
          exact ((sound source found known).expressions id further).1
  · cases listed

/-! ### What is read is listed -/

/-- Whether a source stands in the list that it belongs to. -/
def Lists (index : Index) (found : Dependencies) (source : String) : Prop :=
  if index.isExpression source then source ∈ found.expressions else source ∈ found.data

/-- Whether all that the instances of a table read is listed. -/
def TableComplete (index : Index) (table : Table Dependencies) : Prop :=
  ∀ id found, table.get? id = some found → ∀ source, index.Reads id source →
    Lists index found source

/-- Whether a table has at least the entries of another one. -/
def Extends (larger smaller : Table Dependencies) : Prop :=
  ∀ id found, smaller.get? id = some found → larger.get? id = some found

theorem Lists.union_left {first second : Dependencies} {source : String}
    (listed : Lists index first source) : Lists index (first.union second) source := by
  unfold Lists at listed ⊢
  split
  · rw [if_pos ‹_›] at listed
    exact mem_union_expressions.mpr (.inl listed)
  · rw [if_neg ‹_›] at listed
    exact mem_union_data.mpr (.inl listed)

theorem Lists.union_right {first second : Dependencies} {source : String}
    (listed : Lists index second source) : Lists index (first.union second) source := by
  unfold Lists at listed ⊢
  split
  · rw [if_pos ‹_›] at listed
    exact mem_union_expressions.mpr (.inr listed)
  · rw [if_neg ‹_›] at listed
    exact mem_union_data.mpr (.inr listed)

/-- What is read of a source: the source itself, and what an expression reads. -/
theorem lists_ofSource {table : Table Dependencies} (complete : TableComplete index table)
    {source : String} (present : index.isExpression source = true → table.contains source = true) :
    Lists index (ofSource index table source) source ∧
      (index.isExpression source = true → ∀ further, index.Reads source further →
        Lists index (ofSource index table source) further) := by
  unfold ofSource
  split
  · rename_i expression
    obtain ⟨held, known⟩ := Table.contains_iff.mp (present expression)
    refine ⟨Lists.union_left ?_, fun _ further reads => Lists.union_right ?_⟩
    · rw [Lists, if_pos expression]
      exact List.mem_singleton_self source
    · rw [known]
      exact complete source held known further reads
  · rename_i ordinary
    refine ⟨?_, fun expression => absurd expression ordinary⟩
    rw [Lists, if_neg ordinary]
    exact List.mem_singleton_self source

theorem Extends.refl (table : Table Dependencies) : Extends table table :=
  fun _ _ => id

theorem Extends.trans {first second third : Table Dependencies} (one : Extends second first)
    (other : Extends third second) : Extends third first :=
  fun id found known => other id found (one id found known)

theorem Extends.contains {larger smaller : Table Dependencies} (extends_ : Extends larger smaller)
    {id : String} (present : smaller.contains id = true) : larger.contains id = true := by
  obtain ⟨found, known⟩ := Table.contains_iff.mp present
  exact Table.contains_iff.mpr ⟨found, extends_ id found known⟩

/-- What becomes of a table when an instance is added: it stays complete, no entry is lost, and the
instance has one. -/
structure Completes (index : Index) (id : String) (table later : Table Dependencies) : Prop where
  complete : TableComplete index later
  larger : Extends later table
  present : later.contains id = true

/-- An instance is added by an entry with all that it reads. -/
theorem Completes.insert {table later : Table Dependencies} {id : String} {found : Dependencies}
    (complete : TableComplete index later) (larger : Extends later table)
    (absent : table.get? id = none)
    (listed : ∀ source, index.Reads id source → Lists index found source) :
    Completes index id table (later.insert id found) where
  complete := by
    intro other entry held
    rw [Table.get?_insert] at held
    split at held
    · rename_i same
      cases held
      exact same ▸ listed
    · exact complete other entry held
  larger := by
    intro other entry held
    have different : other ≠ id := by
      rintro rfl
      rw [absent] at held
      cases held
    rw [Table.get?_insert_of_ne _ _ different]
    exact larger other entry held
  present := by simp [Table.contains]

/-- What collecting from one source gives, where a visit of an expression completes the table. -/
theorem collect_step {visit : Table Dependencies → String → Table Dependencies}
    {state : Table Dependencies × Dependencies} {source : String}
    (complete : TableComplete index state.1)
    (visits : index.isExpression source = true →
      Completes index source state.1 (visit state.1 source)) :
    TableComplete index (collect index visit state source).1 ∧
      Extends (collect index visit state source).1 state.1 ∧
      (∀ other, Lists index state.2 other →
        Lists index (collect index visit state source).2 other) ∧
      Lists index (collect index visit state source).2 source ∧
      (index.isExpression source = true → ∀ further, index.Reads source further →
        Lists index (collect index visit state source).2 further) := by
  have table : TableComplete index (collect index visit state source).1 ∧
      Extends (collect index visit state source).1 state.1 ∧
      (index.isExpression source = true →
        (collect index visit state source).1.contains source = true) := by
    unfold collect
    dsimp only
    split
    · rename_i expression
      have visited := visits expression
      exact ⟨visited.complete, visited.larger, fun _ => visited.present⟩
    · rename_i ordinary
      exact ⟨complete, .refl _, fun expression => absurd expression ordinary⟩
  obtain ⟨completeLater, larger, present⟩ := table
  obtain ⟨itself, further⟩ := lists_ofSource completeLater present
  exact ⟨completeLater, larger, fun _ => Lists.union_left, .union_right itself,
    fun expression other reads => .union_right (further expression other reads)⟩

/-- What collecting from sources gives, where every visit completes the table. -/
theorem collect_complete {visit : Table Dependencies → String → Table Dependencies}
    {sources : List String} {state : Table Dependencies × Dependencies}
    (complete : TableComplete index state.1)
    (visits : ∀ table, TableComplete index table → ∀ source ∈ sources,
      index.isExpression source = true → Completes index source table (visit table source)) :
    TableComplete index (sources.foldl (collect index visit) state).1 ∧
      Extends (sources.foldl (collect index visit) state).1 state.1 ∧
      (∀ source, Lists index state.2 source →
        Lists index (sources.foldl (collect index visit) state).2 source) ∧
      ∀ source ∈ sources, Lists index (sources.foldl (collect index visit) state).2 source ∧
        (index.isExpression source = true → ∀ further, index.Reads source further →
          Lists index (sources.foldl (collect index visit) state).2 further) := by
  induction sources generalizing state with
  | nil => exact ⟨complete, .refl _, fun _ => id, fun _ none => (nomatch none)⟩
  | cons first rest ih =>
      rw [List.foldl_cons]
      obtain ⟨completeFirst, larger, keptFirst, itself, below⟩ :=
        collect_step complete (visits state.1 complete first List.mem_cons_self)
      obtain ⟨completeAll, largest, kept, all⟩ :=
          ih completeFirst fun table complete source member =>
        visits table complete source (List.mem_cons_of_mem _ member)
      refine ⟨completeAll, larger.trans largest, fun source listed =>
        kept source (keptFirst source listed), fun source member => ?_⟩
      rcases List.mem_cons.mp member with rfl | later
      · exact ⟨kept _ itself, fun expression further reads =>
          kept _ (below expression further reads)⟩
      · exact all source later

theorem add_complete {names : List String} (acyclic : index.ExpressionsAcyclic)
    (named : ∀ id, index.isExpression id = true → id ∈ names) {levels : Nat}
    {visiting : List String} {table : Table Dependencies} {id : String}
    (complete : TableComplete index table) (known : id ∈ names) (inside : visiting ⊆ names)
    (distinct : visiting.Nodup) (behind : ∀ reader ∈ visiting, index.isExpression id = true ∧
      index.Reads reader id)
    (enough : names.length < levels + visiting.length) :
    Completes index id table (add index levels visiting table id) := by
  induction levels generalizing visiting table id with
  | zero =>
      have := (List.subperm_of_subset distinct inside).length_le
      omega
  | succ levels ih =>
      have fresh : id ∉ visiting := fun member =>
        acyclic id (behind id member).1 (behind id member).2
      by_cases present : table.contains id = true
      · rw [add, if_pos (by simp [present])]
        exact ⟨complete, .refl _, present⟩
      · have absent := Table.contains_eq_false_iff.mp (Bool.not_eq_true _ ▸ present)
        rw [add_eq levels absent fresh]
        -- each source is read by all that are being added, so that it is none of them
        obtain ⟨completeAll, larger, _, listed⟩ := @collect_complete index
          (add index levels (id :: visiting)) (index.readSources id) (table, {}) complete
          fun table complete source member expression =>
            ih complete (named source expression) (List.cons_subset.mpr ⟨known, inside⟩)
              (List.nodup_cons.mpr ⟨fresh, distinct⟩)
              (fun reader among => ⟨expression, (List.mem_cons.mp among).elim
                (fun same => same ▸ .direct member)
                fun earlier => (behind reader earlier).2.trans (behind reader earlier).1
                (.direct member)⟩)
              (by simp only [List.length_cons]; omega)
        refine .insert completeAll larger absent fun source reads => ?_
        cases reads with
        | direct member => exact (listed source member).1
        | through member expression further => exact (listed _ member).2 expression source further

/-- Instances of a workflow are added one after the other, and all of them have entries then. -/
theorem foldl_add_complete (acyclic : index.ExpressionsAcyclic)
    (named : ∀ id, index.isExpression id = true → id ∈ index.workflow.instances.map (·.id))
    {instances : List Instance} (inside : instances ⊆ index.workflow.instances)
    {table : Table Dependencies} (complete : TableComplete index table) :
    let later := instances.foldl
      (fun table inst => add index (index.workflow.instances.length + 1) [] table inst.id) table
    TableComplete index later ∧ Extends later table ∧ ∀ inst ∈ instances,
      later.contains inst.id = true := by
  induction instances generalizing table with
  | nil => exact ⟨complete, .refl _, fun _ none => (nomatch none)⟩
  | cons first rest ih =>
      obtain ⟨member, insideRest⟩ := List.cons_subset.mp inside
      have added := @add_complete index _ acyclic named (index.workflow.instances.length + 1)
        [] _ _ complete
        (List.mem_map_of_mem member) (List.nil_subset _) List.nodup_nil (fun _ none =>
          (nomatch none)) (by simp)
      obtain ⟨completeAll, largest, all⟩ := ih insideRest added.complete
      refine ⟨completeAll, added.larger.trans largest, fun inst member => ?_⟩
      rcases List.mem_cons.mp member with rfl | later
      · exact largest.contains added.present
      · exact all inst later

theorem ofIndex_complete {index : Index} (acyclic : index.ExpressionsAcyclic)
    (named : ∀ id, index.isExpression id = true → id ∈ index.workflow.instances.map (·.id)) :
    TableComplete index (ofIndex index) ∧
      ∀ inst ∈ index.workflow.instances, (ofIndex index).contains inst.id = true := by
  obtain ⟨complete, _, all⟩ :=
    foldl_add_complete acyclic named (List.Subset.refl index.workflow.instances)
    (fun _ _ none => (nomatch none) : TableComplete index .empty)
  exact ⟨complete, all⟩

end Dependencies

/-! ### Analyses -/

namespace Analysis

/-- The analysis of a workflow. -/
abbrev ofWorkflow (workflow : Workflow) : Analysis :=
  .ofIndex (.ofWorkflow workflow)

variable {workflow : Workflow}

/-- **What triggers an instance.** -/
theorem mem_triggersOf {id source : String} :
    source ∈ (ofWorkflow workflow).triggersOf id ↔
      id ∈ workflow.instances.map (·.id) ∧
        source ∈ (Index.ofWorkflow workflow).stepPredecessors id := by
  have table : (ofWorkflow workflow).triggers.get? id =
      if id ∈ workflow.instances.map (·.id) then
        some ((Index.ofWorkflow workflow).stepPredecessors id) else none := by
    rw [← Table.get?_ofList_map, List.map_map]
    rfl
  rw [triggersOf, table]
  by_cases known : id ∈ workflow.instances.map (·.id)
  · rw [if_pos known]
    simp only [Option.getD_some, known, true_and]
  · rw [if_neg known]
    simp [known]

/-- **What an instance is listed to read, it reads**, in any workflow. -/
theorem sound_dataOf {id source : String} (listed : source ∈ (ofWorkflow workflow).dataOf id) :
    (Index.ofWorkflow workflow).isExpression source = false ∧
      (Index.ofWorkflow workflow).Reads id source := by
  rw [dataOf] at listed
  cases known : (ofWorkflow workflow).dependencies.get? id with
  | none =>
      rw [known] at listed
      cases listed
  | some found =>
      rw [known] at listed
      exact (Dependencies.tableSound_ofIndex _ id found known).data source listed

theorem sound_expressionsOf {id source : String}
    (listed : source ∈ (ofWorkflow workflow).expressionsOf id) :
    (Index.ofWorkflow workflow).isExpression source = true ∧
      (Index.ofWorkflow workflow).Reads id source := by
  rw [expressionsOf] at listed
  cases known : (ofWorkflow workflow).dependencies.get? id with
  | none =>
      rw [known] at listed
      cases listed
  | some found =>
      rw [known] at listed
      exact (Dependencies.tableSound_ofIndex _ id found known).expressions source listed

theorem isExpression_named {id : String}
    (expression : (Index.ofWorkflow workflow).isExpression id = true) :
    id ∈ workflow.instances.map (·.id) := by
  obtain ⟨_, known, _⟩ := Index.isExpression_iff.mp expression
  obtain ⟨_, found⟩ := Index.find?_of_nodeType? known
  exact Index.named_of_find? found

/-- All that an instance reads is listed, if no expression reads itself. -/
theorem lists_of_reads (acyclic : (Index.ofWorkflow workflow).ExpressionsAcyclic)
    {id source : String} (known : id ∈ workflow.instances.map (·.id))
    (reads : (Index.ofWorkflow workflow).Reads id source) :
    Dependencies.Lists (Index.ofWorkflow workflow)
      (((ofWorkflow workflow).dependencies.get? id).getD {}) source := by
  obtain ⟨complete, all⟩ := Dependencies.ofIndex_complete acyclic fun _ => isExpression_named
  obtain ⟨inst, member, rfl⟩ := List.mem_map.mp known
  obtain ⟨found, held⟩ := Table.contains_iff.mp (all inst member)
  have held : (ofWorkflow workflow).dependencies.get? inst.id = some found := held
  rw [held]
  exact complete inst.id found held source reads

/-- **The instances that an instance reads are listed.** -/
theorem mem_dataOf (acyclic : (Index.ofWorkflow workflow).ExpressionsAcyclic) {id source : String}
    (known : id ∈ workflow.instances.map (·.id))
    (reads : (Index.ofWorkflow workflow).Reads id source)
    (ordinary : (Index.ofWorkflow workflow).isExpression source = false) :
    source ∈ (ofWorkflow workflow).dataOf id := by
  have listed := lists_of_reads acyclic known reads
  rwa [Dependencies.Lists, if_neg (by simp [ordinary])] at listed

/-- **The expressions that an instance reads are listed.** -/
theorem mem_expressionsOf (acyclic : (Index.ofWorkflow workflow).ExpressionsAcyclic)
    {id source : String} (known : id ∈ workflow.instances.map (·.id))
    (reads : (Index.ofWorkflow workflow).Reads id source)
    (expression : (Index.ofWorkflow workflow).isExpression source = true) :
    source ∈ (ofWorkflow workflow).expressionsOf id := by
  have listed := lists_of_reads acyclic known reads
  rwa [Dependencies.Lists, if_pos expression] at listed

theorem mem_descendants_iff {id owner : String} :
    id ∈ (ofWorkflow workflow).descendants owner ↔
      ∃ inst ∈ workflow.instances, inst.id = id ∧
        owner ∈ (Index.ofWorkflow workflow).owners inst.parentScope := by
  rw [descendants, List.mem_eraseDups, List.mem_map]
  constructor
  · rintro ⟨lineage, member, rfl⟩
    obtain ⟨inside, owned⟩ := List.mem_filter.mp member
    obtain ⟨inst, declared, rfl⟩ := List.mem_map.mp inside
    exact ⟨inst, declared, rfl, by simpa using owned⟩
  · rintro ⟨inst, declared, rfl, owned⟩
    exact ⟨(inst.id, _), List.mem_filter.mpr ⟨List.mem_map.mpr ⟨inst, declared, rfl⟩,
      by simpa using owned⟩, rfl⟩

end Analysis

end WorkflowGraph
