/-
The index of a workflow answers what plain searches through the workflow answer.

The main statement is `index_agrees_with_search`. It holds for every workflow, also where ids of
instances or node types are used twice: of those the index knows the first ones, and so do the
searches.

* `find?_ofWorkflow`, `nodeType?_ofWorkflow` — instances and node types are those found first.
* `fits_of_resolve` — what a port is like that a reference means.
* `mem_incoming`, `mem_outgoing` — the connections of a node, with their positions;
  `Workflow.Numbers` says that such a list has all of them in order.
* `mem_members` — the members of a region are the instances that live there, each once
  (`members_nodup`).
-/

import Mathlib.Data.List.Nodup
import WorkflowGraph.Index
import WorkflowGraph.Proofs.Table

namespace WorkflowGraph

/-! ### The boundary -/

theorem Workflow.direction_of_mem_startPorts {workflow : Workflow} {port : Port}
    (member : port ∈ workflow.startPorts) :
    port.direction = .output := by
  simp only [startPorts, List.mem_cons, List.mem_map] at member
  rcases member with rfl | ⟨port, _, rfl⟩ <;> rfl

theorem Workflow.direction_of_mem_exitPorts {workflow : Workflow} {port : Port}
    (member : port ∈ workflow.exitPorts) :
    port.direction = .input := by
  simp only [exitPorts, List.mem_cons, List.mem_map] at member
  rcases member with rfl | rfl | ⟨port, _, rfl⟩ <;> rfl

/-! ### Positions -/

/-- Whether connections are listed with the positions that they have in a workflow, in the order of
the positions. -/
structure Workflow.Numbers (workflow : Workflow) (entries : List (Nat × Connection))
    (connections : List Connection) :
    Prop where
  connections : entries.map (·.2) = connections
  positions : ∀ entry ∈ entries, workflow.connections[entry.1]? = some entry.2
  ordered : (entries.map (·.1)).Pairwise (· < ·)

/-! ### Catalogs -/

namespace Catalog

theorem get?_foldl_tryRegister (types : List NodeType) (catalog : Catalog) (id : String) :
    Table.get? (types.foldl (fun catalog type =>
      (Catalog.tryRegister catalog type).toOption.getD catalog)
        catalog) id =
      (catalog.get? id).or (types.find? fun type => type.id = id) := by
  induction types generalizing catalog with
  | nil => simp
  | cons type rest ih =>
      rw [List.foldl_cons, ih, List.find?_cons]
      unfold tryRegister
      cases present : catalog.contains type.id with
      | true =>
          obtain ⟨held, found⟩ := Table.contains_iff.mp present
          by_cases same : type.id = id
          · subst same
            simp [Except.toOption, found]
          · simp [Except.toOption, same]
      | false =>
          have absent := Table.contains_eq_false_iff.mp present
          by_cases same : type.id = id
          · subst same
            simp [Except.toOption, register, absent]
          · simp [Except.toOption, register, Table.get?_insert_of_ne _ _ (Ne.symm same), same]

/-- The catalog of a list has the first node type of each id. -/
theorem get?_ofTypes (types : List NodeType) (id : String) :
    (ofTypes types).get? id = types.find? fun type => type.id = id := by
  rw [ofTypes, get?_foldl_tryRegister, Table.get?_empty, Option.none_or]

end Catalog

namespace Index

variable {workflow : Workflow}

/-! ### Instances -/

theorem get?_firstPositions (instances : List Instance) (table : Table Nat) (start : Nat)
    (id : String) :
    (firstPositions table start instances).get? id =
      (table.get? id).or ((instances.findIdx? fun inst => inst.id = id).map (· + start)) := by
  induction instances generalizing table start with
  | nil => simp [firstPositions]
  | cons inst rest ih =>
      rw [firstPositions, ih, List.findIdx?_cons]
      by_cases same : inst.id = id
      · subst same
        cases present : table.contains inst.id with
        | true =>
            obtain ⟨position, found⟩ := Table.contains_iff.mp present
            simp [found]
        | false =>
            have absent := Table.contains_eq_false_iff.mp present
            simp [absent]
      · have unchanged : (if table.contains inst.id = true then table
            else table.insert inst.id start).get? id = table.get? id := by
          split
          · rfl
          · exact Table.get?_insert_of_ne _ _ (Ne.symm same)
        rw [unchanged]
        have shift : (fun position => position + (start + 1)) =
            (fun position => position + start) ∘ (· + 1) := by
          funext position
          simp only [Function.comp]
          omega
        simp only [same, decide_false, Bool.false_eq_true, if_false, Option.map_map, shift]

theorem position?_ofWorkflow (id : String) :
    (ofWorkflow workflow).position? id = workflow.instances.findIdx? fun inst => inst.id = id := by
  rw [position?, ofWorkflow, get?_firstPositions, Table.get?_empty, Option.none_or]
  simp

/-- **The instance of an id is the first one declared.** -/
theorem find?_ofWorkflow (id : String) :
    (ofWorkflow workflow).find? id = workflow.findInstance id := by
  rw [find?, position?_ofWorkflow, Workflow.findInstance, List.find?_eq_bind_findIdx?_getElem?]
  rfl

theorem id_of_find? {id : String} {inst : Instance}
    (found : (ofWorkflow workflow).find? id = some inst) : inst.id = id := by
  rw [find?_ofWorkflow] at found
  simpa using List.find?_some found

theorem mem_of_find? {id : String} {inst : Instance}
    (found : (ofWorkflow workflow).find? id = some inst) : inst ∈ workflow.instances := by
  rw [find?_ofWorkflow] at found
  exact List.mem_of_find?_eq_some found

theorem named_of_find? {id : String} {inst : Instance}
    (found : (ofWorkflow workflow).find? id = some inst) : id ∈ workflow.instances.map (·.id) :=
  List.mem_map.mpr ⟨inst, mem_of_find? found, id_of_find? found⟩

theorem find?_isSome_of_mem {inst : Instance} (member : inst ∈ workflow.instances) :
    ∃ first, (ofWorkflow workflow).find? inst.id = some first := by
  rw [find?_ofWorkflow]
  exact Option.isSome_iff_exists.mp (List.find?_isSome.mpr ⟨inst, member, by simp⟩)

/-- The instance of an id is the only one, if ids are different. -/
theorem find?_eq_of_nodup (distinct : (workflow.instances.map (·.id)).Nodup) {inst : Instance}
    (member : inst ∈ workflow.instances) : (ofWorkflow workflow).find? inst.id = some inst := by
  obtain ⟨first, found⟩ := find?_isSome_of_mem member
  have same := List.inj_on_of_nodup_map distinct (mem_of_find? found) member (id_of_find? found)
  exact same ▸ found

theorem isSome_position?_iff {id : String} :
    ((ofWorkflow workflow).position? id).isSome = true ↔
      ∃ inst, (ofWorkflow workflow).find? id = some inst := by
  rw [position?_ofWorkflow, List.findIdx?_isSome, List.any_eq_true]
  constructor
  · rintro ⟨inst, member, same⟩
    have same : inst.id = id := by simpa using same
    exact same ▸ find?_isSome_of_mem member
  · rintro ⟨inst, found⟩
    exact ⟨inst, mem_of_find? found, by simpa using id_of_find? found⟩

theorem hasNode_iff {id : String} :
    (ofWorkflow workflow).hasNode id = true ↔
      isBoundary id = true ∨ ∃ inst, (ofWorkflow workflow).find? id = some inst := by
  rw [hasNode, Bool.or_eq_true, isSome_position?_iff]

/-- **The node type of an instance is the first one declared under its name.** -/
theorem nodeType?_ofWorkflow (id : String) :
    (ofWorkflow workflow).nodeType? id =
      (workflow.findInstance id).bind fun inst => workflow.findNodeType inst.nodeType := by
  rw [nodeType?, find?_ofWorkflow]
  congr
  funext inst
  exact Catalog.get?_ofTypes workflow.nodeTypes inst.nodeType

theorem find?_of_nodeType? {id : String} {type : NodeType}
    (known : (ofWorkflow workflow).nodeType? id = some type) :
    ∃ inst, (ofWorkflow workflow).find? id = some inst := by
  obtain ⟨inst, found, _⟩ := Option.bind_eq_some_iff.mp known
  exact ⟨inst, found⟩

theorem nodeType_mem {id : String} {type : NodeType}
    (known : (ofWorkflow workflow).nodeType? id = some type) : type ∈ workflow.nodeTypes := by
  rw [nodeType?_ofWorkflow] at known
  obtain ⟨inst, _, found⟩ := Option.bind_eq_some_iff.mp known
  exact List.mem_of_find?_eq_some found

theorem isExpression_iff {id : String} :
    (ofWorkflow workflow).isExpression id = true ↔
      ∃ type, (ofWorkflow workflow).nodeType? id = some type ∧ type.isExpression = true := by
  rw [isExpression, Option.any_eq_true]

/-! ### Ports -/

/-- A port that a reference means is in the direction asked for, and in the scope that the reference
says. -/
theorem fits_of_resolve {index : Index} {ref : PortRef} {direction : Direction} {port : Port}
    (found : index.resolve ref direction = some port) :
    port.name = ref.port ∧ port.direction = direction ∧
      (ref.scope = none ∨ port.scope = ref.scope) := by
  obtain ⟨ports, _, picked⟩ := Option.bind_eq_some_iff.mp found
  simpa using List.find?_some picked

/-- No connection starts where a workflow ends. -/
theorem ne_exit_of_sourcePort {connection : Connection} {source : Port}
    (atSource : (ofWorkflow workflow).sourcePort connection = some source) :
    connection.source.node ≠ exitId := by
  intro exit
  have output := (fits_of_resolve atSource).2.1
  obtain ⟨ports, known, picked⟩ := Option.bind_eq_some_iff.mp atSource
  rw [exit] at known
  cases known
  have input := Workflow.direction_of_mem_exitPorts (List.mem_of_find?_eq_some picked)
  rw [output] at input
  cases input

/-- No connection ends where a workflow begins. -/
theorem ne_start_of_targetPort {connection : Connection} {target : Port}
    (atTarget : (ofWorkflow workflow).targetPort connection = some target) :
    connection.target.node ≠ startId := by
  intro start
  have input := (fits_of_resolve atTarget).2.1
  obtain ⟨ports, known, picked⟩ := Option.bind_eq_some_iff.mp atTarget
  rw [start] at known
  cases known
  have output := Workflow.direction_of_mem_startPorts (List.mem_of_find?_eq_some picked)
  rw [input] at output
  cases output

/-! ### Connections -/

theorem getD_positionsBy (node : Connection → String) (connections : List Connection)
    (table : Table (List Nat)) (start : Nat) (id : String) :
    ((positionsBy node table start connections).get? id).getD [] =
      (table.get? id).getD [] ++
        ((connections.zipIdx start).filter fun entry => node entry.1 = id).map (·.2) := by
  induction connections generalizing table start with
  | nil => simp [positionsBy]
  | cons connection rest ih =>
      rw [positionsBy, ih, addPosition, List.zipIdx_cons, List.filter_cons]
      by_cases same : node connection = id
      · simp [same]
      · simp [same, Table.get?_insert_of_ne _ _ (Ne.symm same)]

theorem connectionsAt_map_snd {entries : List (Connection × Nat)}
    (placed : ∀ entry ∈ entries, workflow.connections[entry.2]? = some entry.1) :
    (ofWorkflow workflow).connectionsAt (entries.map (·.2)) =
      entries.map fun entry => (entry.2, entry.1) := by
  induction entries with
  | nil => rfl
  | cons entry rest ih =>
      have here : (ofWorkflow workflow).workflow.connections[entry.2]? = some entry.1 :=
        placed entry List.mem_cons_self
      have later := ih fun other member => placed other (List.mem_cons_of_mem _ member)
      rw [connectionsAt] at later ⊢
      rw [List.map_cons, List.filterMap_cons, here, Option.map_some, later, List.map_cons]

theorem connectionsAt_zipIdx (keep : Connection × Nat → Bool) :
    (ofWorkflow workflow).connectionsAt ((workflow.connections.zipIdx.filter keep).map (·.2)) =
      (workflow.connections.zipIdx.filter keep).map fun entry => (entry.2, entry.1) := by
  refine connectionsAt_map_snd fun entry member => ?_
  simpa using List.mem_zipIdx_iff_getElem?.mp (List.mem_filter.mp member).1

theorem incoming_eq (id : String) :
    (ofWorkflow workflow).incoming id =
      (workflow.connections.zipIdx.filter fun entry => entry.1.target.node = id).map
        fun entry => (entry.2, entry.1) := by
  rw [incoming, ← connectionsAt_zipIdx]
  congr 1
  show ((positionsBy (·.target.node) .empty 0 workflow.connections).get? id).getD [] = _
  rw [getD_positionsBy]
  rfl

theorem outgoing_eq (id : String) :
    (ofWorkflow workflow).outgoing id =
      (workflow.connections.zipIdx.filter fun entry => entry.1.source.node = id).map
        fun entry => (entry.2, entry.1) := by
  rw [outgoing, ← connectionsAt_zipIdx]
  congr 1
  show ((positionsBy (·.source.node) .empty 0 workflow.connections).get? id).getD [] = _
  rw [getD_positionsBy]
  rfl

/-- The connections that a test keeps, with their positions. -/
theorem mem_numbered {keep : Connection → Bool} {entry : Nat × Connection} :
    (entry ∈ (workflow.connections.zipIdx.filter fun numbered => keep numbered.1).map
        fun numbered => (numbered.2, numbered.1)) ↔
      workflow.connections[entry.1]? = some entry.2 ∧ keep entry.2 = true := by
  obtain ⟨position, connection⟩ := entry
  rw [List.mem_map]
  constructor
  · rintro ⟨⟨found, at_⟩, member, same⟩
    cases same
    obtain ⟨inside, kept⟩ := List.mem_filter.mp member
    exact ⟨by simpa using List.mem_zipIdx_iff_getElem?.mp inside, kept⟩
  · rintro ⟨at_, kept⟩
    refine ⟨(connection, position), List.mem_filter.mpr ⟨?_, kept⟩, rfl⟩
    exact List.mem_zipIdx_iff_getElem?.mpr (by simpa using at_)

/-- **The connections into a node, with their positions.** -/
theorem mem_incoming {id : String} {entry : Nat × Connection} :
    entry ∈ (ofWorkflow workflow).incoming id ↔
      workflow.connections[entry.1]? = some entry.2 ∧ entry.2.target.node = id := by
  rw [incoming_eq, @mem_numbered workflow fun connection => connection.target.node = id,
    decide_eq_true_eq]

/-- **The connections out of a node, with their positions.** -/
theorem mem_outgoing {id : String} {entry : Nat × Connection} :
    entry ∈ (ofWorkflow workflow).outgoing id ↔
      workflow.connections[entry.1]? = some entry.2 ∧ entry.2.source.node = id := by
  rw [outgoing_eq, @mem_numbered workflow fun connection => connection.source.node = id,
    decide_eq_true_eq]

/-- The connections of some entries, where the entries are those that a test keeps. -/
theorem exists_entry_iff {entries : List (Nat × Connection)} (keep : Connection → Prop)
    (kept : ∀ entry, entry ∈ entries ↔ workflow.connections[entry.1]? = some entry.2 ∧ keep entry.2)
    {connection : Connection} :
    (∃ entry ∈ entries, entry.2 = connection) ↔ connection ∈ workflow.connections ∧
      keep connection := by
  constructor
  · rintro ⟨entry, member, rfl⟩
    obtain ⟨at_, keeps⟩ := (kept entry).mp member
    exact ⟨List.mem_of_getElem? at_, keeps⟩
  · rintro ⟨member, keeps⟩
    obtain ⟨position, at_⟩ := List.mem_iff_getElem?.mp member
    exact ⟨(position, connection), (kept _).mpr ⟨at_, keeps⟩, rfl⟩

theorem exists_mem_incoming {id : String} {connection : Connection} :
    (∃ entry ∈ (ofWorkflow workflow).incoming id, entry.2 = connection) ↔
      connection ∈ workflow.connections ∧ connection.target.node = id :=
  exists_entry_iff (·.target.node = id) fun _ => mem_incoming

theorem exists_mem_outgoing {id : String} {connection : Connection} :
    (∃ entry ∈ (ofWorkflow workflow).outgoing id, entry.2 = connection) ↔
      connection ∈ workflow.connections ∧ connection.source.node = id :=
  exists_entry_iff (·.source.node = id) fun _ => mem_outgoing

/-- The positions of a list rise. -/
theorem pairwise_zipIdx {α : Type} (items : List α) :
    items.zipIdx.Pairwise fun earlier later => earlier.2 < later.2 := by
  have rising : (List.range' 0 items.length).Pairwise (· < ·) := List.pairwise_lt_range'
  rwa [← List.zipIdx_map_snd 0 items, List.pairwise_map] at rising

theorem numbers_filter (keep : Connection → Bool) :
    workflow.Numbers ((workflow.connections.zipIdx.filter fun numbered => keep numbered.1).map
        fun numbered => (numbered.2, numbered.1))
      (workflow.connections.filter keep) := by
  refine ⟨?_, fun entry member => (mem_numbered.mp member).1, ?_⟩
  · rw [List.map_map]
    show (workflow.connections.zipIdx.filter (keep ∘ Prod.fst)).map Prod.fst = _
    rw [← List.filter_map, List.zipIdx_map_fst]
  · rw [List.map_map, List.pairwise_map]
    exact (pairwise_zipIdx workflow.connections).filter _

/-! ### Regions -/

theorem regionOf_of_find? {id : String} {inst : Instance}
    (found : (ofWorkflow workflow).find? id = some inst) :
    (ofWorkflow workflow).regionOf id = inst.parentScope := by
  rw [regionOf, found, Option.bind_some]

/-- What lives in a scope is an instance. -/
theorem named_of_regionOf {id : String} {scope : ScopeRef}
    (lives : (ofWorkflow workflow).regionOf id = some scope) :
    id ∈ workflow.instances.map (·.id) := by
  obtain ⟨_, found, _⟩ := Option.bind_eq_some_iff.mp lives
  exact named_of_find? found

/-- **The members of a region are the first declared instances that live in it.** -/
theorem mem_members {region : Region} {inst : Instance} :
    inst ∈ (ofWorkflow workflow).members region ↔
      (ofWorkflow workflow).find? inst.id = some inst ∧ inst.parentScope = region := by
  have first : ∀ position, workflow.instances[position]? = some inst →
      (ofWorkflow workflow).position? inst.id = some position →
      (ofWorkflow workflow).find? inst.id = some inst := by
    intro position at_ known
    rw [find?, known]
    exact at_
  rw [members, List.mem_map]
  constructor
  · rintro ⟨⟨found, position⟩, member, rfl⟩
    obtain ⟨inside, kept⟩ := List.mem_filter.mp member
    have kept : found.parentScope = region ∧
        (ofWorkflow workflow).position? found.id = some position := by simpa using kept
    have at_ : workflow.instances[position]? = some found := by
      exact List.mem_zipIdx_iff_getElem?.mp inside
    exact ⟨first position at_ kept.2, kept.1⟩
  · rintro ⟨found, lives⟩
    obtain ⟨position, known, at_⟩ := Option.bind_eq_some_iff.mp found
    refine ⟨(inst, position), List.mem_filter.mpr ⟨?_, by simp [lives, known]⟩, rfl⟩
    exact List.mem_zipIdx_iff_getElem?.mpr (by simpa using at_)

theorem members_nodup (region : Region) :
    (((ofWorkflow workflow).members region).map (·.id)).Nodup := by
  rw [members, List.map_map, List.Nodup, List.pairwise_map]
  have distinct : workflow.instances.zipIdx.Pairwise fun earlier later =>
      earlier.2 ≠ later.2 := (pairwise_zipIdx workflow.instances).imp Nat.ne_of_lt
  refine (distinct.filter _).imp_of_mem fun {earlier later} inEarlier inLater different same => ?_
  have known : (ofWorkflow workflow).position? earlier.1.id = some earlier.2 := by
    have := (List.mem_filter.mp inEarlier).2
    simp only [decide_eq_true_eq] at this
    exact this.2
  have knownLater : (ofWorkflow workflow).position? later.1.id = some later.2 := by
    have := (List.mem_filter.mp inLater).2
    simp only [decide_eq_true_eq] at this
    exact this.2
  have equal : earlier.1.id = later.1.id := same
  rw [equal, knownLater] at known
  exact different (Option.some.inj known).symm

theorem members_sublist (region : Region) :
    ((ofWorkflow workflow).members region).Sublist workflow.instances := by
  have kept := (List.filter_sublist (l := workflow.instances.zipIdx) (p := fun entry =>
    entry.1.parentScope = region ∧
      (ofWorkflow workflow).position? entry.1.id = some entry.2)).map Prod.fst
  rwa [List.zipIdx_map_fst] at kept

end Index

/-- **The index of a workflow answers what searches through the workflow answer.** The instance of
an id is the one that is found first, and its position the first one; the node type of an instance
is the first one of its name. The connections into a node and out of it are listed in order, each
with its position. The instances that were declared first under their ids are members of the regions
that they live in, each of no other region, and there are no other members. -/
theorem index_agrees_with_search (workflow : Workflow) :
    (∀ id,
      (Index.ofWorkflow workflow).find? id = workflow.findInstance id ∧
      (Index.ofWorkflow workflow).position? id = workflow.instances.findIdx? (fun inst =>
        inst.id = id) ∧
      (Index.ofWorkflow workflow).nodeType? id =
        (workflow.findInstance id).bind (fun inst => workflow.findNodeType inst.nodeType) ∧
      workflow.Numbers ((Index.ofWorkflow workflow).incoming id) (workflow.incoming id) ∧
      workflow.Numbers ((Index.ofWorkflow workflow).outgoing id) (workflow.outgoing id)) ∧
    ∀ region,
      ((Index.ofWorkflow workflow).members region).Sublist workflow.instances ∧
      (((Index.ofWorkflow workflow).members region).map (·.id)).Nodup ∧
      ∀ inst, inst ∈ (Index.ofWorkflow workflow).members region ↔
        workflow.findInstance inst.id = some inst ∧ region = inst.parentScope := by
  refine ⟨fun id => ⟨Index.find?_ofWorkflow id, Index.position?_ofWorkflow id,
    Index.nodeType?_ofWorkflow id, ?_, ?_⟩,
    fun region => ⟨Index.members_sublist region, Index.members_nodup region, fun inst => ?_⟩⟩
  · rw [Index.incoming_eq]
    exact Index.numbers_filter fun connection => connection.target.node = id
  · rw [Index.outgoing_eq]
    exact Index.numbers_filter fun connection => connection.source.node = id
  · rw [Index.mem_members, Index.find?_ofWorkflow, eq_comm (a := region)]

end WorkflowGraph
