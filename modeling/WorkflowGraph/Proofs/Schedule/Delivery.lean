/-
Merge bindings deliver the connected value.

The main statement is `merges_deliver`: in a dry run of a plan, an input that is read through a
merge binding has the value of the output that it is connected with if that instance ran before, and
null otherwise; and what a scope collects through one, and what the workflow returns, comes from a
connection whose source ran.

* `binding_delivers` — a merge binding holds the value of a producer that ran, if there is one.
* `merged_delivers` — what is read through a merge binding is the value of a connection whose source
  ran.
-/

import WorkflowGraph.Proofs.Schedule.Bound

namespace WorkflowGraph

variable {workflow : Workflow}

/-! ### Unambiguous names -/

/-- Whether ids and names tell the ports of instances apart. -/
structure Workflow.DistinctNames (workflow : Workflow) : Prop where
  /-- No id has a point. -/
  undotted : ∀ inst ∈ workflow.instances, '.' ∉ inst.id.toList
  /-- Ports of one direction have different names. -/
  ports : ∀ type ∈ workflow.nodeTypes, (type.ports.map fun port =>
    (port.direction, port.name)).Nodup

instance (workflow : Workflow) : Decidable workflow.DistinctNames :=
  decidable_of_iff
    ((∀ inst ∈ workflow.instances, '.' ∉ inst.id.toList) ∧
      ∀ type ∈ workflow.nodeTypes, (type.ports.map fun port => (port.direction, port.name)).Nodup)
    ⟨fun ⟨undotted, ports⟩ => ⟨undotted, ports⟩, fun clear => ⟨clear.undotted, clear.ports⟩⟩

/-- Whether ids and names tell ports apart, those of instances and those of the workflow. -/
structure Workflow.Unambiguous (workflow : Workflow) : Prop extends workflow.DistinctNames where
  returns : (Port.successName :: Port.failureName :: workflow.returns.map (·.name)).Nodup

instance (workflow : Workflow) : Decidable workflow.Unambiguous :=
  decidable_of_iff (workflow.DistinctNames ∧
      (Port.successName :: Port.failureName :: workflow.returns.map (·.name)).Nodup)
    ⟨fun ⟨distinct, returns⟩ => ⟨distinct, returns⟩,
      fun clear => ⟨clear.toDistinctNames, clear.returns⟩⟩

/-- **When two texts `node.port` are the same**: node and port are, or the longer node goes on with
a point and with the beginning of the other port. -/
theorem append_point_eq_iff {node port otherNode otherPort : String} :
    node ++ "." ++ port = otherNode ++ "." ++ otherPort ↔
      (node = otherNode ∧ port = otherPort) ∨
      (∃ text, otherNode = node ++ "." ++ text ∧ port = text ++ "." ++ otherPort) ∨
      ∃ text, node = otherNode ++ "." ++ text ∧ otherPort = text ++ "." ++ port := by
  have longer : ∀ {node port otherNode otherPort : String} (rest : List Char),
      otherNode.toList = node.toList ++ rest → '.' :: port.toList = rest ++ '.' ::
      otherPort.toList → (node = otherNode ∧ port = otherPort) ∨
        ∃ text, otherNode = node ++ "." ++ text ∧ port = text ++ "." ++ otherPort := by
    intro node port otherNode otherPort rest nodes ports
    cases rest with
    | nil =>
        rw [List.append_nil] at nodes
        exact .inl ⟨String.toList_inj.mp nodes.symm, String.toList_inj.mp (List.cons.inj ports).2⟩
    | cons char text =>
        obtain ⟨rfl, behind⟩ := List.cons.inj ports
        refine .inr ⟨String.ofList text, String.toList_inj.mp ?_, String.toList_inj.mp ?_⟩
        · simp [nodes]
        · simp [behind]
  constructor
  · intro same
    have lists := congrArg String.toList same
    simp only [String.toList_append, List.append_assoc] at lists
    rcases List.append_eq_append_iff.mp lists with ⟨rest, nodes, ports⟩ | ⟨rest, nodes, ports⟩
    · exact (longer rest nodes ports).imp_right .inl
    · rcases longer rest nodes ports with ⟨rfl, rfl⟩ | further
      · exact .inl ⟨rfl, rfl⟩
      · exact .inr (.inr further)
  · rintro (⟨rfl, rfl⟩ | ⟨text, rfl, rfl⟩ | ⟨text, rfl, rfl⟩) <;> simp only [String.append_assoc]

/-- The node and the port of a text `node.port` are known, if there is no point in the node. -/
theorem append_point_inj {node port otherNode otherPort : String} (undotted : '.' ∉ node.toList)
    (undottedToo : '.' ∉ otherNode.toList)
    (same : node ++ "." ++ port = otherNode ++ "." ++ otherPort) :
    node = otherNode ∧ port = otherPort := by
  rcases append_point_eq_iff.mp same with equal | ⟨text, longer, _⟩ | ⟨text, longer, _⟩
  · exact equal
  · exact absurd (longer ▸ by simp) undottedToo
  · exact absurd (longer ▸ by simp) undotted

/-- No target of a connection has a point in its id, if no instance has. -/
theorem Wired.undotted_target (wired : Wired workflow)
    (undotted : ∀ inst ∈ workflow.instances, '.' ∉ inst.id.toList) {connection : Connection}
    (member : connection ∈ workflow.connections) : '.' ∉ connection.target.node.toList := by
  by_cases boundary : isBoundary connection.target.node = true
  · rw [isBoundary, Bool.or_eq_true, beq_iff_eq, beq_iff_eq] at boundary
    rcases boundary with start | exit
    · rw [start]
      decide
    · rw [exit]
      decide
  · obtain ⟨_, _, _, atTarget, _⟩ := wired.ports connection member
    obtain ⟨inst, declared, same⟩ :=
      List.mem_map.mp (Wired.named_of_resolve atTarget (Bool.eq_false_iff.mpr boundary))
    exact same ▸ undotted inst declared

/-- **The id of a merge binding tells it apart**, if there is no point in the id of an instance. -/
theorem Merge.FromBranches.eq_of_id {merges : List Merge}
    (known : Merge.FromBranches workflow merges) (wired : Wired workflow)
    (undotted : ∀ inst ∈ workflow.instances, '.' ∉ inst.id.toList) {first second : Merge}
    (inFirst : first ∈ merges) (inSecond : second ∈ merges) (same : first.id = second.id) :
    first = second := by
  obtain ⟨one, inside, atFirst⟩ := known.consumer first inFirst
  obtain ⟨other, insideToo, atSecond⟩ := known.consumer second inSecond
  refine Merge.eq_of_samePort known.distinct inFirst inSecond
    (Merge.samePort_iff.mpr (append_point_inj ?_ ?_ same))
  · exact atFirst ▸ wired.undotted_target undotted inside
  · exact atSecond ▸ wired.undotted_target undotted insideToo

namespace Workflow.DistinctNames

variable {merges : List Merge}

theorem unshared (clear : workflow.DistinctNames) {type : NodeType}
    (declared : type ∈ workflow.nodeTypes) (name : String) : type.Unshared name := by
  intro first inPorts second inPortsToo input inputToo named namedToo
  exact List.inj_on_of_nodup_map (clear.ports type declared) inPorts inPortsToo
    (Prod.ext (input.trans inputToo.symm) (named.trans namedToo.symm))

/-- An input that is read through a merge binding is one of its own with a connection. -/
theorem exists_connection_of_merged (clear : workflow.DistinctNames) {node binding : String}
    {input : InputBinding}
    (member : input ∈ (Binding.step (.ofWorkflow workflow) merges node).inputs)
    (merged : input.source = .merged binding) :
    ∃ port, workflow.OwnInput node port ∧ input.port = port.name ∧
      ∃ connection ∈ workflow.connections,
      connection.target.node = node ∧ connection.target.port = port.name ∧
        Merge.bindingFor merges connection = some binding := by
  obtain ⟨type, typed, port, isInput, rfl⟩ := Binding.mem_step_inputs.mp member
  refine ⟨port, ⟨type, typed, isInput, clear.unshared (Index.nodeType_mem typed) port.name⟩, rfl,
    ?_⟩
  obtain ⟨connection, inside, into, named, source⟩ :=
    (Binding.inputSource_cases merges node port).resolve_right fun ⟨_, given, source⟩ =>
      (Binding.fallback_cases given port).2 binding (source.symm.trans merged)
  exact ⟨connection, inside, into, named, Binding.connectionSource_eq_merged.mp
    (source.symm.trans merged)⟩

end Workflow.DistinctNames

/-! ### What merge bindings hold -/

/-- The value that a connection carries in a dry run. -/
def Connection.value (connection : Connection) : Json :=
  .string (connection.source.node ++ "." ++ connection.source.port)

open DryRun DryRun.State

/-- **A merge binding holds the value of a producer that ran**, and nothing if none of them ran. -/
theorem binding_delivers (undotted : ∀ inst ∈ workflow.instances, '.' ∉ inst.id.toList)
    (wired : Wired workflow) {merges : List Merge} (known : Merge.FromBranches workflow merges)
    (failures : List String) {steps : List Step}
    (exports : ∀ step ∈ steps, step.exports = Merge.exportsOf merges step.node) {merge : Merge}
    (member : merge ∈ merges) : ((after failures {} steps).bindings.get? merge.id = none ∧
        ∀ producer ∈ merge.producers, producer.node ∉ steps.map (·.node)) ∨
      ∃ producer ∈ merge.producers, producer.node ∈ steps.map (·.node) ∧
        (after failures {} steps).bindings.get? merge.id =
        some (.string (producer.node ++ "." ++ producer.port)) := by
  cases found : (after failures {} steps).bindings.get? merge.id with
  | none =>
      refine .inl ⟨rfl, fun producer writes ran => ?_⟩
      obtain ⟨step, among, same⟩ := List.mem_map.mp ran
      have sent : (⟨producer.port, merge.id⟩ : Export) ∈ step.exports := by
        rw [exports step among]
        exact Merge.mem_exportsOf.mpr ⟨merge, member, rfl, producer, writes, same.symm, rfl⟩
      have filled := @binding_after_of_mem failures _ _ _ among sent
      rw [found] at filled
      cases filled
  | some held =>
      obtain ⟨step, among, sent, inExports, writes, rfl⟩ := exists_of_binding_after found
      rw [exports step among] at inExports
      obtain ⟨other, inMerges, named, producer, produces, node, port⟩ :=
        Merge.mem_exportsOf.mp inExports
      obtain rfl := known.eq_of_id wired undotted inMerges member (named.symm.trans writes)
      exact .inr ⟨producer, produces, List.mem_map.mpr ⟨step, among, node.symm⟩, by rw [node, port]⟩

/-- A merge binding that only one output writes holds its value if it ran, and nothing otherwise. -/
theorem binding_of_only (undotted : ∀ inst ∈ workflow.instances, '.' ∉ inst.id.toList)
    (wired : Wired workflow) {merges : List Merge} (known : Merge.FromBranches workflow merges)
    (failures : List String) {steps : List Step}
    (exports : ∀ step ∈ steps, step.exports = Merge.exportsOf merges step.node) {merge : Merge}
    (member : merge ∈ merges) {source : PortRef}
    (only : ∀ producer ∈ merge.producers, producer = source) :
    (after failures {} steps).bindings.get? merge.id =
      if source.node ∈ steps.map (·.node) then some (.string (source.node ++ "." ++ source.port))
      else none := by
  obtain ⟨producer, produces⟩ := List.exists_mem_of_ne_nil _ (known.written merge member)
  rcases binding_delivers undotted wired known failures exports member with
    ⟨empty, idle⟩ | ⟨other, writes, ran, held⟩
  · rw [empty, if_neg (only producer produces ▸ idle producer produces)]
  · rw [only other writes] at ran held
    rw [held, if_pos ran]

/-! ### Inputs -/

theorem Stage.Settled.exports {stage : Stage} {merges : List Merge} (settled : stage.Settled merges)
    (index : Index) : (stage.step index).exports = Merge.exportsOf merges stage.node := by
  obtain ⟨rest, rfl, unwritten⟩ := settled
  exact (Merge.exportsOf_append unwritten).symm

/-- **An input that is read through a merge binding has the value of its connection.** -/
theorem input_delivers (clear : workflow.Unambiguous) (wired : Wired workflow) {merges : List Merge}
    (known : Merge.FromBranches workflow merges) {failures : List String} {steps : List Step}
    (exports : ∀ step ∈ steps, step.exports = Merge.exportsOf merges step.node) {stage : Stage}
    (settled : stage.Settled merges) {input : InputBinding}
    (member : input ∈ (stage.step (.ofWorkflow workflow)).inputs) {binding : String}
    (merged : input.source = .merged binding) :
    ∃ connection ∈ workflow.connections,
      (∀ other ∈ workflow.connections,
        other.target.node = stage.node ∧ other.target.port = input.port ↔ other = connection) ∧
      (after failures {} steps).resolve (.merged binding) =
        if connection.source.node ∈ steps.map (·.node) then connection.value else .null := by
  obtain ⟨port, own, atPort, connection, inside, node, named, bound⟩ :=
    clear.toDistinctNames.exists_connection_of_merged member merged
  rw [atPort]
  refine ⟨connection, inside, fun other among => ⟨fun into => ?_, ?_⟩, ?_⟩
  · exact wired.connection_unique own among into.1 into.2 inside node named
  · rintro rfl
    exact ⟨node, named⟩
  obtain ⟨rest, rfl, _⟩ := settled
  obtain ⟨merge, inMerges, into, rfl, writes⟩ :=
    Merge.bindingFor_eq_some (Merge.bindingFor_append_of_eq_some bound)
  have only := known.producers_eq wired own inMerges inside node named into
  show ((after failures {} steps).bindings.get? merge.id).getD .null = _
  rw [binding_of_only clear.undotted wired known failures exports inMerges only]
  split <;> rfl

/-! ### Returned values -/

theorem DryRun.returned_cases (state : State) {sources : List ValueSource}
    (values : ∀ source ∈ sources, isSignal source = false) :
    (returned state sources = .null ∧ ∀ source ∈ sources, state.resolve source = .null) ∨
      returned state sources ≠ .null ∧
        ∃ source ∈ sources, state.resolve source = returned state sources := by
  have plain : (!sources.isEmpty && sources.all isSignal) = false := by
    cases sources with
    | nil => rfl
    | cons source rest => simp [values source List.mem_cons_self]
  have last : returned state sources =
      ((sources.map state.resolve).reverse.find? fun value => value ≠ .null).getD .null := by
    rw [returned]
    simp only [plain, Bool.false_eq_true, if_false]
  rw [last]
  cases found : (sources.map state.resolve).reverse.find? fun value => value ≠ .null with
  | none =>
      refine .inl ⟨rfl, fun source member => ?_⟩
      have := List.find?_eq_none.mp found (state.resolve source)
        (List.mem_reverse.mpr (List.mem_map.mpr ⟨source, member, rfl⟩))
      simpa using this
  | some value =>
      obtain ⟨source, member, same⟩ :=
        List.mem_map.mp (List.mem_reverse.mp (List.mem_of_find?_eq_some found))
      exact .inr ⟨by simpa using List.find?_some found, source, member, same⟩

namespace Merge.FromBranches

/-- The beginning of a workflow writes no merge bindings. -/
theorem producer_ne_start {merges : List Merge} (known : FromBranches workflow merges)
    (wired : Wired workflow) {merge : Merge} (member : merge ∈ merges) {producer : PortRef}
    (produces : producer ∈ merge.producers) : producer.node ≠ startId := by
  obtain ⟨cluster, ⟨block, formed, inBlock⟩, connection, leaves, rfl, _⟩ :=
    known.producer merge member producer produces
  obtain ⟨region, isBlock⟩ := formed.isBlock
  have inArms := (mem_leaving.mp leaves).2.1
  exact wired.ne_start_of_named
    (isBlock.named (Cluster.members_subset isBlock.distinct inBlock
      (List.mem_cons_of_mem _ inArms)))

end Merge.FromBranches

/-- Whether a connection starts where the workflow begins or at a node that ran. -/
def Connection.StartsAmong (connection : Connection) (executed : List String) : Prop :=
  connection.source.node = startId ∨ connection.source.node ∈ executed

/-- **What is read through a merge binding**: something if the source of the connection ran, and
only the value of a connection into the same input whose source ran. -/
theorem merged_delivers (undotted : ∀ inst ∈ workflow.instances, '.' ∉ inst.id.toList)
    (wired : Wired workflow) {merges : List Merge} (known : Merge.FromBranches workflow merges)
    {failures : List String} {steps : List Step}
    (exports : ∀ step ∈ steps, step.exports = Merge.exportsOf merges step.node)
    {connection : Connection} {binding : String}
    (bound : Merge.bindingFor merges connection = some binding) :
    let value := (after failures {} steps).resolve (.merged binding)
    (connection.source.node ∈ steps.map (·.node) → value ≠ .null) ∧
      (value ≠ .null → ∃ other ∈ workflow.connections,
        other.target.node = connection.target.node ∧ other.target.port = connection.target.port ∧
        other.source.node ∈ steps.map (·.node) ∧ value = other.value) := by
  obtain ⟨merge, inMerges, into, rfl, writes⟩ := Merge.bindingFor_eq_some bound
  obtain ⟨producer, produces, same⟩ := List.any_eq_true.mp writes
  obtain ⟨node, _⟩ := Merge.samePort_iff.mp same
  dsimp only [resolve]
  rcases binding_delivers undotted wired known failures exports inMerges with
    ⟨empty, idle⟩ | ⟨other, producesToo, ran, held⟩
  · rw [empty]
    exact ⟨fun ran => absurd (node ▸ ran) (idle producer produces), fun nonnull =>
      absurd rfl nonnull⟩
  · rw [held]
    refine ⟨fun _ => by simp, fun _ => ?_⟩
    obtain ⟨_, _, feeding, leaves, rfl, consumes⟩ := known.producer merge inMerges other producesToo
    obtain ⟨atNode, atPort⟩ :=
      Merge.samePort_iff.mp (Merge.samePort_trans (Merge.samePort_symm consumes) into)
    exact ⟨feeding, (Merge.mem_leaving.mp leaves).1, atNode, atPort, ran, rfl⟩

/-- **What a connection into the end of a workflow gives**: something if its source ran, and only
the value of a connection into the same port whose source ran. -/
theorem exit_delivers (clear : workflow.Unambiguous) (wired : Wired workflow) {merges : List Merge}
    (known : Merge.FromBranches workflow merges) {failures : List String} {steps : List Step}
    (exports : ∀ step ∈ steps, step.exports = Merge.exportsOf merges step.node)
    {connection : Connection} (member : connection ∈ workflow.connections)
    (exit : connection.target.node = exitId) :
    let value := (after failures {} steps).resolve
      (Binding.connectionSource (.ofWorkflow workflow) merges connection)
    (connection.StartsAmong (steps.map (·.node)) → value ≠ .null) ∧
      (value ≠ .null → ∃ other ∈ workflow.connections, other.target.node = exitId ∧
        other.target.port = connection.target.port ∧ other.StartsAmong (steps.map (·.node)) ∧
        value = other.value) := by
  rw [Binding.connectionSource]
  cases bound : Merge.bindingFor merges connection with
  | some binding =>
      obtain ⟨given, origin⟩ := @merged_delivers _ clear.undotted wired _ known failures _
        exports _ _ bound
      refine ⟨fun starts => given (starts.resolve_left fun start => ?_), fun nonnull => ?_⟩
      · obtain ⟨merge, inMerges, _, _, writes⟩ := Merge.bindingFor_eq_some bound
        obtain ⟨producer, produces, same⟩ := List.any_eq_true.mp writes
        exact known.producer_ne_start wired inMerges produces
          ((Merge.samePort_iff.mp same).1.symm.trans start)
      · obtain ⟨other, inside, node, port, ran, value⟩ := origin nonnull
        exact ⟨other, inside, node.trans exit, port, .inr ran, value⟩
  | none =>
      dsimp only
      by_cases start : connection.source.node = startId
      · rw [if_pos start]
        refine ⟨fun _ => by simp [resolve], fun _ =>
          ⟨connection, member, exit, rfl, .inl start, ?_⟩⟩
        rw [Connection.value, start]
        rfl
      · obtain ⟨source, atSource, plain, _⟩ := wired.source_of_exit member exit start
        rw [if_neg start, atSource, Option.bind_some, plain]
        by_cases ran : connection.source.node ∈ steps.map (·.node)
        · simp only [resolve, hasRun_after, ran, if_true]
          exact ⟨fun _ => by simp, fun _ => ⟨connection, member, exit, rfl, .inr ran, rfl⟩⟩
        · simp only [resolve, hasRun_after, ran, if_false]
          exact ⟨fun starts => absurd (starts.resolve_left start) ran, fun nonnull =>
            absurd rfl nonnull⟩

theorem Workflow.Unambiguous.exit_names (clear : workflow.Unambiguous) :
    (workflow.exitPorts.map (·.name)).Nodup := by
  have returns := clear.returns
  simpa [exitPorts, Port.stepInput, Function.comp_def] using returns

namespace Binding

theorem connectionSource_isSignal (index : Index) (merges : List Merge) (connection : Connection) :
    isSignal (connectionSource index merges connection) = false := by
  rw [connectionSource]
  split
  · rfl
  · split
    · rfl
    · split <;> rfl

/-- Only exit ports for values are given values. -/
theorem isData_of_mem_returnBinding {merges : List Merge} {port : Port} {source : ValueSource}
    (member : source ∈ (returnBinding (.ofWorkflow workflow) merges port).sources)
    (value : ∀ node port, source ≠ .signal node port) : port.isData = true := by
  rw [Port.isData, Bool.not_eq_true', Bool.eq_false_iff]
  intro step
  simp only [returnBinding, List.mem_eraseDups, List.mem_map, step, if_true] at member
  obtain ⟨entry, _, same⟩ := member
  exact value _ _ same.symm

/-- What an exit port for values is given are the values of the connections into it. -/
theorem mem_returnBinding {merges : List Merge} {port : Port} (data : port.isData = true)
    {source : ValueSource} :
    source ∈ (returnBinding (.ofWorkflow workflow) merges port).sources ↔
      ∃ connection ∈ workflow.connections, connection.target.node = exitId ∧
        connection.target.port = port.name ∧
        connectionSource (.ofWorkflow workflow) merges connection = source := by
  have plain : port.isStep = false := by simpa [Port.isData] using data
  simp only [returnBinding, List.mem_eraseDups, List.mem_map, plain, Bool.false_eq_true, if_false]
  constructor
  · rintro ⟨entry, into, rfl⟩
    obtain ⟨incoming, named⟩ := List.mem_filter.mp into
    obtain ⟨member, exit⟩ := Index.exists_mem_incoming.mp ⟨entry, incoming, rfl⟩
    exact ⟨entry.2, member, exit, by simpa using named, rfl⟩
  · rintro ⟨connection, member, exit, named, rfl⟩
    obtain ⟨entry, incoming, rfl⟩ := Index.exists_mem_incoming.mpr ⟨member, exit⟩
    exact ⟨entry, List.mem_filter.mpr ⟨incoming, by simpa using named⟩, rfl⟩

end Binding

/-- **What an exit port for values is given**: the value of a connection whose source ran, and null
if there is none. -/
theorem return_delivers (clear : workflow.Unambiguous) (wired : Wired workflow)
    {merges : List Merge} (known : Merge.FromBranches workflow merges) {failures : List String}
    {steps : List Step} (exports : ∀ step ∈ steps, step.exports = Merge.exportsOf merges step.node)
    {port : Port} (data : port.isData = true) :
    let value := returned (after failures {} steps)
      (Binding.returnBinding (.ofWorkflow workflow) merges port).sources
    (value = .null ↔ ∀ connection ∈ workflow.connections, connection.target.node = exitId →
      connection.target.port = port.name → ¬ connection.StartsAmong (steps.map (·.node))) ∧
      (value ≠ .null → ∃ connection ∈ workflow.connections, connection.target.node = exitId ∧
        connection.target.port = port.name ∧ connection.StartsAmong (steps.map (·.node)) ∧
        value = connection.value) := by
  have gives := fun connection inside exit => @exit_delivers _ clear wired _ known failures _
    exports connection inside exit
  have values : ∀ source ∈ (Binding.returnBinding (.ofWorkflow workflow) merges port).sources,
      isSignal source = false := by
    intro source among
    obtain ⟨connection, _, _, _, rfl⟩ := (Binding.mem_returnBinding data).mp among
    exact Binding.connectionSource_isSignal _ _ _
  dsimp only
  rcases returned_cases (after failures {} steps) values with
    ⟨null, all⟩ | ⟨nonnull, source, among, same⟩
  · refine ⟨⟨fun _ connection inside exit named starts => ?_, fun _ => null⟩, fun some =>
      absurd null some⟩
    exact (gives connection inside exit).1 starts
      (all _ ((Binding.mem_returnBinding data).mpr ⟨connection, inside, exit, named, rfl⟩))
  · obtain ⟨connection, inside, exit, named, rfl⟩ := (Binding.mem_returnBinding data).mp among
    obtain ⟨other, insideToo, exitToo, namedToo, starts, value⟩ :=
      (gives connection inside exit).2 (same ▸ nonnull)
    refine ⟨⟨fun null => absurd null nonnull, fun idle => ?_⟩, fun _ => ?_⟩
    · exact absurd starts (idle other insideToo exitToo (namedToo.trans named))
    · exact ⟨other, insideToo, exitToo, namedToo.trans named, starts, same.symm.trans value⟩

/-- Whether a plan delivers the connected values when some instances fail. -/
structure Delivers (workflow : Workflow) (plan : Plan) (failures : List String) : Prop where
  /-- An input that is read through a merge binding has one connection. It has the value of that
  connection if the source has run by then, and is null otherwise. -/
  inputs : ∀ before step rest, trace failures {} plan.body = before ++ step :: rest →
    ∀ input ∈ step.inputs, ∀ binding, input.source = .merged binding →
      ∃ connection ∈ workflow.connections,
        (∀ other ∈ workflow.connections,
          other.target.node = step.node ∧ other.target.port = input.port ↔ other = connection) ∧
        (after failures {} before).resolve input.source =
          if (after failures {} before).hasRun connection.source.node then connection.value
          else .null
  /-- What a scope collects through a merge binding is the value of a connection into the same input
  whose source has run, whenever it is read, or null. It is not null if the source of the first of
  these connections has run. -/
  results : ∀ before rest, trace failures {} plan.body = before ++ rest → ∀ node ∈ plan.body.walk,
    ∀ step, node.ran? = some step → ∀ frame ∈ node.frames, ∀ result ∈ frame.results,
    ∀ binding, result.source = .merged binding →
      ∃ connection, workflow.firstInto step.node result.port = some connection ∧
        ((after failures {} before).hasRun connection.source.node = true →
          (after failures {} before).resolve result.source ≠ .null) ∧
        ((after failures {} before).resolve result.source ≠ .null →
          ∃ other ∈ workflow.connections, other.target.node = step.node ∧
            other.target.port = result.port ∧
            (after failures {} before).hasRun other.source.node = true ∧
            (after failures {} before).resolve result.source = other.value)
  /-- A returned value is that of a connection whose source ran, and null exactly if there is
  none. -/
  returns : ∀ port ∈ workflow.returns, port.isData = true →
    ∃ value, (ofPlan plan failures).returns.get? port.name = some value ∧
      (value = .null ↔ ∀ connection ∈ workflow.connections, connection.target.node = exitId →
        connection.target.port = port.name →
          ¬ connection.StartsAmong (ofPlan plan failures).executed) ∧
      (value ≠ .null → ∃ connection ∈ workflow.connections, connection.target.node = exitId ∧
        connection.target.port = port.name ∧
        connection.StartsAmong (ofPlan plan failures).executed ∧
        value = connection.value)

namespace Scheduler.Arranged

variable {scheduler : Scheduler} {placements : List Placement} {resolved available : List String}
  {failures : List String}

/-- What a dry run runs are stages, to whose instances the later merge bindings mean nothing. -/
theorem exists_stage_of_trace (arranged : Arranged scheduler (.ofWorkflow workflow)
      (.ofRegion (.ofWorkflow workflow) none resolved available) placements)
    (wired : Wired workflow) {step : Step}
    (ran : step ∈ trace failures {} (Binding.plan (.ofWorkflow workflow) placements).body) :
    ∃ stage : Stage, stage.step (.ofWorkflow workflow) = step ∧
      stage.Settled (Binding.placeAll (.ofWorkflow workflow) [] placements).2 := by
  rw [arranged.trace_eq wired failures] at ran
  obtain ⟨stage, member, rfl⟩ := List.mem_map.mp ran
  exact ⟨stage, rfl, arranged.settled (List.mem_filter.mp member).1⟩

/-- What a dry run runs writes all merge bindings that its instance is a producer of. -/
theorem exports_of_trace (arranged : Arranged scheduler (.ofWorkflow workflow)
      (.ofRegion (.ofWorkflow workflow) none resolved available) placements)
    (wired : Wired workflow) :
    ∀ step ∈ trace failures {} (Binding.plan (.ofWorkflow workflow) placements).body,
      step.exports =
        Merge.exportsOf (Binding.placeAll (.ofWorkflow workflow) [] placements).2 step.node := by
  intro step ran
  obtain ⟨stage, rfl, settled⟩ := arranged.exists_stage_of_trace wired ran
  exact settled.exports _

end Scheduler.Arranged

/-- **Merge bindings deliver the connected value**, whatever fails. -/
theorem merges_deliver {scheduler : Scheduler} {plan : Plan}
    (valid : (validate workflow).hasErrors = false) (clear : workflow.Unambiguous)
    (scheduled : (scheduler.schedule workflow).outcome = .ok plan) (failures : List String) :
    Delivers workflow plan failures := by
  have wired := wired_of_validate valid
  obtain ⟨placements, arranged, rfl⟩ := Scheduler.exists_arranged scheduled
  have known := Merge.FromBranches.placeAll (arranged.isBranch .top)
  have exports := @Scheduler.Arranged.exports_of_trace _ _ _ _ _ failures arranged wired
  have exportsBefore : ∀ {before rest},
      trace failures {} (Binding.plan _ placements).body = before ++ rest →
      ∀ step ∈ before, step.exports = Merge.exportsOf _ step.node :=
    fun split step among => exports step (split ▸ List.mem_append_left _ among)
  refine ⟨?inputs, ?results, ?returns⟩
  case inputs =>
    intro before step rest split input member binding merged
    obtain ⟨stage, rfl, declared⟩ :=
      @Scheduler.Arranged.exists_stage_of_trace _ _ _ _ _ failures arranged wired step
        (by rw [split]; simp)
    obtain ⟨connection, inside, only, value⟩ :=
      @input_delivers _ clear wired _ known failures before (exportsBefore split) stage declared
        input member binding merged
    refine ⟨connection, inside, only, ?_⟩
    simp only [hasRun_after, merged]
    exact value
  case results =>
    intro before rest split node inWalk step ran frame among result collected binding merged
    obtain ⟨earlier, grows, _, _, port, _, _, _, rfl⟩ :=
      Binding.exists_of_result inWalk ran among collected
    obtain ⟨connection, first, bound⟩ := Binding.exists_first_of_merged merged
    obtain ⟨_, into, named⟩ := Workflow.mem_of_firstInto first
    obtain ⟨later, merges⟩ := grows
    have boundToo := merges ▸ Merge.bindingFor_append_of_eq_some bound
    obtain ⟨given, origin⟩ := @merged_delivers _ clear.undotted wired _ known failures before
      (exportsBefore split) _ _ boundToo
    rw [into, named] at origin
    refine ⟨connection, first, ?_⟩
    replace merged : Binding.inputSource (.ofWorkflow workflow) earlier step.node port =
        .merged binding := merged
    simp only [hasRun_after, merged]
    exact ⟨given, origin⟩
  case returns =>
    intro port declared data
    have member : { port with direction := .input } ∈ workflow.exitPorts := by
      simp only [Workflow.exitPorts, List.mem_cons, List.mem_map]
      exact .inr (.inr ⟨port, declared, rfl⟩)
    obtain ⟨null, value⟩ :=
      @return_delivers _ clear wired _ known failures _ exports { port with direction := .input }
        data
    rw [executed_ofPlan]
    refine ⟨_, ?_, null, value⟩
    rw [ofPlan, walk_eq_after]
    refine Table.get?_ofList_of_mem ?_ ?_
    · show (((workflow.exitPorts.map (Binding.returnBinding _ _)).map fun binding => _).map _).Nodup
      rw [List.map_map, List.map_map]
      exact clear.exit_names
    · refine List.mem_map.mpr ⟨_, List.mem_map.mpr ⟨_, member, rfl⟩, rfl⟩

/-- A node type with an input `in`, which runs a scope and collects a value of the scope in an input
of a given name. -/
def collectorType (result : String) : NodeType :=
  ((((NodeType.function "Loop").withOptionalInput "in" .string).withOutput "out" .string).withPort
    { Port.stepOutput "start" with scope := some "body" }).withPort
    { Port.dataInput result .string with optional := true, scope := some "body" }

/-- A branch whose arms both end in one returned value, and of which one is read through an
expression, beside a loop that collects a value from an arm of a branch in it. -/
def eitherArm : Workflow where
  name := "either arm"
  parameters := [.dataInput "seed" .string]
  returns := [.dataInput "answer" .string, .dataInput "echo" .string]
  nodeTypes :=
    [((NodeType.function "Task").withOptionalInput "in" .string).withOutput "out" .string,
      ((NodeType.expression "Upper").withInput "in" .string).withOutput "out" .string,
      collectorType "sum"]
  instances :=
    [{ id := "h", nodeType := "Task" }, { id := "x", nodeType := "Task" },
      { id := "y", nodeType := "Task" }, { id := "e", nodeType := "Upper" },
      { id := "z", nodeType := "Task" }, { id := "m", nodeType := "Loop" }] ++
      ["k", "p", "q"].map fun id =>
        { id := id, nodeType := "Task", parentScope := some ⟨"m", "body"⟩ }
  connections :=
    [⟨⟨"h", "onSuccess", none⟩, ⟨"x", "execute", none⟩⟩,
      ⟨⟨"h", "onFailure", none⟩, ⟨"y", "execute", none⟩⟩,
      ⟨⟨"x", "out", none⟩, ⟨"e", "in", none⟩⟩,
      ⟨⟨"e", "out", none⟩, ⟨"z", "in", none⟩⟩,
      ⟨⟨"x", "out", none⟩, ⟨"Exit", "answer", none⟩⟩,
      ⟨⟨"y", "out", none⟩, ⟨"Exit", "answer", none⟩⟩,
      ⟨⟨"Start", "seed", none⟩, ⟨"Exit", "echo", none⟩⟩,
      ⟨⟨"k", "onSuccess", none⟩, ⟨"p", "execute", none⟩⟩,
      ⟨⟨"k", "onFailure", none⟩, ⟨"q", "execute", none⟩⟩,
      ⟨⟨"p", "out", none⟩, ⟨"m", "sum", some "body"⟩⟩]
  scopes := [⟨"m", "body", ["k", "p", "q"]⟩]

theorem merges_deliver_eitherArm :
    ∃ plan, (validate eitherArm).hasErrors = false ∧ eitherArm.Unambiguous ∧
      (({} : Scheduler).schedule eitherArm).outcome = .ok plan ∧
      plan.hoisted.map (·.id) = ["e.in", "Exit.answer", "m.sum"] ∧
      (trace ["h"] {} plan.body).map (fun step => (step.node, step.inputs)) =
        [("h", [⟨"in", .unbound⟩]), ("y", [⟨"in", .unbound⟩]), ("m", [⟨"in", .unbound⟩]),
          ("k", [⟨"in", .unbound⟩]), ("p", [⟨"in", .unbound⟩]), ("e", [⟨"in", .merged "e.in"⟩]),
          ("z", [⟨"in", .output "e" "out"⟩])] ∧
      plan.body.walk.flatMap (fun node => node.frames.map (·.results)) =
        [[⟨"sum", .merged "m.sum"⟩]] ∧
      plan.returnFor "answer" = some ⟨"answer", [.merged "Exit.answer"]⟩ ∧
      (ofPlan plan ["h"]).executed = ["h", "y", "m", "k", "p", "e", "z"] ∧
      (ofPlan plan ["h"]).returns.get? "answer" = some (.string "y.out") ∧
      Delivers eitherArm plan ["h"] := by
  have valid : (validate eitherArm).hasErrors = false := by decide +kernel
  have clear : eitherArm.Unambiguous := by decide +kernel
  obtain ⟨plan, scheduled, bound⟩ := exists_of_toOption_map
    (show (({} : Scheduler).schedule eitherArm).outcome.toOption.map (fun plan =>
        (plan.hoisted.map (·.id),
          (trace ["h"] {} plan.body).map (fun step => (step.node, step.inputs)),
          plan.body.walk.flatMap (fun node => node.frames.map (·.results)))) =
      some (["e.in", "Exit.answer", "m.sum"],
        [("h", [⟨"in", .unbound⟩]), ("y", [⟨"in", .unbound⟩]), ("m", [⟨"in", .unbound⟩]),
          ("k", [⟨"in", .unbound⟩]), ("p", [⟨"in", .unbound⟩]), ("e", [⟨"in", .merged "e.in"⟩]),
          ("z", [⟨"in", .output "e" "out"⟩])],
        [[⟨"sum", .merged "m.sum"⟩]]) by decide +kernel)
  obtain ⟨planToo, scheduledToo, shown⟩ := exists_of_toOption_map
    (show (({} : Scheduler).schedule eitherArm).outcome.toOption.map (fun plan =>
        (plan.returnFor "answer", (ofPlan plan ["h"]).executed,
          (ofPlan plan ["h"]).returns.get? "answer")) =
      some (some ⟨"answer", [.merged "Exit.answer"]⟩, ["h", "y", "m", "k", "p", "e", "z"],
        some (.string "y.out")) by decide +kernel)
  obtain rfl := Except.ok.inj (scheduledToo.symm.trans scheduled)
  simp only [Prod.mk.injEq] at bound shown
  obtain ⟨hoisted, read, collected⟩ := bound
  obtain ⟨returned, executed, answer⟩ := shown
  exact ⟨planToo, valid, clear, scheduled, hoisted, read, collected, returned, executed, answer,
    merges_deliver valid clear scheduled ["h"]⟩

end WorkflowGraph
