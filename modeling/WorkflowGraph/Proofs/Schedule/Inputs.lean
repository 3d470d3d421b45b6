/-
Inputs of instances and the connections that feed them.

* `Workflow.OwnInput` — a plain data input of an instance that does not share its name with another
  input.
* `Wired.connection_unique` — such an input has at most one connection. `source_of_exit` says where
  a connection to the end of a workflow starts.
* `Binding.mem_step_inputs`, `inputSource_cases` — where the inputs of a run get their values.
* `producer?_connectionSource` — when the value of a connection is read directly from an instance.
  An input of its own reads from the source of its connection (`OwnInput.exists_connection`,
  `exists_input`).
-/

import WorkflowGraph.Schedule.Binding
import WorkflowGraph.Proofs.Certified
import WorkflowGraph.Proofs.Schedule.Merge

namespace WorkflowGraph

variable {workflow : Workflow}

/-! ### Ports of one name -/

namespace NodeType

variable {type : NodeType} {port : Port}

theorem mem_insertByOrder {other : Port} {ports : List Port} :
    other ∈ insertByOrder port ports ↔ other = port ∨ other ∈ ports := by
  induction ports with
  | nil => simp [insertByOrder]
  | cons first rest ih =>
      rw [insertByOrder]
      split
      · exact List.mem_cons
      · rw [List.mem_cons, ih, List.mem_cons, or_left_comm]

theorem mem_portsIn {direction : Direction} :
    port ∈ type.portsIn direction ↔ port ∈ type.ports ∧ port.direction = direction := by
  have sorted : ∀ ports : List Port, port ∈ ports.foldr insertByOrder [] ↔ port ∈ ports := by
    intro ports
    induction ports with
    | nil => exact Iff.rfl
    | cons first rest ih => rw [List.foldr_cons, mem_insertByOrder, ih, List.mem_cons]
  rw [portsIn, sorted, List.mem_filter, decide_eq_true_eq]

theorem mem_dataInputs :
    port ∈ type.dataInputs ↔ port ∈ type.ports ∧ port.direction = .input ∧ port.isData = true ∧
      port.scope = none := by
  rw [dataInputs, List.mem_filter, mem_portsIn, Bool.and_eq_true, Option.isNone_iff_eq_none,
    and_assoc]

/-- Whether no two inputs have a name in common. -/
def Unshared (type : NodeType) (name : String) : Prop :=
  ∀ first ∈ type.ports, ∀ second ∈ type.ports, first.direction = .input →
    second.direction = .input → first.name = name → second.name = name → first = second

instance (type : NodeType) (name : String) : Decidable (type.Unshared name) :=
  inferInstanceAs
    (Decidable (∀ first ∈ type.ports, ∀ second ∈ type.ports, first.direction = .input →
    second.direction = .input → first.name = name → second.name = name → first = second))

end NodeType

/-! ### Connections into one input -/

/-- Whether an instance has a plain data input that does not share its name with another one. -/
def Workflow.OwnInput (workflow : Workflow) (node : String) (port : Port) : Prop :=
  ∃ type, (Index.ofWorkflow workflow).nodeType? node = some type ∧ port ∈ type.dataInputs ∧
    type.Unshared port.name

namespace Wired

variable {node : String} {port : Port} {connection : Connection}

theorem ordinary_of_typed (wired : Wired workflow) {type : NodeType}
    (typed : (Index.ofWorkflow workflow).nodeType? node = some type) : isBoundary node = false := by
  obtain ⟨inst, found⟩ := Index.find?_of_nodeType? typed
  exact Index.id_of_find? found ▸ wired.ordinary inst (Index.mem_of_find? found)

/-- What does not start at the beginning of the workflow starts at an instance. -/
theorem source_ordinary (wired : Wired workflow) (member : connection ∈ workflow.connections)
    (notStart : connection.source.node ≠ startId) : isBoundary connection.source.node = false := by
  obtain ⟨source, _, atSource, _⟩ := wired.ports connection member
  have notExit := Index.ne_exit_of_sourcePort atSource
  simp [isBoundary, notStart, notExit]

/-- A connection from an instance to the end of a workflow starts at a plain output on the top
level. -/
theorem source_of_exit (wired : Wired workflow) (member : connection ∈ workflow.connections)
    (exit : connection.target.node = exitId) (notStart : connection.source.node ≠ startId) :
    ∃ source, (Index.ofWorkflow workflow).sourcePort connection = some source ∧
      source.scope = none ∧ (Index.ofWorkflow workflow).regionOf connection.source.node = none := by
  obtain ⟨source, target, atSource, atTarget, _⟩ := wired.ports connection member
  have ordinary := wired.source_ordinary member notStart
  have atEnd : (Index.ofWorkflow workflow).regionAt connection.target target = none := by
    rw [Index.regionAt, if_pos (by rw [exit]; rfl)]
  have atTop : (Index.ofWorkflow workflow).regionAt connection.source source = none := by
    cases step : source.isStep with
    | true => rw [wired.step_region member atSource atTarget step, atEnd]
    | false =>
        have within := (wired.data_region member atSource atTarget step).1
        rw [atEnd] at within
        generalize (Index.ofWorkflow workflow).regionAt connection.source source = region at within
        cases within
        rfl
  refine ⟨source, atSource, ?_⟩
  cases scope : source.scope with
  | none => exact ⟨rfl, Wired.regionAt_plain ordinary scope ▸ atTop⟩
  | some name => simp [Index.regionAt, ordinary, scope] at atTop

/-- Where a connection into an input of its own leads. -/
theorem target_eq (wired : Wired workflow) (own : workflow.OwnInput node port)
    (member : connection ∈ workflow.connections) (into : connection.target.node = node)
    (named : connection.target.port = port.name) :
    (Index.ofWorkflow workflow).targetPort connection = some port ∧
      connection.target = ⟨node, port.name, none⟩ := by
  obtain ⟨type, typed, isInput, unshared⟩ := own
  obtain ⟨declared, input, data, plain⟩ := NodeType.mem_dataInputs.mp isInput
  obtain ⟨_, target, _, atTarget, _⟩ := wired.ports connection member
  obtain ⟨held, known, inPorts, direction, name⟩ :=
    Index.exists_of_resolve atTarget (into ▸ wired.ordinary_of_typed typed)
  rw [into, typed] at known
  cases known
  obtain rfl := unshared target inPorts port declared direction input (name.trans named) rfl
  refine ⟨atTarget, ?_⟩
  have scope : connection.target.scope = none := by
    rcases (Index.fits_of_resolve atTarget).2.2 with none | same
    · exact none
    · rw [← same, plain]
  obtain ⟨source, target⟩ := connection
  obtain ⟨targetNode, targetPort, targetScope⟩ := target
  cases into
  cases named
  cases scope
  rfl

/-- **An input of its own has at most one connection.** -/
theorem connection_unique (wired : Wired workflow) (own : workflow.OwnInput node port)
    {other : Connection} (member : connection ∈ workflow.connections)
    (into : connection.target.node = node) (named : connection.target.port = port.name)
    (memberToo : other ∈ workflow.connections) (intoToo : other.target.node = node)
    (namedToo : other.target.port = port.name) :
    connection = other := by
  have feeds : ∀ connection ∈ workflow.connections, connection.target.node = node →
      connection.target.port = port.name → connection ∈
        workflow.connections.filter (ConnectionIntegrity.feedsInput (.ofWorkflow workflow)) ∧
        connection.target = ⟨node, port.name, none⟩ := by
    intro connection member into named
    obtain ⟨atTarget, same⟩ := wired.target_eq own member into named
    refine ⟨List.mem_filter.mpr ⟨member, ?_⟩, same⟩
    obtain ⟨type, typed, isInput, _⟩ := own
    have notExit : connection.target.node ≠ exitId := by
      intro exit
      have ordinary := wired.ordinary_of_typed typed
      rw [← into, exit] at ordinary
      cases ordinary
    simp [ConnectionIntegrity.feedsInput, notExit, atTarget,
      (NodeType.mem_dataInputs.mp isInput).2.2.1]
  obtain ⟨first, target⟩ := feeds connection member into named
  obtain ⟨second, targetToo⟩ := feeds other memberToo intoToo namedToo
  exact List.inj_on_of_nodup_map wired.single first second (target.trans targetToo.symm)

end Wired

/-! ### Sources of inputs -/

/-- The instance that a value is read from directly. -/
def ValueSource.producer? : ValueSource → Option String
  | output node _ | scopeItem node _ _ => some node
  | _ => none

namespace Binding

variable {merges : List Merge} {connection : Connection}

/-- The inputs of a run. -/
theorem mem_step_inputs {id : String} {input : InputBinding} :
    input ∈ (step (.ofWorkflow workflow) merges id).inputs ↔
      ∃ type, (Index.ofWorkflow workflow).nodeType? id = some type ∧ ∃ port ∈ type.dataInputs,
        input = ⟨port.name, inputSource (.ofWorkflow workflow) merges id port⟩ := by
  show input ∈ inputs _ merges id _ ↔ _
  rw [inputs, List.mem_map]
  cases (Index.ofWorkflow workflow).nodeType? id with
  | none => simp
  | some type => simp [eq_comm]

theorem mem_connectionsInto {id name : String} :
    (∃ entry ∈ (Index.ofWorkflow workflow).connectionsInto id name, entry.2 = connection) ↔
      connection ∈ workflow.connections ∧ connection.target.node = id ∧
      connection.target.port = name := by
  simp only [Index.connectionsInto, List.mem_filter, decide_eq_true_eq]
  rw [← and_assoc, ← Index.exists_mem_incoming]
  constructor
  · rintro ⟨entry, ⟨incoming, named⟩, rfl⟩
    exact ⟨⟨entry, incoming, rfl⟩, named⟩
  · rintro ⟨⟨entry, incoming, rfl⟩, named⟩
    exact ⟨entry, ⟨incoming, named⟩, rfl⟩

/-- An input has the value of a connection into it, or else a value that is given. -/
theorem inputSource_cases (merges : List Merge) (id : String) (port : Port) :
    (∃ connection ∈ workflow.connections, connection.target.node = id ∧
      connection.target.port = port.name ∧
      inputSource (.ofWorkflow workflow) merges id port =
        connectionSource (.ofWorkflow workflow) merges connection) ∨
    (∀ connection ∈ workflow.connections, connection.target.node = id →
      connection.target.port ≠ port.name) ∧
      ∃ given, inputSource (.ofWorkflow workflow) merges id port = fallback given port := by
  rw [inputSource]
  split
  · rename_i position connection rest into
    obtain ⟨member, node, named⟩ := mem_connectionsInto.mp
      ⟨(position, connection), into ▸ List.mem_cons_self, rfl⟩
    exact .inl ⟨connection, member, node, named, rfl⟩
  · rename_i none
    refine .inr ⟨fun connection member node named => ?_, _, rfl⟩
    obtain ⟨entry, into, _⟩ := mem_connectionsInto.mpr ⟨member, node, named⟩
    rw [none] at into
    cases into

/-- A value that is given is not read from another place. -/
theorem fallback_cases (given : Option PortBinding) (port : Port) :
    (fallback given port).producer? = none ∧ ∀ binding, fallback given port ≠ .merged binding := by
  unfold fallback
  split <;> exact ⟨rfl, fun _ same => (nomatch same)⟩

/-- **The value of a connection is read from its source, unless there is a merge binding for it** or
the workflow begins with it. -/
theorem producer?_connectionSource {id : String} :
    (connectionSource (.ofWorkflow workflow) merges connection).producer? = some id ↔
      Merge.bindingFor merges connection = none ∧ connection.source.node ≠ startId ∧
        connection.source.node = id := by
  rw [connectionSource]
  split
  · rename_i found
    simp [found, ValueSource.producer?]
  · rename_i none
    split
    · rename_i start
      simp [ValueSource.producer?, start]
    · rename_i notStart
      split <;> simp [ValueSource.producer?, none, notStart]

theorem connectionSource_eq_merged {binding : String} :
    connectionSource (.ofWorkflow workflow) merges connection = .merged binding ↔
      Merge.bindingFor merges connection = some binding := by
  rw [connectionSource]
  split
  · rename_i found
    simp [found]
  · rename_i none
    split
    · simp [none]
    · split <;> simp [none]

end Binding

namespace Workflow.OwnInput

variable {node : String} {port : Port} {merges : List Merge}

/-- An input of its own that is read from an instance has a connection from it without a merge
binding. -/
theorem exists_connection (own : workflow.OwnInput node port) {input : InputBinding}
    (member : input ∈ (Binding.step (.ofWorkflow workflow) merges node).inputs)
    (named : input.port = port.name) {id : String} (produced : input.source.producer? = some id) :
    ∃ connection ∈ workflow.connections, connection.target.node = node ∧
      connection.target.port = port.name ∧
      Merge.bindingFor merges connection = none ∧ connection.source.node ≠ startId ∧
      connection.source.node = id := by
  obtain ⟨type, typed, isInput, unshared⟩ := own
  obtain ⟨typeToo, typedToo, other, isInputToo, rfl⟩ := Binding.mem_step_inputs.mp member
  rw [typed] at typedToo
  cases typedToo
  obtain ⟨declared, input, _⟩ := NodeType.mem_dataInputs.mp isInput
  obtain ⟨declaredToo, inputToo, _⟩ := NodeType.mem_dataInputs.mp isInputToo
  obtain rfl := unshared other declaredToo port declared inputToo input named rfl
  rcases @Binding.inputSource_cases workflow merges node other with
    ⟨connection, inside, into, atPort, source⟩ | ⟨_, given, source⟩
  · rw [source] at produced
    exact ⟨connection, inside, into, atPort, Binding.producer?_connectionSource.mp produced⟩
  · rw [source, (Binding.fallback_cases given other).1] at produced
    cases produced

/-- An input of its own has the value of its connection. -/
theorem exists_input_of_connection (own : workflow.OwnInput node port) (wired : Wired workflow)
    {connection : Connection} (member : connection ∈ workflow.connections)
    (into : connection.target.node = node) (named : connection.target.port = port.name) :
    ∃ input ∈ (Binding.step (.ofWorkflow workflow) merges node).inputs, input.port = port.name ∧
      input.source = Binding.connectionSource (.ofWorkflow workflow) merges connection := by
  have typed := own
  obtain ⟨type, typed, isInput, _⟩ := typed
  refine ⟨_, Binding.mem_step_inputs.mpr ⟨type, typed, port, isInput, rfl⟩, rfl, ?_⟩
  rcases @Binding.inputSource_cases workflow merges node port with
    ⟨other, inside, intoToo, namedToo, source⟩ | ⟨none, _⟩
  · obtain rfl := wired.connection_unique own member into named inside intoToo namedToo
    exact source
  · exact absurd named (none connection member into)

/-- A connection without a merge binding is read from its source. -/
theorem exists_input (own : workflow.OwnInput node port) (wired : Wired workflow)
    {connection : Connection} (member : connection ∈ workflow.connections)
    (into : connection.target.node = node) (named : connection.target.port = port.name)
    (unbound : Merge.bindingFor merges connection = none)
    (notStart : connection.source.node ≠ startId) :
    ∃ input ∈ (Binding.step (.ofWorkflow workflow) merges node).inputs, input.port = port.name ∧
      input.source.producer? = some connection.source.node := by
  obtain ⟨input, among, atPort, source⟩ := own.exists_input_of_connection wired member into named
  exact ⟨input, among, atPort, source ▸ Binding.producer?_connectionSource.mpr ⟨unbound,
    notStart, rfl⟩⟩

end Workflow.OwnInput

end WorkflowGraph
