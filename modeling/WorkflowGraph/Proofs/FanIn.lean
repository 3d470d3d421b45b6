/-
How many connections lead to one input.

Connections are checked for a second producer by the references at their ends, and an input in a
scope can be referred to in two ways: by its name, or by its name and its scope. The main statement
is `fan_in_iff_spelled_alike`: in a workflow without errors a data input of an instance has at most
one connection exactly if all references to it are spelled alike. Inputs outside of all scopes have
at most one always, and no input has more than two. `spelledTwice_fans_in` is a workflow without
errors in which an input has two.

* `Workflow.connectionsTo` — the connections that lead to an input, however they name it.
* `Wired.nodup_scopes_connectionsTo` — these are told by the scopes that their references spell.
-/

import WorkflowGraph.Proofs.Schedule.Origin

namespace WorkflowGraph

variable {workflow : Workflow} {id : String} {port : Port}

/-- The connections that lead to an input of an instance, however they name it. -/
def Workflow.connectionsTo (workflow : Workflow) (id : String) (port : Port) : List Connection :=
  workflow.connections.filter fun connection =>
    connection.target.node = id ∧ (Index.ofWorkflow workflow).targetPort connection = some port

theorem Workflow.mem_connectionsTo {connection : Connection} :
    connection ∈ workflow.connectionsTo id port ↔
      connection ∈ workflow.connections ∧ connection.target.node = id ∧
        (Index.ofWorkflow workflow).targetPort connection = some port := by
  rw [connectionsTo, List.mem_filter, decide_eq_true_eq]

/-- A reference to an input spells its scope or none. -/
theorem Workflow.scope_of_mem_connectionsTo {connection : Connection}
    (member : connection ∈ workflow.connectionsTo id port) :
    connection.target = ⟨id, port.name, connection.target.scope⟩ ∧
      connection.target.scope ∈ [none, port.scope] := by
  obtain ⟨_, rfl, atTarget⟩ := mem_connectionsTo.mp member
  obtain ⟨named, _, scope⟩ := Index.fits_of_resolve atTarget
  refine ⟨by rw [named], ?_⟩
  rcases scope with unspelled | spelled
  · exact unspelled ▸ List.mem_cons_self
  · exact spelled ▸ List.mem_cons_of_mem _ List.mem_cons_self

/-- **The connections to an input are told by the scopes that their references spell.** -/
theorem Wired.nodup_scopes_connectionsTo (wired : Wired workflow)
    (known : id ∈ workflow.instances.map (·.id)) (data : port.isData = true) :
    ((workflow.connectionsTo id port).map (·.target.scope)).Nodup := by
  have ordinary := wired.ordinary_of_named known
  have feeds : (workflow.connectionsTo id port).Sublist
      (workflow.connections.filter (ConnectionIntegrity.feedsInput (.ofWorkflow workflow))) := by
    refine List.monotone_filter_right _ fun connection leads => ?_
    obtain ⟨rfl, atTarget⟩ := of_decide_eq_true leads
    have notExit : connection.target.node ≠ exitId :=
      fun exit => by simp [isBoundary, exit] at ordinary
    simp [ConnectionIntegrity.feedsInput, notExit, atTarget, data]
  have targets := (feeds.map (·.target)).nodup wired.single
  rw [List.map_congr_left (g := fun connection => PortRef.mk id port.name connection.target.scope)
    fun connection member => (Workflow.scope_of_mem_connectionsTo member).1] at targets
  exact List.Nodup.of_map (PortRef.mk id port.name) (by rwa [List.map_map])

/-- **A data input has at most one connection exactly if all references to it are spelled alike.**
Outside of all scopes there is one way to spell them, and elsewhere there are two. -/
theorem fan_in_iff_spelled_alike (valid : (validate workflow).hasErrors = false)
    (known : id ∈ workflow.instances.map (·.id)) (data : port.isData = true) :
    ((workflow.connectionsTo id port).length ≤ 1 ↔
        ∀ first ∈ workflow.connectionsTo id port, ∀ second ∈ workflow.connectionsTo id port,
          first.target.scope = second.target.scope) ∧
      (port.scope = none → (workflow.connectionsTo id port).length ≤ 1) ∧
      (workflow.connectionsTo id port).length ≤ 2 := by
  have distinct := (wired_of_validate valid).nodup_scopes_connectionsTo known data
  -- a list of different scopes is not longer than any list that has them all
  have bound : ∀ scopes : List (Option String),
      (∀ connection ∈ workflow.connectionsTo id port, connection.target.scope ∈ scopes) →
      (workflow.connectionsTo id port).length ≤ scopes.length := by
    intro scopes among
    have subset : (workflow.connectionsTo id port).map (·.target.scope) ⊆ scopes :=
      fun scope member => by
        obtain ⟨connection, leads, rfl⟩ := List.mem_map.mp member
        exact among connection leads
    simpa using (List.subperm_of_subset distinct subset).length_le
  have spelled : ∀ connection ∈ workflow.connectionsTo id port,
      connection.target.scope ∈ [none, port.scope] :=
    fun connection member => (Workflow.scope_of_mem_connectionsTo member).2
  refine ⟨⟨fun short first inFirst second inSecond => ?_, fun alike => ?_⟩, fun plain =>
    ?_, bound _ spelled⟩
  · obtain ⟨only, one⟩ :=
      List.length_eq_one_iff.mp (Nat.le_antisymm short (List.length_pos_of_mem inFirst))
    rw [one] at inFirst inSecond
    rw [List.mem_singleton.mp inFirst, List.mem_singleton.mp inSecond]
  · cases leads : workflow.connectionsTo id port with
    | nil => exact Nat.zero_le _
    | cons first rest =>
        rw [← leads]
        refine bound [first.target.scope] fun connection member => List.mem_singleton.mpr ?_
        exact alike connection member first (leads ▸ List.mem_cons_self)
  · refine bound [none] fun connection member => ?_
    simpa [plain] using spelled connection member

/-- The input in which a loop collects the values of its scope. -/
def sumInput : Port :=
  { Port.dataInput "sum" .string with optional := true, order := 2, scope := some "body" }

/-- In `ownInputs` the one connection to the input spells its scope. -/
theorem fan_in_iff_spelled_alike_ownInputs :
    (validate ownInputs).hasErrors = false ∧ "m" ∈ ownInputs.instances.map (·.id) ∧
      sumInput.isData = true ∧
      ownInputs.connectionsTo "m" sumInput = [⟨⟨"b", "out", none⟩, ⟨"m", "sum", some "body"⟩⟩] ∧
      (ownInputs.connectionsTo "m" sumInput).length ≤ 1 := by
  have valid : (validate ownInputs).hasErrors = false := by decide +kernel
  have known : "m" ∈ ownInputs.instances.map (·.id) := by decide
  have leads : ownInputs.connectionsTo "m" sumInput =
      [⟨⟨"b", "out", none⟩, ⟨"m", "sum", some "body"⟩⟩] := by
    decide +kernel
  refine ⟨valid, known, rfl, leads, (fan_in_iff_spelled_alike valid known rfl).1.mpr ?_⟩
  rw [leads]
  decide

/-- A loop that collects the values of two tasks in one input, which the connections spell with its
scope and without. -/
def spelledTwice : Workflow where
  name := "spelled-twice"
  nodeTypes := [taskType, collectorType "sum"]
  instances :=
    { id := "m", nodeType := "Loop" } ::
      ["b", "c"].map fun id => { id := id, nodeType := "Task", parentScope := some ⟨"m", "body"⟩ }
  connections :=
    [⟨⟨"b", "out", none⟩, ⟨"m", "sum", some "body"⟩⟩, ⟨⟨"c", "out", none⟩, ⟨"m", "sum", none⟩⟩]
  scopes := [⟨"m", "body", ["b", "c"]⟩]

/-- **An input may have two connections without an error.** -/
theorem spelledTwice_fans_in :
    (validate spelledTwice).hasErrors = false ∧
      (∃ type, (Index.ofWorkflow spelledTwice).nodeType? "m" = some type ∧ sumInput ∈ type.ports) ∧
      sumInput.direction = .input ∧ sumInput.isData = true ∧
      (spelledTwice.connectionsTo "m" sumInput).length = 2 :=
  ⟨by decide +kernel, ⟨collectorType "sum", by decide +kernel⟩, by decide +kernel⟩

end WorkflowGraph
