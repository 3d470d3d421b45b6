/-
The ids of merge bindings and the inputs that read them.

A merge binding is kept for an input, that is for a node and a port, but runs write it and readers
read it by its id `node.port`. The main statement is `consumers_apart_iff`: the ids of a plan tell
the inputs apart, exactly if no two values leave arms for inputs that overlap. So it is if there is
no point in the ids of instances, or none in the names of inputs. `sharedBinding_shares_id` is a
workflow without errors in which an exit port and an instance share a merge binding, and the exit
port returns what is meant for the instance.

* `PortRef.Overlaps` — a node goes on with a point where the port of the other one begins.
* `Scheduler.Arranged.mem_hoisted_iff` — a plan has a merge binding for each input that a value
  leaves arms for.
-/

import WorkflowGraph.Proofs.Schedule.Declared
import WorkflowGraph.Proofs.Schedule.Delivery

namespace WorkflowGraph

/-! ### Overlapping ports -/

/-- Whether the texts of two ports are the same because the node of the second goes on, after a
point, with the beginning of the port of the first. -/
def PortRef.Overlaps (first second : PortRef) : Prop :=
  ∃ text, second.node = first.node ++ "." ++ text ∧ first.port = text ++ "." ++ second.port

namespace PortRef.Overlaps

variable {first second : PortRef}

theorem node_ne (overlaps : first.Overlaps second) : first.node ≠ second.node := by
  obtain ⟨text, longer, _⟩ := overlaps
  intro same
  have lengths := congrArg String.length (same.trans longer)
  simp only [String.length_append] at lengths
  have point : ".".length = 1 := rfl
  omega

theorem text_eq (overlaps : first.Overlaps second) :
    first.node ++ "." ++ first.port = second.node ++ "." ++ second.port := by
  obtain ⟨text, node, port⟩ := overlaps
  exact append_point_eq_iff.mpr (.inr (.inl ⟨text, node, port⟩))

theorem point_mem (overlaps : first.Overlaps second) :
    '.' ∈ second.node.toList ∧ '.' ∈ first.port.toList := by
  obtain ⟨text, node, port⟩ := overlaps
  rw [node, port]
  simp

end PortRef.Overlaps

/-- Ports of one text are ports of one node and name, unless they overlap. -/
theorem overlaps_of_text_eq {first second : PortRef}
    (same : first.node ++ "." ++ first.port = second.node ++ "." ++ second.port)
    (different : first.node ≠ second.node ∨ first.port ≠ second.port) :
    first.Overlaps second ∨ second.Overlaps first := by
  rcases append_point_eq_iff.mp same with ⟨node, port⟩ | longer | shorter
  · exact absurd port (different.resolve_left (not_not_intro node))
  · exact .inl longer
  · exact .inr shorter

/-! ### Inputs with merge bindings -/

/-- Whether a connection carries a value out of the arms of a branch that comes up. -/
def Workflow.LeavesArms (workflow : Workflow) (connection : Connection) : Prop :=
  ∃ branch, workflow.HasCluster branch ∧ connection ∈ Merge.leaving (.ofWorkflow workflow) branch

/-- Whether merge bindings of a plan for different inputs have different ids. -/
def Plan.ConsumersApart (plan : Plan) : Prop :=
  ∀ one ∈ plan.hoisted, ∀ other ∈ plan.hoisted,
    one.consumer.node ≠ other.consumer.node ∨ one.consumer.port ≠ other.consumer.port →
      one.id ≠ other.id

variable {workflow : Workflow} {scheduler : Scheduler}

namespace Workflow.LeavesArms

variable {connection : Connection}

theorem mem_connections (leaves : workflow.LeavesArms connection) :
    connection ∈ workflow.connections := by
  obtain ⟨_, _, among⟩ := leaves
  exact (Merge.mem_leaving.mp among).1

end Workflow.LeavesArms

/-- **A plan has a merge binding for each input that a value leaves arms for, and no others.** -/
theorem Scheduler.Arranged.mem_hoisted_iff {placements : List Placement}
    (arranged : Arranged scheduler (.ofWorkflow workflow)
      (.ofRegion (.ofWorkflow workflow) none [] []) placements)
    (certified : Certified workflow) {node port : String} :
    (∃ hoisted ∈ (Binding.plan (.ofWorkflow workflow) placements).hoisted,
        hoisted.consumer.node = node ∧ hoisted.consumer.port = port ∧
          hoisted.id = node ++ "." ++ port) ↔
      ∃ connection, workflow.LeavesArms connection ∧ connection.target.node = node ∧
      connection.target.port = port := by
  have known := arranged.fromBranches
  constructor
  · rintro ⟨hoisted, member, rfl, rfl, _⟩
    rw [(Binding.hoisted_plan placements).mem_iff] at member
    obtain ⟨merge, among, rfl⟩ := List.mem_map.mp member
    obtain ⟨producer, produces⟩ := List.exists_mem_of_ne_nil _ (known.written merge among)
    obtain ⟨branch, comesUp, connection, leaves, _, consumes⟩ :=
      known.producer merge among producer produces
    obtain ⟨sameNode, samePort⟩ := Merge.samePort_iff.mp consumes
    exact ⟨connection, ⟨branch, comesUp, leaves⟩, sameNode.symm, samePort.symm⟩
  · rintro ⟨connection, ⟨branch, comesUp, leaves⟩, rfl, rfl⟩
    obtain ⟨merge, among, consumes⟩ := arranged.declared certified comesUp leaves
    obtain ⟨sameNode, samePort⟩ := Merge.samePort_iff.mp consumes
    refine ⟨merge.hoisted, ?_, sameNode, samePort, ?_⟩
    · rw [(Binding.hoisted_plan placements).mem_iff]
      exact List.mem_map.mpr ⟨merge, among, rfl⟩
    · show merge.consumer.node ++ "." ++ merge.consumer.port = _
      rw [sameNode, samePort]

/-- The id of a merge binding of a plan is the text of the input that reads it. -/
theorem Binding.id_of_mem_hoisted {index : Index} {placements : List Placement}
    {hoisted : HoistedBinding} (member : hoisted ∈ (plan index placements).hoisted) :
    hoisted.id = hoisted.consumer.node ++ "." ++ hoisted.consumer.port := by
  rw [(hoisted_plan placements).mem_iff] at member
  obtain ⟨merge, _, rfl⟩ := List.mem_map.mp member
  rfl

/-! ### Plans -/

/-- **The ids of merge bindings tell the inputs apart that read them, exactly if no two values leave
arms for inputs that overlap.** So it is if no id of an instance has a point, and also if no name of
an input that is connected has one. -/
theorem consumers_apart_iff {plan : Plan} (valid : (validate workflow).hasErrors = false)
    (scheduled : (scheduler.schedule workflow).outcome = .ok plan) :
    (plan.ConsumersApart ↔ ∀ one other, workflow.LeavesArms one → workflow.LeavesArms other →
      ¬ one.target.Overlaps other.target) ∧
      ((∀ inst ∈ workflow.instances, '.' ∉ inst.id.toList) → plan.ConsumersApart) ∧
      ((∀ connection ∈ workflow.connections, '.' ∉ connection.target.port.toList) →
        plan.ConsumersApart) := by
  have certified := certified_of_validate valid
  obtain ⟨placements, arranged, rfl⟩ := Scheduler.exists_arranged scheduled
  have apart : (∀ one other, workflow.LeavesArms one → workflow.LeavesArms other →
      ¬ one.target.Overlaps other.target) →
        (Binding.plan (.ofWorkflow workflow) placements).ConsumersApart := by
    intro clear one inPlan other inPlanToo different same
    have text := Binding.id_of_mem_hoisted inPlan
    have textToo := Binding.id_of_mem_hoisted inPlanToo
    obtain ⟨first, leaves, node, port⟩ :=
      (arranged.mem_hoisted_iff certified).mp ⟨one, inPlan, rfl, rfl, text⟩
    obtain ⟨second, leavesToo, nodeToo, portToo⟩ :=
      (arranged.mem_hoisted_iff certified).mp ⟨other, inPlanToo, rfl, rfl, textToo⟩
    rw [text, textToo, ← node, ← port, ← nodeToo, ← portToo] at same
    rw [← node, ← port, ← nodeToo, ← portToo] at different
    rcases overlaps_of_text_eq same different with overlaps | overlaps
    · exact clear first second leaves leavesToo overlaps
    · exact clear second first leavesToo leaves overlaps
  refine ⟨⟨fun told one other leaves leavesToo overlaps => ?_, apart⟩, fun undotted =>
    ?_, fun undotted => ?_⟩
  · obtain ⟨first, inPlan, node, port, text⟩ :=
      (arranged.mem_hoisted_iff certified).mpr ⟨one, leaves, rfl, rfl⟩
    obtain ⟨second, inPlanToo, nodeToo, portToo, textToo⟩ :=
      (arranged.mem_hoisted_iff certified).mpr ⟨other, leavesToo, rfl, rfl⟩
    refine told first inPlan second inPlanToo (.inl ?_) ?_
    · rw [node, nodeToo]
      exact overlaps.node_ne
    · rw [text, textToo]
      exact overlaps.text_eq
  · exact apart fun one other _ leavesToo overlaps =>
      certified.toWired.undotted_target undotted leavesToo.mem_connections overlaps.point_mem.1
  · exact apart fun one other leaves _ overlaps =>
      undotted one leaves.mem_connections overlaps.point_mem.2

/-- A branch whose one arm gives a value to the exit port `a.b`, and whose other arm gives one to
the input `b` of the instance `Exit.a`. -/
def sharedBinding : Workflow where
  name := "shared-binding"
  returns := [.dataInput "a.b" .string]
  nodeTypes := [taskType, (NodeType.function "Reader").withOptionalInput "b" .string]
  instances := ["h", "x", "y"].map (fun id => { id := id, nodeType := "Task" }) ++
    [{ id := "Exit.a", nodeType := "Reader" }]
  connections :=
    [⟨⟨"h", "onSuccess", none⟩, ⟨"x", "execute", none⟩⟩,
      ⟨⟨"h", "onFailure", none⟩, ⟨"y", "execute", none⟩⟩,
      ⟨⟨"x", "out", none⟩, ⟨"Exit", "a.b", none⟩⟩, ⟨⟨"y", "out", none⟩, ⟨"Exit.a", "b", none⟩⟩]

/-- **Two inputs may share a merge binding**, so that an exit port returns what another input is
given. -/
theorem sharedBinding_shares_id :
    ∃ plan, (validate sharedBinding).hasErrors = false ∧
      (({} : Scheduler).schedule sharedBinding).outcome = .ok plan ∧
      plan.hoisted = [⟨"Exit.a.b", ⟨"Exit", "a.b", none⟩, some .string⟩,
        ⟨"Exit.a.b", ⟨"Exit.a", "b", none⟩, some .string⟩] ∧
      (DryRun.ofPlan plan ["h"]).executed = ["h", "y", "Exit.a"] ∧
      (DryRun.ofPlan plan ["h"]).returns.get? "a.b" = some (.string "y.out") ∧
      ¬ plan.ConsumersApart := by
  obtain ⟨plan, scheduled, shown⟩ := exists_of_toOption_map
    (show (({} : Scheduler).schedule sharedBinding).outcome.toOption.map (fun plan =>
        (plan.hoisted, (DryRun.ofPlan plan ["h"]).executed,
          (DryRun.ofPlan plan ["h"]).returns.get? "a.b")) =
      some ([⟨"Exit.a.b", ⟨"Exit", "a.b", none⟩, some .string⟩,
        ⟨"Exit.a.b", ⟨"Exit.a", "b", none⟩, some .string⟩],
        ["h", "y", "Exit.a"], some (.string "y.out")) by decide +kernel)
  obtain ⟨hoisted, rest⟩ := Prod.mk.inj shown
  obtain ⟨executed, returned⟩ := Prod.mk.inj rest
  refine ⟨plan, by decide +kernel, scheduled, hoisted, executed, returned, fun told => ?_⟩
  rw [Plan.ConsumersApart, hoisted] at told
  exact told _ List.mem_cons_self _ (List.mem_cons_of_mem _ List.mem_cons_self)
    (.inl (by decide)) rfl

/-- The same with another id for the instance. -/
def ownBinding : Workflow :=
  { sharedBinding with
    name := "own-binding"
    instances := ["h", "x", "y"].map (fun id => { id := id, nodeType := "Task" }) ++
      [{ id := "r.a", nodeType := "Reader" }]
    connections := sharedBinding.connections.take 3 ++ [⟨⟨"y", "out", none⟩, ⟨"r.a", "b", none⟩⟩] }

theorem consumers_apart_iff_ownBinding :
    ∃ plan, (validate ownBinding).hasErrors = false ∧
      (({} : Scheduler).schedule ownBinding).outcome = .ok plan ∧
      plan.hoisted.map (·.id) = ["Exit.a.b", "r.a.b"] ∧ plan.ConsumersApart := by
  have valid : (validate ownBinding).hasErrors = false := by decide +kernel
  obtain ⟨plan, scheduled, ids⟩ := exists_of_toOption_map
    (show (({} : Scheduler).schedule ownBinding).outcome.toOption.map (fun plan =>
      plan.hoisted.map (·.id)) = some ["Exit.a.b", "r.a.b"] by decide +kernel)
  have targets : ∀ one ∈ ownBinding.connections, ∀ other ∈ ownBinding.connections,
      one.target.node ++ "." ++ one.target.port = other.target.node ++ "." ++ other.target.port →
      one.target.node = other.target.node := by decide +kernel
  refine ⟨plan, valid, scheduled, ids, (consumers_apart_iff valid scheduled).1.mpr ?_⟩
  intro one other leaves leavesToo overlaps
  exact overlaps.node_ne
    (targets one leaves.mem_connections other leavesToo.mem_connections overlaps.text_eq)

end WorkflowGraph
