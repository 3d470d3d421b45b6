/-
Parallel parts of plans do not race.

The main statement is `reordered_returns_eq`: whatever fails, the order in which the children of
parallel nodes run does not change what a workflow returns, nor which instances run. Every branch is
on an instance that runs in front of it in the same sequence, and where an exit port has one
connection all that writes its merge binding writes the same value.

* `Scheduler.Arranged.led` — the branches of a plan are led by their heads.
* `exit_connection_unique` — an exit port for values has one connection, if no warning says
  otherwise.
* `binding_perm` — what a merge binding holds does not depend on the order of the runs, if its
  producers are one output.
-/

import WorkflowGraph.Proofs.Plan.Reordered
import WorkflowGraph.Proofs.Schedule.Delivery
import WorkflowGraph.Proofs.Schedule.Progress

namespace WorkflowGraph

variable {workflow : Workflow}

/-! ### Branches behind their heads -/

namespace Binding

open PlanNode Placement

theorem led_runNode {known : List String} {step : Step} {bodies : List (ScopeFrame × PlanNode)}
    (led : LedBodies (step.node :: known) bodies) : Led known (runNode step bodies) := by
  cases bodies with
  | nil => trivial
  | cons => exact led

theorem started_runNode (step : Step) (bodies : List (ScopeFrame × PlanNode)) :
    (runNode step bodies).started = [step.node] := by
  cases bodies <;> rfl

mutual

/-- A branch is placed right behind the run of its head. -/
theorem led_place {index : Index} (known : List String) (merges : List Merge)
    (placement : Placement) (ordinary : ∀ entry ∈ placement.branches, entry.1.head ≠ startId) :
    LedAll known (place index merges placement).1 := by
  cases placement with
  | inlined id => exact ⟨trivial, trivial⟩
  | node id bodies => exact ⟨led_runNode (led_placeBodies _ merges id bodies ordinary), trivial⟩
  | branch cluster bodies thenArm elseArm =>
      obtain ⟨atHead, below⟩ := List.forall_mem_cons.mp ordinary
      obtain ⟨inBodies, inArms⟩ := List.forall_mem_append.mp below
      obtain ⟨inThen, inElse⟩ := List.forall_mem_append.mp inArms
      refine ⟨led_runNode (led_placeBodies _ _ _ bodies inBodies), ⟨⟨rfl, atHead, ?_⟩, ?_, ?_⟩,
        trivial⟩
      · rw [started_runNode]
        exact List.mem_cons_self
      · exact (led_placeAll _ _ thenArm inThen).ofBlock
      · exact (led_placeAll _ _ elseArm inElse).ofBlock
  | parallel clusters => exact ⟨led_placeEach known merges clusters ordinary, trivial⟩

theorem led_placeAll {index : Index} (known : List String) (merges : List Merge)
    (placements : List Placement)
    (ordinary : ∀ entry ∈ branchesOfAll placements, entry.1.head ≠ startId) :
    LedAll known (placeAll index merges placements).1 := by
  cases placements with
  | nil => trivial
  | cons placement rest =>
      obtain ⟨inFirst, inRest⟩ := List.forall_mem_append.mp ordinary
      exact (led_place known merges placement inFirst).append (led_placeAll known _ rest inRest)

theorem led_placeEach {index : Index} (known : List String) (merges : List Merge)
    (placements : List Placement)
    (ordinary : ∀ entry ∈ branchesOfAll placements, entry.1.head ≠ startId) :
    LedEach known (placeEach index merges placements).1 := by
  cases placements with
  | nil => trivial
  | cons placement rest =>
      obtain ⟨inFirst, inRest⟩ := List.forall_mem_append.mp ordinary
      exact ⟨(led_place known merges placement inFirst).ofBlock, led_placeEach known _ rest inRest⟩

theorem led_placeBodies {index : Index} (known : List String) (merges : List Merge) (owner : String)
    (bodies : List (String × List Placement))
    (ordinary : ∀ entry ∈ branchesOfBodies bodies, entry.1.head ≠ startId) :
    LedBodies known (placeBodies index merges owner bodies).1 := by
  cases bodies with
  | nil => trivial
  | cons entry rest =>
      obtain ⟨inFirst, inRest⟩ := List.forall_mem_append.mp ordinary
      exact ⟨(led_placeAll known merges entry.2 inFirst).ofBlock,
        led_placeBodies known _ owner rest inRest⟩

end

end Binding

theorem Workflow.HasCluster.head_ne_start {cluster : Cluster}
    (comesUp : workflow.HasCluster cluster) (wired : Wired workflow) : cluster.head ≠ startId := by
  obtain ⟨members, formed, inBlock⟩ := comesUp
  obtain ⟨_, isBlock⟩ := formed.isBlock
  exact wired.ne_start_of_named (isBlock.named (Cluster.exists_of_mem_ofBlock inBlock).2.1)

/-- **The branches of a plan are led by their heads.** -/
theorem Scheduler.Arranged.led {scheduler : Scheduler} {placements : List Placement}
    (arranged : Arranged scheduler (.ofWorkflow workflow)
      (.ofRegion (.ofWorkflow workflow) none [] []) placements)
    (wired : Wired workflow) : (Binding.plan (.ofWorkflow workflow) placements).body.Led [] :=
  (Binding.led_placeAll [] [] placements fun entry member =>
    (arranged.isBranch .top entry member).formed.head_ne_start wired).ofBlock

/-! ### Exit ports with one connection -/

/-- **An exit port for values has one connection, if no warning says otherwise.** -/
theorem exit_connection_unique (quiet : (validate workflow).forCode .multipleExitConnections = [])
    {port : Port} (declared : port ∈ workflow.returns) (data : port.isData = true)
    {first second : Connection} (inFirst : first ∈ workflow.connections)
    (exit : first.target.node = exitId) (named : first.target.port = port.name)
    (inSecond : second ∈ workflow.connections) (exitToo : second.target.node = exitId)
    (namedToo : second.target.port = port.name) : first = second := by
  have short : ((Index.ofWorkflow workflow).connectionsInto exitId port.name).length ≤ 1 := by
    by_contra long
    have plain : port.isStep = false := by simpa [Port.isData] using data
    have found : ∃ diagnostic ∈ DataFlow.checkReturn (.ofWorkflow workflow) port,
        diagnostic.code = .multipleExitConnections := by
      rw [DataFlow.checkReturn, if_neg (by simp [plain])]
      split
      · omega
      · omega
      · exact ⟨_, List.mem_singleton_self _, rfl⟩
    obtain ⟨diagnostic, member, code⟩ := found
    have reported : diagnostic ∈ (validate workflow).diagnostics := by
      refine List.mem_flatMap.mpr ⟨.dataFlow, by simp [RuleGroup.all], List.mem_append_right _ ?_⟩
      exact List.mem_flatMap.mpr ⟨port, declared, member⟩
    have := List.filter_eq_nil_iff.mp quiet diagnostic reported
    simp [code] at this
  have listed : ∀ connection ∈ workflow.connections, connection.target.node = exitId →
      connection.target.port = port.name →
      ∃ entry ∈ (Index.ofWorkflow workflow).connectionsInto exitId port.name,
      entry.2 = connection := by
    intro connection member exit named
    obtain ⟨entry, incoming, rfl⟩ := Index.exists_mem_incoming.mpr ⟨member, exit⟩
    exact ⟨entry, List.mem_filter.mpr ⟨incoming, by simpa using named⟩, rfl⟩
  obtain ⟨entry, among, rfl⟩ := listed first inFirst exit named
  obtain ⟨other, amongToo, rfl⟩ := listed second inSecond exitToo namedToo
  cases listing : (Index.ofWorkflow workflow).connectionsInto exitId port.name with
  | nil =>
      rw [listing] at among
      cases among
  | cons only rest =>
      rw [listing] at short among amongToo
      have alone : rest = [] := List.eq_nil_of_length_eq_zero (by simpa using short)
      rw [alone, List.mem_singleton] at among amongToo
      rw [among, amongToo]

/-! ### States after the same runs -/

open DryRun DryRun.State

variable {failures : List String} {steps others : List Step}

/-- **What a source has does not depend on the order of the runs**, if it is no merge binding whose
value does. -/
theorem resolve_perm (perm : steps.Perm others) {source : ValueSource}
    (merged : ∀ binding, source = .merged binding →
      (after failures {} steps).bindings.get? binding =
        (after failures {} others).bindings.get? binding) :
    (after failures {} steps).resolve source = (after failures {} others).resolve source := by
  have nodes := perm.map (·.node)
  have outcomes : ∀ node, (after failures {} steps).outcomes.get? node =
      (after failures {} others).outcomes.get? node := by
    intro node
    rw [outcome_after, outcome_after]
    simp only [nodes.mem_iff]
  have ran : ∀ node, (after failures {} steps).hasRun node =
      (after failures {} others).hasRun node := by
    intro node
    rw [hasRun, hasRun, Table.contains, Table.contains, outcomes]
  cases source with
  | merged binding => exact congrArg (·.getD Json.null) (merged binding rfl)
  | output node port => rw [resolve, resolve, ran]
  | scopeItem node scope port => rw [resolve, resolve, ran]
  | signal node port => simp only [resolve, hasFired, outcomes]
  | literal | expression | workflowInput | unbound => rfl

theorem returned_congr {state other : State} {sources : List ValueSource}
    (same : ∀ source ∈ sources, state.resolve source = other.resolve source) :
    returned state sources = returned other sources := by
  rw [returned, returned, List.map_congr_left same]

/-- **What a merge binding holds does not depend on the order of the runs**, if all its producers
are one output. -/
theorem binding_perm (undotted : ∀ inst ∈ workflow.instances, '.' ∉ inst.id.toList)
    (wired : Wired workflow) {merges : List Merge} (known : Merge.FromBranches workflow merges)
    (perm : steps.Perm others)
    (exports : ∀ step ∈ steps, step.exports = Merge.exportsOf merges step.node) {merge : Merge}
    (member : merge ∈ merges) {source : PortRef}
    (only : ∀ producer ∈ merge.producers, producer = source) :
    (after failures {} steps).bindings.get? merge.id =
      (after failures {} others).bindings.get? merge.id := by
  rw [binding_of_only undotted wired known failures exports member only,
    binding_of_only undotted wired known failures
    (fun step among => exports step (perm.mem_iff.mpr among)) member only]
  simp only [(perm.map (·.node)).mem_iff]

/-! ### Returned values -/

/-- What an exit port is given does not depend on the order of the runs. -/
theorem returned_perm (quiet : (validate workflow).forCode .multipleExitConnections = [])
    (undotted : ∀ inst ∈ workflow.instances, '.' ∉ inst.id.toList) (wired : Wired workflow)
    {merges : List Merge} (known : Merge.FromBranches workflow merges) (perm : steps.Perm others)
    (exports : ∀ step ∈ steps, step.exports = Merge.exportsOf merges step.node) {port : Port}
    (isExit : port ∈ workflow.exitPorts) :
    returned (after failures {} steps) (Binding.returnBinding (.ofWorkflow workflow) merges
      port).sources =
      returned (after failures {} others) (Binding.returnBinding (.ofWorkflow workflow) merges
        port).sources := by
  refine returned_congr fun source among => resolve_perm perm ?_
  rintro binding rfl
  have data := Binding.isData_of_mem_returnBinding among fun _ _ same => nomatch same
  obtain ⟨connection, inside, exit, named, merged⟩ := (Binding.mem_returnBinding data).mp among
  obtain ⟨merge, member, into, rfl, _⟩ :=
    Merge.bindingFor_eq_some (Binding.connectionSource_eq_merged.mp merged)
  obtain ⟨declared, isReturn, sameName, isData⟩ : ∃ declared ∈ workflow.returns,
      declared.name = port.name ∧ declared.isData = true := by
    simp only [Workflow.exitPorts, List.mem_cons, List.mem_map] at isExit
    rcases isExit with rfl | rfl | ⟨declared, isReturn, rfl⟩
    · cases data
    · cases data
    · exact ⟨declared, isReturn, rfl, data⟩
  have only : ∀ producer ∈ merge.producers, producer = connection.source := by
    intro producer produces
    obtain ⟨_, _, feeding, leaves, rfl, consumes⟩ := known.producer merge member producer produces
    obtain ⟨atNode, atPort⟩ :=
      Merge.samePort_iff.mp (Merge.samePort_trans (Merge.samePort_symm consumes) into)
    have named := named.trans sameName.symm
    rw [exit_connection_unique quiet isReturn isData (Merge.mem_leaving.mp leaves).1
      (atNode.trans exit) (atPort.trans named) inside exit named]
  exact binding_perm undotted wired known perm exports member only

/-- **The order in which parallel parts of a plan run changes neither what the workflow returns nor
which instances run**, whatever fails. -/
theorem reordered_returns_eq {scheduler : Scheduler} {plan : Plan}
    (valid : (validate workflow).hasErrors = false)
    (quiet : (validate workflow).forCode .multipleExitConnections = [])
    (undotted : ∀ inst ∈ workflow.instances, '.' ∉ inst.id.toList)
    (scheduled : (scheduler.schedule workflow).outcome = .ok plan) {body : PlanNode}
    (reordered : plan.body.Reordered body) (failures : List String) :
    (ofPlan { plan with body } failures).returns = (ofPlan plan failures).returns ∧
      (ofPlan { plan with body } failures).executed.Perm (ofPlan plan failures).executed := by
  have wired := wired_of_validate valid
  obtain ⟨placements, arranged, rfl⟩ := Scheduler.exists_arranged scheduled
  have known := arranged.fromBranches
  have perm := trace_perm failures reordered (arranged.led wired)
  have exports := @Scheduler.Arranged.exports_of_trace _ _ _ _ _ failures arranged wired
  constructor
  · rw [ofPlan, ofPlan, walk_eq_after, walk_eq_after]
    refine congrArg Table.ofList (List.map_congr_left fun binding member => ?_)
    obtain ⟨port, isExit, rfl⟩ := List.mem_map.mp member
    exact congrArg (Prod.mk _) (returned_perm quiet undotted wired known perm exports isExit).symm
  · rw [executed_ofPlan, executed_ofPlan]
    exact (perm.map _).symm

/-- Two branches that run side by side, with a returned value from an arm of each. -/
def sideBySide : Workflow where
  name := "side-by-side"
  returns := [.dataInput "r" .string, .dataInput "s" .string]
  nodeTypes := [taskType]
  instances := ["h", "x", "y", "g", "u", "v"].map fun id => { id := id, nodeType := "Task" }
  connections :=
    [⟨⟨"h", "onSuccess", none⟩, ⟨"x", "execute", none⟩⟩,
      ⟨⟨"h", "onFailure", none⟩, ⟨"y", "execute", none⟩⟩,
      ⟨⟨"g", "onSuccess", none⟩, ⟨"u", "execute", none⟩⟩,
      ⟨⟨"g", "onFailure", none⟩, ⟨"v", "execute", none⟩⟩,
      ⟨⟨"x", "out", none⟩, ⟨"Exit", "r", none⟩⟩, ⟨⟨"u", "out", none⟩, ⟨"Exit", "s", none⟩⟩,
      ⟨⟨"h", "onFailure", none⟩, ⟨"Exit", "onFailure", none⟩⟩]

theorem reordered_returns_eq_sideBySide :
    ∃ plan, (validate sideBySide).hasErrors = false ∧
      (validate sideBySide).forCode .multipleExitConnections = [] ∧
      (({} : Scheduler).schedule sideBySide).outcome = .ok plan ∧
      plan.hoisted.map (·.id) = ["Exit.r", "Exit.s"] ∧
      plan.returnFor "r" = some ⟨"r", [.merged "Exit.r"]⟩ ∧
      plan.returnFor "s" = some ⟨"s", [.merged "Exit.s"]⟩ ∧
      (ofPlan plan ["h"]).executed = ["h", "y", "g", "u"] ∧
      (ofPlan { plan with body := plan.body.mirrored } ["h"]).executed = ["g", "u", "h", "y"] ∧
      (ofPlan plan ["h"]).returns.get? "s" = some (.string "u.out") ∧
      (ofPlan { plan with body := plan.body.mirrored } ["h"]).returns =
      (ofPlan plan ["h"]).returns := by
  have valid : (validate sideBySide).hasErrors = false := by decide +kernel
  have quiet : (validate sideBySide).forCode .multipleExitConnections = [] := by decide +kernel
  have undotted : ∀ inst ∈ sideBySide.instances, '.' ∉ inst.id.toList := by decide +kernel
  obtain ⟨plan, scheduled, bound⟩ := exists_of_toOption_map
    (show (({} : Scheduler).schedule sideBySide).outcome.toOption.map (fun plan =>
        (plan.hoisted.map (·.id), plan.returnFor "r", plan.returnFor "s")) =
      some (["Exit.r", "Exit.s"], some ⟨"r", [.merged "Exit.r"]⟩, some ⟨"s", [.merged "Exit.s"]⟩) by
        decide +kernel)
  obtain ⟨planToo, scheduledToo, shown⟩ := exists_of_toOption_map
    (show (({} : Scheduler).schedule sideBySide).outcome.toOption.map (fun plan =>
        ((ofPlan plan ["h"]).executed,
          (ofPlan { plan with body := plan.body.mirrored } ["h"]).executed,
          (ofPlan plan ["h"]).returns.get? "s")) =
      some (["h", "y", "g", "u"], ["g", "u", "h", "y"], some (.string "u.out")) by decide +kernel)
  obtain rfl := Except.ok.inj (scheduledToo.symm.trans scheduled)
  simp only [Prod.mk.injEq] at bound shown
  obtain ⟨hoisted, first, second⟩ := bound
  obtain ⟨executed, mirrored, returned⟩ := shown
  exact ⟨planToo, valid, quiet, scheduled, hoisted, first, second, executed, mirrored, returned,
    (reordered_returns_eq valid quiet undotted scheduled (PlanNode.reordered_mirrored planToo.body)
      ["h"]).1⟩

end WorkflowGraph
