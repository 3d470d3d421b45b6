/-
Where the inputs of a plan come from.

An input of a node type is told by its name and its scope, but the connections into an instance are
looked up by the name of the input alone. The main statement is `reads_own_ports_iff`: a plan gives
each connected input the value of a connection into this very input, exactly if the first connection
by name leads there (where ids have no points). So it is if no two inputs of a node type share a
name. `doubleInput_reads_other` is a workflow without errors in which an instance is given what its
scope collects.

* `Wired.scope_eq_some_iff` — the region at the source of a connection tells the scope of its
  target.
* `Scheduler.Arranged.exists_region_of_merge` — the outputs that write a merge binding live in one
  region.
* `Scheduler.Arranged.carries`, `scope_eq_of_carries` — the source that stands for a connection has
  its value, and connections into one node whose values are read from one place lead to one scope.
-/

import WorkflowGraph.Proofs.Schedule.Bound
import WorkflowGraph.Proofs.Schedule.Delivery

namespace WorkflowGraph

variable {workflow : Workflow} {scheduler : Scheduler}

/-! ### Values of connections -/

/-- Whether a source is given by a connection. -/
def ValueSource.isConnected : ValueSource → Bool
  | literal _ | expression _ | unbound => false
  | _ => true

/-- Whether a source of a plan has the value of a connection: it is what the connection starts from,
or a merge binding for the input that it leads to, which the run it starts from writes. -/
def Plan.Carries (workflow : Workflow) (plan : Plan) (connection : Connection) : ValueSource → Prop
  | .workflowInput port => connection.source.node = startId ∧ connection.source.port = port
  | .output node port =>
      connection.source.node = node ∧ connection.source.port = port ∧ node ≠ startId ∧
    ((Index.ofWorkflow workflow).sourcePort connection).bind (·.scope) = none
  | .scopeItem node scope port =>
      connection.source.node = node ∧ connection.source.port = port ∧ node ≠ startId ∧
    ((Index.ofWorkflow workflow).sourcePort connection).bind (·.scope) = some scope
  | .merged binding =>
    (∃ hoisted ∈ plan.hoisted, hoisted.id = binding ∧
      Merge.samePort hoisted.consumer connection.target = true) ∧
      ∃ node ∈ plan.body.walk, ∃ step, node.ran? = some step ∧ step.node = connection.source.node ∧
        ⟨connection.source.port, binding⟩ ∈ step.exports
  | _ => False

/-- Whether each input that a plan gives the value of a connection to is given that of a connection
into this input. -/
def Plan.ReadsOwnPorts (workflow : Workflow) (plan : Plan) : Prop :=
  ∀ id port source, plan.Binds workflow id port source → source.isConnected = true →
    ∃ connection ∈ workflow.connections, connection.target.node = id ∧
      (Index.ofWorkflow workflow).targetPort connection = some port ∧
      plan.Carries workflow connection source

/-- Whether the first connection by name into an input of a plan leads to this input. -/
def Plan.FirstFits (workflow : Workflow) (plan : Plan) : Prop :=
  ∀ id port source, plan.Binds workflow id port source → ∀ connection,
    workflow.firstInto id port.name = some connection →
      (Index.ofWorkflow workflow).targetPort connection = some port

namespace Binding

theorem fallback_isConnected (given : Option PortBinding) (port : Port) :
    (fallback given port).isConnected = false := by
  unfold fallback
  split <;> rfl

theorem connectionSource_isConnected (index : Index) (merges : List Merge)
    (connection : Connection) : (connectionSource index merges connection).isConnected = true := by
  rw [connectionSource]
  split
  · rfl
  · split
    · rfl
    · split <;> rfl

theorem connectionSource_of_bindingFor_eq_none {index : Index} {merges : List Merge}
    {connection : Connection} (none : Merge.bindingFor merges connection = none) :
    connectionSource index merges connection = connectionSource index [] connection := by
  rw [connectionSource, connectionSource, none]
  rfl

end Binding

/-- What is not read through a merge binding has the value of the connection that it stands for. -/
theorem Plan.carries_iff_of_unmerged {plan : Plan} {connection : Connection} {source : ValueSource}
    (unmerged : ∀ binding, source ≠ .merged binding) :
    plan.Carries workflow connection source ↔
      Binding.connectionSource (.ofWorkflow workflow) [] connection = source := by
  have nothing : Merge.bindingFor [] connection = none := rfl
  rw [Binding.connectionSource, nothing]
  by_cases start : connection.source.node = startId
  · cases source <;> grind [Carries]
  · cases scope : ((Index.ofWorkflow workflow).sourcePort connection).bind (·.scope) <;>
      cases source <;> grind [Carries]

theorem Plan.carries_connectionSource_iff {plan : Plan} {connection other : Connection} :
    plan.Carries workflow other (Binding.connectionSource (.ofWorkflow workflow) [] connection) ↔
      Binding.connectionSource (.ofWorkflow workflow) [] other =
        Binding.connectionSource (.ofWorkflow workflow) [] connection := by
  refine carries_iff_of_unmerged fun binding found => ?_
  cases Binding.connectionSource_eq_merged.mp found

/-! ### Ports of a node type -/

theorem nodup_of_repeatedPorts {type : NodeType} {seen : List (Direction × String × Option String)}
    {ports : List Port} (none : NoErrors (Structural.repeatedPorts type seen ports)) :
    (ports.map fun port => (port.direction, port.name, port.scope)).Nodup ∧
      ∀ port ∈ ports, (port.direction, port.name, port.scope) ∉ seen := by
  induction ports generalizing seen with
  | nil => exact ⟨List.nodup_nil, List.forall_mem_nil _⟩
  | cons port rest ih =>
      rw [Structural.repeatedPorts, NoErrors.append, NoErrors.when_error] at none
      obtain ⟨fresh, later⟩ := none
      obtain ⟨distinct, apart⟩ := ih later
      refine ⟨List.nodup_cons.mpr ⟨fun member => ?_, distinct⟩,
        List.forall_mem_cons.mpr ⟨by simpa using fresh, ?_⟩⟩
      · obtain ⟨other, among, same⟩ := List.mem_map.mp member
        exact apart other among (same ▸ List.mem_cons_self)
      · exact fun other among inSeen => apart other among (List.mem_cons_of_mem _ inSeen)

theorem ports_nodup_of_checkNodeTypes {seen : List String} {types : List NodeType}
    (none : NoErrors (Structural.checkNodeTypes seen types)) :
    ∀ type ∈ types, (type.ports.map fun port => (port.direction, port.name, port.scope)).Nodup := by
  induction types generalizing seen with
  | nil => exact List.forall_mem_nil _
  | cons first rest ih =>
      rw [Structural.checkNodeTypes, Structural.checkNodeType, NoErrors.append, NoErrors.append,
        NoErrors.append] at none
      obtain ⟨⟨⟨_, ports⟩, _⟩, later⟩ := none
      exact List.forall_mem_cons.mpr ⟨(nodup_of_repeatedPorts ports).1, ih later⟩

/-- **A port of a node type is told by its direction, name and scope.** -/
theorem port_unique_of_validate (valid : (validate workflow).hasErrors = false) {type : NodeType}
    (declared : type ∈ workflow.nodeTypes) {first second : Port} (inFirst : first ∈ type.ports)
    (inSecond : second ∈ type.ports) (direction : first.direction = second.direction)
    (name : first.name = second.name) (scope : first.scope = second.scope) : first = second := by
  have structural := noErrors_of_validate valid .structural
  simp only [RuleGroup.check, Structural.check, NoErrors.append] at structural
  obtain ⟨⟨⟨types, _⟩, _⟩, _⟩ := structural
  exact List.inj_on_of_nodup_map (ports_nodup_of_checkNodeTypes types type declared)
    inFirst inSecond (by rw [direction, name, scope])

/-! ### Regions -/

namespace Wired

variable {connection : Connection} {source target : Port}

/-- The first connection by name into an input of a plan leads to an input of the same type and
name. -/
theorem exists_namesake (wired : Wired workflow) {placements : List Placement}
    {id : String} {port : Port} {given : ValueSource}
    (binds : (Binding.plan (.ofWorkflow workflow) placements).Binds workflow id port given)
    (first : workflow.firstInto id port.name = some connection) :
    ∃ type ∈ workflow.nodeTypes, ∃ target,
      (Index.ofWorkflow workflow).targetPort connection = some target ∧ port ∈ type.ports ∧
        target ∈ type.ports ∧
        port.direction = .input ∧ target.direction = .input ∧ target.name = port.name := by
  obtain ⟨_, _, _, type, typed, inPorts, direction⟩ := Binding.exists_of_binds binds
  obtain ⟨member, rfl, named⟩ := Workflow.mem_of_firstInto first
  obtain ⟨_, target, _, atTarget, _⟩ := wired.ports connection member
  obtain ⟨_, typedToo, inPortsToo, directionToo, name⟩ :=
    Index.exists_of_resolve atTarget (wired.ordinary_of_typed typed)
  rw [typed] at typedToo
  cases typedToo
  exact ⟨type, Index.nodeType_mem typed, target, atTarget, inPorts, inPortsToo,
    direction, directionToo, name.trans named⟩

/-- A connection leads inwards. -/
theorem region_within (wired : Wired workflow) (member : connection ∈ workflow.connections)
    (atSource : (Index.ofWorkflow workflow).sourcePort connection = some source)
    (atTarget : (Index.ofWorkflow workflow).targetPort connection = some target) :
    (Index.ofWorkflow workflow).Within
      ((Index.ofWorkflow workflow).regionAt connection.target target)
      ((Index.ofWorkflow workflow).regionAt connection.source source) := by
  cases step : source.isStep with
  | true => exact wired.step_region member atSource atTarget step ▸ .refl _
  | false => exact (wired.data_region member atSource atTarget step).1

/-- **The region at the source of a connection tells the scope of its target.** -/
theorem scope_eq_some_iff (wired : Wired workflow) (member : connection ∈ workflow.connections)
    (atSource : (Index.ofWorkflow workflow).sourcePort connection = some source)
    (atTarget : (Index.ofWorkflow workflow).targetPort connection = some target)
    (ordinary : isBoundary connection.target.node = false) {name : String} :
    target.scope = some name ↔
      (Index.ofWorkflow workflow).regionAt connection.source source =
      some ⟨connection.target.node, name⟩ := by
  have region : ∀ name, target.scope = some name →
      (Index.ofWorkflow workflow).regionAt connection.source source =
      some ⟨connection.target.node, name⟩ := by
    intro name inScope
    have atScope : (Index.ofWorkflow workflow).regionAt connection.target target =
        some ⟨connection.target.node, name⟩ := by simp [Index.regionAt, ordinary, inScope]
    rw [← atScope]
    cases step : source.isStep with
    | true => exact wired.step_region member atSource atTarget step
    | false => exact (wired.data_region member atSource atTarget step).2 (by rw [inScope]; rfl)
  refine ⟨region name, fun inside => ?_⟩
  cases scope : target.scope with
  | some other =>
      rw [region other scope] at inside
      cases inside
      rfl
  | none =>
      have within := wired.region_within member atSource atTarget
      rw [inside, Wired.regionAt_plain ordinary scope] at within
      obtain ⟨level, known, _⟩ := wired.level (Wired.named_of_resolve atTarget ordinary)
      exact absurd ⟨name, within⟩ (Index.NestedIn.irrefl known)

/-- A connection from another instance leads into a scope exactly if its source lives there. -/
theorem scope_eq_some_iff_regionOf (wired : Wired workflow)
    (member : connection ∈ workflow.connections)
    (atTarget : (Index.ofWorkflow workflow).targetPort connection = some target)
    (ordinary : isBoundary connection.target.node = false)
    (fromInstance : isBoundary connection.source.node = false)
    (different : connection.source.node ≠ connection.target.node) {name : String} :
    target.scope = some name ↔
      (Index.ofWorkflow workflow).regionOf connection.source.node =
      some ⟨connection.target.node, name⟩ := by
  obtain ⟨source, _, atSource, _⟩ := wired.ports connection member
  rw [wired.scope_eq_some_iff member atSource atTarget ordinary]
  cases scope : source.scope with
  | none => rw [Wired.regionAt_plain fromInstance scope]
  | some inner =>
      have lives : (Index.ofWorkflow workflow).regionAt connection.source source =
          some ⟨connection.source.node, inner⟩ := by simp [Index.regionAt, fromInstance, scope]
      have elsewhere : ∀ name, (Index.ofWorkflow workflow).regionAt connection.source source ≠
          some ⟨connection.target.node, name⟩ := by
        intro name same
        rw [lives] at same
        exact different (congrArg ScopeRef.owner (Option.some.inj same))
      refine iff_of_false (elsewhere name) fun inside => ?_
      -- The target is nested in the source, as the connection leads to no scope of it. But the
      -- source lives in one.
      have plain : target.scope = none := Option.eq_none_iff_forall_ne_some.mpr fun name inScope =>
        elsewhere name ((wired.scope_eq_some_iff member atSource atTarget ordinary).mp inScope)
      have within := wired.region_within member atSource atTarget
      rw [lives, Wired.regionAt_plain ordinary plain] at within
      have nested : (Index.ofWorkflow workflow).NestedIn connection.target.node
          connection.source.node :=
        ⟨inner, within⟩
      have back : (Index.ofWorkflow workflow).NestedIn connection.source.node
          connection.target.node :=
        ⟨name, inside ▸ .refl _⟩
      obtain ⟨level, known, _⟩ := wired.level (Wired.named_of_resolve atTarget ordinary)
      exact Index.NestedIn.irrefl known (nested.trans back)

end Wired

/-- Connections that are read from one place start in one region. -/
theorem Binding.regionAt_eq_of_connectionSource {index : Index} {first second : Connection}
    {source other : Port} (atFirst : index.sourcePort first = some source)
    (atSecond : index.sourcePort second = some other)
    (same : connectionSource index [] first = connectionSource index [] second) :
    index.regionAt first.source source = index.regionAt second.source other := by
  have nothing : ∀ connection, Merge.bindingFor [] connection = none := fun _ => rfl
  simp only [connectionSource, nothing, atFirst, atSecond, Option.bind_some] at same
  unfold Index.regionAt
  by_cases start : first.source.node = startId
  · by_cases startToo : second.source.node = startId
    · rw [start, startToo]
      rfl
    · rw [if_pos start, if_neg startToo] at same
      split at same <;> cases same
  · by_cases startToo : second.source.node = startId
    · rw [if_neg start, if_pos startToo] at same
      split at same <;> cases same
    · rw [if_neg start, if_neg startToo] at same
      cases scope : source.scope <;> cases scopeToo : other.scope <;> simp_all

/-! ### Merge bindings -/

/-- A value does not leave arms for the instance that gives it. -/
theorem Workflow.HasCluster.source_ne_target {cluster : Cluster}
    (comesUp : workflow.HasCluster cluster) (wired : Wired workflow) {connection : Connection}
    (leaves : connection ∈ Merge.leaving (.ofWorkflow workflow) cluster) :
    connection.source.node ≠ connection.target.node := by
  intro same
  obtain ⟨member, inArms, ⟨source, atSource, _, plain⟩, escapes⟩ := Merge.mem_leaving.mp leaves
  obtain ⟨named, notExpression⟩ := comesUp.member_scheduled (List.mem_cons_of_mem _ inArms)
  have ordinary := wired.ordinary_of_named named
  cases escapes with
  | through into _ _ =>
      rw [same, Merge.isExpression_of_intoExpression into] at notExpression
      cases notExpression
  | direct directly =>
      simp only [Merge.leavesDirectly, Merge.intoSink, Bool.or_eq_true, Bool.and_eq_true,
        decide_eq_true_eq] at directly
      rcases directly with (exit | inScope) | ⟨_, outside⟩
      · rw [same, exit] at ordinary
        cases ordinary
      · obtain ⟨_, target, _, atTarget, _⟩ := wired.ports connection member
        rw [atTarget] at inScope
        obtain ⟨name, scope⟩ := Option.isSome_iff_exists.mp inScope
        have region := (wired.scope_eq_some_iff member atSource atTarget (same ▸ ordinary)).mp scope
        rw [Wired.regionAt_plain ordinary plain, ← same] at region
        obtain ⟨level, known, _⟩ := wired.level named
        exact Index.NestedIn.irrefl known ⟨name, region ▸ .refl _⟩
      · obtain ⟨members, _, inBlock⟩ := comesUp
        exact outside ((Cluster.mem_inside_iff inBlock).mpr
          ⟨connection.source.node, List.mem_cons_of_mem _ inArms, .inl same.symm⟩)

namespace Scheduler.Arranged

variable {placements : List Placement}

/-- **The outputs that write a merge binding live in one region**, and none of them at the node that
reads it. -/
theorem exists_region_of_merge (arranged : Arranged scheduler (.ofWorkflow workflow)
      (.ofRegion (.ofWorkflow workflow) none [] []) placements) (wired : Wired workflow)
    {merge : Merge} (member : merge ∈ (Binding.placeAll (.ofWorkflow workflow) [] placements).2) :
    ∃ region, ∀ producer ∈ merge.producers, isBoundary producer.node = false ∧
      producer.node ≠ merge.consumer.node ∧
      (Index.ofWorkflow workflow).regionOf producer.node = region := by
  obtain ⟨declaration, declared, declares⟩ := exists_declaration_of_merge member
  have comesUp := arranged.hasCluster declared
  obtain ⟨members, formed, inBlock⟩ := id comesUp
  obtain ⟨region, block⟩ := formed.isBlock
  refine ⟨region, fun producer produces => ?_⟩
  obtain ⟨connection, leaves, rfl, consumes⟩ :=
    declaration.exists_leaving_of_producer declares produces
  have inMembers := Cluster.members_subset block.distinct inBlock
    (List.mem_cons_of_mem _ (Merge.mem_leaving.mp leaves).2.1)
  refine ⟨wired.ordinary_of_named (block.named inMembers), ?_, block.regionOf inMembers⟩
  rw [(Merge.samePort_iff.mp consumes).1]
  exact comesUp.source_ne_target wired leaves

/-- **The source that stands for a connection has its value**, whatever has been declared by
then. -/
theorem carries (arranged : Arranged scheduler (.ofWorkflow workflow)
      (.ofRegion (.ofWorkflow workflow) none [] []) placements) (certified : Certified workflow)
    {known : List Merge}
    (grows : known <+: (Binding.placeAll (.ofWorkflow workflow) [] placements).2)
    (connection : Connection) :
    (Binding.plan (.ofWorkflow workflow) placements).Carries workflow connection
      (Binding.connectionSource (.ofWorkflow workflow) known connection) := by
  cases bound : Merge.bindingFor known connection with
  | none =>
      rw [Binding.connectionSource_of_bindingFor_eq_none bound]
      exact Plan.carries_connectionSource_iff.mpr rfl
  | some binding =>
      obtain ⟨merge, declared, consumes, rfl, writes⟩ := Merge.bindingFor_eq_some bound
      have among := grows.subset declared
      obtain ⟨producer, produces, same⟩ := List.any_eq_true.mp writes
      obtain ⟨node, port⟩ := Merge.samePort_iff.mp same
      rw [Binding.connectionSource_eq_merged.mpr bound]
      constructor
      · refine ⟨merge.hoisted, ?_, rfl, consumes⟩
        rw [(Binding.hoisted_plan placements).mem_iff]
        exact List.mem_map.mpr ⟨merge, among, rfl⟩
      · obtain ⟨branch, comesUp, feeding, leaves, rfl, _⟩ :=
          arranged.fromBranches.producer merge among producer produces
        obtain ⟨stage, isStage, atSource⟩ :=
          comesUp.exists_stage_of_mem_arms certified arranged (Merge.mem_leaving.mp leaves).2.1
        obtain ⟨run, inWalk, ran⟩ := Binding.exists_ran_of_stage isStage
        refine ⟨run, inWalk, _, ran, atSource.trans node.symm, ?_⟩
        rw [(arranged.settled isStage).exports]
        exact Merge.mem_exportsOf.mpr ⟨merge, among, rfl, _, produces, atSource.symm, port.symm⟩

/-- **Connections into one node whose values are read from one place lead to one scope.** -/
theorem scope_eq_of_carries (arranged : Arranged scheduler (.ofWorkflow workflow)
      (.ofRegion (.ofWorkflow workflow) none [] []) placements) (wired : Wired workflow)
    (undotted : ∀ inst ∈ workflow.instances, '.' ∉ inst.id.toList) {known : List Merge}
    (grows : known <+: (Binding.placeAll (.ofWorkflow workflow) [] placements).2)
    {first second : Connection} (inFirst : first ∈ workflow.connections)
    (inSecond : second ∈ workflow.connections) (into : second.target.node = first.target.node)
    (ordinary : isBoundary first.target.node = false) {target other : Port}
    (atFirst : (Index.ofWorkflow workflow).targetPort first = some target)
    (atSecond : (Index.ofWorkflow workflow).targetPort second = some other)
    (carries : (Binding.plan (.ofWorkflow workflow) placements).Carries workflow second
      (Binding.connectionSource (.ofWorkflow workflow) known first)) :
    target.scope = other.scope := by
  cases bound : Merge.bindingFor known first with
  | none =>
      rw [Binding.connectionSource_of_bindingFor_eq_none bound] at carries
      obtain ⟨source, _, atSource, _⟩ := wired.ports first inFirst
      obtain ⟨sourceToo, _, atSourceToo, _⟩ := wired.ports second inSecond
      have region := Binding.regionAt_eq_of_connectionSource atSource atSourceToo
        (Plan.carries_connectionSource_iff.mp carries).symm
      refine Option.ext fun name => ?_
      rw [wired.scope_eq_some_iff inFirst atSource atFirst ordinary,
        wired.scope_eq_some_iff inSecond atSourceToo atSecond (into ▸ ordinary), region, into]
  | some binding =>
      rw [Binding.connectionSource_eq_merged.mpr bound] at carries
      obtain ⟨merge, declared, consumes, rfl, writes⟩ := Merge.bindingFor_eq_some bound
      have among := grows.subset declared
      obtain ⟨region, each⟩ := arranged.exists_region_of_merge wired among
      -- Both connections start at outputs that write the merge binding.
      have lives : ∀ connection ∈ workflow.connections, connection.target.node = first.target.node →
          (∃ producer ∈ merge.producers, connection.source.node = producer.node) → ∀ port,
          (Index.ofWorkflow workflow).targetPort connection = some port → ∀ name,
          port.scope = some name ↔ region = some ⟨first.target.node, name⟩ := by
        rintro connection member leads ⟨producer, produces, same⟩ port atTarget name
        obtain ⟨fromInstance, different, lives⟩ := each producer produces
        rw [(Merge.samePort_iff.mp consumes).1, ← leads] at different
        rw [← same] at fromInstance different lives
        rw [wired.scope_eq_some_iff_regionOf member atTarget (leads ▸ ordinary) fromInstance
          different, lives, leads]
      obtain ⟨producer, produces, same⟩ := List.any_eq_true.mp writes
      obtain ⟨_, node, inWalk, step, ran, atSource, sent⟩ := carries
      obtain ⟨stage, isStage, rfl⟩ := Binding.exists_stage_of_ran inWalk ran
      rw [(arranged.settled isStage).exports] at sent
      obtain ⟨mergeToo, amongToo, named, producerToo, producesToo, written, _⟩ :=
        Merge.mem_exportsOf.mp sent
      obtain rfl := arranged.fromBranches.eq_of_id wired undotted among amongToo named
      refine Option.ext fun name => ?_
      rw [lives first inFirst rfl ⟨producer, produces, (Merge.samePort_iff.mp same).1⟩
        target atFirst,
        lives second inSecond into ⟨producerToo, producesToo, (written.trans atSource).symm⟩
        other atSecond]

end Scheduler.Arranged

/-! ### Plans -/

/-- **A plan gives each connected input the value of a connection into this very input, if the first
connection by name leads there**, and only then if no id of an instance has a point. So it is if no
two inputs of a node type share a name. -/
theorem reads_own_ports_iff {plan : Plan} (valid : (validate workflow).hasErrors = false)
    (scheduled : (scheduler.schedule workflow).outcome = .ok plan) :
    (plan.FirstFits workflow → plan.ReadsOwnPorts workflow) ∧
      ((∀ inst ∈ workflow.instances, '.' ∉ inst.id.toList) →
        (plan.ReadsOwnPorts workflow ↔ plan.FirstFits workflow)) ∧
      ((∀ type ∈ workflow.nodeTypes, ∀ name, type.Unshared name) →
        plan.ReadsOwnPorts workflow) := by
  have certified := certified_of_validate valid
  have wired := certified.toWired
  obtain ⟨placements, arranged, rfl⟩ := Scheduler.exists_arranged scheduled
  have reads : (Binding.plan (.ofWorkflow workflow) placements).FirstFits workflow →
      (Binding.plan (.ofWorkflow workflow) placements).ReadsOwnPorts workflow := by
    intro fits id port source binds connected
    obtain ⟨known, grows, rfl, _⟩ := Binding.exists_of_binds binds
    cases first : workflow.firstInto id port.name with
    | none =>
        obtain ⟨given, same⟩ := Binding.inputSource_of_firstInto_eq_none first known
        rw [same, Binding.fallback_isConnected] at connected
        cases connected
    | some connection =>
        obtain ⟨member, into, _⟩ := Workflow.mem_of_firstInto first
        rw [Binding.inputSource_of_firstInto first]
        exact ⟨connection, member, into, fits id port _ binds connection first,
          arranged.carries certified grows connection⟩
  refine ⟨reads, fun undotted => ⟨fun own id port source binds connection first => ?_, reads⟩,
    fun unshared => reads fun id port source binds connection first => ?_⟩
  · obtain ⟨type, declared, target, atTarget, inPorts, inPortsToo, direction, directionToo, name⟩ :=
      wired.exists_namesake binds first
    obtain ⟨known, grows, rfl, _, typed, _⟩ := Binding.exists_of_binds binds
    obtain ⟨member, rfl, _⟩ := Workflow.mem_of_firstInto first
    rw [Binding.inputSource_of_firstInto first] at binds
    obtain ⟨other, among, into, atOther, carries⟩ :=
      own _ port _ binds (Binding.connectionSource_isConnected _ known connection)
    have scope := arranged.scope_eq_of_carries wired undotted grows member among into
      (wired.ordinary_of_typed typed) atTarget atOther carries
    have same := port_unique_of_validate valid declared inPortsToo inPorts
      (directionToo.trans direction.symm) name scope
    rw [atTarget, same]
  · obtain ⟨type, declared, target, atTarget, inPorts, inPortsToo, direction, directionToo, name⟩ :=
      wired.exists_namesake binds first
    rw [atTarget, unshared type declared port.name target inPortsToo port inPorts directionToo
      direction name rfl]

/-- A loop that has an input and collects a value under the same name. -/
def doubleInput : Workflow where
  name := "double-input"
  nodeTypes := [taskType, collectorType "in"]
  instances :=
    [{ id := "a", nodeType := "Task" }, { id := "m", nodeType := "Loop" },
      { id := "b", nodeType := "Task", parentScope := some ⟨"m", "body"⟩ }]
  connections := [⟨⟨"b", "out", none⟩, ⟨"m", "in", some "body"⟩⟩,
    ⟨⟨"a", "out", none⟩, ⟨"m", "in", none⟩⟩]
  scopes := [⟨"m", "body", ["b"]⟩]

/-- **An instance may be given what its scope collects**, in place of the value that its input is
connected with. -/
theorem doubleInput_reads_other :
    ∃ plan, (validate doubleInput).hasErrors = false ∧
      (({} : Scheduler).schedule doubleInput).outcome = .ok plan ∧
      plan.framedRuns = [(⟨"a", "Task", [⟨"in", .unbound⟩], []⟩, []),
        (⟨"m", "Loop", [⟨"in", .output "b" "out"⟩], []⟩,
          [⟨"body", [], [⟨"in", .output "b" "out"⟩]⟩]),
        (⟨"b", "Task", [⟨"in", .unbound⟩], []⟩, [])] ∧
      ¬ plan.ReadsOwnPorts doubleInput := by
  obtain ⟨plan, scheduled, runs⟩ := exists_of_toOption_map
    (show (({} : Scheduler).schedule doubleInput).outcome.toOption.map Plan.framedRuns =
      some [(⟨"a", "Task", [⟨"in", .unbound⟩], []⟩, []),
        (⟨"m", "Loop", [⟨"in", .output "b" "out"⟩], []⟩,
          [⟨"body", [], [⟨"in", .output "b" "out"⟩]⟩]),
        (⟨"b", "Task", [⟨"in", .unbound⟩], []⟩, [])] by decide +kernel)
  refine ⟨plan, by decide +kernel, scheduled, runs, fun own => ?_⟩
  let port : Port := { Port.dataInput "in" .string with optional := true, order := 1 }
  have binds : plan.Binds doubleInput "m" port (.output "b" "out") := by
    rw [Plan.Binds, runs]
    exact ⟨_, List.mem_cons_of_mem _ List.mem_cons_self, rfl, collectorType "in", by decide +kernel,
      ⟨"in", .output "b" "out"⟩, rfl, .inl (by decide +kernel)⟩
  obtain ⟨connection, member, _, atPort, carries⟩ := own _ _ _ binds rfl
  have elsewhere : ∀ connection ∈ doubleInput.connections,
      (Index.ofWorkflow doubleInput).targetPort connection = some port →
      connection.source.node ≠ "b" := by
    decide +kernel
  exact elsewhere connection member atPort carries.1

/-- A loop behind a branch, whose input and collected value have different names. -/
def ownInputs : Workflow where
  name := "own-inputs"
  nodeTypes := [taskType, collectorType "sum"]
  instances := ["h", "x", "y"].map (fun id => { id := id, nodeType := "Task" }) ++
    [{ id := "m", nodeType := "Loop" },
      { id := "b", nodeType := "Task", parentScope := some ⟨"m", "body"⟩ }]
  connections :=
    [⟨⟨"h", "onSuccess", none⟩, ⟨"x", "execute", none⟩⟩,
      ⟨⟨"h", "onFailure", none⟩, ⟨"y", "execute", none⟩⟩,
      ⟨⟨"x", "out", none⟩, ⟨"m", "in", none⟩⟩, ⟨⟨"b", "out", none⟩, ⟨"m", "sum", some "body"⟩⟩]
  scopes := [⟨"m", "body", ["b"]⟩]

theorem reads_own_ports_iff_ownInputs :
    ∃ plan, (validate ownInputs).hasErrors = false ∧
      (({} : Scheduler).schedule ownInputs).outcome = .ok plan ∧
      (⟨"m", "Loop", [⟨"in", .merged "m.in"⟩], []⟩, [⟨"body", [], [⟨"sum", .output "b" "out"⟩]⟩]) ∈
        plan.framedRuns ∧
      plan.ReadsOwnPorts ownInputs ∧ plan.FirstFits ownInputs := by
  have valid : (validate ownInputs).hasErrors = false := by decide +kernel
  obtain ⟨plan, scheduled, run⟩ := exists_of_toOption_map
    (show (({} : Scheduler).schedule ownInputs).outcome.toOption.map (fun plan =>
        decide ((⟨"m", "Loop", [⟨"in", .merged "m.in"⟩], []⟩,
          [⟨"body", [], [⟨"sum", .output "b" "out"⟩]⟩]) ∈
          plan.framedRuns)) = some true by decide +kernel)
  have unshared : ∀ type ∈ ownInputs.nodeTypes, ∀ name, type.Unshared name := by
    have names : ∀ type ∈ ownInputs.nodeTypes, ∀ first ∈ type.ports, ∀ second ∈ type.ports,
        first.direction = .input →
        second.direction = .input → first.name = second.name → first = second := by decide +kernel
    intro type declared name first inFirst second inSecond input inputToo named namedToo
    exact names type declared first inFirst second inSecond input inputToo
      (named.trans namedToo.symm)
  obtain ⟨_, exactly, own⟩ := reads_own_ports_iff valid scheduled
  exact ⟨plan, valid, scheduled, of_decide_eq_true run, own unshared,
    (exactly (by decide +kernel)).mp (own unshared)⟩

end WorkflowGraph
