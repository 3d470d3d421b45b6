/-
What is true of a workflow without errors.

`Workflow.Certified` collects what the rules guarantee together: ids are unique, every name that is
used is declared, connections join ports of one kind and cross borders of scopes only inwards, an
input has one producer, and instances have ranks that rise along connections and from the inside of
a scope to its owner.

* `certified_of_validate` — a workflow in whose report there is no error is certified.
* `ranked_of_checks` — the two searches for cycles together give ranks: a cycle of the dependency
  graph that carries no value would have to be one of the step graph.
-/

import Mathlib.Data.List.Chain
import Mathlib.Data.List.Nodup
import WorkflowGraph.Validation
import WorkflowGraph.Proofs.Region
import WorkflowGraph.Proofs.Graph.Cycles

namespace WorkflowGraph

/-! ### Reports without errors -/

/-- Whether no diagnostic is an error. -/
def NoErrors (diagnostics : List Diagnostic) : Prop :=
  ∀ diagnostic ∈ diagnostics, diagnostic.isError = false

namespace NoErrors

@[simp] theorem nil : NoErrors [] :=
  fun _ none => (nomatch none)

@[simp] theorem append {first second : List Diagnostic} :
    NoErrors (first ++ second) ↔ NoErrors first ∧ NoErrors second := by
  simp only [NoErrors, List.mem_append, or_imp, forall_and]

@[simp] theorem flatMap {α : Type} {items : List α} {check : α → List Diagnostic} :
    NoErrors (items.flatMap check) ↔ ∀ item ∈ items, NoErrors (check item) := by
  constructor
  · exact fun none item member diagnostic found =>
      none diagnostic (List.mem_flatMap.mpr ⟨item, member, found⟩)
  · intro none diagnostic member
    obtain ⟨item, inItems, found⟩ := List.mem_flatMap.mp member
    exact none item inItems diagnostic found

@[simp] theorem cons_error {code : DiagnosticCode} {message : String} {location : Location}
    {suggestion : Option String} {rest : List Diagnostic} :
    ¬ NoErrors (.error code message location suggestion :: rest) := by
  intro none
  have := none _ List.mem_cons_self
  simp [Diagnostic.isError, Diagnostic.error] at this

@[simp] theorem when_error {condition : Bool} {code : DiagnosticCode} {message : String}
    {location : Location} {suggestion : Option String} :
    NoErrors (Diagnostic.when condition (.error code message location suggestion)) ↔
      condition = false := by
  cases condition <;> simp [Diagnostic.when]

end NoErrors

variable {workflow : Workflow}

theorem noErrors_of_validate (valid : (validate workflow).hasErrors = false) (group : RuleGroup) :
    NoErrors (group.check (.ofWorkflow workflow)) := by
  have none : NoErrors (validate workflow).diagnostics := by
    intro diagnostic member
    have := List.any_eq_false.mp valid diagnostic member
    simpa using this
  refine NoErrors.flatMap.mp none group ?_
  cases group <;> simp [RuleGroup.all]

/-! ### Structure -/

/-- What the check of instances says: ids are ordinary and different, and node types are known. -/
theorem instances_of_checkInstances {index : Index} {seen : List String} {instances : List Instance}
    (none : NoErrors (Structural.checkInstances index seen instances)) :
    (∀ inst ∈ instances, isBoundary inst.id = false ∧ inst.id ∉ seen ∧
        index.catalog.contains inst.nodeType = true) ∧
      (instances.map (·.id)).Nodup := by
  induction instances generalizing seen with
  | nil => simp
  | cons inst rest ih =>
      rw [Structural.checkInstances] at none
      split at none
      · exact absurd none (by simp)
      · rename_i ordinary
        rw [NoErrors.append, NoErrors.append, NoErrors.when_error, Structural.checkTypeOf,
          NoErrors.when_error] at none
        obtain ⟨⟨fresh, typed⟩, later⟩ := none
        obtain ⟨each, distinct⟩ := ih later
        refine ⟨fun other member => ?_, ?_⟩
        · rcases List.mem_cons.mp member with rfl | inRest
          · exact ⟨by simpa using ordinary, by simpa using fresh, by simpa using typed⟩
          · obtain ⟨otherOrdinary, notSeen, known⟩ := each other inRest
            exact ⟨otherOrdinary, fun member => notSeen (List.mem_cons_of_mem _ member), known⟩
        · rw [List.map_cons, List.nodup_cons]
          refine ⟨fun member => ?_, distinct⟩
          obtain ⟨other, inRest, same⟩ := List.mem_map.mp member
          exact (each other inRest).2.1 (same ▸ List.mem_cons_self)

theorem stepPorts_of_checkNodeTypes {seen : List String} {types : List NodeType}
    (none : NoErrors (Structural.checkNodeTypes seen types)) :
    ∀ type ∈ types, type.isExpression = true → ∀ port ∈ type.ports, port.isStep = false := by
  induction types generalizing seen with
  | nil => simp
  | cons first rest ih =>
      rw [Structural.checkNodeTypes, NoErrors.append] at none
      intro type member expression port inPorts
      rcases List.mem_cons.mp member with rfl | later
      · obtain ⟨⟨_, problem⟩, _⟩ := (none.imp_left NoErrors.append.mp)
        have fine : Structural.stepPortProblem type = Option.none := by
          cases found : Structural.stepPortProblem type with
          | none => rfl
          | some text =>
              rw [found] at problem
              exact absurd problem NoErrors.cons_error
        simp only [Structural.stepPortProblem, expression, if_true, ite_eq_right_iff, reduceCtorEq,
          imp_false, Bool.or_eq_true, not_or, Bool.not_eq_true] at fine
        have absent : ∀ direction, type.hasStepPort direction = false := by
          intro direction
          cases direction
          · exact fine.1
          · exact fine.2
        have here := List.any_eq_false.mp (absent port.direction) port inPorts
        simpa using here
      · exact ih none.2 type later expression port inPorts

/-! ### Connections -/

theorem single_of_checkFanIn {index : Index} {fed : List PortRef}
    {entries : List (Connection × Nat)}
    (none : NoErrors (ConnectionIntegrity.checkFanIn index fed entries)) (distinct : fed.Nodup) :
    (((entries.map (·.1)).filter (ConnectionIntegrity.feedsInput index)).map (·.target)).Nodup ∧
      ∀ connection ∈ (entries.map (·.1)).filter (ConnectionIntegrity.feedsInput index),
        connection.target ∉ fed := by
  induction entries generalizing fed with
  | nil => simp
  | cons entry rest ih =>
      obtain ⟨connection, position⟩ := entry
      rw [ConnectionIntegrity.checkFanIn] at none
      rw [List.map_cons, List.filter_cons]
      split at none
      · rename_i feeds
        rw [NoErrors.append, NoErrors.when_error] at none
        have fresh : connection.target ∉ fed := by
          intro member
          have once := List.count_eq_one_of_mem distinct member
          simp [once] at none
        obtain ⟨later, apart⟩ := ih none.2 (List.nodup_cons.mpr ⟨fresh, distinct⟩)
        rw [if_pos feeds]
        refine ⟨?_, fun other member => ?_⟩
        · rw [List.map_cons, List.nodup_cons]
          refine ⟨fun member => ?_, later⟩
          obtain ⟨other, inRest, same⟩ := List.mem_map.mp member
          exact apart other inRest (same ▸ List.mem_cons_self)
        · rcases List.mem_cons.mp member with rfl | inRest
          · exact fresh
          · exact fun inFed => apart other inRest (List.mem_cons_of_mem _ inFed)
      · rename_i feeds
        rw [if_neg feeds]
        exact ih none distinct

namespace Index

/-- The region at a port that a reference means. -/
def regionAt (index : Index) (ref : PortRef) (port : Port) : Region :=
  if isBoundary ref.node then none
  else
    match port.scope with
    | some scope => some ⟨ref.node, scope⟩
    | none => index.regionOf ref.node

theorem endpointRegion_eq (index : Index) (ref : PortRef) (direction : Direction) :
    index.endpointRegion ref direction = (index.resolve ref direction).map (index.regionAt ref) :=
  rfl

theorem nodePorts_isSome {id : String} (known : (ofWorkflow workflow).hasNode id = true)
    (typed : ∀ inst ∈ workflow.instances, ∃ type,
      (ofWorkflow workflow).nodeType? inst.id = some type) :
    ∃ ports, (ofWorkflow workflow).nodePorts id = some ports := by
  unfold nodePorts
  split
  · exact ⟨_, rfl⟩
  · rename_i notStart
    split
    · exact ⟨_, rfl⟩
    · rename_i notExit
      rcases hasNode_iff.mp known with boundary | ⟨inst, found⟩
      · simp [isBoundary, notStart, notExit] at boundary
      · obtain ⟨type, known⟩ := typed inst (mem_of_find? found)
        rw [id_of_find? found] at known
        exact ⟨type.ports, by rw [known, Option.map_some]⟩

/-- A port that is found at an ordinary node is one of an instance. -/
theorem exists_of_resolve {index : Index} {ref : PortRef} {direction : Direction} {port : Port}
    (found : index.resolve ref direction = some port) (ordinary : isBoundary ref.node = false) :
    ∃ type, index.nodeType? ref.node = some type ∧ port ∈ type.ports ∧
      port.direction = direction ∧ port.name = ref.port := by
  obtain ⟨ports, known, picked⟩ := Option.bind_eq_some_iff.mp found
  have notStart : ref.node ≠ startId := fun same => by simp [isBoundary, same] at ordinary
  have notExit : ref.node ≠ exitId := fun same => by simp [isBoundary, same] at ordinary
  rw [nodePorts, if_neg notStart, if_neg notExit] at known
  obtain ⟨type, typed, rfl⟩ := Option.map_eq_some_iff.mp known
  have matches_ := List.find?_some picked
  simp only [decide_eq_true_eq] at matches_
  exact ⟨type, typed, List.mem_of_find?_eq_some picked, matches_.2.1, matches_.1⟩

end Index

theorem ports_of_checkConnection {position : Nat} {connection : Connection}
    (typed : ∀ inst ∈ workflow.instances,
      ∃ type, (Index.ofWorkflow workflow).nodeType? inst.id = some type)
    (none : NoErrors
      (ConnectionIntegrity.checkConnection (.ofWorkflow workflow) position connection)) :
    ∃ source target, (Index.ofWorkflow workflow).sourcePort connection = some source ∧
      (Index.ofWorkflow workflow).targetPort connection = some target ∧
      source.isStep = target.isStep := by
  simp only [ConnectionIntegrity.checkConnection, NoErrors.append] at none
  obtain ⟨⟨⟨⟨fromNode, toNode⟩, fromPort⟩, toPort⟩, kinds⟩ := none
  have resolved : ∀ (ref : PortRef) (direction : Direction) (location : Location),
      NoErrors (ConnectionIntegrity.checkNode (.ofWorkflow workflow) ref direction location) →
      NoErrors (ConnectionIntegrity.checkPort (.ofWorkflow workflow) ref direction location) →
      ∃ port, (Index.ofWorkflow workflow).resolve ref direction = some port := by
    intro ref direction location node port
    have known : (Index.ofWorkflow workflow).hasNode ref.node = true := by
      cases direction <;> simpa [ConnectionIntegrity.checkNode] using node
    obtain ⟨ports, found⟩ := Index.nodePorts_isSome known typed
    unfold ConnectionIntegrity.checkPort at port
    rw [found] at port
    simpa [Option.isSome_iff_exists] using NoErrors.when_error.mp port
  obtain ⟨source, atSource⟩ := resolved _ _ _ fromNode fromPort
  obtain ⟨target, atTarget⟩ := resolved _ _ _ toNode toPort
  refine ⟨source, target, atSource, atTarget, ?_⟩
  have atSource : (Index.ofWorkflow workflow).sourcePort connection = some source := atSource
  have atTarget : (Index.ofWorkflow workflow).targetPort connection = some target := atTarget
  rw [ConnectionIntegrity.checkKinds, atSource, atTarget] at kinds
  simpa using NoErrors.when_error.mp kinds

theorem crossing_of_checkCrossing {index : Index} {position : Nat} {connection : Connection}
    {source target : Port}
    (none : NoErrors (ScopeIntegrity.checkCrossing index position connection))
    (atSource : index.sourcePort connection = some source)
    (atTarget : index.targetPort connection = some target) :
    ScopeIntegrity.crossingProblem index source target (index.regionAt connection.source source)
      (index.regionAt connection.target target) = Option.none := by
  have sourceRegion : index.endpointRegion connection.source .output =
      some (index.regionAt connection.source source) := by
    rw [Index.endpointRegion_eq, show index.resolve connection.source .output = _ from atSource]
    rfl
  have targetRegion : index.endpointRegion connection.target .input =
      some (index.regionAt connection.target target) := by
    rw [Index.endpointRegion_eq, show index.resolve connection.target .input = _ from atTarget]
    rfl
  rw [ScopeIntegrity.checkCrossing, atSource, atTarget, sourceRegion, targetRegion] at none
  dsimp only at none
  cases found : ScopeIntegrity.crossingProblem index source target
      (index.regionAt connection.source source) (index.regionAt connection.target target) with
  | none => rfl
  | some problem =>
      rw [found] at none
      exact absurd none NoErrors.cons_error

/-! ### Scopes -/

theorem owner_of_checkParent {inst : Instance} {scope : ScopeRef}
    (typed : ∀ inst ∈ workflow.instances,
      ∃ type, (Index.ofWorkflow workflow).nodeType? inst.id = some type)
    (none : NoErrors (ScopeIntegrity.checkParent (.ofWorkflow workflow) inst))
    (lives : inst.parentScope = some scope) :
    (∃ type, (Index.ofWorkflow workflow).nodeType? scope.owner = some type ∧
        type.declaresScope scope.name = true) ∧
      ∃ level, (Index.ofWorkflow workflow).depth (some scope) = some level := by
  rw [ScopeIntegrity.checkParent, lives] at none
  dsimp only at none
  split at none
  · exact absurd none NoErrors.cons_error
  · rename_i fine
    refine ⟨?_, by simpa [Option.isSome_iff_exists] using NoErrors.when_error.mp none⟩
    unfold ScopeIntegrity.scopeProblem at fine
    cases found : (Index.ofWorkflow workflow).find? scope.owner with
    | none => simp [found] at fine
    | some owner =>
        obtain ⟨type, known⟩ := typed owner (Index.mem_of_find? found)
        rw [Index.id_of_find? found] at known
        refine ⟨type, known, ?_⟩
        by_contra undeclared
        simp [found, known, undeclared] at fine

/-! ### Ranks -/

theorem isPlain_iff {index : Index} {connection : Connection} :
    GraphShape.isPlain index connection = true ↔
      isBoundary connection.source.node = false ∧ isBoundary connection.target.node = false ∧
        (∃ port, index.sourcePort connection = some port ∧ port.scope = none) ∧
        ∃ port, index.targetPort connection = some port ∧ port.scope = none := by
  simp [GraphShape.isPlain, Option.any_eq_true, and_assoc]

/-- Whether a number rises along connections outside of scopes, and from the inside of a scope to
its owner. -/
structure Ranks (workflow : Workflow) (rank : String → Nat) : Prop where
  connection : ∀ connection ∈ workflow.connections,
    GraphShape.isPlain (.ofWorkflow workflow) connection = true →
    rank connection.source.node < rank connection.target.node
  owner : ∀ inst ∈ workflow.instances, ∀ scope, inst.parentScope = some scope →
    rank inst.id < rank scope.owner

/-- What is known of a workflow before its graphs are searched for cycles. -/
structure Wired (workflow : Workflow) : Prop where
  /-- No two instances have one id. -/
  distinct : (workflow.instances.map (·.id)).Nodup
  ordinary : ∀ inst ∈ workflow.instances, isBoundary inst.id = false
  typed : ∀ inst ∈ workflow.instances,
    ∃ type, (Index.ofWorkflow workflow).nodeType? inst.id = some type
  /-- Expressions are not triggered and trigger nothing. -/
  stepless : ∀ type ∈ workflow.nodeTypes, type.isExpression = true →
    ∀ port ∈ type.ports, port.isStep = false
  /-- Connections join ports of one kind. -/
  ports : ∀ connection ∈ workflow.connections,
    ∃ source target, (Index.ofWorkflow workflow).sourcePort connection = some source ∧
      (Index.ofWorkflow workflow).targetPort connection = some target ∧
      source.isStep = target.isStep
  /-- Connections cross the border of a scope as they may. -/
  crossing : ∀ connection ∈ workflow.connections, ∀ source target,
    (Index.ofWorkflow workflow).sourcePort connection = some source →
    (Index.ofWorkflow workflow).targetPort connection = some target →
    ScopeIntegrity.crossingProblem (.ofWorkflow workflow) source target
      ((Index.ofWorkflow workflow).regionAt connection.source source)
      ((Index.ofWorkflow workflow).regionAt connection.target target) = none
  /-- No input of an instance has two producers. -/
  single : ((workflow.connections.filter
    (ConnectionIntegrity.feedsInput (.ofWorkflow workflow))).map
    (·.target)).Nodup
  /-- Instances live in scopes that are declared. -/
  owned : ∀ inst ∈ workflow.instances, ∀ scope, inst.parentScope = some scope →
    ∃ type, (Index.ofWorkflow workflow).nodeType? scope.owner = some type ∧
      type.declaresScope scope.name = true
  /-- The way outwards from every instance ends. -/
  leveled : ∀ inst ∈ workflow.instances, ∃ level,
    (Index.ofWorkflow workflow).Level inst.parentScope level ∧ level ≤ workflow.instances.length

theorem wired_of_validate (valid : (validate workflow).hasErrors = false) : Wired workflow := by
  have structural := noErrors_of_validate valid .structural
  have connections := noErrors_of_validate valid .connectionIntegrity
  have scopes := noErrors_of_validate valid .scopeIntegrity
  simp only [RuleGroup.check, Structural.check, ConnectionIntegrity.check, ScopeIntegrity.check,
    NoErrors.append, NoErrors.flatMap] at structural connections scopes
  obtain ⟨⟨⟨types, _⟩, _⟩, instances⟩ := structural
  obtain ⟨each, distinct⟩ := instances_of_checkInstances instances
  have typed : ∀ inst ∈ workflow.instances,
      ∃ type, (Index.ofWorkflow workflow).nodeType? inst.id = some type := by
    intro inst member
    obtain ⟨first, found⟩ := Index.find?_isSome_of_mem member
    obtain ⟨type, known⟩ := Table.contains_iff.mp (each first (Index.mem_of_find? found)).2.2
    exact ⟨type, by rw [Index.nodeType?, found, Option.bind_some, known]⟩
  have placed : ∀ connection ∈ workflow.connections, ∃ position,
      (connection, position) ∈ workflow.connections.zipIdx := by
    intro connection member
    obtain ⟨position, at_⟩ := List.mem_iff_getElem?.mp member
    exact ⟨position, List.mem_zipIdx_iff_getElem?.mpr (by simpa using at_)⟩
  have parents : ∀ inst ∈ workflow.instances, ∀ scope, inst.parentScope = some scope →
      (∃ type, (Index.ofWorkflow workflow).nodeType? scope.owner = some type ∧
        type.declaresScope scope.name = true) ∧
        ∃ level, (Index.ofWorkflow workflow).depth (some scope) = some level :=
    fun inst member scope lives => owner_of_checkParent typed (scopes.1.1 inst member) lives
  refine
    { distinct
      ordinary := fun inst member => (each inst member).1
      typed
      stepless := stepPorts_of_checkNodeTypes types
      ports := fun connection member => ?_
      crossing := fun connection member source target => ?_
      single := ?_
      owned := fun inst member scope lives => (parents inst member scope lives).1
      leveled := fun inst member => ?_ }
  · obtain ⟨position, entry⟩ := placed connection member
    exact ports_of_checkConnection typed (connections.1 (connection, position) entry)
  · obtain ⟨position, entry⟩ := placed connection member
    exact crossing_of_checkCrossing (scopes.2 (connection, position) entry)
  · have single := (single_of_checkFanIn connections.2 List.nodup_nil).1
    rwa [List.zipIdx_map_fst] at single
  · cases lives : inst.parentScope with
    | none => exact ⟨0, .top, Nat.zero_le _⟩
    | some scope =>
        obtain ⟨level, known⟩ := (parents inst member scope lives).2
        exact ⟨level, Index.level_of_depth known⟩

namespace Wired

/-- The instance of an id is the only one. -/
theorem find?_eq (wired : Wired workflow) {inst : Instance} (member : inst ∈ workflow.instances) :
    (Index.ofWorkflow workflow).find? inst.id = some inst :=
  Index.find?_eq_of_nodup wired.distinct member

theorem regionOf_eq (wired : Wired workflow) {inst : Instance}
    (member : inst ∈ workflow.instances) :
    (Index.ofWorkflow workflow).regionOf inst.id = inst.parentScope :=
  Index.regionOf_of_find? (wired.find?_eq member)

theorem ordinary_of_named (wired : Wired workflow) {id : String}
    (known : id ∈ workflow.instances.map (·.id)) :
    isBoundary id = false := by
  obtain ⟨inst, declared, rfl⟩ := List.mem_map.mp known
  exact wired.ordinary inst declared

theorem ne_start_of_named (wired : Wired workflow) {id : String}
    (known : id ∈ workflow.instances.map (·.id)) :
    id ≠ startId := by
  intro start
  have ordinary := wired.ordinary_of_named known
  rw [start] at ordinary
  cases ordinary

theorem level (wired : Wired workflow) {id : String} (known : id ∈ workflow.instances.map (·.id)) :
    ∃ level, (Index.ofWorkflow workflow).Level ((Index.ofWorkflow workflow).regionOf id) level ∧
      level ≤ workflow.instances.length := by
  obtain ⟨inst, member, rfl⟩ := List.mem_map.mp known
  rw [wired.regionOf_eq member]
  exact wired.leveled inst member

/-- The node at one end of a connection is an instance, if it is not on the boundary. -/
theorem named_of_resolve {ref : PortRef} {direction : Direction} {port : Port}
    (found : (Index.ofWorkflow workflow).resolve ref direction = some port)
    (ordinary : isBoundary ref.node = false) : ref.node ∈ workflow.instances.map (·.id) := by
  obtain ⟨_, known, _⟩ := Index.exists_of_resolve found ordinary
  obtain ⟨_, held⟩ := Index.find?_of_nodeType? known
  exact Index.named_of_find? held

variable {connection : Connection} {source target : Port}

/-- A connection that carries control stays in one region. -/
theorem step_region (wired : Wired workflow) (member : connection ∈ workflow.connections)
    (atSource : (Index.ofWorkflow workflow).sourcePort connection = some source)
    (atTarget : (Index.ofWorkflow workflow).targetPort connection = some target)
    (step : source.isStep = true) :
    (Index.ofWorkflow workflow).regionAt connection.source source =
      (Index.ofWorkflow workflow).regionAt connection.target target := by
  have fine := wired.crossing connection member source target atSource atTarget
  rw [ScopeIntegrity.crossingProblem, if_pos (by simp [step])] at fine
  by_contra different
  simp [different] at fine

/-- A connection that carries a value only leads inwards. -/
theorem data_region (wired : Wired workflow) (member : connection ∈ workflow.connections)
    (atSource : (Index.ofWorkflow workflow).sourcePort connection = some source)
    (atTarget : (Index.ofWorkflow workflow).targetPort connection = some target)
    (data : source.isStep = false) :
    (Index.ofWorkflow workflow).Within
        ((Index.ofWorkflow workflow).regionAt connection.target target)
        ((Index.ofWorkflow workflow).regionAt connection.source source) ∧
      (target.scope.isSome = true →
        (Index.ofWorkflow workflow).regionAt connection.source source =
          (Index.ofWorkflow workflow).regionAt connection.target target) := by
  obtain ⟨_, _, found, found', kinds⟩ := wired.ports connection member
  rw [atSource] at found
  rw [atTarget] at found'
  cases found
  cases found'
  have fine := wired.crossing connection member source target atSource atTarget
  rw [ScopeIntegrity.crossingProblem, if_neg (by simp [data, ← kinds])] at fine
  split at fine
  · have same : (Index.ofWorkflow workflow).regionAt connection.source source =
        (Index.ofWorkflow workflow).regionAt connection.target target := by
      by_contra different
      simp [different] at fine
    exact ⟨same ▸ .refl _, fun _ => same⟩
  · rename_i plain
    refine ⟨?_, fun inScope => absurd inScope plain⟩
    by_contra outside
    rw [if_neg fun inside => outside (Index.within_of_isWithin inside)] at fine
    cases fine

theorem regionAt_plain {index : Index} {ref : PortRef} {port : Port}
    (ordinary : isBoundary ref.node = false) (plain : port.scope = none) :
    index.regionAt ref port = index.regionOf ref.node := by
  simp [Index.regionAt, ordinary, plain]

/-! ### Cycles -/

/-- The edge of a step connection between instances is in the step graph. -/
theorem isStepEdge (wired : Wired workflow) (member : connection ∈ workflow.connections)
    (plain : GraphShape.isPlain (.ofWorkflow workflow) connection = true)
    (step : (Index.ofWorkflow workflow).isData connection = false) :
    GraphShape.isStepEdge (.ofWorkflow workflow) connection = true := by
  obtain ⟨sourceOrdinary, targetOrdinary, ⟨source, atSource, noScope⟩,
      ⟨target, atTarget, noScope'⟩⟩ :=
    isPlain_iff.mp plain
  have isStep : source.isStep = true := by
    simpa [Index.isData, atSource, Port.isData] using step
  have same := wired.step_region member atSource atTarget isStep
  rw [regionAt_plain sourceOrdinary noScope, regionAt_plain targetOrdinary noScope'] at same
  simp [GraphShape.isStepEdge, Index.isStep, atSource, isStep, plain, same]

/-- What rises along the edges that carry no value: control goes on in one region, or the inside of
a scope gives way to its owner. -/
def Rises (workflow : Workflow) (stepRank : String → Nat) (first second : String) : Prop :=
  ∃ level lower, (Index.ofWorkflow workflow).Level ((Index.ofWorkflow workflow).regionOf first)
    level ∧ (Index.ofWorkflow workflow).Level ((Index.ofWorkflow workflow).regionOf second) lower ∧
    (lower < level ∨ lower = level ∧ stepRank first < stepRank second)

theorem Rises.trans {stepRank : String → Nat} {first second third : String}
    (one : Rises workflow stepRank first second) (other : Rises workflow stepRank second third) :
    Rises workflow stepRank first third := by
  obtain ⟨high, middle, firstAt, secondAt, falls⟩ := one
  obtain ⟨_, low, again, thirdAt, fallsOn⟩ := other
  obtain rfl := secondAt.unique again
  exact ⟨high, low, firstAt, thirdAt, by omega⟩

theorem Rises.irrefl {stepRank : String → Nat} (node : String) :
    ¬ Rises workflow stepRank node node := by
  rintro ⟨high, low, firstAt, secondAt, falls⟩
  obtain rfl := firstAt.unique secondAt
  omega

/-- Along the edges of the dependency graph that carry no value, something rises. -/
theorem rises_of_unmarked (wired : Wired workflow) {stepRank : String → Nat}
    (ranked : ∀ edge ∈ GraphShape.stepGraph (.ofWorkflow workflow),
      edge.source ∈ workflow.instances.map (·.id) → stepRank edge.source < stepRank edge.target)
    {edge : Graph.Edge} (member : edge ∈ GraphShape.dependencyGraph (.ofWorkflow workflow))
    (unmarked : edge.marked = false) : Rises workflow stepRank edge.source edge.target := by
  rcases List.mem_append.mp (Graph.mem_ofEdges member) with ofConnection | ofOwner
  · obtain ⟨connection, kept, rfl⟩ := List.mem_map.mp ofConnection
    obtain ⟨inside, plain⟩ := List.mem_filter.mp kept
    have stepEdge := wired.isStepEdge inside plain unmarked
    obtain ⟨found, inGraph, fromSource, toTarget, _⟩ := Graph.ofEdges_covers
      (List.mem_map.mpr ⟨connection, List.mem_filter.mpr ⟨inside, stepEdge⟩, rfl⟩)
    obtain ⟨ordinary, _, ⟨source, atSource, _⟩, _⟩ := isPlain_iff.mp plain
    have known := named_of_resolve atSource ordinary
    have less := ranked found inGraph (fromSource ▸ known)
    rw [fromSource, toTarget] at less
    have same : (Index.ofWorkflow workflow).regionOf connection.source.node =
        (Index.ofWorkflow workflow).regionOf connection.target.node := by
      simp only [GraphShape.isStepEdge, Bool.and_eq_true, decide_eq_true_eq] at stepEdge
      exact stepEdge.2
    obtain ⟨level, at_, _⟩ := wired.level known
    exact ⟨level, level, at_, same ▸ at_, .inr ⟨rfl, less⟩⟩
  · obtain ⟨inst, inside, found⟩ := List.mem_filterMap.mp ofOwner
    obtain ⟨scope, lives, rfl⟩ := Option.map_eq_some_iff.mp found
    obtain ⟨level, at_, _⟩ := wired.leveled inst inside
    have region := wired.regionOf_eq inside
    rw [lives] at at_ region
    cases at_ with
    | scope outer => exact ⟨_, _, region ▸ .scope outer, outer, .inl (Nat.lt_succ_self _)⟩

/-- **A workflow whose graphs have no cycles that are errors has ranks.** -/
theorem ranked_of_checks (wired : Wired workflow)
    (none : NoErrors (GraphShape.check (.ofWorkflow workflow))) : ∃ rank, Ranks workflow rank := by
  simp only [GraphShape.check, NoErrors.append] at none
  have nothing : ∀ {items : List Graph.Cycle} {code : DiagnosticCode} {what : String},
      NoErrors (items.map (GraphShape.report (.ofWorkflow workflow) code what)) → items = [] := by
    intro items code what none
    cases items with
    | nil => rfl
    | cons first rest => exact absurd none NoErrors.cons_error
  obtain ⟨stepRank, stepRanked⟩ := Graph.exists_rank_of_cycles_eq_nil (nothing none.1)
  -- every cycle of the dependency graph carries a value, so that it would be an error
  have acyclic : Graph.cycles (GraphShape.dependencyGraph (.ofWorkflow workflow))
      (workflow.instances.map (·.id)) = [] := by
    have unmarked := nothing none.2
    rw [List.filter_eq_nil_iff] at unmarked
    refine List.eq_nil_iff_forall_not_mem.mpr fun cycle found => unmarked cycle found ?_
    exact (Graph.real_of_mem_cycles found).marked_of_rising
      (fun _ => wired.rises_of_unmarked stepRanked) Rises.trans Rises.irrefl
  obtain ⟨rank, ranked⟩ := Graph.exists_rank_of_cycles_eq_nil acyclic
  refine ⟨rank, fun connection member plain => ?_, fun inst member scope lives => ?_⟩
  · obtain ⟨found, inGraph, fromSource, toTarget, _⟩ := Graph.ofEdges_covers
      (List.mem_append_left (GraphShape.ownerEdges workflow)
        (List.mem_map.mpr ⟨connection, List.mem_filter.mpr ⟨member, plain⟩, rfl⟩))
    obtain ⟨ordinary, _, ⟨source, atSource, _⟩, _⟩ := isPlain_iff.mp plain
    have less := ranked found inGraph (fromSource ▸ named_of_resolve atSource ordinary)
    rwa [fromSource, toTarget] at less
  · have owned : (⟨inst.id, scope.owner, false⟩ : Graph.Edge) ∈ GraphShape.ownerEdges workflow :=
      List.mem_filterMap.mpr ⟨inst, member, by rw [lives, Option.map_some]⟩
    obtain ⟨found, inGraph, fromSource, toTarget, _⟩ := Graph.ofEdges_covers
      (List.mem_append_right
        ((workflow.connections.filter (GraphShape.isPlain (.ofWorkflow workflow))).map
          (GraphShape.edgeOf (.ofWorkflow workflow))) owned)
    have less := ranked found inGraph (fromSource ▸ List.mem_map.mpr ⟨inst, member, rfl⟩)
    rwa [fromSource, toTarget] at less

end Wired

/-! ### Certified workflows -/

/-- What a workflow without errors is like. -/
structure Certified (workflow : Workflow) : Prop extends Wired workflow where
  /-- Instances have ranks that rise along connections and towards owners. -/
  ranked : ∃ rank, Ranks workflow rank

/-- **A workflow in whose report there is no error is certified.** -/
theorem certified_of_validate (valid : (validate workflow).hasErrors = false) :
    Certified workflow :=
  have wired := wired_of_validate valid
  ⟨wired, wired.ranked_of_checks (noErrors_of_validate valid .graphShape)⟩

end WorkflowGraph
