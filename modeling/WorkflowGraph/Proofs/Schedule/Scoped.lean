/-
Merge bindings are used where they are declared.

The main statement is `hoisted_scoped_iff`. In every plan the ids of merge bindings tell them apart,
what a run writes is declared by a branch that has the run in an arm, what an exit port is given is
declared on the top level, and what a scope collects directly inside of the scope. What a run reads
is declared in front of it, by a branch that lies in nothing but what the run lies in, exactly if no
connection is mislaid, and so it is if every expression in a scope is read.
`nestedIdleReader_out_of_scope` is a workflow without errors whose plan reads a merge binding
outside of the arm that declares it.

* `Workflow.Mislaid` — a connection out of nested arms into an expression that is computed outside
  of an outer arm, though it is only read inside. The inner branch declares its merge binding.
* `Scheduler.Arranged.exists_branch_before` — a branch stands in front of all that lies in its arms.
* `Scheduler.Arranged.readsInScope`, `not_readsInScope` — the two directions of the main statement.
-/

import WorkflowGraph.Proofs.Schedule.Origin
import WorkflowGraph.Proofs.Schedule.Supply

namespace WorkflowGraph

/-! ### Declarations and uses -/

/-- Whether a branch declares a merge binding. -/
def Spot.Declares (branch : Spot) (binding : String) : Prop :=
  ∃ hoisted ∈ branch.node.declares, hoisted.id = binding

/-- Whether all merge bindings that runs write are declared once, by a branch that has the run in an
arm. -/
def Plan.ExportsInScope (plan : Plan) : Prop :=
  ∀ spot ∈ plan.body.spots [], ∀ step, spot.node.ran? = some step → ∀ sent ∈ step.exports,
    (plan.hoisted.map (·.id)).count sent.binding = 1 ∧
      ∃ branch ∈ plan.body.spots [], branch.Declares sent.binding ∧
      ∃ onSuccess, spot ∈ branch.arm onSuccess

/-- Whether all merge bindings that runs read are declared in front of the run, by a branch that
lies in nothing but what the run lies in. -/
def Plan.ReadsInScope (plan : Plan) : Prop :=
  ∀ before spot after, plan.body.spots [] = before ++ spot :: after →
    ∀ step, spot.node.ran? = some step →
    ∀ input ∈ step.inputs, ∀ binding, input.source = .merged binding →
      ∃ branch ∈ before, branch.Declares binding ∧ branch.path <:+ spot.path

/-- Whether all merge bindings that exit ports are given are declared on the top level. -/
def Plan.ReturnsInScope (plan : Plan) : Prop :=
  ∀ returned ∈ plan.returns, ∀ binding, .merged binding ∈ returned.sources →
    ∃ branch ∈ plan.body.spots [], branch.Declares binding ∧ branch.path = []

/-- Whether all merge bindings that scopes collect are declared directly inside of the scope. -/
def Plan.ResultsInScope (plan : Plan) : Prop :=
  ∀ spot ∈ plan.body.spots [], ∀ step, spot.node.ran? = some step → ∀ frame ∈ spot.node.frames,
    ∀ result ∈ frame.results, ∀ binding, result.source = .merged binding →
      ∃ branch ∈ plan.body.spots [], branch.Declares binding ∧
        branch.path = .body step.node frame.name :: spot.path

/-- Whether a connection carries a value out of the arms of a branch into an expression that is
needed outside of another branch, though the value is not read outside of the latter. -/
structure Workflow.Mislaid (workflow : Workflow) (connection : Connection) : Prop where
  input : ∃ port, workflow.OwnInput connection.target.node port ∧ connection.target.port = port.name
  leaves : ∃ inner, workflow.HasCluster inner ∧
    connection ∈ Merge.leaving (.ofWorkflow workflow) inner
  needed : ∃ cluster branch, workflow.HasCluster cluster ∧ workflow.HasCluster branch ∧
    connection.target.node ∈ (Analysis.ofWorkflow workflow).neededBy cluster ∧
    connection.source.node ∈ branch.armMembers ∧ cluster.head ∉ branch.inside ∧
    ¬ Merge.Escapes (.ofWorkflow workflow) branch connection

variable {workflow : Workflow}

/-- No connection is mislaid if every expression in a scope is read. -/
theorem Certified.not_mislaid (certified : Certified workflow)
    (allRead : ∀ inst ∈ workflow.instances,
      (Index.ofWorkflow workflow).isExpression inst.id = true → inst.parentScope ≠ none →
      workflow.IsRead inst.id) (connection : Connection) :
    ¬ workflow.Mislaid connection := by
  intro mislaid
  obtain ⟨port, own, named⟩ := mislaid.input
  obtain ⟨_, _, leaves⟩ := mislaid.leaves
  obtain ⟨inside, _, output, _⟩ := Merge.mem_leaving.mp leaves
  obtain ⟨cluster, branch, clusterUp, branchUp, needed, inArm, outside, unread⟩ := mislaid.needed
  exact unread (certified.escapes_of_needed allRead inside own named output clusterUp needed
    branchUp inArm outside)

/-! ### Ids of merge bindings -/

theorem Workflow.DistinctNames.nodup_ids (clear : workflow.DistinctNames) (wired : Wired workflow)
    {merges : List Merge} (known : Merge.FromBranches workflow merges) :
    (merges.map Merge.id).Nodup := by
  have distinct : merges.Nodup := by
    refine known.distinct.imp fun {first second} apart same => ?_
    rw [same, Merge.samePort_iff.mpr ⟨rfl, rfl⟩] at apart
    cases apart
  exact distinct.map_on fun first inFirst second inSecond same =>
    known.eq_of_id wired clear.undotted inFirst inSecond same

namespace Binding

variable {index : Index} {placements : List Placement}

/-- A run of a plan is a stage, and the runs in front of it are the stages in front. -/
theorem exists_stage_of_split {before after : List Spot} {spot : Spot}
    (split : (plan index placements).body.spots [] = before ++ spot :: after) {step : Step}
    (ran : spot.node.ran? = some step) :
    ∃ first stage rest, stagesOfAll index [] [] placements = first ++ stage :: rest ∧
      first.map (Stage.place index) = before.filterMap Spot.place? ∧ stage.path = spot.path ∧
      stage.step index = step := by
  have places := @places_plan index placements
  have place : spot.place? = some (spot.path, step) := by rw [Spot.place?, ran, Option.map_some]
  rw [PlanNode.places_eq_spots, split, List.filterMap_append,
    List.filterMap_cons_some place] at places
  obtain ⟨first, others, stages, front, later⟩ := List.map_eq_append_iff.mp places.symm
  obtain ⟨stage, rest, rfl, same, _⟩ := List.map_eq_cons_iff.mp later
  obtain ⟨path, step⟩ := Prod.mk.inj same
  exact ⟨first, stage, rest, stages, front, path, step⟩

/-- The merge binding of a run has been declared by a branch. -/
theorem exists_declaration_of_known {stage : Stage}
    (bound : stage ∈ stagesOfAll index [] [] placements) {merge : Merge}
    (known : merge ∈ stage.merges) :
    ∃ declaration ∈ declarationsOfAll index [] [] placements, merge ∈ declaration.merges index :=
  exists_declaration_of_merge ((merges_of_mem_stagesOfAll bound).2.subset known)

/-- What a branch of a plan declares is a merge binding of a declaration. -/
theorem exists_declaration_of_declares {branch : Spot}
    (member : branch ∈ (plan index placements).body.spots []) {binding : String}
    (declares : branch.Declares binding) :
    ∃ declaration ∈ declarationsOfAll index [] [] placements, declaration.path = branch.path ∧
      ∃ merge ∈ declaration.merges index, merge.id = binding := by
  obtain ⟨hoisted, among, rfl⟩ := declares
  obtain ⟨head, on⟩ : ∃ head, branch.node.branchesOn? = some head := by
    cases found : branch.node <;> simp [found, PlanNode.declares, PlanNode.branchesOn?] at among ⊢
  obtain ⟨declaration, inPlan, path, _, hoists⟩ := exists_declaration_of_branch member on
  rw [hoists] at among
  obtain ⟨merge, inMerges, rfl⟩ := List.mem_map.mp among
  exact ⟨declaration, inPlan, path, merge, inMerges, rfl⟩

end Binding

/-- A value that leaves the arms of a branch for an input in a scope comes from the inside of the
scope. -/
theorem Workflow.HasCluster.regionOf_of_collected {cluster : Cluster}
    (comesUp : workflow.HasCluster cluster) (certified : Certified workflow)
    (clear : workflow.DistinctNames) {connection : Connection}
    (leaves : connection ∈ Merge.leaving (.ofWorkflow workflow) cluster) {type : NodeType}
    (typed : (Index.ofWorkflow workflow).nodeType? connection.target.node = some type) {port : Port}
    (member : port ∈ type.ports) (direction : port.direction = .input)
    (named : connection.target.port = port.name) {label : String}
    (scope : port.scope = some label) :
    Merge.intoSink (.ofWorkflow workflow) connection = true ∧
      (Index.ofWorkflow workflow).regionOf connection.source.node =
        some ⟨connection.target.node, label⟩ := by
  obtain ⟨inside, inArms, _⟩ := Merge.mem_leaving.mp leaves
  obtain ⟨_, target, _, atTarget, _⟩ := certified.ports connection inside
  have intoInstance := certified.toWired.ordinary_of_typed typed
  have fromInstance := certified.ordinary_of_named
    (comesUp.member_scheduled (List.mem_cons_of_mem _ inArms)).1
  obtain ⟨_, typedToo, memberToo, directionToo, namedToo⟩ :=
    Index.exists_of_resolve atTarget intoInstance
  obtain rfl := Option.some.inj (typed.symm.trans typedToo)
  obtain rfl : target = port := clear.unshared (Index.nodeType_mem typed) port.name target memberToo
    port member directionToo direction (namedToo.trans named) rfl
  exact ⟨by simp [Merge.intoSink, atTarget, scope],
    (certified.scope_eq_some_iff_regionOf inside atTarget intoInstance fromInstance
      (comesUp.source_ne_target certified.toWired leaves)).mp scope⟩

namespace Scheduler.Arranged

open Binding

variable {scheduler : Scheduler} {placements : List Placement}

/-- **A branch stands in front of all that lies in its arms.** -/
theorem exists_branch_before (arranged : Arranged scheduler (.ofWorkflow workflow)
      (.ofRegion (.ofWorkflow workflow) none [] []) placements) {declaration : Declaration}
    (member : declaration ∈ declarationsOfAll (.ofWorkflow workflow) [] [] placements)
    {before after : List Spot} {spot : Spot}
    (split : (plan (.ofWorkflow workflow) placements).body.spots [] = before ++ spot :: after)
    {onSuccess : Bool}
    (around : .arm declaration.cluster.head onSuccess :: declaration.path <:+ spot.path) :
    ∃ branch ∈ before, branch.path = declaration.path ∧
      branch.node.declares = (declaration.merges (.ofWorkflow workflow)).map Merge.hoisted ∧
      spot ∈ branch.arm onSuccess := by
  rcases PlanNode.rooted_spots [] [] _ before spot after split _ _ _ around with
    here | ⟨branch, among, lies, on, inArm⟩
  · cases List.suffix_nil.mp here
  · rw [List.nil_append] at among
    have inPlan : branch ∈ (plan (.ofWorkflow workflow) placements).body.spots [] :=
      split ▸ List.mem_append_left _ among
    obtain ⟨other, inOther, _, heads, declares⟩ := exists_declaration_of_branch inPlan on
    obtain rfl := arranged.declaration_unique inOther member heads
    exact ⟨branch, among, lies, declares, inArm⟩

/-! ### Writers and the ends of regions -/

/-- **What a run writes is declared once, by a branch that has the run in an arm.** -/
theorem exportsInScope (arranged : Arranged scheduler (.ofWorkflow workflow)
      (.ofRegion (.ofWorkflow workflow) none [] []) placements) (certified : Certified workflow)
    (distinct : ((plan (.ofWorkflow workflow) placements).hoisted.map (·.id)).Nodup) :
    (plan (.ofWorkflow workflow) placements).ExportsInScope := by
  intro spot member step ran sent exported
  obtain ⟨before, after, split⟩ := List.append_of_mem member
  obtain ⟨first, stage, rest, stages, _, path, rfl⟩ := exists_stage_of_split split ran
  have bound : stage ∈ stagesOfAll (.ofWorkflow workflow) [] [] placements := by simp [stages]
  obtain ⟨merge, known, same, producer, produces, isNode, _⟩ := Merge.mem_exportsOf.mp exported
  obtain ⟨declaration, inPlan, declares⟩ := exists_declaration_of_known bound known
  obtain ⟨connection, leaves, rfl, _⟩ := declaration.exists_leaving_of_producer declares produces
  have inArms := (Merge.mem_leaving.mp leaves).2.1
  obtain ⟨onSuccess, around⟩ := arranged.suffix_of_declared certified inPlan bound (isNode ▸ inArms)
  obtain ⟨branch, among, _, hoists, inArm⟩ :=
    arranged.exists_branch_before inPlan split (path ▸ around)
  have branchInPlan : branch ∈ (plan (.ofWorkflow workflow) placements).body.spots [] :=
    split ▸ List.mem_append_left _ among
  have declared : merge.hoisted ∈ branch.node.declares :=
    hoists ▸ List.mem_map.mpr ⟨merge, declares, rfl⟩
  refine ⟨List.count_eq_one_of_mem distinct (List.mem_map.mpr ⟨merge.hoisted, ?_, same.symm⟩),
    branch, branchInPlan, ⟨_, declared, same.symm⟩, onSuccess, inArm⟩
  refine List.mem_flatMap.mpr ⟨branch.node, ?_, declared⟩
  rw [← PlanNode.node_spots []]
  exact List.mem_map.mpr ⟨branch, branchInPlan, rfl⟩

/-- The merge binding that a declaration has is one that its branch declares in the plan. -/
theorem exists_branch_of_declares {declaration : Declaration}
    (member : declaration ∈ declarationsOfAll (.ofWorkflow workflow) [] [] placements)
    {merge : Merge} (declares : merge ∈ declaration.merges (.ofWorkflow workflow)) :
    ∃ branch ∈ (plan (.ofWorkflow workflow) placements).body.spots [], branch.Declares merge.id ∧
      branch.path = declaration.path := by
  obtain ⟨branch, inPlan, path, hoists⟩ := exists_branch_of_declaration member
  exact ⟨branch, inPlan, ⟨merge.hoisted, hoists ▸ List.mem_map.mpr ⟨merge, declares, rfl⟩, rfl⟩,
    path⟩

/-- **What an exit port is given is declared on the top level.** -/
theorem returnsInScope (arranged : Arranged scheduler (.ofWorkflow workflow)
      (.ofRegion (.ofWorkflow workflow) none [] []) placements) (certified : Certified workflow) :
    (plan (.ofWorkflow workflow) placements).ReturnsInScope := by
  intro returned member binding merged
  obtain ⟨port, _, rfl⟩ := List.mem_map.mp member
  have data := isData_of_mem_returnBinding merged nofun
  obtain ⟨connection, _, exit, _, source⟩ := (mem_returnBinding data).mp merged
  obtain ⟨merge, among, consumes, rfl, _⟩ :=
    Merge.bindingFor_eq_some (connectionSource_eq_merged.mp source)
  obtain ⟨declaration, inPlan, declares⟩ := exists_declaration_of_merge among
  have onTop := arranged.path_eq_nil_of_exit certified inPlan declares
    ((Merge.samePort_iff.mp consumes).1.trans exit)
  obtain ⟨branch, branchInPlan, declaresToo, path⟩ := exists_branch_of_declares inPlan declares
  exact ⟨branch, branchInPlan, declaresToo, path.trans onTop⟩

/-- **What a scope collects is declared directly inside of the scope.** -/
theorem resultsInScope (arranged : Arranged scheduler (.ofWorkflow workflow)
      (.ofRegion (.ofWorkflow workflow) none [] []) placements) (certified : Certified workflow)
    (clear : workflow.DistinctNames) : (plan (.ofWorkflow workflow) placements).ResultsInScope := by
  intro spot inPlan step ran frame among result collected binding merged
  have inWalk : spot.node ∈ (plan (.ofWorkflow workflow) placements).body.walk := by
    rw [← PlanNode.node_spots []]
    exact List.mem_map.mpr ⟨spot, inPlan, rfl⟩
  obtain ⟨known, grows, type, typed, port, inPorts, direction, scope, rfl⟩ :=
    exists_of_result inWalk ran among collected
  obtain ⟨first, isFirst, bound⟩ := exists_first_of_merged merged
  obtain ⟨_, into, named⟩ := Workflow.mem_of_firstInto isFirst
  obtain ⟨merge, inMerges, consumes, rfl, _⟩ := Merge.bindingFor_eq_some bound
  obtain ⟨declaration, declared, declares⟩ := exists_declaration_of_merge (grows.subset inMerges)
  obtain ⟨connection, leaves, consumer⟩ := Declaration.exists_leaving declares
  obtain ⟨node, name⟩ := Merge.samePort_iff.mp consumes
  rw [consumer] at node name
  obtain ⟨sink, lives⟩ := (arranged.hasCluster declared).regionOf_of_collected certified clear
    leaves ((node.trans into).symm ▸ typed) inPorts direction (name.trans named) scope
  rcases arranged.declared_in_region certified declared declares leaves
    (consumer ▸ Merge.samePort_iff.mpr ⟨rfl, rfl⟩) sink with
    ⟨top, _⟩ | ⟨owner, label, outer, region, path, stage, isStage, isOwner, rfl⟩
  · rw [lives] at top
    cases top
  · rw [lives, node, into] at region
    cases region
    obtain ⟨other, isOther, same, otherPath, plain⟩ :=
      arranged.exists_stage_of_spot inPlan (PlanNode.isScheduled_of_frames among) ran
    have scheduled := arranged.scheduled_of_placed .top (List.Subset.refl _)
      (node_of_mem_stagesOfAll isOther) (same ▸ plain)
    obtain rfl := arranged.stage_unique isOther isStage scheduled (isOwner.trans same.symm)
    obtain ⟨branch, branchInPlan, declaresToo, branchPath⟩ :=
      exists_branch_of_declares declared declares
    exact ⟨branch, branchInPlan, declaresToo, branchPath.trans (path.trans (by rw [otherPath]))⟩

/-! ### Readers -/

/-- The connection into an input of its own leaves the arms of the branch that declares a merge
binding for the input. -/
theorem leaving_of_declares {declaration : Declaration} {merge : Merge}
    (declares : merge ∈ declaration.merges (.ofWorkflow workflow)) (wired : Wired workflow)
    {node : String} {port : Port} (own : workflow.OwnInput node port) {connection : Connection}
    (member : connection ∈ workflow.connections) (into : connection.target.node = node)
    (named : connection.target.port = port.name)
    (consumes : Merge.samePort merge.consumer connection.target = true) :
    connection ∈ Merge.leaving (.ofWorkflow workflow) declaration.cluster := by
  obtain ⟨other, leaves, consumer⟩ := Declaration.exists_leaving declares
  rw [consumer] at consumes
  obtain ⟨atNode, atPort⟩ := Merge.samePort_iff.mp consumes
  obtain rfl := wired.connection_unique own (Merge.mem_leaving.mp leaves).1 (atNode.trans into)
    (atPort.trans named) member into named
  exact leaves

/-- **A branch that declares what a reader reads lies in nothing but what the reader lies in**,
unless the connection is mislaid. The source has been bound in reach of the reader, or in an arm of
a branch whose head is in reach. If that one lies outside of the branch that declares the merge
binding, then the value is not read outside of it. -/
theorem suffix_of_reader (arranged : Arranged scheduler (.ofWorkflow workflow)
      (.ofRegion (.ofWorkflow workflow) none [] []) placements) (certified : Certified workflow)
    {declaration : Declaration}
    (member : declaration ∈ declarationsOfAll (.ofWorkflow workflow) [] [] placements)
    {merge : Merge} (declares : merge ∈ declaration.merges (.ofWorkflow workflow))
    {connection : Connection} (consumes : Merge.samePort merge.consumer connection.target = true)
    (leaves : connection ∈ Merge.leaving (.ofWorkflow workflow) declaration.cluster)
    (input : ∃ port, workflow.OwnInput connection.target.node port ∧
      connection.target.port = port.name)
    (settled : ¬ workflow.Mislaid connection) {before : List Stage} {path : List Enclosure}
    (subset : before ⊆ stagesOfAll (.ofWorkflow workflow) [] [] placements)
    (given : Given workflow before path connection) :
    declaration.path <:+ path ∧ ∃ source ∈ before, ∃ onSuccess,
      .arm declaration.cluster.head onSuccess :: declaration.path <:+ source.path := by
  obtain ⟨inside, inArms, _, _⟩ := Merge.mem_leaving.mp leaves
  cases given with
  | inReach inReach =>
      obtain ⟨source, among, same, suffix⟩ := inReach
      obtain ⟨onSuccess, around⟩ := arranged.suffix_of_declared certified member (subset among)
        (same ▸ inArms)
      exact ⟨((List.suffix_cons _ _).trans around).trans suffix, source, among, onSuccess, around⟩
  | @aside source branch among same branchUp inBranch head output read =>
      obtain ⟨onSuccess, around⟩ := arranged.suffix_of_declared certified member (subset among)
        (same ▸ inArms)
      refine ⟨?_, source, among, onSuccess, around⟩
      obtain ⟨headStage, headAmong, isHead, headSuffix⟩ := head
      obtain ⟨side, aroundToo⟩ :=
        arranged.suffix_of_mem_arms certified branchUp (subset headAmong) isHead
        (subset among) (same ▸ inBranch)
      rcases Enclosure.nested around aroundToo with ⟨_, samePath⟩ | inner | outer
      · exact samePath ▸ headSuffix
      · exact ((List.suffix_cons _ _).trans inner).trans headSuffix
      · have unread : ¬ Merge.Escapes (.ofWorkflow workflow) branch connection := fun escapes =>
          arranged.not_leaving_outside member declares consumes branchUp outer
            (Merge.mem_leaving.mpr ⟨inside, inBranch, output, escapes⟩)
        obtain ⟨cluster, clusterUp, needed, apart⟩ := read.resolve_left unread
        exact absurd ⟨input, ⟨_, arranged.hasCluster member, leaves⟩,
          ⟨cluster, branch, clusterUp, branchUp, needed, inBranch, apart, unread⟩⟩ settled

/-- **Without mislaid connections all that runs read is in scope.** -/
theorem readsInScope (arranged : Arranged scheduler (.ofWorkflow workflow)
      (.ofRegion (.ofWorkflow workflow) none [] []) placements) (certified : Certified workflow)
    (clear : workflow.DistinctNames) (settled : ∀ connection, ¬ workflow.Mislaid connection) :
    (plan (.ofWorkflow workflow) placements).ReadsInScope := by
  intro before spot after split step ran input member binding merged
  obtain ⟨first, stage, rest, stages, front, path, rfl⟩ := exists_stage_of_split split ran
  obtain ⟨port, own, _, connection, inside, into, named, bound⟩ :=
    clear.exists_connection_of_merged member merged
  obtain ⟨merge, known, consumes, rfl, _⟩ := Merge.bindingFor_eq_some bound
  obtain ⟨declaration, inPlan, declares⟩ :=
    exists_declaration_of_known
      (by simp [stages] : stage ∈ stagesOfAll (.ofWorkflow workflow) [] [] placements) known
  have leaves := leaving_of_declares declares certified.toWired own inside into named consumes
  have isSource := (arranged.hasCluster inPlan).member_scheduled
    (List.mem_cons_of_mem _ (Merge.mem_leaving.mp leaves).2.1)
  have turn := arranged.turns certified .top (.top certified) first stage rest stages
  rw [List.nil_append] at turn
  obtain ⟨suffix, source, among, onSuccess, around⟩ :=
    arranged.suffix_of_reader certified inPlan declares consumes leaves
    ⟨port, into ▸ own, named⟩ (settled connection) (stages ▸ List.subset_append_left _ _)
    (turn.given certified own inside into named (certified.ne_start_of_named isSource.1))
  -- the run of the source stands in front of the reader, and the branch in front of the source
  have place : source.place (.ofWorkflow workflow) ∈ before.filterMap Spot.place? :=
    front ▸ List.mem_map.mpr ⟨source, among, rfl⟩
  obtain ⟨sourceSpot, inFront, found⟩ := List.mem_filterMap.mp place
  obtain ⟨_, _, same⟩ := Option.map_eq_some_iff.mp found
  obtain ⟨sourcePath, _⟩ := Prod.mk.inj same
  obtain ⟨earlier, later, rfl⟩ := List.append_of_mem inFront
  rw [List.append_assoc, List.cons_append] at split
  rw [show source.path = sourceSpot.path from sourcePath.symm] at around
  obtain ⟨branch, inEarlier, branchPath, hoists, _⟩ :=
    arranged.exists_branch_before inPlan split around
  refine ⟨branch, List.mem_append_left _ inEarlier, ⟨merge.hoisted, ?_, rfl⟩,
    branchPath ▸ path ▸ suffix⟩
  exact hoists ▸ List.mem_map.mpr ⟨merge, declares, rfl⟩

/-! ### Mislaid connections -/

/-- **The branch that declares the merge binding of a mislaid connection lies in an arm that its
reader does not lie in.** Both it and the branch whose outside does not read the value have the
source in an arm. It is not that branch, and not around it, as the value is read outside of it. So
it lies in an arm of that branch, which the cluster does not. -/
theorem not_suffix_of_mislaid (arranged : Arranged scheduler (.ofWorkflow workflow)
      (.ofRegion (.ofWorkflow workflow) none [] []) placements) (certified : Certified workflow)
    {declaration : Declaration}
    (member : declaration ∈ declarationsOfAll (.ofWorkflow workflow) [] [] placements)
    {connection : Connection}
    (leaves : connection ∈ Merge.leaving (.ofWorkflow workflow) declaration.cluster)
    {cluster branch : Cluster} (clusterUp : workflow.HasCluster cluster)
    (branchUp : workflow.HasCluster branch) (inArm : connection.source.node ∈ branch.armMembers)
    (apart : cluster.head ∉ branch.inside)
    (unread : ¬ Merge.Escapes (.ofWorkflow workflow) branch connection) {head : Stage}
    (atHead : cluster.BoundAt workflow (stagesOfAll (.ofWorkflow workflow) [] [] placements) head) :
    ¬ declaration.path <:+ head.path := by
  intro suffix
  obtain ⟨_, inArms, _, escapes⟩ := Merge.mem_leaving.mp leaves
  obtain ⟨source, bound, same⟩ := branchUp.exists_stage_of_mem_arms certified arranged inArm
  obtain ⟨branchHead, atBranch⟩ := branchUp.exists_boundAt certified arranged
  obtain ⟨onSuccess, around⟩ := arranged.suffix_of_declared certified member bound (same ▸ inArms)
  obtain ⟨side, aroundToo⟩ := arranged.suffix_of_mem_arms certified branchUp atBranch.member
    atBranch.node bound (same ▸ inArm)
  rcases Enclosure.nested around aroundToo with ⟨heads, _⟩ | outside | inside
  · obtain rfl := (arranged.hasCluster member).unique branchUp (Enclosure.arm.inj heads).1
    exact unread escapes
  · obtain ⟨other, _, otherUp, _, heads, holds⟩ :=
      atBranch.around _ _ (outside.subset List.mem_cons_self)
    obtain rfl := otherUp.unique (arranged.hasCluster member) heads
    exact unread (escapes.mono fun id inBranch => (holds id inBranch).1)
  · obtain ⟨other, _, otherUp, _, heads, holds⟩ :=
      atHead.around _ _ ((inside.trans suffix).subset List.mem_cons_self)
    obtain rfl := otherUp.unique branchUp heads
    obtain ⟨_, _, inBlock⟩ := clusterUp
    exact apart (holds _ (Cluster.head_mem_inside inBlock)).1

/-- **A plan with a mislaid connection reads a merge binding out of its scope.** -/
theorem not_readsInScope (arranged : Arranged scheduler (.ofWorkflow workflow)
      (.ofRegion (.ofWorkflow workflow) none [] []) placements) (certified : Certified workflow)
    (clear : workflow.DistinctNames) {connection : Connection}
    (mislaid : workflow.Mislaid connection) :
    ¬ (plan (.ofWorkflow workflow) placements).ReadsInScope := by
  intro inScope
  obtain ⟨port, own, named⟩ := mislaid.input
  obtain ⟨inner, innerUp, leaves⟩ := mislaid.leaves
  obtain ⟨inside, inInner, _, _⟩ := Merge.mem_leaving.mp leaves
  obtain ⟨cluster, branch, clusterUp, branchUp, needed, inArm, apart, unread⟩ := mislaid.needed
  have fromBranches := arranged.fromBranches
  -- the expression is bound in front of the cluster that needs it
  obtain ⟨head, atHead⟩ := clusterUp.exists_boundAt certified arranged
  obtain ⟨reader, bound, isReader, suffix⟩ :=
    atHead.needed _ needed (clusterUp.named_of_needed certified needed)
  have ownToo : workflow.OwnInput reader.node port := isReader ▸ own
  -- it reads the merge binding that an inner branch declares
  obtain ⟨merge, declared, consumes⟩ := arranged.declared certified innerUp leaves
  obtain ⟨declaration, inPlan, declares⟩ := exists_declaration_of_merge declared
  have leavesToo := leaving_of_declares declares certified.toWired own inside rfl named consumes
  have found := fromBranches.bindingFor_of_mem declared consumes
    (Declaration.source_mem_producers declares consumes leavesToo)
  obtain ⟨first, rest, stages⟩ := List.append_of_mem bound
  have turn := arranged.turns certified .top (.top certified) first reader rest stages
  rw [List.nil_append] at turn
  have notStart :=
    certified.ne_start_of_named (innerUp.member_scheduled (List.mem_cons_of_mem _ inInner)).1
  obtain ⟨source, among, same⟩ :=
    (turn.given certified ownToo inside isReader.symm named notStart).exists_stage
  obtain ⟨input, isInput, _, reads⟩ :=
    @Workflow.OwnInput.exists_input_of_connection _ _ _ reader.merges ownToo
    certified.toWired _ inside isReader.symm named
  rw [connectionSource_eq_merged.mpr (arranged.bindingFor_of_bound stages among same
    found)] at reads
  -- so the branch that declares it has to lie in nothing but what the expression lies in
  obtain ⟨before, spot, after, split, path, ran⟩ := exists_split_of_stage bound
  obtain ⟨branchSpot, inFront, hoists, lies⟩ :=
    inScope before spot after split _ ran input isInput _ reads
  obtain ⟨other, inOther, otherPath, otherMerge, declaresToo, sameId⟩ :=
    exists_declaration_of_declares (split ▸ List.mem_append_left _ inFront) hoists
  have inFinal : otherMerge ∈ (placeAll (.ofWorkflow workflow) [] placements).2 := by
    rw [following_placeAll [], List.nil_append]
    exact List.mem_flatMap.mpr ⟨other, inOther, declaresToo⟩
  obtain rfl := fromBranches.eq_of_id certified.toWired clear.undotted inFinal declared sameId
  refine arranged.not_suffix_of_mislaid certified inOther
    (leaving_of_declares declaresToo certified.toWired own inside rfl named consumes) clusterUp
    branchUp inArm apart unread atHead ?_
  rw [otherPath]
  exact (path ▸ lies).trans suffix

end Scheduler.Arranged

/-! ### Plans -/

/-- **Merge bindings are used where they are declared, exactly if no connection is mislaid.** The
ids of the merge bindings of a plan tell them apart, and in every plan what runs write, exit ports
are given and scopes collect is declared around them. So it is with what runs read if every
expression in a scope is read. -/
theorem hoisted_scoped_iff {scheduler : Scheduler} {plan : Plan}
    (valid : (validate workflow).hasErrors = false) (clear : workflow.DistinctNames)
    (scheduled : (scheduler.schedule workflow).outcome = .ok plan) :
    (plan.hoisted.map (·.id)).Nodup ∧ plan.ExportsInScope ∧ plan.ReturnsInScope ∧
      plan.ResultsInScope ∧ (plan.ReadsInScope ↔ ∀ connection, ¬ workflow.Mislaid connection) ∧
      ((∀ inst ∈ workflow.instances, (Index.ofWorkflow workflow).isExpression inst.id = true →
        inst.parentScope ≠ none → workflow.IsRead inst.id) → plan.ReadsInScope) := by
  have certified := certified_of_validate valid
  obtain ⟨placements, arranged, rfl⟩ := Scheduler.exists_arranged scheduled
  have distinct : ((Binding.plan (.ofWorkflow workflow) placements).hoisted.map (·.id)).Nodup := by
    rw [((Binding.hoisted_plan placements).map _).nodup_iff, List.map_map]
    exact clear.nodup_ids certified.toWired (.placeAll (arranged.isBranch .top))
  have inScope := arranged.readsInScope certified clear
  exact ⟨distinct, arranged.exportsInScope certified distinct, arranged.returnsInScope certified,
    arranged.resultsInScope certified clear,
    ⟨fun reads _ mislaid => arranged.not_readsInScope certified clear mislaid reads, inScope⟩,
    fun allRead => inScope (certified.not_mislaid allRead)⟩

/-- A branch in an arm whose value goes to an expression. The other reader of the expression is in
the outer arm, but for an expression in a loop that nothing reads. -/
def nestedIdleReader : Workflow where
  name := "nested-idle-reader"
  nodeTypes := idleReader.nodeTypes
  instances := ["g", "a", "h", "x", "y", "v"].map (fun id => { id := id, nodeType := "Task" }) ++
    [{ id := "e", nodeType := "Upper" }, { id := "m", nodeType := "Loop" },
      { id := "f", nodeType := "Upper", parentScope := some ⟨"m", "body"⟩ }]
  connections :=
    [⟨⟨"g", "onSuccess", none⟩, ⟨"h", "execute", none⟩⟩,
      ⟨⟨"g", "onFailure", none⟩, ⟨"a", "execute", none⟩⟩,
      ⟨⟨"g", "onSuccess", none⟩, ⟨"v", "execute", none⟩⟩,
      ⟨⟨"h", "onSuccess", none⟩, ⟨"x", "execute", none⟩⟩,
      ⟨⟨"h", "onFailure", none⟩, ⟨"y", "execute", none⟩⟩, ⟨⟨"x", "out", none⟩, ⟨"e", "in", none⟩⟩,
      ⟨⟨"e", "out", none⟩, ⟨"v", "in", none⟩⟩, ⟨⟨"e", "out", none⟩, ⟨"f", "in", none⟩⟩]
  scopes := [⟨"m", "body", ["f"]⟩]

/-- **A merge binding may be read outside of the arm that declares it**, if an expression is needed
by what reads nothing of it. -/
theorem nestedIdleReader_out_of_scope :
    ∃ plan, (validate nestedIdleReader).hasErrors = false ∧ nestedIdleReader.DistinctNames ∧
      (({} : Scheduler).schedule nestedIdleReader).outcome = .ok plan ∧
      (∃ spot ∈ plan.body.spots [], spot.path = [] ∧
        ∃ step, spot.node.ran? = some step ∧ step.node = "e" ∧
        ⟨"in", .merged "e.in"⟩ ∈ step.inputs) ∧
      (∀ branch ∈ plan.body.spots [], branch.Declares "e.in" → branch.path = [.arm "g" true]) ∧
      ¬ plan.ReadsInScope := by
  obtain ⟨plan, scheduled, shown⟩ := exists_of_toOption_map
    (show (({} : Scheduler).schedule nestedIdleReader).outcome.toOption.map (fun plan =>
        (((plan.body.spots []).filterMap Spot.place?).filter (fun place =>
          place.1 == [] && place.2.node == "e"),
          ((plan.body.spots []).filter fun spot =>
            (spot.node.declares.map (·.id)).contains "e.in").map (·.path))) =
      some ([([], ⟨"e", "Upper", [⟨"in", .merged "e.in"⟩], []⟩)],
        [[.arm "g" true]]) by decide +kernel)
  obtain ⟨runs, branches⟩ := Prod.mk.inj shown
  have declared : ∀ branch ∈ plan.body.spots [], branch.Declares "e.in" →
      branch.path = [.arm "g" true] := by
    intro branch member declares
    obtain ⟨hoisted, among, same⟩ := declares
    have listed : branch.path ∈ [[Enclosure.arm "g" true]] := by
      rw [← branches]
      refine List.mem_map.mpr ⟨branch, List.mem_filter.mpr ⟨member, ?_⟩, rfl⟩
      exact List.contains_iff_mem.mpr (List.mem_map.mpr ⟨hoisted, among, same⟩)
    exact List.mem_singleton.mp listed
  obtain ⟨place, _⟩ := List.mem_filter.mp (runs ▸ List.mem_singleton_self _)
  obtain ⟨spot, member, found⟩ := List.mem_filterMap.mp place
  obtain ⟨step, ran, same⟩ := Option.map_eq_some_iff.mp found
  obtain ⟨path, rfl⟩ := Prod.mk.inj same
  refine ⟨plan, by decide +kernel, by decide +kernel, scheduled,
    ⟨spot, member, path, _, ran, rfl, by simp⟩, declared,
    fun inScope => ?_⟩
  obtain ⟨before, after, split⟩ := List.append_of_mem member
  obtain ⟨branch, inFront, declares, suffix⟩ :=
    inScope before spot after split _ ran _ List.mem_cons_self _ rfl
  rw [declared branch (split ▸ List.mem_append_left _ inFront) declares, path] at suffix
  cases List.suffix_nil.mp suffix

/-- The same with a task in the loop that reads the expression there, and with a branch in the loop,
from one of whose arms the loop collects a value. -/
def nestedBusyReader : Workflow :=
  { nestedIdleReader with
    name := "nested-busy-reader"
    nodeTypes :=
      [taskType, ((NodeType.expression "Upper").withInput "in" .string).withOutput "out" .string,
        collectorType "sum"]
    instances := nestedIdleReader.instances ++ ["w", "k", "p", "q"].map fun id =>
      { id := id, nodeType := "Task", parentScope := some ⟨"m", "body"⟩ }
    connections := nestedIdleReader.connections ++
      [⟨⟨"f", "out", none⟩, ⟨"w", "in", none⟩⟩, ⟨⟨"k", "onSuccess", none⟩, ⟨"p", "execute", none⟩⟩,
        ⟨⟨"k", "onFailure", none⟩, ⟨"q", "execute", none⟩⟩,
        ⟨⟨"p", "out", none⟩, ⟨"m", "sum", some "body"⟩⟩]
    scopes := [⟨"m", "body", ["f", "w", "k", "p", "q"]⟩] }

theorem hoisted_scoped_iff_nestedBusyReader :
    ∃ plan, (validate nestedBusyReader).hasErrors = false ∧ nestedBusyReader.DistinctNames ∧
      (({} : Scheduler).schedule nestedBusyReader).outcome = .ok plan ∧
      plan.body.walk.filterMap (fun node =>
        node.branchesOn?.map fun head => (head, node.declares.map (·.id))) =
        [("g", ["e.in"]), ("h", []), ("k", ["m.sum"])] ∧
      plan.body.walk.flatMap (fun node => node.frames.map (·.results)) =
        [[⟨"sum", .merged "m.sum"⟩]] ∧
      plan.ExportsInScope ∧ plan.ReturnsInScope ∧ plan.ResultsInScope ∧ plan.ReadsInScope := by
  have valid : (validate nestedBusyReader).hasErrors = false := by decide +kernel
  have clear : nestedBusyReader.DistinctNames := by decide +kernel
  obtain ⟨plan, scheduled, shown⟩ := exists_of_toOption_map
    (show (({} : Scheduler).schedule nestedBusyReader).outcome.toOption.map (fun plan =>
        (plan.body.walk.filterMap (fun node =>
          node.branchesOn?.map fun head => (head, node.declares.map (·.id))),
        plan.body.walk.flatMap (fun node => node.frames.map (·.results)))) =
      some ([("g", ["e.in"]), ("h", []), ("k", ["m.sum"])], [[⟨"sum", .merged "m.sum"⟩]]) by
        decide +kernel)
  obtain ⟨branches, collected⟩ := Prod.mk.inj shown
  have inScope : ∀ inst ∈ nestedBusyReader.instances,
      (Index.ofWorkflow nestedBusyReader).isExpression inst.id = true → inst.parentScope ≠ none →
        inst.id = "f" := by
    decide +kernel
  obtain ⟨_, exports, returns, results, _, reads⟩ := hoisted_scoped_iff valid clear scheduled
  refine ⟨plan, valid, clear, scheduled, branches, collected, exports, returns, results,
    reads fun inst member expression nested => ?_⟩
  rw [inScope inst member expression nested]
  exact .inl ⟨"w", by decide, by decide +kernel, .direct (by decide +kernel)⟩

end WorkflowGraph
