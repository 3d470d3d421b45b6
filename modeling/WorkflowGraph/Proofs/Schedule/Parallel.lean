/-
What a plan runs side by side is independent.

The main statement is `siblings_independent`: if an instance that runs in one branch of a parallel
node depends on one that runs in another branch, then that one is an expression, or the dependency
leads into a scope of an expression. Expressions are left out because one that several branches read
may run in each of them (`siblings_independent_sharedExpression`). A scope of an expression is never
entered, and nobody waits for what is read there: `hiddenReader_parallel` is a workflow without
errors whose plan runs two instances side by side of which one depends on the other.

* `Workflow.DependsOn` — dependencies as the connections and scopes of a workflow have them.
* `Scheduler.Placed.used` — a placement of a cluster runs what is inside of the cluster and
  expressions that are read there.
* `Standing.used_of_dependsOn` — the dependencies of what is inside of a ready cluster stay inside
  of it or have been placed before, unless they lead into a scope of an expression.
-/

import Mathlib.Logic.Relation
import WorkflowGraph.Proofs.Schedule.Order

namespace WorkflowGraph

/-! ### Dependencies -/

/-- Whether an instance depends directly on another one: it is fed by it, waits for it as a trigger,
or has it in its scopes. -/
structure Workflow.Needs (workflow : Workflow) (id source : String) : Prop where
  known : source ∈ workflow.instances.map (·.id)
  link : workflow.Feeds source id ∨
    (∃ type ∈ (Index.ofWorkflow workflow).nodeType? id, type.trigger = .conjunction ∧
      workflow.Triggers source id) ∨
    (Index.ofWorkflow workflow).NestedIn source id

/-- Whether an instance depends on another one. -/
def Workflow.DependsOn (workflow : Workflow) : String → String → Prop :=
  Relation.TransGen workflow.Needs

/-- Whether a dependency leads into a scope of an expression. -/
def Workflow.LeadsThroughExpression (workflow : Workflow) (id source : String) : Prop :=
  ∃ owner inner, (Index.ofWorkflow workflow).isExpression owner = true ∧
    (Index.ofWorkflow workflow).NestedIn inner owner ∧
    Relation.ReflTransGen workflow.Needs id owner ∧
    Relation.ReflTransGen workflow.Needs inner source

/-- Whether an instance is one of some, or an expression that one of them reads. -/
def Workflow.Used (workflow : Workflow) (held : String → Prop) (id : String) : Prop :=
  ∃ reader ∈ workflow.instances.map (·.id), held reader ∧
    (id = reader ∨ (Index.ofWorkflow workflow).isExpression id = true ∧
      (Index.ofWorkflow workflow).Reads reader id)

variable {workflow : Workflow}

theorem Workflow.Used.mono {held heldToo : String → Prop} {id : String}
    (used : workflow.Used held id) (more : ∀ reader ∈ workflow.instances.map (·.id), held reader →
      heldToo reader) :
    workflow.Used heldToo id := by
  obtain ⟨reader, known, here, same⟩ := used
  exact ⟨reader, known, more reader known here, same⟩

/-- Expressions are not triggered. -/
theorem Certified.not_triggers_expression (certified : Certified workflow) {id source : String}
    (expression : (Index.ofWorkflow workflow).isExpression id = true) :
    ¬ workflow.Triggers source id := by
  rintro ⟨connection, member, _, rfl, port, atSource, step, _⟩
  obtain ⟨type, typed, isExpression⟩ := Index.isExpression_iff.mp expression
  obtain ⟨_, target, atSourceToo, atTarget, kinds⟩ := certified.ports connection member
  rw [show _ = some port from atSource] at atSourceToo
  cases atSourceToo
  obtain ⟨_, typedToo, inPorts, _⟩ :=
    Index.exists_of_resolve atTarget (certified.ordinary_of_typed typed)
  rw [typed] at typedToo
  cases typedToo
  rw [step, certified.stepless type (Index.nodeType_mem typed) isExpression target inPorts] at kinds
  cases kinds

/-! ### Dependencies of a cluster -/

namespace Standing

variable {block : Block} {pending : List Cluster} {cluster : Cluster}

/-- Whether an instance is inside of a cluster, or has been placed before the block. -/
def Within (workflow : Workflow) (block : Block) (cluster : Cluster) (id : String) : Prop :=
  id ∈ cluster.inside ∨ block.Behind (.ofWorkflow workflow) id

/-- What an instance awaits that is inside of a cluster or has been placed is so too. -/
theorem within_of_awaits (standing : Standing workflow block pending)
    (certified : Certified workflow) (member : cluster ∈ pending)
    (waited : cluster.Waited (.ofWorkflow workflow) block.resolved) {id source : String}
    (within : Within workflow block cluster id) (awaits : workflow.Awaits id source) :
    Within workflow block cluster source := by
  obtain ⟨_, _, isBlock, inBlock⟩ := standing.formed
  rcases within with inside | behind
  · exact certified.awaits_of_inside isBlock (inBlock member) waited inside awaits
  · exact .inr (standing.closed id behind source awaits)

/-- **One step of a dependency** that does not lead into a scope of an expression. -/
theorem used_of_needs (standing : Standing workflow block pending) (certified : Certified workflow)
    (member : cluster ∈ pending) (waited : cluster.Waited (.ofWorkflow workflow) block.resolved)
    {id source : String} (used : workflow.Used (Within workflow block cluster) id)
    (needs : workflow.Needs id source)
    (outside : (Index.ofWorkflow workflow).isExpression id = true →
      ¬ (Index.ofWorkflow workflow).NestedIn source id) :
    workflow.Used (Within workflow block cluster) source := by
  obtain ⟨sourceInst, declared, sameSource⟩ := List.mem_map.mp needs.known
  have ordinary : isBoundary source = false := sameSource ▸ certified.ordinary sourceInst declared
  obtain ⟨reader, known, within, here⟩ := used
  have step : ∀ {other}, other ∈ workflow.instances.map (·.id) → workflow.Awaits reader other →
      workflow.Used (Within workflow block cluster) other := fun otherKnown awaits =>
    ⟨_, otherKnown, standing.within_of_awaits certified member waited within awaits, .inl rfl⟩
  have read : (Index.ofWorkflow workflow).Reads reader source →
      workflow.Used (Within workflow block cluster) source := by
    intro reads
    by_cases expression : (Index.ofWorkflow workflow).isExpression source = true
    · exact ⟨reader, known, within, .inr ⟨expression, reads⟩⟩
    · exact step needs.known
        (.reads (Analysis.mem_dataOf certified.expressionsAcyclic known reads (by simpa using
        expression)))
  rcases here with rfl | ⟨expression, reads⟩
  · rcases needs.link with feeds | ⟨type, typed, conjunction, triggers⟩ | nested
    · exact read (certified.reads_of_feeds feeds ordinary)
    · exact step needs.known (.triggered typed conjunction
        (Certified.triggersOf_of_triggers triggers ordinary known))
    · exact step needs.known (.nested needs.known nested)
  · rcases needs.link with feeds | ⟨_, _, _, triggers⟩ | nested
    · exact read (reads.trans expression (certified.reads_of_feeds feeds ordinary))
    · exact absurd triggers (certified.not_triggers_expression expression)
    · exact absurd nested (outside expression)

/-- **The dependencies of what is used in a ready cluster** stay there, unless they lead into a
scope of an expression. -/
theorem used_of_dependsOn (standing : Standing workflow block pending)
    (certified : Certified workflow) (member : cluster ∈ pending)
    (waited : cluster.Waited (.ofWorkflow workflow) block.resolved) {id source : String}
    (used : workflow.Used (Within workflow block cluster) id)
    (depends : workflow.DependsOn id source) :
    workflow.Used (Within workflow block cluster) source ∨
      workflow.LeadsThroughExpression id source := by
  have step : ∀ {middle last}, workflow.Used (Within workflow block cluster) middle →
      Relation.ReflTransGen workflow.Needs id middle → workflow.Needs middle last →
      workflow.Used (Within workflow block cluster) last ∨
      workflow.LeadsThroughExpression id last := by
    intro middle last used path needs
    by_cases inScope : (Index.ofWorkflow workflow).isExpression middle = true ∧
        (Index.ofWorkflow workflow).NestedIn last middle
    · exact .inr ⟨middle, last, inScope.1, inScope.2, path, .refl⟩
    · refine .inl (standing.used_of_needs certified member waited used needs
        fun expression nested => ?_)
      exact inScope ⟨expression, nested⟩
  induction depends with
  | single needs => exact step used .refl needs
  | tail path needs ih =>
      rcases ih with usedToo | ⟨owner, inner, expression, nested, first, second⟩
      · exact step usedToo path.to_reflTransGen needs
      · exact .inr ⟨owner, inner, expression, nested, first, second.tail needs⟩

/-- **What is used in one of two clusters does not depend on what is used in the other**, apart from
expressions and from dependencies into scopes of expressions. -/
theorem independent (standing : Standing workflow block pending) (certified : Certified workflow)
    {first second : Cluster} (inFirst : first ∈ pending) (inSecond : second ∈ pending)
    (waited : first.Waited (.ofWorkflow workflow) block.resolved)
    (apart : first.inside.Disjoint second.inside) {id source : String}
    (used : workflow.Used (· ∈ first.inside) id)
    (usedToo : workflow.Used (· ∈ second.inside) source) (depends : workflow.DependsOn id source) :
    (Index.ofWorkflow workflow).isExpression source = true ∨
      workflow.LeadsThroughExpression id source := by
  refine (standing.used_of_dependsOn certified inFirst waited (used.mono fun _ _ => .inl)
    depends).imp_left fun ⟨reader, _, within, here⟩ => ?_
  rcases here with rfl | ⟨expression, _⟩
  · obtain ⟨other, _, inside, rfl | ⟨expression, _⟩⟩ := usedToo
    · rcases within with insideFirst | behind
      · exact absurd inside (apart insideFirst)
      · exact absurd ⟨second, inSecond, inside⟩ (standing.fresh _ behind.1)
    · exact expression
  · exact expression

end Standing

/-! ### What a placement runs -/

namespace Scheduler

open Placement

variable {scheduler : Scheduler}

/-- What the members of a block hold, and what lives in its region if the block is the region as a
whole. -/
def OfBlock (workflow : Workflow) (block : Block) (id : String) : Prop :=
  (∃ member ∈ block.members, (Index.ofWorkflow workflow).Holds member id) ∨
    block.isWhole = true ∧ (Index.ofWorkflow workflow).regionOf id = block.region

theorem used_of_inlined {block : Block} {needed ids : List String} {held : String → Prop}
    (found : (Analysis.ofWorkflow workflow).inlineNeeded block needed = .ok ids)
    (used : ∀ id ∈ needed, workflow.Used held id) :
    ∀ id ∈ (placingsOfAll (ids.map .inlined)).map Placing.id, workflow.Used held id := by
  rw [placingsOfAll_inlined, List.map_map]
  intro id member
  obtain ⟨inlined, listed, rfl⟩ := List.mem_map.mp member
  exact used _ ((Analysis.mem_inlineNeeded found).mp listed).2.1

variable {members : List String} {block : Block} {cluster : Cluster}

theorem used_of_nested (certified : Certified workflow)
    (isBlock : IsBlock workflow block.region members)
    (member : cluster ∈ Cluster.ofBlock (.ofWorkflow workflow) members) {id : String}
    (used : workflow.Used
      (fun reader => (Index.ofWorkflow workflow).NestedIn reader cluster.head) id) :
    workflow.Used (· ∈ cluster.inside) id :=
  used.mono fun _ known nested =>
    (certified.mem_inside isBlock member).mpr ⟨known, _, List.mem_cons_self, .inr nested⟩

theorem used_of_arm (certified : Certified workflow)
    (isBlock : IsBlock workflow block.region members)
    (member : cluster ∈ Cluster.ofBlock (.ofWorkflow workflow) members) {arms : Arms}
    {arm other : List String} (branching : cluster.arms = some arms)
    (opposite : arms.Opposite arm other) {id : String}
    (used : workflow.Used
      (OfBlock workflow (block.ofArm (.ofWorkflow workflow) cluster.head arm)) id) :
    workflow.Used (· ∈ cluster.inside) id := by
  refine used.mono fun reader known held => ?_
  refine (certified.mem_inside_branch isBlock member branching opposite).mpr (.inr (.inl ?_))
  exact (certified.exists_inside_iff (Certified.isBlock_arm isBlock member branching opposite)).mpr
    ⟨known, held.resolve_right fun whole => nomatch whole.1⟩

/-- Whether placements of a block run what its members hold, and expressions that are read there. -/
def RunsUsed (workflow : Workflow) (block : Block) (placements : List Placement) : Prop :=
  IsBlock workflow block.region block.members →
    (block.isWhole = true → ∀ scope, block.region = some scope → isBoundary scope.owner = false) →
    ∀ id ∈ (placingsOfAll placements).map Placing.id, workflow.Used (OfBlock workflow block) id

/-- Whether the placement of a cluster runs what is inside of the cluster, and expressions that are
read there. -/
def ClusterRunsUsed (workflow : Workflow) (block : Block) (cluster : Cluster)
    (placement : Placement) : Prop :=
  IsBlock workflow block.region block.members →
    ∀ id ∈ placement.placings.map Placing.id, workflow.Used (· ∈ cluster.inside) id

theorem used_bodies {owner : String} {names : List String} {bodies : List (String × List Placement)}
    (inside : List.Forall₂ (BodyPlaced scheduler (.ofWorkflow workflow)
      (fun block _ => RunsUsed workflow block) block owner) names bodies)
    (ordinary : isBoundary owner = false) :
    ∀ id ∈ (placingsOfBodies bodies).map Placing.id,
      workflow.Used (fun reader => (Index.ofWorkflow workflow).NestedIn reader owner) id := by
  rw [placingsOfBodies_eq, List.map_flatMap]
  refine forall_mem_flatMap_of_forall₂ inside fun name entry body id placed => ?_
  refine (body.holds (.whole _) (fun _ scope same => ?_) id placed).mono fun reader _ held => ?_
  · cases same
    exact ordinary
  · rcases held with ⟨member, inScope, held⟩ | ⟨_, lives⟩
    · have nested : (Index.ofWorkflow workflow).NestedIn member owner :=
        ⟨name, Index.regionOf_of_mem_scheduledIn inScope ▸ .refl _⟩
      exact nested.of_holds held
    · exact ⟨name, lives ▸ .refl _⟩

theorem used_cases (certified : Certified workflow) :
    Induction scheduler (.ofWorkflow workflow) (fun block _ => RunsUsed workflow block)
      (ClusterRunsUsed workflow) where
  done _ ordered isBlock owned := by
    refine used_of_inlined ordered fun id sinks => ?_
    obtain ⟨whole, sinks⟩ := Block.mem_sinks.mp sinks
    obtain ⟨reader, known, lives, _, read⟩ := certified.reader_of_sink (owned whole) sinks
    refine ⟨reader, known, .inr ⟨whole, lives⟩, read.imp_right fun reads => ⟨?_, reads⟩⟩
    exact ((Analysis.mem_sinkExpressions certified.expressionsAcyclic).mp sinks).1
  round {block _ _ _ _ _ _} _ among parted ordered each rest isBlock owned := by
    have inBlock := (List.append_subset.mp ((splitReady_perm parted).subperm.trans among).subset).1
    rw [placingsOfAll_round, List.map_append, List.map_append, ← placingsOfAll_inlined]
    refine List.forall_mem_append.mpr ⟨used_of_inlined ordered fun id needed => ?_,
      List.forall_mem_append.mpr ⟨?_, rest isBlock owned⟩⟩
    · obtain ⟨cluster, isReady, needed⟩ := List.mem_flatMap.mp needed
      obtain ⟨expression, _, reader, known, held, reads⟩ :=
        (certified.mem_neededBy_iff isBlock (inBlock isReady)).mp needed
      have headIn := (Cluster.exists_of_mem_ofBlock (inBlock isReady)).2.1
      exact ⟨reader, known, .inl ⟨_, headIn, held⟩, .inr ⟨expression, reads⟩⟩
    · rw [placingsOfAll_eq, List.map_flatMap, List.forall_mem_flatMap]
      intro placement member id placed
      obtain ⟨cluster, isReady, _, used⟩ := exists_left_of_mem each member
      refine (used isBlock id placed).mono fun reader _ inside => .inl ?_
      exact ((certified.exists_inside_iff isBlock).mp ⟨cluster, inBlock isReady, inside⟩).2
  node _ member typed inside _ isBlock := by
    have named := isBlock.named (Cluster.exists_of_mem_ofBlock member).2.1
    rw [placings, List.map_cons, Placing.run_id, List.forall_mem_cons]
    exact ⟨⟨_, named, Cluster.head_mem_inside member, .inl rfl⟩, fun id inBodies =>
      used_of_nested certified isBlock member
        (used_bodies inside (certified.ordinary_of_typed typed) id inBodies)⟩
  branch _ member typed inside branching onSuccess onFailure isBlock := by
    have named := isBlock.named (Cluster.exists_of_mem_ofBlock member).2.1
    rw [placings, List.map_cons, Placing.run_id, List.map_append, List.map_append,
      List.forall_mem_cons, List.forall_mem_append, List.forall_mem_append]
    have thenBlock := Certified.isBlock_arm isBlock member branching .success
    have elseBlock := Certified.isBlock_arm isBlock member branching .failure
    refine ⟨⟨_, named, Cluster.head_mem_inside member, .inl rfl⟩, fun id inBodies => ?_,
      fun id inThen => ?_, fun id inElse => ?_⟩
    · exact used_of_nested certified isBlock member
        (used_bodies inside (certified.ordinary_of_typed typed) id inBodies)
    · exact used_of_arm certified isBlock member branching .success
        (onSuccess.holds thenBlock (fun whole => nomatch whole) id inThen)
    · exact used_of_arm certified isBlock member branching .failure
        (onFailure.holds elseBlock (fun whole => nomatch whole) id inElse)

/-- **A placement of a cluster runs what is inside of the cluster**, and expressions that are read
there. -/
theorem Placed.used (certified : Certified workflow) {placement : Placement}
    (placed : Placed scheduler (.ofWorkflow workflow) block cluster placement)
    (formed : Formed (.ofWorkflow workflow) block.members)
    (member : cluster ∈ Cluster.ofBlock (.ofWorkflow workflow) block.members)
    (isBlock : IsBlock workflow block.region block.members) :
    ∀ id ∈ placement.placings.map Placing.id, workflow.Used (· ∈ cluster.inside) id :=
  placed.induction (used_cases certified) formed member isBlock

end Scheduler

/-! ### Siblings -/

/-- What the branches of a parallel node run. -/
def PlanNode.siblings? : PlanNode → Option (List (List String))
  | parallel branches => some (branches.map instances)
  | _ => none

namespace Placement

mutual

/-- What is placed side by side in a placement. -/
def siblings : Placement → List (List (List String))
  | .inlined _ => []
  | .node _ bodies => siblingsOfBodies bodies
  | .branch _ bodies thenArm elseArm =>
    siblingsOfBodies bodies ++ (siblingsOfAll thenArm ++ siblingsOfAll elseArm)
  | .parallel clusters =>
    (clusters.map fun placement => placement.placings.map Placing.id) :: siblingsOfAll clusters

/-- What is placed side by side in several placements. -/
def siblingsOfAll : List Placement → List (List (List String))
  | [] => []
  | placement :: rest => siblings placement ++ siblingsOfAll rest

/-- What is placed side by side in the insides of scopes. -/
def siblingsOfBodies : List (String × List Placement) → List (List (List String))
  | [] => []
  | (_, body) :: rest => siblingsOfAll body ++ siblingsOfBodies rest

end

theorem siblingsOfAll_eq (placements : List Placement) :
    siblingsOfAll placements = placements.flatMap siblings := by
  induction placements with
  | nil => rfl
  | cons placement rest ih => rw [siblingsOfAll, List.flatMap_cons, ih]

theorem siblingsOfBodies_eq (bodies : List (String × List Placement)) :
    siblingsOfBodies bodies = bodies.flatMap fun entry => siblingsOfAll entry.2 := by
  induction bodies with
  | nil => rfl
  | cons entry rest ih => rw [siblingsOfBodies, List.flatMap_cons, ih]

theorem siblingsOfAll_append (first second : List Placement) :
    siblingsOfAll (first ++ second) = siblingsOfAll first ++ siblingsOfAll second := by
  rw [siblingsOfAll_eq, siblingsOfAll_eq, siblingsOfAll_eq, List.flatMap_append]

theorem siblingsOfAll_inlined (ids : List String) : siblingsOfAll (ids.map .inlined) = [] := by
  induction ids with
  | nil => rfl
  | cons id rest ih => simp only [List.map_cons, siblingsOfAll, siblings, ih, List.append_nil]

theorem mem_siblingsOfAll_together {placements : List Placement} {group : List (List String)}
    (member : group ∈ siblingsOfAll (Scheduler.together placements)) :
    group = (placements.map fun placement => placement.placings.map Placing.id) ∨
      group ∈ siblingsOfAll placements := by
  unfold Scheduler.together at member
  split at member
  · exact .inr member
  · simpa only [siblingsOfAll, siblings, List.append_nil, List.mem_cons] using member

end Placement

namespace PlanNode

theorem instances_eq (node : PlanNode) :
    node.instances = (node.walk.filterMap placing?).map Placing.id := by
  rw [instances, List.map_filterMap]
  refine List.filterMap_congr fun below _ => ?_
  cases below <;> rfl

theorem siblings_ofBlock (nodes : List PlanNode) :
    (walk (ofBlock nodes)).filterMap siblings? = (walkAll nodes).filterMap siblings? := by
  unfold ofBlock
  split
  · simp only [walkAll, List.append_nil]
  · simp only [walk, List.filterMap_cons, siblings?]

end PlanNode

namespace Binding

open PlanNode Placement

theorem siblings_runNode (step : Step) (bodies : List (ScopeFrame × PlanNode)) :
    (walk (runNode step bodies)).filterMap siblings? = (walkBodies bodies).filterMap siblings? := by
  cases bodies <;> rfl

theorem instances_placeEach (index : Index) (merges : List Merge) (placements : List Placement) :
    (placeEach index merges placements).1.map instances =
      placements.map fun placement => placement.placings.map Placing.id := by
  induction placements generalizing merges with
  | nil => rfl
  | cons placement rest ih =>
      simp only [placeEach, List.map_cons, ih, instances_eq, placings_ofBlock, placings_place]

mutual

theorem siblings_place (index : Index) (merges : List Merge) (placement : Placement) :
    (walkAll (place index merges placement).1).filterMap siblings? = placement.siblings := by
  cases placement with
  | inlined id => rfl
  | node id bodies =>
      simp only [place, walkAll, List.append_nil, siblings_runNode, siblings_placeBodies, siblings]
  | branch cluster bodies thenArm elseArm =>
      simp only [place, walkAll, walk, List.append_nil, List.filterMap_append, siblings_runNode,
        siblings_placeBodies, siblings_ofBlock, siblings_placeAll, siblings, List.filterMap_cons,
        siblings?]
  | parallel clusters =>
      simp only [place, walkAll, walk, List.append_nil, List.filterMap_cons, siblings?,
        siblings_placeEach, instances_placeEach, siblings]

theorem siblings_placeAll (index : Index) (merges : List Merge) (placements : List Placement) :
    (walkAll (placeAll index merges placements).1).filterMap siblings? =
      siblingsOfAll placements := by
  cases placements with
  | nil => rfl
  | cons placement rest =>
      simp only [placeAll, walkAll_append, List.filterMap_append, siblings_place, siblings_placeAll,
        siblingsOfAll]

theorem siblings_placeEach (index : Index) (merges : List Merge) (placements : List Placement) :
    (walkAll (placeEach index merges placements).1).filterMap siblings? =
      siblingsOfAll placements := by
  cases placements with
  | nil => rfl
  | cons placement rest =>
      simp only [placeEach, walkAll, List.filterMap_append, siblings_ofBlock, siblings_place,
        siblings_placeEach, siblingsOfAll]

theorem siblings_placeBodies (index : Index) (merges : List Merge) (owner : String)
    (bodies : List (String × List Placement)) :
    (walkBodies (placeBodies index merges owner bodies).1).filterMap siblings? =
      siblingsOfBodies bodies := by
  cases bodies with
  | nil => rfl
  | cons entry rest =>
      obtain ⟨name, body⟩ := entry
      simp only [placeBodies, walkBodies, List.filterMap_append, siblings_ofBlock,
        siblings_placeAll, siblings_placeBodies, siblingsOfBodies]

end

theorem siblings_plan (index : Index) (placements : List Placement) :
    (Binding.plan index placements).body.walk.filterMap siblings? = siblingsOfAll placements :=
  (siblings_ofBlock _).trans (siblings_placeAll index [] placements)

end Binding

/-- Whether none of some instances depends on any of others, apart from expressions and from
dependencies that lead into a scope of an expression. -/
def Workflow.Independent (workflow : Workflow) (first second : List String) : Prop :=
  ∀ id ∈ first, ∀ source ∈ second, workflow.DependsOn id source →
    (Index.ofWorkflow workflow).isExpression source = true ∨
      workflow.LeadsThroughExpression id source

/-- Whether of some groups of instances none depends on another one. -/
def Workflow.Parted (workflow : Workflow) (groups : List (List String)) : Prop :=
  groups.Pairwise fun first second => workflow.Independent first second ∧
    workflow.Independent second first

namespace Scheduler

open Placement

variable {scheduler : Scheduler}

/-- **The clusters of one round are independent.** -/
theorem parted_placed {block : Block} {clusters pending : List Cluster}
    {placements : List Placement}
    (each : List.Forall₂ (Placed scheduler (.ofWorkflow workflow) block) clusters placements)
    (certified : Certified workflow) (formed : Formed (.ofWorkflow workflow) block.members)
    (isBlock : IsBlock workflow block.region block.members)
    (inBlock : clusters ⊆ Cluster.ofBlock (.ofWorkflow workflow) block.members)
    (standing : Standing workflow block pending) (subset : clusters ⊆ pending)
    (waited : ∀ cluster ∈ clusters, cluster.Waited (.ofWorkflow workflow) block.resolved)
    (apart : clusters.Pairwise fun first second => first.inside.Disjoint second.inside) :
    workflow.Parted (placements.map fun placement => placement.placings.map Placing.id) := by
  induction each with
  | nil => exact .nil
  | cons first rest ih =>
      obtain ⟨inFirst, inRest⟩ := List.cons_subset.mp inBlock
      obtain ⟨isPending, restPending⟩ := List.cons_subset.mp subset
      obtain ⟨waitedFirst, waitedRest⟩ := List.forall_mem_cons.mp waited
      obtain ⟨apartFirst, apartRest⟩ := List.pairwise_cons.mp apart
      refine List.pairwise_cons.mpr
        ⟨fun group member => ?_, ih inRest restPending waitedRest apartRest⟩
      obtain ⟨placement, among, rfl⟩ := List.mem_map.mp member
      obtain ⟨other, isOther, placed⟩ := exists_left_of_mem rest among
      have usedFirst := first.used certified formed inFirst isBlock
      have usedOther := placed.used certified formed (inRest isOther) isBlock
      exact ⟨fun id placed source placedToo => standing.independent certified isPending
          (restPending isOther) waitedFirst (apartFirst other isOther) (usedFirst id placed)
          (usedOther source placedToo),
        fun id placed source placedToo => standing.independent certified (restPending isOther)
          isPending (waitedRest other isOther) (apartFirst other isOther).symm (usedOther id placed)
          (usedFirst source placedToo)⟩

/-- Whether placements of pending clusters place independent groups side by side. -/
def Parts (workflow : Workflow) (block : Block) (pending : List Cluster)
    (placements : List Placement) : Prop :=
  IsBlock workflow block.region block.members → Standing workflow block pending →
    ∀ group ∈ siblingsOfAll placements, workflow.Parted group

/-- Whether the placement of a cluster places independent groups side by side. -/
def ClusterParts (workflow : Workflow) (block : Block) (cluster : Cluster) (placement : Placement) :
    Prop :=
  ∀ pending, IsBlock workflow block.region block.members → Standing workflow block pending →
    cluster ∈ pending → cluster.Waited (.ofWorkflow workflow) block.resolved →
    ∀ group ∈ placement.siblings, workflow.Parted group

theorem parted_bodies {block : Block} {owner : String} {names : List String}
    {bodies : List (String × List Placement)}
    (inside : List.Forall₂ (BodyPlaced scheduler (.ofWorkflow workflow) (Parts workflow) block
      owner) names bodies)
    (standing : ∀ name ∈ names, Standing workflow (block.body (.ofWorkflow workflow) owner name)
      (Cluster.ofBlock (.ofWorkflow workflow)
        ((Index.ofWorkflow workflow).scheduledIn (some ⟨owner, name⟩)))) :
    ∀ group ∈ siblingsOfBodies bodies, workflow.Parted group := by
  rw [siblingsOfBodies_eq, List.forall_mem_flatMap]
  intro entry member
  obtain ⟨name, declares, body⟩ := exists_left_of_mem inside member
  exact body.holds (.whole _) (standing name declares)

theorem parted_cases (certified : Certified workflow) :
    Induction scheduler (.ofWorkflow workflow) (Parts workflow) (ClusterParts workflow) where
  done _ _ _ _ := by
    rw [siblingsOfAll_inlined]
    exact fun _ none => (nomatch none)
  round {_ pending ready _ ids _ _} formed among parted _ each rest isBlock standing := by
    have perm := splitReady_perm parted
    have waited := waited_of_splitReady parted
    have inlinedStanding := standing.withInlined ids
    have isPending : ready ⊆ pending := fun cluster member =>
      perm.subset (List.mem_append_left _ member)
    rw [siblingsOfAll_append, siblingsOfAll_append, siblingsOfAll_inlined, List.nil_append,
      List.forall_mem_append]
    refine ⟨fun group member => ?_,
      rest isBlock (inlinedStanding.withPlaced certified perm waited)⟩
    rcases mem_siblingsOfAll_together member with rfl | deeper
    · have placed := each.imp fun _ _ known => known.1
      exact parted_placed placed certified formed isBlock
        (fun cluster member => among.subset (isPending member)) inlinedStanding isPending waited
        (List.pairwise_append.mp (apart_of_perm perm standing.apart)).1
    · rw [siblingsOfAll_eq] at deeper
      obtain ⟨placement, here, inside⟩ := List.mem_flatMap.mp deeper
      obtain ⟨cluster, isReady, _, parts⟩ := exists_left_of_mem each here
      exact parts pending isBlock inlinedStanding (isPending isReady) (waited cluster isReady) group
        inside
  node _ _ typed inside _ pending _ standing member _ :=
    parted_bodies inside fun _ declares => standing.body certified member typed declares
  branch _ inBlock typed inside branching onSuccess onFailure pending isBlock standing
      member waited := by
    rw [siblings, List.forall_mem_append, List.forall_mem_append]
    exact ⟨parted_bodies inside fun _ declares => standing.body certified member typed declares,
      onSuccess.holds (Certified.isBlock_arm isBlock inBlock branching .success)
        (standing.arm certified member waited branching .success),
      onFailure.holds (Certified.isBlock_arm isBlock inBlock branching .failure)
        (standing.arm certified member waited branching .failure)⟩

/-- **All that an arrangement of a workflow places side by side is independent.** -/
theorem Arranged.parted (certified : Certified workflow) {placements : List Placement}
    (arranged : Arranged scheduler (.ofWorkflow workflow)
      (.ofRegion (.ofWorkflow workflow) none [] []) placements) :
    ∀ group ∈ siblingsOfAll placements, workflow.Parted group :=
  arranged.induction (parted_cases certified) .top (.whole none) (.top certified)

end Scheduler

/-- **Branches of a parallel node are independent**: what runs in one of them depends on nothing
that runs in another one, apart from expressions and from dependencies that lead into a scope of an
expression. Expressions are left out because one that several branches read may run in each of them,
as in `sharedExpression`. -/
theorem siblings_independent {scheduler : Scheduler} {plan : Plan}
    (valid : (validate workflow).hasErrors = false)
    (scheduled : (scheduler.schedule workflow).outcome = .ok plan) {branches : List PlanNode}
    (parallel : .parallel branches ∈ plan.body.walk) :
    branches.Pairwise fun first second => workflow.Independent first.instances second.instances ∧
      workflow.Independent second.instances first.instances := by
  have certified := certified_of_validate valid
  obtain ⟨placements, arranged, rfl⟩ := Scheduler.exists_arranged scheduled
  refine List.pairwise_map.mp (arranged.parted certified _ ?_)
  rw [← Binding.siblings_plan (.ofWorkflow workflow)]
  exact List.mem_filterMap.mpr ⟨_, parallel, rfl⟩

/-- Two branches side by side, in which one expression is read. -/
def sharedExpression : Workflow where
  name := "shared expression"
  nodeTypes :=
    [taskType, ((NodeType.expression "Upper").withInput "in" .string).withOutput "out" .string]
  instances :=
    [{ id := "h", nodeType := "Task" }, { id := "x", nodeType := "Task" },
      { id := "y", nodeType := "Task" },
      { id := "k", nodeType := "Task" }, { id := "u", nodeType := "Task" },
      { id := "v", nodeType := "Task" },
      { id := "z", nodeType := "Task" }, { id := "e", nodeType := "Upper" }]
  connections :=
    [⟨⟨"h", "onSuccess", none⟩, ⟨"x", "execute", none⟩⟩,
      ⟨⟨"h", "onFailure", none⟩, ⟨"y", "execute", none⟩⟩,
      ⟨⟨"k", "onSuccess", none⟩, ⟨"u", "execute", none⟩⟩,
      ⟨⟨"k", "onFailure", none⟩, ⟨"v", "execute", none⟩⟩,
      ⟨⟨"z", "out", none⟩, ⟨"e", "in", none⟩⟩, ⟨⟨"e", "out", none⟩, ⟨"x", "in", none⟩⟩,
      ⟨⟨"e", "out", none⟩, ⟨"u", "in", none⟩⟩]

/-- A parallel node of a plan, found by what its branches run. -/
theorem exists_parallel {scheduler : Scheduler} {groups : List (List String)}
    (found : (scheduler.schedule workflow).outcome.toOption.map
      (fun plan => plan.body.walk.filterMap PlanNode.siblings?) = some [groups]) :
    ∃ plan branches, (scheduler.schedule workflow).outcome = .ok plan ∧
      .parallel branches ∈ plan.body.walk ∧ branches.map PlanNode.instances = groups := by
  obtain ⟨plan, scheduled, siblings⟩ := exists_of_toOption_map found
  obtain ⟨node, member, same⟩ := List.mem_filterMap.mp (siblings ▸ List.mem_singleton_self groups)
  cases node with
  | parallel branches => exact ⟨plan, branches, scheduled, member, Option.some.inj same⟩
  | _ => cases same

/-- The branches depend on the expression that each of them computes. -/
theorem siblings_independent_sharedExpression :
    ∃ plan branches, (validate sharedExpression).hasErrors = false ∧
      (({} : Scheduler).schedule sharedExpression).outcome = .ok plan ∧
      .parallel branches ∈ plan.body.walk ∧
      branches.map PlanNode.instances = [["h", "e", "x", "y"], ["k", "e", "u", "v"]] ∧
      sharedExpression.DependsOn "x" "e" ∧
      branches.Pairwise fun first second => sharedExpression.Independent first.instances
        second.instances ∧ sharedExpression.Independent second.instances first.instances := by
  have valid : (validate sharedExpression).hasErrors = false := by decide +kernel
  obtain ⟨plan, branches, scheduled, parallel, groups⟩ := exists_parallel
    (show (({} : Scheduler).schedule sharedExpression).outcome.toOption.map
        (fun plan => plan.body.walk.filterMap PlanNode.siblings?) =
      some [[["h", "e", "x", "y"], ["k", "e", "u", "v"]]] by decide +kernel)
  have reads : sharedExpression.Needs "x" "e" := ⟨by decide, .inl (.direct (by decide +kernel))⟩
  exact ⟨plan, branches, valid, scheduled, parallel, groups, .single reads,
    siblings_independent valid scheduled parallel⟩

/-- An instance that reads an expression with a scope, in which another instance is read. -/
def hiddenReader : Workflow where
  name := "hidden-reader"
  nodeTypes :=
    [taskType, ((NodeType.expression "Each").withOutput "out" .string).withPort
      { Port.dataOutput "item" .string with scope := some "body" }]
  instances :=
    [{ id := "z", nodeType := "Task" }, { id := "e", nodeType := "Each" },
      { id := "x", nodeType := "Task", parentScope := some ⟨"e", "body"⟩ },
      { id := "v", nodeType := "Task" }]
  connections := [⟨⟨"z", "out", none⟩, ⟨"x", "in", none⟩⟩, ⟨⟨"e", "out", none⟩, ⟨"v", "in", none⟩⟩]
  scopes := [⟨"e", "body", ["x"]⟩]

/-- **Nobody waits for what is read in a scope of an expression.** -/
theorem hiddenReader_parallel :
    ∃ plan branches, (validate hiddenReader).hasErrors = false ∧
      (({} : Scheduler).schedule hiddenReader).outcome = .ok plan ∧
      .parallel branches ∈ plan.body.walk ∧ branches.map PlanNode.instances = [["z"], ["v"]] ∧
      (Index.ofWorkflow hiddenReader).isExpression "z" = false ∧
      hiddenReader.DependsOn "v" "z" := by
  obtain ⟨plan, branches, scheduled, parallel, groups⟩ := exists_parallel
    (show (({} : Scheduler).schedule hiddenReader).outcome.toOption.map
        (fun plan => plan.body.walk.filterMap PlanNode.siblings?) =
        some [[["z"], ["v"]]] by decide +kernel)
  refine ⟨plan, branches, by decide +kernel, scheduled, parallel, groups, by decide +kernel, ?_⟩
  have given : hiddenReader.Needs "v" "e" := ⟨by decide, .inl (.direct (by decide +kernel))⟩
  have lives : (Index.ofWorkflow hiddenReader).regionOf "x" = some ⟨"e", "body"⟩ := by
    decide +kernel
  have holds : hiddenReader.Needs "e" "x" := ⟨by decide, .inr (.inr ⟨"body", lives ▸ .refl _⟩)⟩
  have reads : hiddenReader.Needs "x" "z" := ⟨by decide, .inl (.direct (by decide +kernel))⟩
  exact ((Relation.TransGen.single given).tail holds).tail reads

end WorkflowGraph
