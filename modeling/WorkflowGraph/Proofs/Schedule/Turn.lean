/-
The turn of an instance in the order of a plan.

Stages are walked in the order of the plan. A reader reaches what has been bound in nothing but what
it lies in itself; what has been bound aside, in an arm of a branch, it reads through a merge
binding.

* `Context` — what is known when a block is arranged, after some stages. It is kept from round to
  round and carries over to the insides of scopes and to arms.
* `Turn` — what is known when an instance is bound: the head of a cluster that has waited, or an
  expression all of whose sources have been placed.
* `Scheduler.Arranged.turns` — every stage of an arrangement has its turn after the stages in front
  of it.
-/

import WorkflowGraph.Proofs.Schedule.Settled
import WorkflowGraph.Proofs.Schedule.Standing

namespace WorkflowGraph

variable {workflow : Workflow}

/-! ### Where an instance has been bound -/

/-- Whether an instance has been bound in nothing but what `path` lies in. -/
def InReach (before : List Stage) (path : List Enclosure) (id : String) : Prop :=
  ∃ stage ∈ before, stage.node = id ∧ stage.path <:+ path

theorem InReach.mono {before more : List Stage} {path inner : List Enclosure} {id : String}
    (inReach : InReach before path id) (subset : before ⊆ more) (suffix : path <:+ inner) :
    InReach more inner id := by
  obtain ⟨stage, member, same, around⟩ := inReach
  exact ⟨stage, subset member, same, around.trans suffix⟩

/-- Whether an instance has been bound in an arm of a branch that pending clusters do not lie in,
and whose head is in reach. -/
def Aside (workflow : Workflow) (before : List Stage) (path : List Enclosure)
    (pending : List Cluster) (id : String) :
    Prop :=
  (∃ stage ∈ before, stage.node = id) ∧ ∃ branch, workflow.HasCluster branch ∧
    id ∈ branch.armMembers ∧
    InReach before path branch.head ∧ ∀ other, Inside pending other → other ∉ branch.inside

theorem Aside.mono {before more : List Stage} {path inner : List Enclosure}
    {pending part : List Cluster} {id : String} (aside : Aside workflow before path pending id)
    (subset : before ⊆ more) (suffix : path <:+ inner)
    (inside : ∀ id, Inside part id → Inside pending id) : Aside workflow more inner part id := by
  obtain ⟨⟨stage, member, same⟩, branch, formed, inArm, head, outside⟩ := aside
  exact ⟨⟨stage, subset member, same⟩, branch, formed, inArm, head.mono subset suffix,
      fun other within =>
    outside other (inside other within)⟩

/-! ### Contexts -/

/-- What is known when pending clusters of a block are to be placed in `path`, after some stages. -/
structure Context (workflow : Workflow) (block : Block) (path : List Enclosure)
    (pending : List Cluster) (before : List Stage) :
    Prop extends Standing workflow block pending where
  /-- The owners of the scopes around the block are in reach. -/
  owners : ∀ owner, (Index.ofWorkflow workflow).Around owner block.region →
    InReach before path owner
  /-- The expressions at hand are in reach. -/
  available : ∀ id ∈ block.available, InReach before path id
  /-- What has been placed around the block is in reach or aside. -/
  resolved : ∀ id ∈ block.resolved,
    (Index.ofWorkflow workflow).Within block.region ((Index.ofWorkflow workflow).regionOf id) →
    InReach before path id ∨ Aside workflow before path pending id
  /-- What the end of the region reads has been placed or is pending. -/
  sinks : block.isWhole = true → ∀ id ∈ (Analysis.ofWorkflow workflow).sinkExpressions block.region,
    (Index.ofWorkflow workflow).Within block.region ((Index.ofWorkflow workflow).regionOf id) ∧
      ∀ source, (Index.ofWorkflow workflow).Reads id source →
        (Index.ofWorkflow workflow).isExpression source = false →
        source ∈ block.resolved ∨ Inside pending source

namespace Context

variable {block : Block} {path : List Enclosure} {pending : List Cluster} {before more : List Stage}
  {cluster : Cluster}

theorem mono (context : Context workflow block path pending before) (subset : before ⊆ more) :
    Context workflow block path pending more :=
  { context with
    owners := fun owner around => (context.owners owner around).mono subset List.suffix_rfl
    available := fun id atHand => (context.available id atHand).mono subset List.suffix_rfl
    resolved := fun id placed visible => (context.resolved id placed visible).imp
      (fun inReach => inReach.mono subset List.suffix_rfl) fun aside =>
        aside.mono subset List.suffix_rfl fun _ inside => inside }

/-- The end of a region whose scheduled instances are pending reads nothing but them and what has
been placed. -/
theorem sinks_region (certified : Certified workflow) {region : Region} {resolved : List String}
    (owned : ∀ scope, region = some scope → isBoundary scope.owner = false)
    (around : ∀ reader ∈ workflow.instances.map (·.id), (Index.ofWorkflow workflow).regionOf
      reader = region → ∀ source ∈ (Analysis.ofWorkflow workflow).dataOf reader,
        source ∈ resolved ∨ (Index.ofWorkflow workflow).regionOf source = region) :
    ∀ id ∈ (Analysis.ofWorkflow workflow).sinkExpressions region,
      (Index.ofWorkflow workflow).Within region ((Index.ofWorkflow workflow).regionOf id) ∧
        ∀ source, (Index.ofWorkflow workflow).Reads id source →
          (Index.ofWorkflow workflow).isExpression source = false →
          source ∈ resolved ∨ Inside (Cluster.ofBlock (.ofWorkflow workflow)
            ((Index.ofWorkflow workflow).scheduledIn region)) source := by
  intro id sinks
  obtain ⟨reader, known, lives, _, read⟩ := certified.reader_of_sink owned sinks
  have expression := ((Analysis.mem_sinkExpressions certified.expressionsAcyclic).mp sinks).1
  refine ⟨?_, fun source reads ordinary => ?_⟩
  · rcases read with rfl | reads
    · exact lives ▸ .refl _
    · exact lives ▸ (certified.reads_inwards known reads).2
  · have readsToo : (Index.ofWorkflow workflow).Reads reader source := by
      rcases read with rfl | first
      · exact reads
      · exact first.trans expression reads
    refine (around reader known lives source
      (Analysis.mem_dataOf certified.expressionsAcyclic known readsToo ordinary)).imp_right
        fun here => ?_
    obtain ⟨inst, declared, rfl⟩ := List.mem_map.mp (certified.reads_inwards known readsToo).1
    rw [certified.regionOf_eq declared] at here
    refine (certified.exists_inside_iff (.whole region)).mpr
      ⟨List.mem_map.mpr ⟨inst, declared, rfl⟩, inst.id,
      Index.mem_scheduledIn.mpr ⟨⟨inst, certified.find?_eq declared, here⟩, ordinary⟩, .inl rfl⟩

/-- The top level before anything is placed. -/
theorem top (certified : Certified workflow) :
    Context workflow (.ofRegion (.ofWorkflow workflow) none [] []) []
      (Cluster.ofBlock (.ofWorkflow workflow) ((Index.ofWorkflow workflow).scheduledIn none)) []
      where
  toStanding := .top certified
  owners := fun owner ⟨_, within⟩ => nomatch within
  available := fun _ none => (nomatch none)
  resolved := fun _ none => (nomatch none)
  sinks := by
    intro _
    refine sinks_region certified (fun _ top => nomatch top) fun reader known lives source reads =>
      .inr ?_
    have inwards := (certified.reads_inwards known (Analysis.sound_dataOf reads).2).2
    rw [lives] at inwards
    generalize (Index.ofWorkflow workflow).regionOf source = region at inwards ⊢
    cases inwards
    rfl

/-- Expressions that are placed are at hand. -/
theorem withInlined (context : Context workflow block path pending before) (ids : List String)
    (merges : List Merge) :
    Context workflow (block.withInlined ids) path pending (before ++ ids.map fun id =>
      ⟨id, merges, path⟩) := by
  have context :=
    context.mono (List.subset_append_left before (ids.map fun id => ⟨id, merges, path⟩))
  refine ⟨context.toStanding.withInlined ids, context.owners, fun id atHand => ?_, context.resolved,
    context.sinks⟩
  rcases List.mem_append.mp atHand with new | old
  · exact ⟨⟨id, merges, path⟩, List.mem_append_right _ (List.mem_map.mpr ⟨id, new, rfl⟩), rfl,
      List.suffix_rfl⟩
  · exact context.available id old

/-- **What a round keeps**: the heads of the clusters that it places are in reach, and the members
of their arms are aside. -/
theorem withPlaced (context : Context workflow block path pending before)
    (certified : Certified workflow) {ready waiting : List Cluster}
    (perm : (ready ++ waiting).Perm pending)
    (waited : ∀ cluster ∈ ready, cluster.Waited (.ofWorkflow workflow) block.resolved)
    (subset : before ⊆ more) (heads : ∀ cluster ∈ ready, InReach more path cluster.head)
    (members : ∀ cluster ∈ ready, ∀ id ∈ cluster.members, ∃ stage ∈ more, stage.node = id) :
    Context workflow (block.withPlaced ready) path waiting more := by
  obtain ⟨all, formed, isBlock, inBlock⟩ := context.formed
  obtain ⟨_, _, across⟩ := List.pairwise_append.mp (apart_of_perm perm context.apart)
  have context := context.mono subset
  refine ⟨context.toStanding.withPlaced certified perm waited, context.owners, context.available,
    fun id placed visible => ?_, fun whole id sinks => ?_⟩
  · rcases List.mem_append.mp placed with inReady | earlier
    · obtain ⟨cluster, isReady, inside⟩ := List.mem_flatMap.mp inReady
      have inAll := inBlock (perm.subset (List.mem_append_left _ isReady))
      rcases List.mem_cons.mp (certified.mem_members_of_visible isBlock inAll inside visible) with
        rfl | inArms
      · exact .inl (heads cluster isReady)
      · refine .inr ⟨members cluster isReady id (List.mem_cons_of_mem _ inArms), cluster,
          ⟨all, formed, inAll⟩,
          inArms, heads cluster isReady, fun other ⟨second, isWaiting, within⟩ withinToo => ?_⟩
        exact across cluster isReady second isWaiting withinToo within
    · refine (context.resolved id earlier visible).imp_right fun aside =>
        aside.mono (List.Subset.refl _) List.suffix_rfl fun other inside => ?_
      exact inside.subset fun cluster among => perm.subset (List.mem_append_right _ among)
  · obtain ⟨inwards, placed⟩ := context.sinks whole id sinks
    refine ⟨inwards, fun source reads ordinary => ?_⟩
    rcases placed source reads ordinary with earlier | ⟨cluster, isPending, within⟩
    · exact .inl (List.mem_append_right _ earlier)
    · rcases List.mem_append.mp (perm.mem_iff.mpr isPending) with isReady | isWaiting
      · exact .inl (List.mem_append_left _ (List.mem_flatMap.mpr ⟨cluster, isReady, within⟩))
      · exact .inr ⟨cluster, isWaiting, within⟩

/-- **The inside of a scope of a head**, once the head is bound. -/
theorem body (context : Context workflow block path pending before) (certified : Certified workflow)
    (member : cluster ∈ pending) (waited : cluster.Waited (.ofWorkflow workflow) block.resolved)
    {type : NodeType} {name : String}
    (typed : (Index.ofWorkflow workflow).nodeType? cluster.head = some type)
    (declares : name ∈ type.scopes) (bound : InReach before path cluster.head) :
    Context workflow (block.body (.ofWorkflow workflow) cluster.head name)
      (.body cluster.head name :: path) (Cluster.ofBlock (.ofWorkflow workflow)
        ((Index.ofWorkflow workflow).scheduledIn (some ⟨cluster.head, name⟩))) before := by
  obtain ⟨all, formed, isBlock, inBlock⟩ := context.formed
  have inAll := inBlock member
  have lives := isBlock.regionOf (Cluster.exists_of_mem_ofBlock inAll).2.1
  have inner : ∀ {id}, InReach before path id →
      InReach before (.body cluster.head name :: path) id :=
    fun inReach => inReach.mono (List.Subset.refl _) (List.suffix_cons _ _)
  refine ⟨context.toStanding.body certified member typed declares, fun owner ⟨scope, within⟩ =>
    inner ?_,
    fun id atHand => inner (context.available id atHand), fun id placed visible => ?_, fun _ =>
    sinks_region certified (fun scope same => ?_) fun reader known inScope source reads => ?_⟩
  · cases within with
    | refl => exact bound
    | outward further => exact context.owners owner ⟨scope, lives ▸ further⟩
  · rcases List.mem_cons.mp placed with rfl | earlier
    · exact .inl (inner bound)
    · generalize found : (Index.ofWorkflow workflow).regionOf id = region at visible
      cases visible with
      | refl =>
          -- what lives in the scope has not been placed
          refine absurd ⟨cluster, member, ?_⟩ (context.fresh id earlier)
          exact (certified.mem_inside isBlock inAll).mpr
            ⟨Index.named_of_regionOf found, _, List.mem_cons_self, .inr ⟨name, found ▸ .refl _⟩⟩
      | outward further =>
          refine (context.resolved id earlier (found ▸ lives ▸ further)).imp inner fun aside =>
            aside.mono (List.Subset.refl _) (List.suffix_cons _ _) fun other inside => ?_
          exact ⟨cluster, member, certified.inside_of_body isBlock inAll inside⟩
  · cases same
    exact certified.ordinary_of_typed typed
  · exact (certified.mem_prerequisites_of_scope isBlock inAll known inScope reads).imp_left
        fun needed =>
      List.mem_cons_of_mem _ (waited.prerequisites source needed)

/-- **An arm of a branch**, once the head is bound. -/
theorem arm (context : Context workflow block path pending before) (certified : Certified workflow)
    (member : cluster ∈ pending) (waited : cluster.Waited (.ofWorkflow workflow) block.resolved)
    {arms : Arms} {arm other : List String} (branching : cluster.arms = some arms)
    (opposite : arms.Opposite arm other) (enclosure : Enclosure)
    (bound : InReach before path cluster.head) :
    Context workflow (block.ofArm (.ofWorkflow workflow) cluster.head arm) (enclosure :: path)
      (Cluster.ofBlock (.ofWorkflow workflow) arm) before := by
  obtain ⟨all, formed, isBlock, inBlock⟩ := context.formed
  have inAll := inBlock member
  have headInAll := (Cluster.exists_of_mem_ofBlock inAll).2.1
  have inner : ∀ {id}, InReach before path id → InReach before (enclosure :: path) id :=
    fun inReach => inReach.mono (List.Subset.refl _) (List.suffix_cons _ _)
  refine ⟨context.toStanding.arm certified member waited branching opposite,
    fun owner around => inner (context.owners owner around), fun id atHand =>
    inner (context.available id atHand), fun id placed visible => ?_, fun whole => nomatch whole⟩
  rcases List.mem_append.mp placed with ofHead | earlier
  · rcases List.mem_cons.mp ofHead with rfl | nested
    · exact .inl (inner bound)
    · obtain ⟨_, name, within⟩ := certified.mem_descendants.mp nested
      refine absurd ⟨name, ?_⟩ (certified.not_nested_self (isBlock.named headInAll))
      exact isBlock.regionOf headInAll ▸ visible.trans within
  · refine (context.resolved id earlier visible).imp inner fun aside =>
      aside.mono (List.Subset.refl _) (List.suffix_cons _ _) fun other inside => ?_
    exact ⟨cluster, member, (certified.mem_inside_branch isBlock inAll branching opposite).mpr
      (.inr (.inl inside))⟩

end Context

/-! ### Turns -/

/-- Whether all that a reader reads around a block has been placed, and is read outside of the
branches that the pending clusters do not lie in, if only through an expression that a cluster
needs. -/
structure Readable (workflow : Workflow) (block : Block) (pending : List Cluster) (id : String) :
    Prop where
  inwards : (Index.ofWorkflow workflow).Within block.region
    ((Index.ofWorkflow workflow).regionOf id)
  placed : ∀ source, (Index.ofWorkflow workflow).Reads id source →
    (Index.ofWorkflow workflow).isExpression source = false → source ∈ block.resolved
  leaves : ∀ branch, workflow.HasCluster branch →
    (∀ other, Inside pending other → other ∉ branch.inside) →
    Merge.Exposed workflow branch id ∨ ∃ cluster, workflow.HasCluster cluster ∧
      id ∈ (Analysis.ofWorkflow workflow).neededBy cluster ∧ cluster.head ∉ branch.inside

/-- What is known when it is the turn of an instance, after some stages. -/
inductive Turn (workflow : Workflow) (before : List Stage) : Stage → Prop
  | head {block : Block} {path : List Enclosure} {pending : List Cluster} {cluster : Cluster}
      {merges : List Merge} : Context workflow block path pending before → cluster ∈ pending →
      cluster.Waited (.ofWorkflow workflow) block.resolved →
      (∀ id ∈ (Analysis.ofWorkflow workflow).neededBy cluster, InReach before path id) →
      Turn workflow before ⟨cluster.head, merges, path⟩
  | inlined {block : Block} {path : List Enclosure} {pending : List Cluster} {id : String}
      {merges : List Merge} : Context workflow block path pending before →
      (Index.ofWorkflow workflow).isExpression id = true → Readable workflow block pending id →
      (∀ source ∈ (Index.ofWorkflow workflow).readSources id,
        (Index.ofWorkflow workflow).isExpression source = true → InReach before path source) →
      Turn workflow before ⟨id, merges, path⟩

/-- Whether stages have their turns, each after those in front of it. -/
def Turns (workflow : Workflow) (before stages : List Stage) : Prop :=
  ∀ first stage rest, stages = first ++ stage :: rest → Turn workflow (before ++ first) stage

namespace Turns

variable {before : List Stage}

theorem nil : Turns workflow before [] := by
  intro first stage rest same
  simp at same

theorem append {first second : List Stage} (one : Turns workflow before first)
    (other : Turns workflow (before ++ first) second) :
    Turns workflow before (first ++ second) := by
  intro front stage rest same
  rcases List.append_eq_append_iff.mp same with ⟨middle, rfl, later⟩ | ⟨middle, earlier, later⟩
  · rw [← List.append_assoc]
    exact other middle stage rest later
  · cases middle with
    | nil =>
        obtain rfl : first = front := by simpa using earlier
        have found := other [] stage rest (by simpa using later.symm)
        rwa [List.append_nil] at found
    | cons head middle =>
        obtain ⟨rfl, _⟩ := List.cons.inj later
        exact one front stage middle earlier

theorem cons {stage : Stage} {rest : List Stage} (here : Turn workflow before stage)
    (later : Turns workflow (before ++ [stage]) rest) : Turns workflow before (stage :: rest) := by
  refine @append _ _ [stage] rest (fun first other rest same => ?_) later
  obtain ⟨rfl, rfl, rfl⟩ : first = [] ∧ other = stage ∧ rest = [] := by
    cases first with
    | nil => simpa [eq_comm] using same
    | cons => simp at same
  rwa [List.append_nil]

end Turns

namespace Context

variable {block : Block} {path : List Enclosure} {pending : List Cluster} {before : List Stage}
  {cluster : Cluster}

/-- The head of a pending cluster is readable once all has been placed that the cluster waits
for. -/
theorem readable_head (context : Context workflow block path pending before)
    (certified : Certified workflow) (member : cluster ∈ pending)
    (waited : cluster.Waited (.ofWorkflow workflow) block.resolved) :
    Readable workflow block pending cluster.head := by
  obtain ⟨members, formed, isBlock, inBlock⟩ := context.formed
  have headInBlock := (Cluster.exists_of_mem_ofBlock (inBlock member)).2.1
  have known := isBlock.named headInBlock
  have lives := isBlock.regionOf headInBlock
  refine ⟨lives ▸ .refl _, fun source reads ordinary => waited.prerequisites source ?_,
    fun branch _ outside => .inl ?_⟩
  · exact certified.mem_prerequisites_of_visible isBlock (inBlock member) known (.inl rfl)
      (Analysis.mem_dataOf certified.expressionsAcyclic known reads ordinary)
      (lives ▸ (certified.reads_inwards known reads).2)
  · exact Merge.exposed_of_notMem (certified.ordinary_of_named known)
      (Index.mem_scheduledIn.mp (isBlock.inside _ headInBlock)).2
      (outside _ ⟨cluster, member, Cluster.head_mem_inside (inBlock member)⟩)

/-- The same holds of the expressions that the cluster needs. -/
theorem readable_needed (context : Context workflow block path pending before)
    (certified : Certified workflow) (member : cluster ∈ pending)
    (waited : cluster.Waited (.ofWorkflow workflow) block.resolved) {id : String}
    (needed : id ∈ (Analysis.ofWorkflow workflow).neededBy cluster) :
    Readable workflow block pending id := by
  obtain ⟨members, formed, isBlock, inBlock⟩ := context.formed
  refine ⟨((certified.mem_neededBy_iff isBlock (inBlock member)).mp needed).2.1,
      fun source reads ordinary =>
    waited.prerequisites source ?_, fun branch _ outside =>
    .inr ⟨cluster, ⟨members, formed, inBlock member⟩, needed, ?_⟩⟩
  · exact certified.mem_prerequisites_of_neededBy isBlock (inBlock member) needed reads ordinary
  · exact outside _ ⟨cluster, member, Cluster.head_mem_inside (inBlock member)⟩

/-- The expressions that the end of a region reads are readable once nothing is pending. -/
theorem readable_sink (context : Context workflow block path [] before)
    (certified : Certified workflow) (whole : block.isWhole = true) {id : String}
    (sinks : id ∈ (Analysis.ofWorkflow workflow).sinkExpressions block.region) :
    Readable workflow block [] id := by
  obtain ⟨inwards, placed⟩ := context.sinks whole id sinks
  refine ⟨inwards, fun source reads ordinary => ?_, fun branch _ _ =>
    .inl (certified.exposed_of_sink sinks branch)⟩
  exact (placed source reads ordinary).resolve_right fun ⟨_, absent, _⟩ => nomatch absent

/-- Expressions that are placed in a block have their turns, each after those that it reads. -/
theorem inlined (context : Context workflow block path pending before) {needed ids : List String}
    (found : (Analysis.ofWorkflow workflow).inlineNeeded block needed = .ok ids)
    (expressions : ∀ id ∈ needed, (Index.ofWorkflow workflow).isExpression id = true)
    (readable : ∀ id ∈ needed, Readable workflow block pending id)
    (closed : ∀ id ∈ needed, ∀ source, (Index.ofWorkflow workflow).Reads id source →
      (Index.ofWorkflow workflow).isExpression source = true → source ∈ needed)
    (merges : List Merge) :
    Turns workflow before (ids.map fun id => ⟨id, merges, path⟩) := by
  intro first stage rest same
  obtain ⟨front, back, rfl, rfl, later⟩ := List.map_eq_append_iff.mp same
  obtain ⟨id, back, rfl, rfl, rfl⟩ := List.map_eq_cons_iff.mp later
  have wanted := ((Analysis.mem_inlineNeeded found).mp
    (List.mem_append_right _ List.mem_cons_self)).2.1
  refine .inlined (context.mono (List.subset_append_left _ _)) (expressions id wanted)
    (readable id wanted) ?_
  intro source given expression
  obtain ⟨connection, member, into, _, isSource⟩ := Index.mem_readSources.mp given
  have givenToo := Index.mem_expressionSources.mpr ⟨expression, connection, member, into, isSource⟩
  rcases Analysis.inlineNeeded_order found rfl givenToo (Analysis.isExpression_named expression)
    (closed id wanted source (.direct given) expression) with atHand | inFront
  · exact (context.available source atHand).mono (List.subset_append_left _ _) List.suffix_rfl
  · exact ⟨⟨source, merges, path⟩,
      List.mem_append_right _ (List.mem_map.mpr ⟨source, inFront, rfl⟩), rfl,
      List.suffix_rfl⟩

end Context

/-- **What is known at every turn**: the sources of the instance have been placed around it, and the
expressions among them are in reach. -/
theorem Turn.exists_context {before : List Stage} {stage : Stage}
    (turn : Turn workflow before stage) (certified : Certified workflow) :
    ∃ block pending, Context workflow block stage.path pending before ∧
      Readable workflow block pending stage.node ∧ stage.node ∈ workflow.instances.map (·.id) ∧
      ∀ source ∈ (Index.ofWorkflow workflow).readSources stage.node,
        (Index.ofWorkflow workflow).isExpression source = true →
        InReach before stage.path source := by
  cases turn with
  | head context member waited needed =>
      obtain ⟨_, _, isBlock, inBlock⟩ := context.formed
      have known := isBlock.named (Cluster.exists_of_mem_ofBlock (inBlock member)).2.1
      refine ⟨_, _, context, context.readable_head certified member waited, known,
          fun source given expression =>
        needed source (List.mem_append_left _ ?_)⟩
      exact Analysis.mem_expressionsOf certified.expressionsAcyclic known (.direct given) expression
  | inlined context expression readable given =>
      exact ⟨_, _, context, readable, Analysis.isExpression_named expression, given⟩

/-! ### The stages of clusters -/

theorem Block.mem_sinks {block : Block} {analysis : Analysis} {id : String} :
    id ∈ block.sinks analysis ↔ block.isWhole = true ∧
      id ∈ analysis.sinkExpressions block.region := by
  unfold sinks
  split <;> simp_all

namespace Scheduler

open Placement

variable {scheduler : Scheduler}

/-- The head of a cluster is bound where the cluster is placed. -/
theorem Placed.head_mem_stages {block : Block} {cluster : Cluster} {placement : Placement}
    (placed : Placed scheduler (.ofWorkflow workflow) block cluster placement)
    (path : List Enclosure) (merges : List Merge) :
    ∃ stage ∈ Binding.stages (.ofWorkflow workflow) path merges placement,
      stage.node = cluster.head ∧ stage.path = path := by
  cases placed with
  | node => exact ⟨_, List.mem_cons_self, rfl, rfl⟩
  | branch => exact ⟨_, List.mem_cons_self, rfl, rfl⟩

/-- All members of a cluster are bound where the cluster is placed. -/
theorem Placed.member_mem_stages {block : Block} {cluster : Cluster} {placement : Placement}
    (placed : Placed scheduler (.ofWorkflow workflow) block cluster placement)
    (formed : Formed (.ofWorkflow workflow) block.members)
    (inBlock : cluster ∈ Cluster.ofBlock (.ofWorkflow workflow) block.members) {id : String}
    (member : id ∈ cluster.members) (path : List Enclosure) (merges : List Merge) :
    ∃ stage ∈ Binding.stages (.ofWorkflow workflow) path merges placement, stage.node = id := by
  have scheduled := ((placed.enumerates formed inBlock).mem_iff id).mpr ⟨id, member, .self id⟩
  have bound := Placing.mem_map_id scheduled
  rw [← Binding.node_stages path merges] at bound
  exact List.mem_map.mp bound

/-! ### Arrangements -/

/-- Whether placements of pending clusters have their turn, wherever the block is arranged. -/
def Timely (workflow : Workflow) (block : Block) (pending : List Cluster)
    (placements : List Placement) : Prop :=
  ∀ path before merges, Context workflow block path pending before →
    Turns workflow before (Binding.stagesOfAll (.ofWorkflow workflow) path merges placements)

/-- Whether the placement of a cluster has its turn, wherever the cluster is ready. -/
def ClusterTimely (workflow : Workflow) (block : Block) (cluster : Cluster)
    (placement : Placement) :
    Prop :=
  ∀ path before merges pending, Context workflow block path pending before → cluster ∈ pending →
    cluster.Waited (.ofWorkflow workflow) block.resolved →
    (∀ id ∈ (Analysis.ofWorkflow workflow).neededBy cluster, id ∈ block.available) →
    Turns workflow before (Binding.stages (.ofWorkflow workflow) path merges placement)

theorem turns_placed {block : Block} {clusters pending : List Cluster} {placements : List Placement}
    {path : List Enclosure} {before : List Stage} {merges : List Merge}
    (each : List.Forall₂ (ClusterTimely workflow block) clusters placements)
    (context : Context workflow block path pending before) (inPending : clusters ⊆ pending)
    (waited : ∀ cluster ∈ clusters, cluster.Waited (.ofWorkflow workflow) block.resolved)
    (atHand : ∀ cluster ∈ clusters, ∀ id ∈ (Analysis.ofWorkflow workflow).neededBy cluster,
      id ∈ block.available) :
    Turns workflow before (Binding.stagesOfAll (.ofWorkflow workflow) path merges placements) := by
  induction each generalizing before merges with
  | nil => exact .nil
  | cons first _ ih =>
      obtain ⟨inFirst, inRest⟩ := List.cons_subset.mp inPending
      obtain ⟨waitedFirst, waitedRest⟩ := List.forall_mem_cons.mp waited
      obtain ⟨atFirst, atRest⟩ := List.forall_mem_cons.mp atHand
      exact (first _ _ _ _ context inFirst waitedFirst atFirst).append
        (ih (context.mono (List.subset_append_left _ _)) inRest waitedRest atRest)

theorem turns_bodies {block : Block} {owner : String} {names : List String}
    {bodies : List (String × List Placement)} {path : List Enclosure} {before : List Stage}
    {merges : List Merge}
    (inside : List.Forall₂
      (BodyPlaced scheduler (.ofWorkflow workflow) (Timely workflow) block owner) names bodies)
    (contexts : ∀ name ∈ names, Context workflow (block.body (.ofWorkflow workflow) owner name)
      (.body owner name :: path) (Cluster.ofBlock (.ofWorkflow workflow)
        ((Index.ofWorkflow workflow).scheduledIn (some ⟨owner, name⟩))) before) :
    Turns workflow before
      (Binding.stagesOfBodies (.ofWorkflow workflow) path merges owner bodies) := by
  induction inside generalizing before merges with
  | nil => exact .nil
  | @cons name entry _ _ body _ ih =>
      obtain ⟨label, placements⟩ := entry
      obtain rfl : label = name := body.named
      obtain ⟨here, further⟩ := List.forall_mem_cons.mp contexts
      exact (body.holds _ _ _ here).append (ih fun name declares =>
        (further name declares).mono (List.subset_append_left _ _))

theorem turns_cases (certified : Certified workflow) :
    Induction scheduler (.ofWorkflow workflow) (Timely workflow) (ClusterTimely workflow) where
  done _ ordered path before merges context := by
    rw [Binding.stagesOfAll_inlined]
    refine context.inlined ordered (fun _ => isExpression_of_mem_sinks) ?_ ?_ merges
    · intro id sinks
      obtain ⟨whole, sinks⟩ := Block.mem_sinks.mp sinks
      exact context.readable_sink certified whole sinks
    · intro id sinks source reads expression
      obtain ⟨whole, sinks⟩ := Block.mem_sinks.mp sinks
      exact Block.mem_sinks.mpr
        ⟨whole, certified.sinkExpressions_closed sinks reads expression⟩
  round {block pending ready waiting ids placed rest} formed among parted ordered each further
      path before merges context := by
    have perm := splitReady_perm parted
    have waited := waited_of_splitReady parted
    have inPending : ready ⊆ pending := fun cluster member =>
      perm.subset (List.mem_append_left _ member)
    obtain ⟨region, isBlock⟩ := formed.isBlock
    obtain ⟨following, bound⟩ := @Binding.stagesOfAll_round (.ofWorkflow workflow) path merges ids
      placed rest
    rw [bound]
    have inlined : Turns workflow before (ids.map fun id => ⟨id, merges, path⟩) := by
      refine context.inlined ordered (fun id needed => ?_) (fun id needed => ?_)
        (fun id needed source reads expression => ?_) merges
      all_goals obtain ⟨cluster, isReady, needed⟩ := List.mem_flatMap.mp needed
      · exact isExpression_of_mem_neededBy needed
      · exact context.readable_needed certified (inPending isReady) (waited cluster isReady) needed
      · exact List.mem_flatMap.mpr ⟨cluster, isReady, certified.neededBy_closed isBlock
          (among.subset (inPending isReady)) needed reads expression⟩
    have atHand : ∀ cluster ∈ ready, ∀ id ∈ (Analysis.ofWorkflow workflow).neededBy cluster,
        id ∈ (block.withInlined ids).available := by
      intro cluster isReady id needed
      refine List.mem_append.mpr (Classical.or_iff_not_imp_right.mpr fun absent => ?_)
      exact (Analysis.mem_inlineNeeded ordered).mpr ⟨Analysis.isExpression_named
        (isExpression_of_mem_neededBy needed), List.mem_flatMap.mpr ⟨cluster, isReady, needed⟩,
        absent⟩
    have context := context.withInlined ids merges
    have timely := each.imp fun _ _ known => known.2
    refine (inlined.append (turns_placed timely context inPending waited atHand)).append
      (further _ _ _ (context.withPlaced certified perm waited ?_ ?_ ?_))
    · exact fun stage member => by
        rw [← List.append_assoc]
        exact List.mem_append_left _ member
    · intro cluster isReady
      obtain ⟨placement, here, placed, _⟩ := exists_right_of_mem each isReady
      obtain ⟨following, inPlaced⟩ :=
        @Binding.stages_of_mem (.ofWorkflow workflow) _ _ here path merges
      obtain ⟨stage, member, same, lies⟩ := placed.head_mem_stages path following
      exact ⟨stage, List.mem_append_right _ (List.mem_append_right _ (inPlaced member)), same,
        lies ▸ List.suffix_rfl⟩
    · intro cluster isReady id inMembers
      obtain ⟨placement, here, placed, _⟩ := exists_right_of_mem each isReady
      obtain ⟨following, inPlaced⟩ :=
        @Binding.stages_of_mem (.ofWorkflow workflow) _ _ here path merges
      obtain ⟨stage, member, same⟩ := placed.member_mem_stages formed
        (among.subset (inPending isReady)) inMembers path following
      exact ⟨stage, List.mem_append_right _ (List.mem_append_right _ (inPlaced member)), same⟩
  node _ _ typed inside _ path before merges pending context member waited atHand := by
    refine .cons (.head context member waited fun id needed =>
      context.available id (atHand id needed)) ?_
    refine turns_bodies inside fun name declares =>
      (context.mono (List.subset_append_left _ _)).body certified member waited typed declares ?_
    exact ⟨_, List.mem_append_right _ (List.mem_singleton_self _), rfl, List.suffix_rfl⟩
  branch {block cluster type arms bodies thenArm elseArm} _ _ typed inside branching onSuccess
      onFailure path before merges pending context member waited atHand := by
    refine .cons (.head context member waited fun id needed =>
      context.available id (atHand id needed)) ?_
    have context := @Context.mono _ _ _ _ _ (before ++ [⟨cluster.head,
      merges ++ Merge.declare (.ofWorkflow workflow) merges cluster, path⟩]) context
      (List.subset_append_left _ _)
    have bound : InReach (before ++ [⟨cluster.head,
        merges ++ Merge.declare (.ofWorkflow workflow) merges cluster, path⟩]) path cluster.head :=
      ⟨_, List.mem_append_right _ (List.mem_singleton_self _), rfl, List.suffix_rfl⟩
    refine .append (turns_bodies inside fun name declares =>
      context.body certified member waited typed declares bound) (.append ?_ ?_)
    · exact onSuccess.holds _ _ _ ((context.arm certified member waited branching .success
        (.arm cluster.head true) bound).mono (List.subset_append_left _ _))
    · exact onFailure.holds _ _ _ (((context.arm certified member waited branching .failure
        (.arm cluster.head false) bound).mono (List.subset_append_left _ _)).mono
        (List.subset_append_left _ _))

/-- **Every stage of an arrangement has its turn.** -/
theorem Arranged.turns (certified : Certified workflow) {block : Block}
    {placements : List Placement} {path : List Enclosure} {before : List Stage}
    {merges : List Merge} (arranged : Arranged scheduler (.ofWorkflow workflow) block placements)
    (formed : Formed (.ofWorkflow workflow) block.members)
    (context : Context workflow block path
      (Cluster.ofBlock (.ofWorkflow workflow) block.members) before) :
    Turns workflow before (Binding.stagesOfAll (.ofWorkflow workflow) path merges placements) :=
  arranged.induction (turns_cases certified) formed path before merges context

end Scheduler

end WorkflowGraph
