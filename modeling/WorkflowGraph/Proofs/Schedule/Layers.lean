/-
Layers of workflows without branches.

The main statement is `earliest_rounds`: a workflow without errors that has no scopes, no
expressions, no predicates to wait for and no branches is scheduled in rounds, and every instance
runs in the earliest round that its producers and triggers allow. The numbers of the rounds are
those of the one layering that the connections determine, and no round is left out.

* `IsLayering.le_iff` — an instance has run by a round if and only if it can start after the rounds
  before.
* `Flat.exists_isLayering`, `IsLayering.unique` — there is one layering.
* `Flat.splitReady_eq` — one round places the instances whose number it has.
* `Flat.arrangeRounds_succ`, `Flat.arrangeRounds_eq` — the rounds of an arrangement are those of the
  layering, in order.
-/

import Mathlib.Order.Lattice.Nat
import Mathlib.Tactic.MkIffOfInductiveProp
import WorkflowGraph.Proofs.Schedule.Order
import WorkflowGraph.Proofs.Schedule.Outcome
import WorkflowGraph.Proofs.Schedule.Progress

namespace WorkflowGraph

/-- Whether a workflow has one level and no branches: all ports and instances are outside of scopes,
there are no expressions, no instance waits for a predicate, and none has both of its outcomes
connected. -/
@[mk_iff]
structure Workflow.Flat (workflow : Workflow) : Prop where
  top : ∀ inst ∈ workflow.instances, inst.parentScope = none
  unscoped : ∀ inst ∈ workflow.instances, ∀ type ∈ (Index.ofWorkflow workflow).nodeType? inst.id,
    ∀ port ∈ type.ports, port.scope = none
  ordinary : ∀ inst ∈ workflow.instances, (Index.ofWorkflow workflow).isExpression inst.id = false
  unconditional : ∀ inst ∈ workflow.instances, ∀ type ∈ (Index.ofWorkflow workflow).nodeType?
    inst.id, type.trigger = .conjunction ∨ type.trigger = .disjunction
  unbranched : ∀ inst ∈ workflow.instances, ¬ workflow.Branching inst.id

/-- Whether an instance can start once some have run. -/
@[mk_iff]
structure Workflow.CanStart (workflow : Workflow) (done : String → Prop) (id : String) : Prop where
  /-- Those have run whose values it is given. -/
  data : ∀ source ∈ workflow.instances.map (·.id), workflow.Gives source id → done source
  /-- All that trigger it have run, where it waits for all of them. -/
  all : ∀ type ∈ (Index.ofWorkflow workflow).nodeType? id, type.trigger = .conjunction →
    ∀ source ∈ workflow.instances.map (·.id), workflow.Triggers source id → done source
  /-- Nothing triggers it, or one that does has run, where it waits for one of them. -/
  any : ∀ type ∈ (Index.ofWorkflow workflow).nodeType? id, type.trigger = .disjunction →
    (∀ source ∈ workflow.instances.map (·.id), ¬ workflow.Triggers source id) ∨
      ∃ source ∈ workflow.instances.map (·.id), workflow.Triggers source id ∧ done source

/-- Whether rounds are counted from one, and each instance has the number of the first in which it
can start after those of earlier rounds. -/
def Workflow.IsLayering (workflow : Workflow) (round : String → Nat) : Prop :=
  ∀ id ∈ workflow.instances.map (·.id),
    IsLeast {k | 1 ≤ k ∧ workflow.CanStart (fun source => round source < k) id} (round id)

instance (workflow : Workflow) : Decidable workflow.Flat :=
  decidable_of_iff _ (workflow.flat_iff).symm

namespace Workflow

variable {workflow : Workflow} {round : String → Nat} {id : String}

/-! ### Layerings -/

/-- More can start where more has run. -/
theorem CanStart.imp {done doneToo : String → Prop} (can : workflow.CanStart done id)
    (more : ∀ source ∈ workflow.instances.map (·.id), done source → doneToo source) :
    workflow.CanStart doneToo id where
  data source known gives := more source known (can.data source known gives)
  all type typed conjunction source known triggers :=
    more source known (can.all type typed conjunction source known triggers)
  any type typed disjunction := by
    refine (can.any type typed disjunction).imp_right ?_
    rintro ⟨source, known, triggers, run⟩
    exact ⟨source, known, triggers, more source known run⟩

namespace IsLayering

/-- **An instance has run by a round if and only if it can start after the rounds before.** -/
theorem le_iff (layering : workflow.IsLayering round) (known : id ∈ workflow.instances.map (·.id))
    {k : Nat} (positive : 1 ≤ k) :
    round id ≤ k ↔ workflow.CanStart (fun source => round source < k) id := by
  obtain ⟨⟨_, can⟩, least⟩ := layering id known
  refine ⟨fun reached => can.imp fun source _ earlier => Nat.lt_of_lt_of_le earlier reached,
    fun can => ?_⟩
  exact least ⟨positive, can⟩

/-- What can start after a round in which nothing runs could start before. -/
theorem exists_of_succ (layering : workflow.IsLayering round)
    (known : id ∈ workflow.instances.map (·.id)) {k : Nat} (positive : 1 ≤ k)
    (later : round id = k + 1) :
    ∃ other ∈ workflow.instances.map (·.id), round other = k := by
  by_contra empty
  push Not at empty
  have can := (layering.le_iff known (Nat.le_add_left 1 k)).mp later.le
  have early : round id ≤ k := (layering.le_iff known positive).mpr <|
      can.imp fun source declared earlier =>
    Nat.lt_of_le_of_ne (Nat.lt_succ_iff.mp earlier) (empty source declared)
  omega

theorem exists_of_le (layering : workflow.IsLayering round)
    (known : id ∈ workflow.instances.map (·.id)) {k : Nat} (positive : 1 ≤ k)
    (reached : k ≤ round id) :
    ∃ other ∈ workflow.instances.map (·.id), round other = k := by
  obtain ⟨further, later⟩ := Nat.exists_eq_add_of_le reached
  induction further generalizing id with
  | zero => exact ⟨id, known, later⟩
  | succ further ih =>
      obtain ⟨other, knownToo, before⟩ :=
        layering.exists_of_succ known (Nat.le_add_right_of_le positive) later
      exact ih knownToo (before ▸ Nat.le_add_right k further) before

/-- **No round is left out.** -/
theorem exists_count (layering : workflow.IsLayering round) :
    ∃ count, ∀ k, (1 ≤ k ∧ k ≤ count) ↔ ∃ id ∈ workflow.instances.map (·.id), round id = k := by
  by_cases some : (workflow.instances.map (·.id)).toFinset.Nonempty
  · obtain ⟨last, atLast, maximal⟩ := Finset.exists_max_image _ round some
    simp only [List.mem_toFinset] at atLast maximal
    refine ⟨round last, fun k => ⟨fun bounds => layering.exists_of_le atLast bounds.1 bounds.2, ?_⟩⟩
    rintro ⟨id, known, rfl⟩
    exact ⟨(layering id known).1.1, maximal id known⟩
  · rw [List.toFinset_nonempty_iff, not_not] at some
    refine ⟨0, fun k => ⟨fun bounds => absurd (bounds.1.trans bounds.2) (by decide), ?_⟩⟩
    rintro ⟨id, known, _⟩
    rw [some] at known
    cases known

/-- **Two layerings agree on all instances.** -/
theorem unique {other : String → Nat} (layering : workflow.IsLayering round)
    (layeringToo : workflow.IsLayering other) (known : id ∈ workflow.instances.map (·.id)) :
    other id = round id := by
  -- by each round the same instances have run
  have same : ∀ k, ∀ id ∈ workflow.instances.map (·.id), other id ≤ k ↔ round id ≤ k := by
    intro k
    induction k with
    | zero =>
        intro id known
        have positive := (layering id known).1.1
        have positiveToo := (layeringToo id known).1.1
        omega
    | succ k ih =>
        intro id known
        rw [layering.le_iff known (Nat.le_add_left 1 k),
          layeringToo.le_iff known (Nat.le_add_left 1 k)]
        constructor
        · exact fun can => can.imp fun source declared earlier =>
            Nat.lt_succ_iff.mpr ((ih source declared).mp (Nat.lt_succ_iff.mp earlier))
        · exact fun can => can.imp fun source declared earlier =>
            Nat.lt_succ_iff.mpr ((ih source declared).mpr (Nat.lt_succ_iff.mp earlier))
  exact Nat.le_antisymm ((same _ id known).mpr le_rfl) ((same _ id known).mp le_rfl)

end IsLayering

/-- A layering is one where each instance can start in its round, and could not start in the one
before. -/
theorem isLayering_iff : workflow.IsLayering round ↔ ∀ id ∈ workflow.instances.map (·.id),
    1 ≤ round id ∧ workflow.CanStart (fun source => round source < round id) id ∧
      (1 < round id → ¬ workflow.CanStart (fun source => round source < round id - 1) id) := by
  refine forall₂_congr fun id known => ⟨?_, ?_⟩
  · rintro ⟨⟨positive, can⟩, least⟩
    refine ⟨positive, can, fun later early => ?_⟩
    exact absurd (least ⟨Nat.le_sub_one_of_lt later, early⟩) (by omega)
  · rintro ⟨positive, can, late⟩
    refine ⟨⟨positive, can⟩, ?_⟩
    rintro k ⟨first, early⟩
    by_contra below
    exact late (by omega) (early.imp fun source _ earlier => by omega)

instance (done : String → Prop) [DecidablePred done] (id : String) :
    Decidable (workflow.CanStart done id) :=
  decidable_of_iff _ (workflow.canStart_iff done id).symm

instance (round : String → Nat) : Decidable (workflow.IsLayering round) :=
  decidable_of_iff _ isLayering_iff.symm

/-- Whether an instance has run after a number of rounds in each of which all start that can. -/
def HasRun (workflow : Workflow) : Nat → String → Prop
  | 0, _ => False
  | k + 1, id => workflow.CanStart (HasRun workflow k) id

theorem HasRun.succ {k : Nat} (run : workflow.HasRun k id) : workflow.HasRun (k + 1) id := by
  induction k generalizing id with
  | zero => exact run.elim
  | succ k ih => exact CanStart.imp run fun _ _ => ih

theorem HasRun.mono {first second : Nat} (run : workflow.HasRun first id) (le : first ≤ second) :
    workflow.HasRun second id := by
  induction le with
  | refl => exact run
  | step _ ih => exact ih.succ

/-- If every instance runs at some time, the times at which they do are a layering. -/
theorem isLayering_of_hasRun
    (all : ∀ id ∈ workflow.instances.map (·.id), ∃ k, workflow.HasRun k id) :
    workflow.IsLayering fun id => sInf {k | workflow.HasRun k id} := by
  have ran : ∀ source ∈ workflow.instances.map (·.id), ∀ k,
      sInf {k | workflow.HasRun k source} < k + 1 ↔ workflow.HasRun k source := by
    intro source known k
    rw [Nat.lt_succ_iff]
    exact ⟨fun le => HasRun.mono (Nat.sInf_mem (all source known)) le, fun run => Nat.sInf_le run⟩
  intro id known
  have same : {k | 1 ≤ k ∧ workflow.CanStart (fun source => sInf {k | workflow.HasRun k source} < k)
      id} = {k | workflow.HasRun k id} := by
    ext k
    cases k with
    | zero => exact ⟨fun both => absurd both.1 (by decide), fun never => never.elim⟩
    | succ k =>
        refine ⟨fun both => both.2.imp fun source declared => (ran source declared k).mp,
          fun can => ?_⟩
        exact ⟨Nat.le_add_left 1 k, CanStart.imp can fun source declared =>
          (ran source declared k).mpr⟩
  rw [same]
  exact ⟨Nat.sInf_mem (all id known), fun k run => Nat.sInf_le run⟩

end Workflow

/-! ### Flat workflows -/

namespace Workflow.Flat

variable {workflow : Workflow} {round : String → Nat} {id source : String}

theorem not_isExpression (flat : workflow.Flat) :
    ¬ (Index.ofWorkflow workflow).isExpression id = true := by
  intro expression
  obtain ⟨inst, member, rfl⟩ := List.mem_map.mp (Analysis.isExpression_named expression)
  rw [flat.ordinary inst member] at expression
  cases expression

theorem expressionsOf_eq (flat : workflow.Flat) (id : String) :
    (Analysis.ofWorkflow workflow).expressionsOf id = [] :=
  List.eq_nil_iff_forall_not_mem.mpr fun _ listed =>
    flat.not_isExpression (Analysis.sound_expressionsOf listed).1

theorem sinkExpressions_eq (flat : workflow.Flat) (region : Region) :
    (Analysis.ofWorkflow workflow).sinkExpressions region = [] := by
  refine List.flatMap_eq_nil_iff.mpr fun source _ =>
    List.eq_nil_iff_forall_not_mem.mpr fun id listed => ?_
  exact flat.not_isExpression
    (Dependencies.isExpression_of_mem_ofSource (Dependencies.tableSound_ofIndex _) listed)

theorem descendants_eq (flat : workflow.Flat) (id : String) :
    (Analysis.ofWorkflow workflow).descendants id = [] := by
  refine List.eq_nil_iff_forall_not_mem.mpr fun nested listed => ?_
  obtain ⟨inst, member, _, owned⟩ := Analysis.mem_descendants_iff.mp listed
  rw [flat.top inst member] at owned
  cases owned

/-- The top level has all instances, in the order in which they are declared. -/
theorem scheduledIn_eq (flat : workflow.Flat) (certified : Certified workflow) :
    (Index.ofWorkflow workflow).scheduledIn none = workflow.instances.map (·.id) := by
  have inOrder : ((Index.ofWorkflow workflow).scheduledIn none).Sublist
      (workflow.instances.map (·.id)) := by
    refine List.filter_sublist.trans ?_
    have kept := (List.filter_sublist (l := workflow.instances.zipIdx) (p := fun entry =>
      entry.1.parentScope = none ∧
        (Index.ofWorkflow workflow).position? entry.1.id = some entry.2)).map (·.1)
    rw [List.zipIdx_map_fst] at kept
    exact kept.map (·.id)
  refine inOrder.eq_of_length (List.Perm.length_eq ?_)
  rw [List.perm_ext_iff_of_nodup (Index.scheduledIn_nodup none) certified.distinct]
  refine fun id => ⟨fun listed => inOrder.subset listed, fun known => ?_⟩
  obtain ⟨inst, member, rfl⟩ := List.mem_map.mp known
  exact Index.mem_scheduledIn.mpr ⟨⟨inst, certified.find?_eq member, flat.top inst member⟩,
    flat.ordinary inst member⟩

/-- Every cluster is a single instance. -/
theorem clusters_eq (flat : workflow.Flat) :
    Cluster.ofBlock (.ofWorkflow workflow) (workflow.instances.map (·.id)) =
      (workflow.instances.map (·.id)).map fun id =>
      Cluster.make (.ofWorkflow workflow) id none := by
  have none : Cluster.branches (.ofWorkflow workflow) (workflow.instances.map (·.id)) = [] := by
    refine List.eq_nil_iff_forall_not_mem.mpr fun entry member => ?_
    obtain ⟨known, found⟩ := Cluster.ofHead_of_mem_branches member
    obtain ⟨inst, declared, same⟩ := List.mem_map.mp known
    exact flat.unbranched inst declared (same ▸ Arms.branching_of_ofHead found)
  simp [Cluster.ofBlock_eq, Cluster.taken, none]

/-! ### Ranks -/

theorem rank_of_triggers {rank : String → Nat} (flat : workflow.Flat)
    (certified : Certified workflow) (ranks : Ranks workflow rank)
    (declared : source ∈ workflow.instances.map (·.id)) (known : id ∈ workflow.instances.map (·.id))
    (triggers : workflow.Triggers source id) :
    rank source < rank id := by
  rcases (certified.triggers_cases ranks ((certified.mem_triggersOf_iff known).mpr ⟨declared,
      triggers⟩)).2.2 with
    here | ⟨name, within⟩
  · exact here.2
  · obtain ⟨inst, member, rfl⟩ := List.mem_map.mp declared
    rw [certified.regionOf_eq member, flat.top inst member] at within
    cases within

/-- **A flat workflow without errors has a layering**: an instance has run after as many rounds as
its rank says. -/
theorem exists_isLayering (flat : workflow.Flat) (certified : Certified workflow) :
    ∃ round, workflow.IsLayering round := by
  obtain ⟨rank, ranks⟩ := certified.ranked
  have run : ∀ k, ∀ id ∈ workflow.instances.map (·.id), rank id < k → workflow.HasRun k id := by
    intro k
    induction k with
    | zero => exact fun id _ below => absurd below (Nat.not_lt_zero _)
    | succ k ih =>
        intro id known below
        have earlier : ∀ source ∈ workflow.instances.map (·.id), workflow.Triggers source id →
            workflow.HasRun k source := fun source declared triggers =>
          ih source declared
            (Nat.lt_of_lt_of_le (flat.rank_of_triggers certified ranks declared known triggers)
            (Nat.lt_succ_iff.mp below))
        refine ⟨fun source declared gives => ih source declared ?_, fun _ _ _ => earlier,
          fun _ _ _ => ?_⟩
        · exact Nat.lt_of_lt_of_le (certified.rank_of_gives ranks declared known gives)
            (Nat.lt_succ_iff.mp below)
        · by_cases some : ∃ source ∈ workflow.instances.map (·.id), workflow.Triggers source id
          · obtain ⟨source, declared, triggers⟩ := some
            exact .inr ⟨source, declared, triggers, earlier source declared triggers⟩
          · exact .inl fun source declared triggers => some ⟨source, declared, triggers⟩
  exact ⟨_, isLayering_of_hasRun fun id known => ⟨_, run _ id known (Nat.lt_succ_self _)⟩⟩

/-! ### Readiness -/

theorem inside_make (flat : workflow.Flat) (id : String) :
    (Cluster.make (.ofWorkflow workflow) id none).inside = [id] := by
  simp [Cluster.make, flat.descendants_eq]

/-- What an instance waits for besides its triggers are its producers. -/
theorem mem_prerequisites_make (flat : workflow.Flat) (certified : Certified workflow)
    (known : id ∈ workflow.instances.map (·.id)) :
    source ∈ (Cluster.make (.ofWorkflow workflow) id none).prerequisites ↔
      source ∈ workflow.instances.map (·.id) ∧ workflow.Gives source id := by
  have inBlock : Cluster.make (.ofWorkflow workflow) id none ∈
      Cluster.ofBlock (.ofWorkflow workflow) (workflow.instances.map (·.id)) := by
    rw [flat.clusters_eq]
    exact List.mem_map_of_mem known
  rw [Cluster.mem_prerequisites_iff inBlock, flat.inside_make]
  constructor
  · rintro ⟨⟨reader, inside, listed⟩ | ⟨_, none, _⟩, _⟩
    · obtain rfl := List.mem_singleton.mp inside
      have reads := (Analysis.sound_dataOf listed).2
      refine ⟨(certified.reads_inwards known reads).1,
        (gives_iff_mem_readSources reads.source_ordinary).mpr ?_⟩
      cases reads with
      | direct listed => exact listed
      | through _ expression _ => exact absurd expression flat.not_isExpression
    · cases none
  · rintro ⟨declared, gives⟩
    have reads := (gives_iff_mem_readSources (certified.ordinary_of_named declared)).mp gives
    refine ⟨.inl ⟨id, List.mem_singleton_self _, ?_⟩, fun same => ?_⟩
    · exact Analysis.mem_dataOf certified.expressionsAcyclic known (.direct reads)
        (Bool.eq_false_of_not_eq_true flat.not_isExpression)
    · rw [List.mem_singleton] at same
      exact certified.reads_irrefl id (.direct (same ▸ reads))

/-- **A cluster of one instance is ready if and only if the instance can start.** -/
theorem ready_iff (flat : workflow.Flat) (certified : Certified workflow)
    (known : id ∈ workflow.instances.map (·.id)) {done : String → Prop} :
    (Cluster.make (.ofWorkflow workflow) id none).Ready (.ofWorkflow workflow) done ↔
      workflow.CanStart done id := by
  obtain ⟨inst, member, rfl⟩ := List.mem_map.mp known
  obtain ⟨type, typed⟩ := certified.typed inst member
  have typedToo : (Analysis.ofWorkflow workflow).index.nodeType? inst.id = some type := typed
  rw [Cluster.Ready, canStart_iff, Cluster.make_head, typedToo, typed, Option.map_some]
  simp only [flat.mem_prerequisites_make certified known, List.eq_nil_iff_forall_not_mem,
    certified.mem_triggersOf_iff known]
  rcases flat.unconditional inst member type typed with conjunction | disjunction
  · simp [conjunction]
  · simp [disjunction, and_assoc]

end Workflow.Flat

/-! ### Nodes of rounds -/

/-- The node of the runs of a round: one stands for itself, several run in any order. -/
def PlanNode.ofRound : List Step → PlanNode
  | [run] => .step run
  | runs => .parallel (runs.map .step)

/-- The places of rounds of instances without scopes. -/
def Placement.ofRounds (rounds : List (List String)) : List Placement :=
  rounds.flatMap fun ids => Scheduler.together (ids.map (.node · []))

theorem Placement.ofRounds_cons (ids : List String) (rest : List (List String)) :
    ofRounds (ids :: rest) = Scheduler.together (ids.map (.node · [])) ++ ofRounds rest :=
  List.flatMap_cons

namespace Binding

theorem place_node (index : Index) (merges : List Merge) (id : String) :
    place index merges (.node id []) = ([.step (step index merges id)], merges) := by
  simp [place, placeBodies, runNode]

theorem placeEach_nodes (index : Index) (merges : List Merge) (ids : List String) :
    placeEach index merges (ids.map (.node · [])) =
      (ids.map fun id => .step (step index merges id), merges) := by
  induction ids with
  | nil => rfl
  | cons id rest ih =>
      simp only [List.map_cons, placeEach, place_node, ih]
      rfl

/-- The nodes of rounds of instances: one for each round. -/
theorem placeAll_ofRounds (index : Index) (merges : List Merge) (rounds : List (List String)) :
    placeAll index merges (Placement.ofRounds rounds) =
      (rounds.map fun ids => .ofRound (ids.map (step index merges)), merges) := by
  have one (ids : List String) : ∃ placement,
      Scheduler.together (ids.map (.node · [])) = [placement] ∧
      place index merges placement = ([.ofRound (ids.map (step index merges))], merges) := by
    rcases ids with _ | ⟨first, _ | ⟨second, rest⟩⟩
    · exact ⟨_, rfl, rfl⟩
    · exact ⟨_, rfl, place_node index merges first⟩
    · refine ⟨.parallel ((first :: second :: rest).map (.node · [])), rfl, ?_⟩
      rw [place, placeEach_nodes]
      simp [PlanNode.ofRound]
  induction rounds with
  | nil => rfl
  | cons ids rest ih =>
      obtain ⟨placement, alone, placed⟩ := one ids
      rw [Placement.ofRounds_cons, alone, List.singleton_append, placeAll, placed]
      dsimp only
      rw [ih]
      rfl

end Binding

/-! ### Rounds -/

/-- The instances of a round, in the order in which they are declared. -/
def Workflow.inRound (workflow : Workflow) (round : String → Nat) (k : Nat) : List String :=
  (workflow.instances.map (·.id)).filter fun id => round id = k

/-- The clusters of single instances whose rounds meet a condition. -/
def Workflow.clustersWhen (workflow : Workflow) (round : String → Nat) (when : Nat → Bool) :
    List Cluster :=
  ((workflow.instances.map (·.id)).filter fun id => when (round id)).map fun id =>
    Cluster.make (.ofWorkflow workflow) id none

theorem Workflow.filter_clustersWhen {workflow : Workflow} (round : String → Nat)
    (when also : Nat → Bool) :
    ((workflow.clustersWhen round when).filter fun cluster => also (round cluster.head)) =
      workflow.clustersWhen round fun k => also k && when k := by
  rw [clustersWhen, clustersWhen, List.filter_map, ← List.filter_filter]
  rfl

theorem Workflow.exists_of_mem_clustersWhen {workflow : Workflow} {round : String → Nat}
    {when : Nat → Bool} {cluster : Cluster} (member : cluster ∈ workflow.clustersWhen round when) :
    ∃ inst ∈ workflow.instances, cluster = Cluster.make (.ofWorkflow workflow) inst.id none := by
  obtain ⟨id, pending, rfl⟩ := List.mem_map.mp member
  obtain ⟨inst, declared, rfl⟩ := List.mem_map.mp (List.mem_filter.mp pending).1
  exact ⟨inst, declared, rfl⟩

namespace Workflow.Flat

variable {workflow : Workflow} {scheduler : Scheduler} {round : String → Nat} {k : Nat}

theorem inside_clustersWhen (flat : workflow.Flat) (when : Nat → Bool) :
    (workflow.clustersWhen round when).flatMap (·.inside) =
      (workflow.instances.map (·.id)).filter fun id => when (round id) := by
  simp only [clustersWhen, List.flatMap_map, flat.inside_make, List.flatMap_singleton']

theorem neededBy_eq (flat : workflow.Flat) (cluster : Cluster) :
    (Analysis.ofWorkflow workflow).neededBy cluster = [] := by
  simp [Analysis.neededBy, flat.expressionsOf_eq, flat.descendants_eq]

/-- Each cluster is placed as a node without scopes. -/
theorem placeCluster_eq (flat : workflow.Flat) (certified : Certified workflow) {when : Nat → Bool}
    {arrange : Block → Attempt ScheduleError (List Placement)} {block : Block} {cluster : Cluster}
    (member : cluster ∈ workflow.clustersWhen round when) :
    (scheduler.placeCluster (.ofWorkflow workflow) arrange block cluster).outcome =
      .ok (.node cluster.head []) := by
  obtain ⟨inst, declared, rfl⟩ := exists_of_mem_clustersWhen member
  obtain ⟨type, typed⟩ := certified.typed inst declared
  have closed : type.scopes = [] := by
    refine List.eq_nil_iff_forall_not_mem.mpr fun name declares => ?_
    obtain ⟨port, inside, scope⟩ := List.any_eq_true.mp (NodeType.mem_scopes.mp declares)
    rw [flat.unscoped inst declared type typed port inside] at scope
    cases scope
  refine Attempt.outcome_bind_eq_ok.mpr ⟨type, Scheduler.requireType_eq_ok.mpr typed, ?_⟩
  rw [closed]
  rfl

/-- **A round places the instances whose number it has**, if those of earlier rounds are placed. -/
theorem splitReady_eq (flat : workflow.Flat) (certified : Certified workflow)
    (scheduler : Scheduler) (layering : workflow.IsLayering round) (positive : 1 ≤ k)
    {resolved : List String} (placed : ∀ id ∈ workflow.instances.map (·.id), id ∈ resolved ↔
      round id < k) :
    (scheduler.splitReady (.ofWorkflow workflow) resolved
      (workflow.clustersWhen round (k ≤ ·))).outcome =
      .ok (workflow.clustersWhen round (· = k), workflow.clustersWhen round (k + 1 ≤ ·)) := by
  have decides : ∀ cluster ∈ workflow.clustersWhen round (k ≤ ·),
      (scheduler.isReady (.ofWorkflow workflow) resolved cluster).outcome =
      .ok (decide (round cluster.head ≤ k)) := by
    intro cluster member
    obtain ⟨inst, declared, rfl⟩ := exists_of_mem_clustersWhen member
    have known : inst.id ∈ workflow.instances.map (·.id) := List.mem_map_of_mem declared
    obtain ⟨type, typed⟩ := certified.typed inst declared
    obtain ⟨answer, asked, means⟩ :=
      @Scheduler.isReady_spec scheduler (.ofWorkflow workflow) resolved
      (Cluster.make (.ofWorkflow workflow) inst.id none) type typed
      (flat.unconditional inst declared type typed)
    rw [asked]
    refine congrArg _ (Bool.eq_iff_iff.mpr (means.trans ?_))
    rw [flat.ready_iff certified known, decide_eq_true_eq, Cluster.make_head,
      layering.le_iff known positive]
    constructor
    · exact fun can => can.imp fun source declared => (placed source declared).mp
    · exact fun can => can.imp fun source declared => (placed source declared).mpr
  have now : (fun n => decide (n ≤ k) && decide (k ≤ n)) = fun n => decide (n = k) := by
    funext n
    rw [← Bool.decide_and, decide_eq_decide]
    omega
  have later : (fun n => !decide (n ≤ k) && decide (k ≤ n)) = fun n => decide (k + 1 ≤ n) := by
    funext n
    rw [← decide_not, ← Bool.decide_and, decide_eq_decide]
    omega
  rw [Scheduler.splitReady_eq decides, filter_clustersWhen round (k ≤ ·) (· ≤ k), now,
    filter_clustersWhen round (k ≤ ·) (fun n => !decide (n ≤ k)), later]

/-- After a round the instances are placed that have its number or an earlier one. -/
theorem placed_succ (flat : workflow.Flat) {block : Block}
    (placed : ∀ id ∈ workflow.instances.map (·.id), id ∈ block.resolved ↔ round id < k) :
    ∀ id ∈ workflow.instances.map (·.id),
      id ∈ (block.withPlaced (workflow.clustersWhen round (· = k))).resolved ↔
      round id < k + 1 := by
  intro id known
  rw [Block.withPlaced, flat.inside_clustersWhen, List.mem_append, List.mem_filter,
    decide_eq_true_eq, placed id known, Nat.lt_succ_iff_lt_or_eq]
  exact ⟨fun either => either.symm.imp_right And.right, fun either =>
    either.symm.imp_left (⟨known, ·⟩)⟩

/-- One round of an arrangement is one of the layering, with nothing computed in front of it. -/
theorem arrangeRounds_succ (flat : workflow.Flat) (certified : Certified workflow)
    (layering : workflow.IsLayering round) (positive : 1 ≤ k)
    {arrange : Block → Attempt ScheduleError (List Placement)} {fuel : Nat} {block : Block}
    {rest : List Placement} (placed : ∀ id ∈ workflow.instances.map (·.id), id ∈ block.resolved ↔
      round id < k)
    (some : workflow.clustersWhen round (· = k) ≠ [])
    (following : (scheduler.arrangeRounds (.ofWorkflow workflow) arrange fuel
      (block.withPlaced (workflow.clustersWhen round (· = k)))
      (workflow.clustersWhen round (k + 1 ≤ ·))).outcome =
        .ok rest) :
    (scheduler.arrangeRounds (.ofWorkflow workflow) arrange (fuel + 1) block
      (workflow.clustersWhen round (k ≤ ·))).outcome =
        .ok (Scheduler.together ((workflow.inRound round k).map (.node · [])) ++ rest) := by
  have parted := flat.splitReady_eq certified scheduler layering positive placed
  have needed : (workflow.clustersWhen round (· = k)).flatMap
      (Analysis.ofWorkflow workflow).neededBy = [] :=
    List.flatMap_eq_nil_iff.mpr fun cluster _ => flat.neededBy_eq cluster
  have nodes : (workflow.clustersWhen round (· = k)).map (fun cluster =>
      Placement.node cluster.head []) = (workflow.inRound round k).map (.node · []) := by
    rw [clustersWhen, List.map_map]
    rfl
  rw [Scheduler.arrangeRounds]
  · refine Attempt.outcome_bind_eq_ok.mpr ⟨_, parted, ?_⟩
    dsimp only
    rw [if_neg (by simpa using some), needed]
    refine Attempt.outcome_bind_eq_ok.mpr ⟨[], Analysis.inlineNeeded_nil _ block, ?_⟩
    refine Attempt.outcome_bind_eq_ok.mpr ⟨_, Attempt.outcome_mapM_eq_ok fun cluster member =>
      flat.placeCluster_eq certified member, ?_⟩
    rw [nodes]
    exact Attempt.outcome_bind_eq_ok.mpr ⟨rest, following, rfl⟩
  · intro nothing
    have all := Scheduler.splitReady_perm parted
    rw [nothing] at all
    exact some (List.append_eq_nil_iff.mp all.eq_nil).1

/-- **The rounds of an arrangement are those of the layering**, in order and as long as there is one
left. -/
theorem arrangeRounds_eq (flat : workflow.Flat) (certified : Certified workflow)
    (layering : workflow.IsLayering round) (positive : 1 ≤ k)
    {arrange : Block → Attempt ScheduleError (List Placement)} {rounds fuel : Nat} {block : Block}
    (placed : ∀ id ∈ workflow.instances.map (·.id), id ∈ block.resolved ↔ round id < k)
    (left : ∀ j, k ≤ j → (j < k + rounds ↔ ∃ id ∈ workflow.instances.map (·.id), round id = j))
    (enough : (workflow.clustersWhen round (k ≤ ·)).length ≤ fuel) :
    (scheduler.arrangeRounds (.ofWorkflow workflow) arrange fuel block
      (workflow.clustersWhen round (k ≤ ·))).outcome =
      .ok (Placement.ofRounds ((List.range' k rounds).map (workflow.inRound round))) := by
  induction rounds generalizing k fuel block with
  | zero =>
      have empty : workflow.clustersWhen round (k ≤ ·) = [] := by
        refine List.map_eq_nil_iff.mpr (List.filter_eq_nil_iff.mpr fun id known later => ?_)
        rw [decide_eq_true_eq] at later
        exact absurd ((left _ later).mpr ⟨id, known, rfl⟩) (Nat.not_lt.mpr later)
      rw [empty, Scheduler.arrangeRounds]
      refine Attempt.outcome_bind_eq_ok.mpr ⟨[], ?_, rfl⟩
      rw [flat.sinkExpressions_eq, ite_self]
      exact Analysis.inlineNeeded_nil _ block
  | succ rounds ih =>
      obtain ⟨id, known, here⟩ := (left k le_rfl).mp (Nat.lt_add_of_pos_right (Nat.succ_pos _))
      have some : workflow.clustersWhen round (· = k) ≠ [] :=
        List.ne_nil_of_mem (List.mem_map_of_mem (List.mem_filter.mpr ⟨known, decide_eq_true here⟩))
      -- every round places a cluster, so that there is fuel for the rounds that are left
      have parted := Scheduler.splitReady_perm (flat.splitReady_eq certified scheduler layering
        positive placed)
      have shorter := parted.length_eq
      rw [List.length_append] at shorter
      have placesSome := List.length_pos_iff.mpr some
      obtain ⟨fuel, rfl⟩ := Nat.exists_eq_succ_of_ne_zero (show fuel ≠ 0 by omega)
      have leftLater : ∀ j, k + 1 ≤ j →
          (j < k + 1 + rounds ↔ ∃ id ∈ workflow.instances.map (·.id), round id = j) := by
        intro j later
        rw [← left j (Nat.le_of_succ_le later), Nat.add_right_comm, Nat.add_assoc]
      rw [List.range'_succ, List.map_cons, Placement.ofRounds_cons]
      exact flat.arrangeRounds_succ certified layering positive placed some
        (ih (Nat.le_add_left 1 k) (flat.placed_succ placed) leftLater (by omega))

/-- The whole workflow is arranged in the rounds of its layering. -/
theorem arrangeWorkflow_eq (flat : workflow.Flat) (certified : Certified workflow)
    (layering : workflow.IsLayering round) {count : Nat}
    (rounds : ∀ k, (1 ≤ k ∧ k ≤ count) ↔ ∃ id ∈ workflow.instances.map (·.id), round id = k) :
    (scheduler.arrangeWorkflow (.ofWorkflow workflow)).outcome =
      .ok (Placement.ofRounds ((List.range' 1 count).map (workflow.inRound round))) := by
  have clusters : Cluster.ofBlock (.ofWorkflow workflow)
      ((Index.ofWorkflow workflow).scheduledIn none) = workflow.clustersWhen round (1 ≤ ·) := by
    rw [flat.scheduledIn_eq certified, flat.clusters_eq, clustersWhen, List.filter_eq_self.mpr]
    exact fun id known => decide_eq_true (layering id known).1.1
  have left : ∀ k, 1 ≤ k →
      (k < 1 + count ↔ ∃ id ∈ workflow.instances.map (·.id), round id = k) := by
    intro k positive
    rw [← rounds k]
    omega
  show (scheduler.arrangeRounds (.ofWorkflow workflow) _ (Cluster.ofBlock _ _).length _
    (Cluster.ofBlock (.ofWorkflow workflow)
      ((Index.ofWorkflow workflow).scheduledIn none))).outcome = _
  rw [clusters]
  refine flat.arrangeRounds_eq certified layering le_rfl (fun id known => ?_) left ?_
  · exact ⟨fun none => (nomatch none), fun early =>
      absurd (layering id known).1.1 (Nat.not_le.mpr early)⟩
  · exact (congrArg List.length clusters).ge

end Workflow.Flat

/-- **A workflow of one level and without branches runs in layers.** If there is no error in its
report, there is one number for each instance that is the earliest round in which it can start:
after its producers, and after all or one of those that trigger it. The workflow is scheduled; its
plan is one round after the other, with no round left out, and the instances of a round run side by
side in the order in which they are declared. -/
theorem earliest_rounds {workflow : Workflow} (valid : (validate workflow).hasErrors = false)
    (flat : workflow.Flat) (scheduler : Scheduler) :
    ∃ round, workflow.IsLayering round ∧
      (∀ other, workflow.IsLayering other → ∀ id ∈ workflow.instances.map (·.id),
        other id = round id) ∧
      ∃ count plan, (∀ k, (1 ≤ k ∧ k ≤ count) ↔ ∃ id ∈ workflow.instances.map (·.id),
        round id = k) ∧ (scheduler.schedule workflow).outcome = .ok plan ∧
        plan.body = .ofBlock ((List.range' 1 count).map fun k =>
          .ofRound ((workflow.inRound round k).map (Binding.step (.ofWorkflow workflow) []))) := by
  have certified := certified_of_validate valid
  obtain ⟨round, layering⟩ := flat.exists_isLayering certified
  obtain ⟨count, rounds⟩ := layering.exists_count
  have scheduled : (scheduler.schedule workflow).outcome = .ok (Binding.plan (.ofWorkflow workflow)
      (Placement.ofRounds ((List.range' 1 count).map (workflow.inRound round)))) := by
    unfold Scheduler.schedule
    dsimp only
    rw [certified.unknownSource?_eq_none]
    exact Attempt.outcome_bind_eq_ok.mpr ⟨_, flat.arrangeWorkflow_eq certified layering rounds, rfl⟩
  refine ⟨round, layering, fun other layeringToo id known => layering.unique layeringToo known,
    count, _, rounds, scheduled, ?_⟩
  rw [Binding.plan, Binding.placeAll_ofRounds, List.map_map]
  rfl

/-- Tasks of which `d` starts after either of `b` and `c`, and `e` reads what `d` gives. -/
def eitherTrigger : Workflow where
  name := "either trigger"
  nodeTypes := [taskType, { taskType with id := "Either", trigger := .disjunction }]
  instances :=
    [{ id := "e", nodeType := "Task" }, { id := "a", nodeType := "Task" },
      { id := "b", nodeType := "Task" },
      { id := "d", nodeType := "Either" }, { id := "c", nodeType := "Task" }]
  connections :=
    [⟨⟨"a", "onSuccess", none⟩, ⟨"c", "execute", none⟩⟩,
      ⟨⟨"c", "onSuccess", none⟩, ⟨"d", "execute", none⟩⟩,
      ⟨⟨"b", "onFailure", none⟩, ⟨"d", "execute", none⟩⟩,
      ⟨⟨"d", "out", none⟩, ⟨"e", "in", none⟩⟩]

/-- The rounds of `eitherTrigger`. -/
def eitherRound (id : String) : Nat :=
  if id = "e" then 3 else if id = "c" ∨ id = "d" then 2 else 1

theorem earliest_rounds_eitherTrigger :
    (validate eitherTrigger).hasErrors = false ∧ eitherTrigger.Flat ∧
      eitherTrigger.IsLayering eitherRound ∧
      ∃ plan, (({} : Scheduler).schedule eitherTrigger).outcome = .ok plan ∧
        plan.body = .sequence ([["a", "b"], ["d", "c"], ["e"]].map fun ids =>
          .ofRound (ids.map (Binding.step (.ofWorkflow eitherTrigger) []))) := by
  have valid : (validate eitherTrigger).hasErrors = false := by decide +kernel
  have flat : eitherTrigger.Flat := by decide +kernel
  have layering : eitherTrigger.IsLayering eitherRound := by decide +kernel
  obtain ⟨round, _, unique, count, plan, rounds, scheduled, body⟩ := earliest_rounds valid flat {}
  have same := unique eitherRound layering
  have three : count = 3 := by
    have atLeast := (rounds 3).mpr ⟨"e", by decide, (same "e" (by decide)).symm⟩
    have atMost : ¬ (1 ≤ 4 ∧ 4 ≤ count) := by
      rw [rounds 4]
      rintro ⟨id, known, last⟩
      rw [← same id known] at last
      exact absurd last
        ((show ∀ id ∈ eitherTrigger.instances.map (·.id), eitherRound id ≠ 4 by decide) id known)
    omega
  refine ⟨valid, flat, layering, plan, scheduled, ?_⟩
  have inRound : eitherTrigger.inRound round = eitherTrigger.inRound eitherRound :=
    funext fun k => List.filter_congr fun id known => by rw [same id known]
  rw [body, three, inRound]
  rfl

end WorkflowGraph
