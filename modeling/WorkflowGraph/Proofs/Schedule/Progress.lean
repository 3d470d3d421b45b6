/-
When a workflow without errors can be scheduled.

The main statement is `schedules_iff_orderly`: a workflow in whose report there is no error is
scheduled if and only if every block that comes up is orderly, and where it is not scheduled the
scheduler says that it is stuck. Ranks order the instances, but not the clusters: `lateReader_stuck`
is a workflow without errors in which a branch waits for a reader of its own head.

* `isReady_spec` — the scheduler places a cluster as soon as it is ready.
* `Closed.exists_ready` — while clusters of an orderly block are pending, one of them is ready.
* `Certified.arrange_stuckOnly` — an arrangement only fails because it is stuck, and only if a block
  that comes up is not orderly.
* `Scheduler.Rounds.readyOrder` — the rounds of an arrangement are a ready order.
-/

import Mathlib.Data.Finset.Max
import WorkflowGraph.Proofs.Schedule.Located

namespace WorkflowGraph

/-! ### Readiness -/

namespace Scheduler

variable {scheduler : Scheduler} {analysis : Analysis} {resolved : List String}

/-- **The scheduler knows which clusters are ready**, where no predicate has a say. -/
theorem isReady_spec {cluster : Cluster} {type : NodeType}
    (typed : analysis.index.nodeType? cluster.head = some type)
    (plain : type.trigger = .conjunction ∨ type.trigger = .disjunction) :
    ∃ answer, (scheduler.isReady analysis resolved cluster).outcome = .ok answer ∧
      (answer = true ↔ cluster.Ready analysis (· ∈ resolved)) := by
  unfold isReady Cluster.Ready
  split
  · rename_i all
    have data : ∀ id ∈ cluster.prerequisites, id ∈ resolved := by simpa using all
    rcases plain with conjunction | disjunction
    · refine ⟨((analysis.triggersOf cluster.head).filter (· ∉ resolved)).isEmpty,
        Attempt.outcome_bind_eq_ok.mpr ⟨type, requireType_eq_ok.mpr typed, ?_⟩, ?_⟩
      · rw [conjunction]
        exact Attempt.outcome_pure _
      · simpa [typed, conjunction] using fun _ => data
    · refine ⟨(analysis.triggersOf cluster.head).isEmpty ||
          !((analysis.triggersOf cluster.head).filter (· ∈ resolved)).isEmpty,
        Attempt.outcome_bind_eq_ok.mpr ⟨type, requireType_eq_ok.mpr typed, ?_⟩, ?_⟩
      · rw [disjunction]
        exact Attempt.outcome_pure _
      · simpa [typed, disjunction] using fun _ => data
  · rename_i some
    refine ⟨false, rfl, ?_⟩
    simp only [Bool.false_eq_true, false_iff, not_and]
    intro data
    exact absurd (by simpa using data) some

/-- Whether the scheduler knows of each of some clusters when it is ready. -/
def Decides (scheduler : Scheduler) (analysis : Analysis) (clusters : List Cluster) : Prop :=
  ∀ cluster ∈ clusters, ∀ resolved, ∃ answer,
    (scheduler.isReady analysis resolved cluster).outcome = .ok answer ∧
      (answer = true ↔ cluster.Ready analysis (· ∈ resolved))

/-- A round parts the pending clusters by whether they are ready, and keeps their order. -/
theorem splitReady_eq {pending : List Cluster} {ready : Cluster → Bool}
    (answers : ∀ cluster ∈ pending,
      (scheduler.isReady analysis resolved cluster).outcome = .ok (ready cluster)) :
    (scheduler.splitReady analysis resolved pending).outcome =
      .ok (pending.filter ready, pending.filter fun cluster => !ready cluster) := by
  induction pending with
  | nil => rfl
  | cons cluster rest ih =>
      rw [splitReady, Attempt.outcome_bind_eq_ok]
      refine ⟨ready cluster, answers cluster List.mem_cons_self, Attempt.outcome_bind_eq_ok.mpr
        ⟨_, ih fun other member => answers other (List.mem_cons_of_mem _ member), ?_⟩⟩
      cases answer : ready cluster <;> simp [answer]

theorem splitReady_spec {pending : List Cluster} (decides : scheduler.Decides analysis pending) :
    ∃ ready waiting,
      (scheduler.splitReady analysis resolved pending).outcome = .ok (ready, waiting) ∧
      (∀ cluster ∈ ready, cluster.Ready analysis (· ∈ resolved)) ∧
      ∀ cluster ∈ waiting, ¬ cluster.Ready analysis (· ∈ resolved) := by
  classical
  have answers : ∀ cluster ∈ pending, (scheduler.isReady analysis resolved cluster).outcome =
      .ok (decide (cluster.Ready analysis (· ∈ resolved))) := by
    intro cluster member
    obtain ⟨answer, asked, means⟩ := decides cluster member resolved
    rw [asked, Bool.eq_iff_iff.mpr (means.trans decide_eq_true_iff.symm)]
  refine ⟨_, _, splitReady_eq answers, fun cluster member => ?_, fun cluster member => ?_⟩
  · simpa using (List.mem_filter.mp member).2
  · simpa using (List.mem_filter.mp member).2

theorem ready_of_splitReady {pending ready waiting : List Cluster}
    (decides : scheduler.Decides analysis pending)
    (parted : (scheduler.splitReady analysis resolved pending).outcome = .ok (ready, waiting)) :
    ∀ cluster ∈ ready, cluster.Ready analysis (· ∈ resolved) := by
  obtain ⟨_, _, found, allReady, _⟩ := @splitReady_spec _ _ resolved _ decides
  rw [parted] at found
  cases found
  exact allReady

end Scheduler

/-- Whether no instance waits for a predicate. -/
def Workflow.Unconditional (workflow : Workflow) : Prop :=
  ∀ type ∈ workflow.nodeTypes, type.trigger = .conjunction ∨ type.trigger = .disjunction

/-- Whether no scope that the node type of an instance declares lies too deep. -/
def Workflow.Shallow (workflow : Workflow) (limit : Nat) : Prop :=
  ∀ inst ∈ workflow.instances, ∀ type ∈ (Index.ofWorkflow workflow).nodeType? inst.id,
    ∀ name ∈ type.scopes,
      ∃ depth ∈ (Index.ofWorkflow workflow).depth (some ⟨inst.id, name⟩), depth ≤ limit

instance (workflow : Workflow) : Decidable workflow.Unconditional :=
  inferInstanceAs (Decidable (∀ type ∈ workflow.nodeTypes,
    type.trigger = .conjunction ∨ type.trigger = .disjunction))

instance (workflow : Workflow) (limit : Nat) : Decidable (workflow.Shallow limit) :=
  inferInstanceAs (Decidable (∀ inst ∈ workflow.instances,
    ∀ type ∈ (Index.ofWorkflow workflow).nodeType? inst.id, ∀ name ∈ type.scopes,
      ∃ depth ∈ (Index.ofWorkflow workflow).depth (some ⟨inst.id, name⟩), depth ≤ limit))

variable {workflow : Workflow} {scheduler : Scheduler}

namespace Certified

variable {region : Region} {members : List String}

theorem typed_of_mem (certified : Certified workflow) (block : IsBlock workflow region members)
    {id : String} (member : id ∈ members) :
    ∃ type, (Index.ofWorkflow workflow).nodeType? id = some type := by
  obtain ⟨inst, declared, rfl⟩ := List.mem_map.mp (block.named member)
  exact certified.typed inst declared

theorem decides (certified : Certified workflow) (plain : workflow.Unconditional)
    (block : IsBlock workflow region members) :
    scheduler.Decides (.ofWorkflow workflow) (Cluster.ofBlock (.ofWorkflow workflow) members) := by
  intro cluster member resolved
  obtain ⟨type, typed⟩ := certified.typed_of_mem block (Cluster.exists_of_mem_ofBlock member).2.1
  exact Scheduler.isReady_spec typed (plain type (Index.nodeType_mem typed))

end Certified

/-- **While clusters of an orderly block are pending, one of them is ready**: the first that is
pending in a ready order. -/
theorem Closed.exists_ready {analysis : Analysis} {resolved block : List String}
    (closed : Closed analysis resolved (Cluster.ofBlock analysis block))
    {order pending : List Cluster} (all : order.Perm (Cluster.ofBlock analysis block))
    (ordered : ReadyOrder analysis (Cluster.ofBlock analysis block) [] order)
    (inBlock : pending ⊆ Cluster.ofBlock analysis block) (nonempty : pending ≠ [])
    (done : ∀ cluster ∈ Cluster.ofBlock analysis block, cluster ∉ pending →
      ∀ id ∈ cluster.inside, id ∈ resolved) :
    ∃ cluster ∈ pending, cluster.Ready analysis (· ∈ resolved) := by
  have some : (order.find? fun cluster => cluster ∈ pending).isSome = true := by
    obtain ⟨cluster, member⟩ := List.exists_mem_of_ne_nil pending nonempty
    exact List.find?_isSome.mpr ⟨cluster, all.mem_iff.mpr (inBlock member), by simpa using member⟩
  obtain ⟨cluster, found⟩ := Option.isSome_iff_exists.mp some
  obtain ⟨isPending, before, after, rfl, earlier⟩ := List.find?_eq_some_iff_append.mp found
  rw [decide_eq_true_eq] at isPending
  refine ⟨cluster, isPending, ordered.ready.imp fun id waits settled => ?_⟩
  have inReach : id ∈ resolved ∨ Inside (Cluster.ofBlock analysis block) id := by
    rcases waits with needed | triggers
    · exact closed.prerequisites (inBlock isPending) needed
    · exact closed.triggers cluster (inBlock isPending) _ List.mem_cons_self id triggers
  rcases inReach with known | inside
  · exact known
  · -- what is inside of earlier clusters of the order is resolved
    obtain ⟨other, member, within⟩ := settled inside
    have inFront : other ∈ before := by simpa using member
    exact done other (all.mem_iff.mp (List.mem_append_left _ inFront))
      (by simpa using earlier other inFront) id within

/-! ### Expressions are never in the way -/

/-- An expression has a higher rank than those that it is given, from its own scopes too. -/
theorem Certified.rank_of_expressionSources {rank : String → Nat} (certified : Certified workflow)
    (ranks : Ranks workflow rank) {id source : String} (known : id ∈ workflow.instances.map (·.id))
    (given : source ∈ (Index.ofWorkflow workflow).expressionSources id) :
    rank source < rank id := by
  obtain ⟨_, connection, inside, rfl, found⟩ := Index.mem_expressionSources.mp given
  obtain ⟨rfl, ordinary, port, atSource, data, plain⟩ := Index.dataSource?_eq_some.mp found
  obtain ⟨inst, declared, same⟩ := List.mem_map.mp known
  have targetOrdinary : isBoundary connection.target.node = false :=
    same ▸ certified.ordinary inst declared
  obtain ⟨_, target, _, atTarget, _⟩ := certified.ports connection inside
  cases scope : target.scope with
  | none => exact ranks.connection connection inside (isPlain_iff.mpr
      ⟨ordinary, targetOrdinary, ⟨port, atSource, plain⟩, ⟨target, atTarget, scope⟩⟩)
  | some name =>
      have region := (certified.data_region inside atSource atTarget
        (by simpa [Port.isData] using data)).2 (by simp [scope])
      rw [Wired.regionAt_plain ordinary plain] at region
      have sourceKnown := Wired.named_of_resolve atSource ordinary
      refine certified.rank_of_nested ranks sourceKnown ⟨name, ?_⟩
      rw [region, Index.regionAt, targetOrdinary, scope]
      exact .refl _

theorem Certified.inlineOrder_ok (certified : Certified workflow) {region : Region}
    {available remaining : List String} (known : remaining ⊆ workflow.instances.map (·.id)) :
    ∃ ids, (Analysis.ofWorkflow workflow).inlineOrder region remaining.length available remaining =
      .ok ids := by
  obtain ⟨rank, ranks⟩ := certified.ranked
  induction length : remaining.length generalizing available remaining with
  | zero =>
      obtain rfl := List.eq_nil_of_length_eq_zero length
      exact ⟨[], rfl⟩
  | succ count ih =>
      have nonempty : remaining ≠ [] := by
        rintro rfl
        cases length
      -- one of lowest rank is given nothing that remains
      obtain ⟨lowest, member, minimal⟩ := remaining.toFinset.exists_min_image rank
        (List.toFinset_nonempty_iff remaining |>.mpr nonempty)
      rw [List.mem_toFinset] at member
      have found : (remaining.find? fun id =>
          ((Analysis.ofWorkflow workflow).index.expressionSources id).all fun source =>
            source ∈ available || source ∉ remaining).isSome = true := by
        refine List.find?_isSome.mpr ⟨lowest, member, List.all_eq_true.mpr fun source given => ?_⟩
        have less := certified.rank_of_expressionSources ranks (known member) given
        have absent : source ∉ remaining := fun among =>
          Nat.not_lt.mpr (minimal source (List.mem_toFinset.mpr among)) less
        simp [absent]
      obtain ⟨next, picked⟩ := Option.isSome_iff_exists.mp found
      have inRemaining := List.mem_of_find?_eq_some picked
      have shorter : (remaining.erase next).length = count := by
        rw [List.length_erase_of_mem inRemaining, length, Nat.add_sub_cancel]
      obtain ⟨ids, ordered⟩ := @ih (next :: available) (remaining.erase next)
        (fun id among => known (List.mem_of_mem_erase among)) shorter
      refine ⟨next :: ids, ?_⟩
      cases remaining with
      | nil => exact absurd rfl nonempty
      | cons first rest =>
          rw [Analysis.inlineOrder]
          · rw [picked]
            dsimp only
            rw [ordered]
            rfl
          · simp

/-- **The expressions that are needed can be put in order.** -/
theorem Certified.inlineNeeded_ok (certified : Certified workflow) (block : Block)
    (needed : List String) :
    ∃ ids, (Analysis.ofWorkflow workflow).inlineNeeded block needed = .ok ids :=
  certified.inlineOrder_ok fun _ among => (Analysis.mem_inOrder.mp among).1

/-! ### Attempts that only get stuck -/

/-- Whether an attempt can only fail because it is stuck, and then with a reason. -/
def Attempt.StuckOnly {α : Type} (reason : Prop) (attempt : Attempt ScheduleError α) : Prop :=
  ∀ error, attempt.outcome = .error error → (∃ region pending, error = .stuck region pending) ∧
    reason

namespace Attempt.StuckOnly

variable {α β : Type} {reason : Prop}

theorem of_ok {attempt : Attempt ScheduleError α} {value : α} (done : attempt.outcome = .ok value) :
    attempt.StuckOnly reason := by
  intro error failed
  rw [done] at failed
  cases failed

theorem stuck {region : Region} {pending : List String} (known : reason) :
    (fail (.stuck region pending) : Attempt ScheduleError α).StuckOnly reason := by
  intro error failed
  cases failed
  exact ⟨⟨region, pending, rfl⟩, known⟩

theorem bind {first : Attempt ScheduleError α} {second : α → Attempt ScheduleError β}
    (one : first.StuckOnly reason)
    (other : ∀ value, first.outcome = .ok value → (second value).StuckOnly reason) :
    (first >>= second).StuckOnly reason := by
  intro error failed
  rcases outcome_bind_eq_error.mp failed with failed | ⟨value, done, failed⟩
  · exact one error failed
  · exact other value done error failed

theorem mapM {step : α → Attempt ScheduleError β} {items : List α}
    (each : ∀ item ∈ items, (step item).StuckOnly reason) : (items.mapM step).StuckOnly reason := by
  induction items with
  | nil => exact of_ok rfl
  | cons item rest ih =>
      rw [List.mapM_cons]
      refine (each item List.mem_cons_self).bind fun _ _ => ?_
      exact (ih fun other member => each other (List.mem_cons_of_mem _ member)).bind fun _ _ =>
        of_ok rfl

end Attempt.StuckOnly

namespace Scheduler

variable {analysis : Analysis} {arrange : Block → Attempt ScheduleError (List Placement)}
  {reason : Prop}

theorem placeBodies_stuckOnly {block : Block} {owner : String} {names : List String}
    (shallow : ∀ name ∈ names, ∃ depth, analysis.index.depth (some ⟨owner, name⟩) = some depth ∧
      depth ≤ scheduler.maxScopeDepth)
    (inside : ∀ name ∈ names, (arrange (block.body analysis.index owner name)).StuckOnly reason) :
    (scheduler.placeBodies analysis.index arrange block owner names).StuckOnly reason := by
  induction names with
  | nil => exact .of_ok rfl
  | cons name rest ih =>
      refine (Attempt.StuckOnly.of_ok (checkDepth_eq_ok.mpr (shallow name List.mem_cons_self))).bind
        fun _ _ => (inside name List.mem_cons_self).bind fun _ _ => ?_
      exact (ih (fun other member => shallow other (List.mem_cons_of_mem _ member))
        fun other member => inside other (List.mem_cons_of_mem _ member)).bind fun _ _ => .of_ok rfl

theorem placeCluster_stuckOnly {block : Block} {cluster : Cluster} {type : NodeType}
    (typed : analysis.index.nodeType? cluster.head = some type)
    (shallow : ∀ name ∈ type.scopes, ∃ depth,
      analysis.index.depth (some ⟨cluster.head, name⟩) = some depth ∧
      depth ≤ scheduler.maxScopeDepth)
    (inside : ∀ name ∈ type.scopes,
      (arrange (block.body analysis.index cluster.head name)).StuckOnly reason)
    (inArms : ∀ arms, cluster.arms = some arms → ∀ arm other, arms.Opposite arm other →
      (arrange (block.ofArm analysis cluster.head arm)).StuckOnly reason) :
    (scheduler.placeCluster analysis arrange block cluster).StuckOnly reason := by
  refine (Attempt.StuckOnly.of_ok (requireType_eq_ok.mpr typed)).bind fun found known => ?_
  obtain rfl : found = type := by
    have := requireType_eq_ok.mp known
    rw [typed] at this
    exact (Option.some.inj this).symm
  refine (placeBodies_stuckOnly shallow inside).bind fun bodies _ => ?_
  split
  · exact .of_ok rfl
  · rename_i arms branching
    exact (inArms arms branching _ _ .success).bind fun _ _ =>
      (inArms arms branching _ _ .failure).bind fun _ _ => .of_ok rfl

/-- Rounds only get stuck where no cluster is ready. -/
theorem arrangeRounds_stuckOnly {clusters : List Cluster} {start : List String}
    (decides : scheduler.Decides analysis clusters)
    (inlines : ∀ block needed, ∃ ids, analysis.inlineNeeded block needed = .ok ids)
    (progress : reason ∨ ∀ (resolved : List String) (pending : List Cluster), start ⊆ resolved →
      pending ⊆ clusters → pending ≠ [] →
      (∀ cluster ∈ clusters, cluster ∉ pending → ∀ id ∈ cluster.inside, id ∈ resolved) →
      ∃ cluster ∈ pending, cluster.Ready analysis (· ∈ resolved))
    (places : ∀ block : Block, ∀ cluster ∈ clusters,
      (∀ id ∈ cluster.prerequisites, id ∈ block.resolved) →
      (scheduler.placeCluster analysis arrange block cluster).StuckOnly reason)
    {count : Nat} {block : Block} {pending : List Cluster} (from_ : start ⊆ block.resolved)
    (inBlock : pending ⊆ clusters)
    (done : ∀ cluster ∈ clusters, cluster ∉ pending → ∀ id ∈ cluster.inside, id ∈ block.resolved)
    (enough : pending.length ≤ count) :
    (scheduler.arrangeRounds analysis arrange count block pending).StuckOnly reason := by
  induction count generalizing block pending with
  | zero =>
      obtain rfl := List.eq_nil_of_length_eq_zero (Nat.le_zero.mp enough)
      obtain ⟨ids, inlined⟩ := inlines block (block.sinks analysis)
      exact (Attempt.StuckOnly.of_ok inlined).bind fun _ _ => .of_ok rfl
  | succ count ih =>
      by_cases nothing : pending = []
      · subst nothing
        obtain ⟨ids, inlined⟩ := inlines block (block.sinks analysis)
        exact (Attempt.StuckOnly.of_ok inlined).bind fun _ _ => .of_ok rfl
      rw [arrangeRounds]
      swap
      · exact nothing
      obtain ⟨ready, waiting, parted, allReady, noneReady⟩ :=
        @splitReady_spec _ _ block.resolved _ fun cluster member => decides cluster (inBlock member)
      have perm := splitReady_perm parted
      refine (Attempt.StuckOnly.of_ok parted).bind fun value known => ?_
      rw [parted] at known
      cases known
      dsimp only
      by_cases none : ready = []
      · subst none
        refine Attempt.StuckOnly.stuck (progress.resolve_right fun moves => ?_)
        obtain ⟨cluster, isPending, isReady⟩ := moves _ pending from_ inBlock nothing done
        exact noneReady cluster (perm.mem_iff.mpr isPending) isReady
      · rw [if_neg (by simpa using none)]
        obtain ⟨ids, inlined⟩ := inlines block (ready.flatMap analysis.neededBy)
        refine (Attempt.StuckOnly.of_ok inlined).bind fun _ _ => ?_
        refine (Attempt.StuckOnly.mapM fun cluster isReady =>
          places _ cluster ?_ ?_).bind fun _ _ =>
          (ih ?_ ?_ ?_ ?_).bind fun _ _ => .of_ok rfl
        · exact inBlock (perm.subset (List.mem_append_left _ isReady))
        · exact (allReady cluster isReady).1
        · exact List.Subset.trans from_ (List.subset_append_right _ _)
        · exact fun cluster isWaiting => inBlock (perm.subset (List.mem_append_right _ isWaiting))
        · intro cluster member notWaiting id inside
          by_cases isPending : cluster ∈ pending
          · have isReady :=
              (List.mem_append.mp (perm.mem_iff.mpr isPending)).resolve_right notWaiting
            exact List.mem_append_left _ (mem_flatMap_inside.mpr ⟨cluster, isReady, inside⟩)
          · exact List.mem_append_right _ (done cluster member isPending id inside)
        · have length := perm.length_eq
          have some := List.length_pos_iff.mpr none
          rw [List.length_append] at length
          omega

end Scheduler

/-! ### Levels -/

/-- Whether the levels that are left are enough for a block: the heads around it are different
instances outside of the block, and there are levels for all others. -/
structure Budget (workflow : Workflow) (levels : Nat) (heads members : List String) : Prop where
  distinct : heads.Nodup
  named : heads ⊆ workflow.instances.map (·.id)
  outside : Fresh heads (Cluster.ofBlock (.ofWorkflow workflow) members)
  enough : workflow.instances.length < levels + heads.length

namespace Budget

variable {levels : Nat} {heads members inner : List String}

theorem positive (budget : Budget workflow levels heads members) : levels ≠ 0 := by
  rintro rfl
  have few := (List.subperm_of_subset budget.distinct budget.named).length_le
  have := budget.enough
  rw [List.length_map] at few
  omega

/-- Every level of nesting has another head. -/
theorem next (budget : Budget workflow (levels + 1) heads members) {region : Region}
    (block : IsBlock workflow region members) {cluster : Cluster}
    (member : cluster ∈ Cluster.ofBlock (.ofWorkflow workflow) members)
    (outside : Fresh (cluster.head :: heads) (Cluster.ofBlock (.ofWorkflow workflow) inner)) :
    Budget workflow levels (cluster.head :: heads) inner := by
  refine ⟨List.nodup_cons.mpr ⟨fun among => ?_, budget.distinct⟩, ?_, outside, ?_⟩
  · exact budget.outside _ among ⟨cluster, member, Cluster.head_mem_inside member⟩
  · exact List.cons_subset.mpr ⟨block.named (Cluster.exists_of_mem_ofBlock member).2.1,
      budget.named⟩
  · have := budget.enough
    simp only [List.length_cons]
    omega

end Budget

theorem Closed.mono {analysis : Analysis} {resolved more : List String} {pending : List Cluster}
    (closed : Closed analysis resolved pending) (subset : resolved ⊆ more) :
    Closed analysis more pending :=
  ⟨fun reader inside source reads => (closed.data reader inside source reads).imp_left
    (@subset source), fun cluster member follower inMembers source triggers =>
      (closed.triggers cluster member follower inMembers source triggers).imp_left (@subset source)⟩

/-- **An arrangement only fails because it is stuck, and only if a block that comes up is not
orderly.** -/
theorem Certified.arrange_stuckOnly (certified : Certified workflow)
    (plain : workflow.Unconditional) (shallow : workflow.Shallow scheduler.maxScopeDepth)
    {levels : Nat} {block : Block} {heads : List String}
    (formed : Formed (.ofWorkflow workflow) block.members)
    (closed : (∀ members, Formed (.ofWorkflow workflow) members →
      Orderly (.ofWorkflow workflow) members) →
      Closed (.ofWorkflow workflow) block.resolved
      (Cluster.ofBlock (.ofWorkflow workflow) block.members))
    (budget : Budget workflow levels heads block.members) :
    (scheduler.arrange (.ofWorkflow workflow) levels block).StuckOnly
      (¬ ∀ members, Formed (.ofWorkflow workflow) members →
        Orderly (.ofWorkflow workflow) members) := by
  induction levels generalizing block heads with
  | zero => exact absurd rfl budget.positive
  | succ levels ih =>
      obtain ⟨region, isBlock⟩ := formed.isBlock
      refine Scheduler.arrangeRounds_stuckOnly (certified.decides plain isBlock)
        certified.inlineNeeded_ok ?_
        (fun inner cluster member resolves => ?_) (List.Subset.refl block.resolved)
        (List.Subset.refl _) (fun cluster member absent => absurd member absent) (Nat.le_refl _)
      · by_cases orderly : ∀ members, Formed (.ofWorkflow workflow) members →
            Orderly (.ofWorkflow workflow) members
        · refine .inr fun resolved pending from_ inBlock nonempty done => ?_
          obtain ⟨order, all, ordered⟩ := (orderly _ formed).order
          exact ((closed orderly).mono from_).exists_ready all ordered inBlock nonempty done
        · exact .inl orderly
      · have headInBlock := (Cluster.exists_of_mem_ofBlock member).2.1
        have outside : Fresh heads [cluster] :=
          budget.outside.subset (List.Subset.refl _)
            (List.cons_subset.mpr ⟨member, List.nil_subset _⟩)
        obtain ⟨inst, declared, same⟩ := List.mem_map.mp (isBlock.named headInBlock)
        obtain ⟨type, typed⟩ := certified.typed_of_mem isBlock headInBlock
        refine Scheduler.placeCluster_stuckOnly typed ?_ (fun name declares => ?_)
          fun arms branching arm other opposite => ?_
        · exact same ▸ shallow inst declared type (same ▸ typed)
        · exact @ih (inner.body _ cluster.head name) _ (.body formed member typed declares)
            (fun _ => certified.closed_body isBlock member resolves name)
            (budget.next isBlock member (certified.fresh_body isBlock member outside name))
        · refine @ih (inner.ofArm _ cluster.head arm) (cluster.head :: heads)
            (.arm formed member branching opposite) (fun orderly => ?_)
            (budget.next isBlock member ?_)
          · exact certified.closed_arm isBlock member branching opposite resolves
              ((orderly _ formed).apart cluster member arms branching)
          · refine (certified.fresh_arm isBlock member branching opposite outside).subset ?_
              (List.Subset.refl _)
            exact List.cons_subset.mpr ⟨List.mem_cons_self, List.subset_append_right _ _⟩

/-! ### Arrangements are orderly -/

namespace Scheduler

variable {analysis : Analysis}

/-- **Rounds are a ready order.** -/
theorem Rounds.readyOrder {block : Block} {pending clusters before : List Cluster}
    {placements : List Placement} : Rounds scheduler analysis block pending placements →
    scheduler.Decides analysis pending → (∀ id ∈ block.resolved, Settled clusters before id) →
    ∃ order, order.Perm pending ∧ ReadyOrder analysis clusters before order
  | .done _, _, _ => ⟨[], .refl _, trivial⟩
  | @Rounds.round _ _ _ _ ready waiting _ _ _ parted _ _ _ rest, decides, settled => by
      have perm := splitReady_perm parted
      have settledLater : ∀ id ∈ ready.flatMap (·.inside) ++ block.resolved,
          Settled clusters (ready.reverse ++ before) id := by
        intro id known inside
        rw [inside_append]
        refine (List.mem_append.mp known).imp (fun inReady => ?_) fun earlier =>
          settled id earlier inside
        exact (mem_flatMap_inside.mp inReady).subset fun cluster among => List.mem_reverse.mpr among
      obtain ⟨order, all, ordered⟩ := rest.readyOrder
        (fun cluster among => decides cluster (perm.subset (List.mem_append_right _ among)))
          settledLater
      refine ⟨ready ++ order, (all.append_left ready).trans perm,
        .append (fun cluster isReady => ?_) ordered⟩
      exact (ready_of_splitReady decides parted cluster isReady).imp fun id _ known =>
        settled id known

end Scheduler

namespace Certified

variable {region : Region} {block : Block} {placements : List Placement}

/-- What is read in a block that is arranged has been placed before, or is in the block. -/
theorem reads_of_arranged (certified : Certified workflow)
    (isBlock : IsBlock workflow region block.members)
    (fresh : Fresh block.resolved (Cluster.ofBlock (.ofWorkflow workflow) block.members))
    (arranged : Scheduler.Arranged scheduler (.ofWorkflow workflow) block placements)
    {reader source : String}
    (inside : Inside (Cluster.ofBlock (.ofWorkflow workflow) block.members) reader)
    (reads : source ∈ (Analysis.ofWorkflow workflow).dataOf reader) :
    source ∈ block.resolved ∨ Inside (Cluster.ofBlock (.ofWorkflow workflow) block.members)
      source := by
  obtain ⟨rounds⟩ := arranged
  obtain ⟨cluster, member, within⟩ := inside
  obtain ⟨inner, _, placed⟩ := rounds.exists_placed (certified.parted isBlock) fresh cluster member
  rcases mem_prerequisites_of_reads member within reads with needed | here
  · exact placed.resolved source (placed.waited source needed)
  · exact .inr ⟨cluster, member, here⟩

/-- **A block with an arrangement is orderly.** -/
theorem orderly_of_arranged (certified : Certified workflow) (plain : workflow.Unconditional)
    (isBlock : IsBlock workflow region block.members)
    (fresh : Fresh block.resolved (Cluster.ofBlock (.ofWorkflow workflow) block.members))
    (arranged : Scheduler.Arranged scheduler (.ofWorkflow workflow) block placements) :
    Orderly (.ofWorkflow workflow) block.members := by
  obtain ⟨rounds⟩ := arranged
  refine ⟨rounds.readyOrder (certified.decides plain isBlock) fun id known inside =>
    absurd inside (fresh id known), fun cluster member arms branching => ?_⟩
  intro arm other opposite reader inArm source reads inOther
  obtain ⟨inner, placement, here⟩ :=
    rounds.exists_placed (certified.parted isBlock) fresh cluster member
  obtain ⟨_, inArms, _, arranged⟩ := here.placed.arm branching opposite
  have armBlock := isBlock_arm isBlock member branching opposite
  have otherBlock := isBlock_arm isBlock member branching opposite.symm
  rw [certified.mem_insideOf armBlock] at inArm
  rw [certified.mem_insideOf otherBlock] at inOther
  -- nothing inside the opposite arm is resolved before this arm is arranged
  rcases certified.reads_of_arranged armBlock
    (certified.fresh_arm isBlock member branching opposite here.fresh) arranged inArm reads with
    before | inside
  · exact certified.fresh_arm isBlock member branching opposite.symm here.fresh source
      before inOther
  · obtain ⟨_, first, inFirst, held⟩ := (certified.exists_inside_iff armBlock).mp inside
    obtain ⟨_, second, inSecond, heldToo⟩ := (certified.exists_inside_iff otherBlock).mp inOther
    have same := certified.holds_unique (@IsBlock.whole workflow region)
      (armBlock.inside first inFirst) (otherBlock.inside second inSecond) held heldToo
    exact opposite.disjoint ((Cluster.exists_of_mem_ofBlock member).2.2 arms branching) inFirst
      (same ▸ inSecond)

end Certified

/-! ### Workflows -/

/-- Every connection of a wired workflow starts at a node that is there. -/
theorem Wired.unknownSource?_eq_none (wired : Wired workflow) :
    (Index.ofWorkflow workflow).unknownSource? = none := by
  rw [Index.unknownSource?, List.findSome?_eq_none_iff]
  intro inst _
  rw [List.findSome?_eq_none_iff]
  intro entry member
  obtain ⟨inside, _⟩ := Index.exists_mem_incoming.mp ⟨entry, member, rfl⟩
  obtain ⟨source, _, atSource, _⟩ := wired.ports entry.2 inside
  have known : (Index.ofWorkflow workflow).hasNode entry.2.source.node = true := by
    by_cases boundary : isBoundary entry.2.source.node = true
    · exact Index.hasNode_iff.mpr (.inl boundary)
    · obtain ⟨type, typed, _⟩ := Index.exists_of_resolve atSource (by simpa using boundary)
      exact Index.hasNode_iff.mpr (.inr (Index.find?_of_nodeType? typed))
  rw [if_pos known]

/-- **A workflow without errors is scheduled if and only if every block that comes up is orderly**,
and is stuck where it is not scheduled. -/
theorem schedules_iff_orderly (valid : (validate workflow).hasErrors = false)
    (plain : workflow.Unconditional) (shallow : workflow.Shallow scheduler.maxScopeDepth) :
    ((∃ plan, (scheduler.schedule workflow).outcome = .ok plan) ↔
      ∀ members, Formed (.ofWorkflow workflow) members → Orderly (.ofWorkflow workflow) members) ∧
    ∀ error, (scheduler.schedule workflow).outcome = .error error →
      ∃ region pending, error = .stuck region pending := by
  have certified := certified_of_validate valid
  have stuckOnly : (scheduler.schedule workflow).StuckOnly
      (¬ ∀ members, Formed (.ofWorkflow workflow) members →
        Orderly (.ofWorkflow workflow) members) := by
    unfold Scheduler.schedule
    dsimp only
    rw [certified.unknownSource?_eq_none]
    refine (certified.arrange_stuckOnly plain shallow (.top) (fun _ => certified.closed_top)
      ⟨List.nodup_nil, List.nil_subset _, fun _ none => (nomatch none), ?_⟩).bind fun _ _ =>
        .of_ok rfl
    exact Nat.lt_succ_self _
  refine ⟨⟨fun ⟨plan, scheduled⟩ members formed => ?_, fun orderly => ?_⟩,
    fun error failed => (stuckOnly error failed).1⟩
  · obtain ⟨placements, arranged, _⟩ := Scheduler.exists_arranged scheduled
    obtain ⟨path, block, part, rfl, located⟩ := formed.located certified arranged
    obtain ⟨region, isBlock⟩ := formed.isBlock
    exact certified.orderly_of_arranged plain isBlock located.fresh located.arranged
  · cases outcome : (scheduler.schedule workflow).outcome with
    | ok plan => exact ⟨plan, rfl⟩
    | error error => exact absurd orderly (stuckOnly error outcome).2

/-- A node type with one optional input and one output. -/
def taskType : NodeType :=
  ((NodeType.function "Task").withOptionalInput "in" .string).withOutput "out" .string

/-- A loop over values that come out of both arms of a branch. -/
def loopAfterBranch : Workflow where
  name := "loop after branch"
  nodeTypes :=
    [taskType,
      (((NodeType.function "Loop").withOptionalInput "first" .string).withOptionalInput "second"
        .string).withPort { Port.dataOutput "item" .string with scope := some "body" }]
  instances :=
    [{ id := "h", nodeType := "Task" }, { id := "x", nodeType := "Task" },
      { id := "y", nodeType := "Task" }, { id := "m", nodeType := "Loop" },
      { id := "f", nodeType := "Task", parentScope := some ⟨"m", "body"⟩ }]
  connections :=
    [⟨⟨"h", "onSuccess", none⟩, ⟨"x", "execute", none⟩⟩,
      ⟨⟨"h", "onFailure", none⟩, ⟨"y", "execute", none⟩⟩,
      ⟨⟨"x", "out", none⟩, ⟨"m", "first", none⟩⟩,
      ⟨⟨"y", "out", none⟩, ⟨"m", "second", none⟩⟩,
      ⟨⟨"m", "item", some "body"⟩, ⟨"f", "in", none⟩⟩]
  scopes := [⟨"m", "body", ["f"]⟩]

theorem schedules_iff_orderly_loopAfterBranch :
    (validate loopAfterBranch).hasErrors = false ∧ loopAfterBranch.Unconditional ∧
      loopAfterBranch.Shallow ({} : Scheduler).maxScopeDepth ∧
      ∀ members, Formed (.ofWorkflow loopAfterBranch) members →
        Orderly (.ofWorkflow loopAfterBranch) members := by
  have valid : (validate loopAfterBranch).hasErrors = false := by decide +kernel
  have plain : loopAfterBranch.Unconditional := by decide +kernel
  have shallow : loopAfterBranch.Shallow ({} : Scheduler).maxScopeDepth := by decide +kernel
  obtain ⟨plan, scheduled, _⟩ := exists_of_toOption_map
    (show (({} : Scheduler).schedule loopAfterBranch).outcome.toOption.map Plan.scheduled =
      some ["h", "x", "y", "m", "f"] by decide +kernel)
  exact ⟨valid, plain, shallow, (schedules_iff_orderly valid plain shallow).1.mp ⟨plan, scheduled⟩⟩

/-- A branch whose arm reads what is computed from a value of the head: the branch waits for `d`,
and `d` waits for the branch. -/
def lateReader : Workflow where
  name := "late-reader"
  nodeTypes := [taskType]
  instances :=
    [{ id := "h", nodeType := "Task" }, { id := "d", nodeType := "Task" },
      { id := "x", nodeType := "Task" }, { id := "y", nodeType := "Task" }]
  connections :=
    [⟨⟨"h", "onSuccess", none⟩, ⟨"x", "execute", none⟩⟩,
      ⟨⟨"h", "onFailure", none⟩, ⟨"y", "execute", none⟩⟩,
      ⟨⟨"h", "out", none⟩, ⟨"d", "in", none⟩⟩,
      ⟨⟨"d", "out", none⟩, ⟨"x", "in", none⟩⟩]

theorem error_of_map_eq_error {ε α β : Type} (form : α → β) {outcome : Except ε α} {error : ε}
    (failed : outcome.map form = .error error) : outcome = .error error := by
  cases outcome with
  | error =>
      cases failed
      rfl
  | ok => cases failed

/-- **A workflow without errors need not be scheduled**: ranks order the instances, not the
clusters. -/
theorem lateReader_stuck :
    (validate lateReader).hasErrors = false ∧ lateReader.Unconditional ∧
      lateReader.Shallow ({} : Scheduler).maxScopeDepth ∧
      (({} : Scheduler).schedule lateReader).outcome = .error (.stuck none ["h", "d"]) := by
  refine ⟨by decide +kernel, by decide +kernel, by decide +kernel, ?_⟩
  exact error_of_map_eq_error (fun _ => ()) (by decide +kernel)

end WorkflowGraph
