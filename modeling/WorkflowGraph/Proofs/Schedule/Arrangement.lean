/-
What an arrangement is, apart from how it is found.

* `Scheduler.Arranged` — the placements of a block, derived by rules: rounds of ready clusters, each
  placed with the insides of its head's scopes and with its arms. The rules have no bound on the
  nesting.
* `arranged_of_arrange` — the scheduler only finds arrangements, however many levels it is given.
* `splitReady_perm` — a round parts the pending clusters into those that are ready and the others.
* `mem_inlineNeeded`, `inlineNeeded_order` — the expressions that are placed are those that are
  needed and not at hand, each after the expressions that it is given.
-/

import Mathlib.Data.List.Basic
import Mathlib.Data.List.Perm.Basic
import WorkflowGraph.Schedule.Arrangement

namespace WorkflowGraph

/-! ### Attempts -/

namespace Attempt

variable {ε α β : Type}

@[simp] theorem outcome_pure (value : α) : (pure value : Attempt ε α).outcome = .ok value := rfl

@[simp] theorem outcome_fail (error : ε) : (fail error : Attempt ε α).outcome = .error error := rfl

@[simp] theorem outcome_ofExcept (outcome : Except ε α) :
    (ofExcept outcome).outcome = outcome := rfl

/-- One attempt after another succeeds where both do. -/
theorem outcome_bind_eq_ok {first : Attempt ε α} {second : α → Attempt ε β} {value : β} :
    (first >>= second).outcome = .ok value ↔
      ∃ middle, first.outcome = .ok middle ∧ (second middle).outcome = .ok value := by
  show (andThen first second).outcome = _ ↔ _
  unfold andThen
  split
  · rename_i error failed
    simp [failed]
  · rename_i middle found
    simp [found]

/-- One attempt after another fails where the first does, or the second after it. -/
theorem outcome_bind_eq_error {first : Attempt ε α} {second : α → Attempt ε β} {error : ε} :
    (first >>= second).outcome = .error error ↔
      first.outcome = .error error ∨
        ∃ middle, first.outcome = .ok middle ∧ (second middle).outcome = .error error := by
  show (andThen first second).outcome = _ ↔ _
  unfold andThen
  split
  · rename_i failed
    simp [failed]
  · rename_i middle found
    simp [found]

/-- An attempt at each of some items succeeds where all of them do. -/
theorem outcome_mapM_eq_ok {step : α → Attempt ε β} {form : α → β} {items : List α}
    (each : ∀ item ∈ items, (step item).outcome = .ok (form item)) :
    (items.mapM step).outcome = .ok (items.map form) := by
  induction items with
  | nil => rfl
  | cons item rest ih =>
      rw [List.mapM_cons, outcome_bind_eq_ok]
      refine ⟨form item, each item List.mem_cons_self,
        outcome_bind_eq_ok.mpr ⟨rest.map form, ?_, rfl⟩⟩
      exact ih fun other member => each other (List.mem_cons_of_mem _ member)

end Attempt

theorem exists_of_map_eq_ok {ε α β : Type} {form : α → β} {outcome : Except ε α} {value : β}
    (found : outcome.map form = .ok value) : ∃ held, outcome = .ok held ∧ form held = value := by
  cases outcome with
  | error => cases found
  | ok held =>
      cases found
      exact ⟨held, rfl, rfl⟩

/-! ### Expressions -/

namespace Analysis

variable {analysis : Analysis}

theorem mem_inOrder {ids : List String} {id : String} :
    id ∈ analysis.inOrder ids ↔ id ∈ analysis.index.workflow.instances.map (·.id) ∧ id ∈ ids := by
  rw [inOrder, List.mem_filter, List.mem_eraseDups, decide_eq_true_eq]

/-- What the order of expressions is: all of them, each after those that it is given. -/
theorem inlineOrder_spec {region : Region} {count : Nat} {available remaining ids : List String}
    (found : analysis.inlineOrder region count available remaining = .ok ids) :
    ids.Perm remaining ∧
      ∀ before id after, ids = before ++ id :: after →
        ∀ source ∈ analysis.index.expressionSources id,
        source ∈ available ∨ source ∈ before ∨ source ∉ remaining := by
  induction count generalizing available remaining ids with
  | zero =>
      cases remaining with
      | nil =>
          cases found
          exact ⟨.refl _, fun before id after same => by simp at same⟩
      | cons => cases found
  | succ count ih =>
      cases remaining with
      | nil =>
          cases found
          exact ⟨.refl _, fun before id after same => by simp at same⟩
      | cons first others =>
          rw [inlineOrder] at found
          · split at found
            · cases found
            · rename_i next picked
              obtain ⟨rest, ordered, rfl⟩ := exists_of_map_eq_ok found
              obtain ⟨perm, order⟩ := ih ordered
              have member := List.mem_of_find?_eq_some picked
              have ready := List.find?_some picked
              refine ⟨(perm.cons next).trans (List.perm_cons_erase member).symm, ?_⟩
              intro before id after same source given
              cases before with
              | nil =>
                  obtain ⟨rfl, rfl⟩ := List.cons.inj same
                  have := List.all_eq_true.mp ready source given
                  simp only [Bool.or_eq_true, decide_eq_true_eq] at this
                  exact this.imp_right .inr
              | cons head before =>
                  obtain ⟨rfl, later⟩ := List.cons.inj same
                  rcases order before id after later source given with atHand | placed | absent
                  · exact (List.mem_cons.mp atHand).elim (fun same =>
                      .inr (.inl (same ▸ List.mem_cons_self))) .inl
                  · exact .inr (.inl (List.mem_cons_of_mem _ placed))
                  · by_cases first : source = next
                    · exact .inr (.inl (first ▸ List.mem_cons_self))
                    · exact .inr (.inr fun inside =>
                        absent ((List.mem_erase_of_ne first).mpr inside))
          · simp

variable {block : Block} {needed ids : List String}

/-- **The expressions that are placed are those that are needed and not at hand.** -/
theorem mem_inlineNeeded (found : analysis.inlineNeeded block needed = .ok ids) {id : String} :
    id ∈ ids ↔
      id ∈ analysis.index.workflow.instances.map (·.id) ∧ id ∈ needed ∧ id ∉ block.available := by
  rw [(inlineOrder_spec found).1.mem_iff, mem_inOrder, List.mem_filter, decide_eq_true_eq]

theorem inlineNeeded_nil (analysis : Analysis) (block : Block) :
    analysis.inlineNeeded block [] = .ok [] := by
  simp [inlineNeeded, inOrder, inlineOrder]

/-- **Each expression is placed after the needed expressions that it is given.** -/
theorem inlineNeeded_order (found : analysis.inlineNeeded block needed = .ok ids)
    {before after : List String} {id source : String} (same : ids = before ++ id :: after)
    (given : source ∈ analysis.index.expressionSources id)
    (known : source ∈ analysis.index.workflow.instances.map (·.id)) (wanted : source ∈ needed) :
    source ∈ block.available ∨ source ∈ before := by
  rcases (inlineOrder_spec found).2 before id after same source given with atHand | placed | absent
  · exact .inl atHand
  · exact .inr placed
  · by_contra neither
    rw [not_or] at neither
    exact absent (mem_inOrder.mpr ⟨known, List.mem_filter.mpr ⟨wanted, by simpa using neither.1⟩⟩)

end Analysis

/-! ### Blocks -/

namespace Block

/-- The block with expressions placed in it. -/
def withInlined (block : Block) (inlined : List String) : Block :=
  { block with available := inlined ++ block.available }

/-- The block with clusters placed in it. -/
def withPlaced (block : Block) (clusters : List Cluster) : Block :=
  { block with resolved := clusters.flatMap (·.inside) ++ block.resolved }

/-- The block of an arm, which follows its head and all inside of the head's scopes. -/
def ofArm (block : Block) (analysis : Analysis) (head : String) (members : List String) : Block :=
  { block with
    isWhole := false
    members
    resolved := head :: analysis.descendants head ++ block.resolved }

/-- The expressions that are read where the block ends. -/
def sinks (block : Block) (analysis : Analysis) : List String :=
  if block.isWhole then analysis.sinkExpressions block.region else []

/-- The block of the inside of a scope of an instance. -/
def body (block : Block) (index : Index) (owner name : String) : Block :=
  .ofRegion index (some ⟨owner, name⟩) (owner :: block.resolved) block.available

end Block

/-! ### Arrangements -/

namespace Scheduler

mutual

/-- Whether placements are an arrangement of a block. -/
inductive Arranged (scheduler : Scheduler) (analysis : Analysis) : Block → List Placement → Prop
  | block {block : Block} {placements : List Placement} :
      Rounds scheduler analysis block (Cluster.ofBlock analysis block.members) placements →
      Arranged scheduler analysis block placements

/-- Whether placements are those of pending clusters, round by round. -/
inductive Rounds (scheduler : Scheduler) (analysis : Analysis) :
    Block → List Cluster → List Placement → Prop
  | done {block : Block} {inlined : List String} :
      analysis.inlineNeeded block (block.sinks analysis) = .ok inlined →
      Rounds scheduler analysis block [] (inlined.map .inlined)
  | round {block : Block} {pending ready waiting : List Cluster} {inlined : List String}
      {placed rest : List Placement} :
      (scheduler.splitReady analysis block.resolved pending).outcome = .ok (ready, waiting) →
      ready ≠ [] →
      analysis.inlineNeeded block (ready.flatMap analysis.neededBy) = .ok inlined →
      PlacedEach scheduler analysis (block.withInlined inlined) ready placed →
      Rounds scheduler analysis ((block.withInlined inlined).withPlaced ready) waiting rest →
      Rounds scheduler analysis block pending (inlined.map .inlined ++ together placed ++ rest)

/-- Whether placements are those of clusters, one for each. -/
inductive PlacedEach (scheduler : Scheduler) (analysis : Analysis) :
    Block → List Cluster → List Placement → Prop
  | nil {block : Block} : PlacedEach scheduler analysis block [] []
  | cons {block : Block} {cluster : Cluster} {clusters : List Cluster} {placement : Placement}
      {placements : List Placement} :
      Placed scheduler analysis block cluster placement →
      PlacedEach scheduler analysis block clusters placements →
      PlacedEach scheduler analysis block (cluster :: clusters) (placement :: placements)

/-- Whether a placement is that of a cluster in a block. -/
inductive Placed (scheduler : Scheduler) (analysis : Analysis) : Block → Cluster → Placement → Prop
  | node {block : Block} {cluster : Cluster} {type : NodeType}
      {bodies : List (String × List Placement)} :
      analysis.index.nodeType? cluster.head = some type →
      Bodies scheduler analysis block cluster.head type.scopes bodies →
      cluster.arms = none →
      Placed scheduler analysis block cluster (.node cluster.head bodies)
  | branch {block : Block} {cluster : Cluster} {type : NodeType} {arms : Arms}
      {bodies : List (String × List Placement)} {thenArm elseArm : List Placement} :
      analysis.index.nodeType? cluster.head = some type →
      Bodies scheduler analysis block cluster.head type.scopes bodies →
      cluster.arms = some arms →
      Arranged scheduler analysis (block.ofArm analysis cluster.head arms.thenMembers) thenArm →
      Arranged scheduler analysis (block.ofArm analysis cluster.head arms.elseMembers) elseArm →
      Placed scheduler analysis block cluster (.branch cluster bodies thenArm elseArm)

/-- Whether placements are those of the insides of scopes of an instance. -/
inductive Bodies (scheduler : Scheduler) (analysis : Analysis) :
    Block → String → List String → List (String × List Placement) → Prop
  | nil {block : Block} {owner : String} : Bodies scheduler analysis block owner [] []
  | cons {block : Block} {owner name : String} {names : List String} {body : List Placement}
      {bodies : List (String × List Placement)} {depth : Nat} :
      analysis.index.depth (some ⟨owner, name⟩) = some depth →
      depth ≤ scheduler.maxScopeDepth →
      Arranged scheduler analysis (block.body analysis.index owner name) body →
      Bodies scheduler analysis block owner names bodies →
      Bodies scheduler analysis block owner (name :: names) ((name, body) :: bodies)

end

variable {scheduler : Scheduler} {analysis : Analysis}

/-! ### Ready clusters -/

/-- **A round parts the pending clusters into those that are ready and the others.** -/
theorem splitReady_perm {resolved : List String} {pending ready waiting : List Cluster}
    (parted : (scheduler.splitReady analysis resolved pending).outcome = .ok (ready, waiting)) :
    (ready ++ waiting).Perm pending := by
  induction pending generalizing ready waiting with
  | nil =>
      cases parted
      exact .refl _
  | cons cluster rest ih =>
      rw [splitReady, Attempt.outcome_bind_eq_ok] at parted
      obtain ⟨isReady, _, parted⟩ := parted
      obtain ⟨⟨placed, others⟩, partedRest, parted⟩ := Attempt.outcome_bind_eq_ok.mp parted
      cases isReady with
      | true =>
          cases parted
          exact (ih partedRest).cons cluster
      | false =>
          cases parted
          exact List.perm_middle.trans ((ih partedRest).cons cluster)

/-- Clusters are only ready when all that they wait for has been placed, whatever their triggers
are. -/
theorem prerequisites_of_isReady {resolved : List String} {cluster : Cluster}
    (ready : (scheduler.isReady analysis resolved cluster).outcome = .ok true) :
    ∀ id ∈ cluster.prerequisites, id ∈ resolved := by
  unfold isReady at ready
  split at ready
  · rename_i all
    simpa using all
  · cases ready

/-- The clusters of a round have all been found ready. -/
theorem isReady_of_splitReady {resolved : List String} {pending ready waiting : List Cluster}
    (parted : (scheduler.splitReady analysis resolved pending).outcome = .ok (ready, waiting)) :
    ∀ cluster ∈ ready, (scheduler.isReady analysis resolved cluster).outcome = .ok true := by
  induction pending generalizing ready waiting with
  | nil =>
      cases parted
      exact fun _ none => (nomatch none)
  | cons cluster rest ih =>
      rw [splitReady, Attempt.outcome_bind_eq_ok] at parted
      obtain ⟨isReady, asked, parted⟩ := parted
      obtain ⟨⟨placed, others⟩, partedRest, parted⟩ := Attempt.outcome_bind_eq_ok.mp parted
      cases isReady with
      | true =>
          cases parted
          exact List.forall_mem_cons.mpr ⟨asked, ih partedRest⟩
      | false =>
          cases parted
          exact ih partedRest

theorem prerequisites_of_splitReady {resolved : List String} {pending ready waiting : List Cluster}
    (parted : (scheduler.splitReady analysis resolved pending).outcome = .ok (ready, waiting)) :
    ∀ cluster ∈ ready, ∀ id ∈ cluster.prerequisites, id ∈ resolved :=
  fun cluster member => prerequisites_of_isReady (isReady_of_splitReady parted cluster member)

/-! ### The scheduler finds arrangements -/

theorem requireType_eq_ok {index : Index} {id : String} {type : NodeType} :
    index.requireType id = .ok type ↔ index.nodeType? id = some type := by
  unfold Index.requireType Index.nodeType?
  cases index.find? id with
  | none => simp
  | some inst => cases found : index.catalog.get? inst.nodeType <;> simp [found]

theorem checkDepth_eq_ok {index : Index} {scope : ScopeRef} :
    scheduler.checkDepth index scope = .ok () ↔
      ∃ depth, index.depth (some scope) = some depth ∧ depth ≤ scheduler.maxScopeDepth := by
  unfold checkDepth
  cases index.depth (some scope) <;> simp

theorem bodies_of_placeBodies {arrange : Block → Attempt ScheduleError (List Placement)}
    (sound : ∀ block placements, (arrange block).outcome = .ok placements →
      Arranged scheduler analysis block placements)
    {block : Block} {owner : String} {names : List String} {bodies : List (String × List Placement)}
    (found : (scheduler.placeBodies analysis.index arrange block owner names).outcome =
      .ok bodies) :
    Bodies scheduler analysis block owner names bodies := by
  induction names generalizing bodies with
  | nil =>
      cases found
      exact .nil
  | cons name rest ih =>
      rw [placeBodies, Attempt.outcome_bind_eq_ok] at found
      obtain ⟨_, checked, found⟩ := found
      obtain ⟨depth, known, shallow⟩ := checkDepth_eq_ok.mp checked
      obtain ⟨body, arranged, found⟩ := Attempt.outcome_bind_eq_ok.mp found
      obtain ⟨others, placed, found⟩ := Attempt.outcome_bind_eq_ok.mp found
      cases found
      exact .cons known shallow (sound _ _ arranged) (ih placed)

theorem placed_of_placeCluster {arrange : Block → Attempt ScheduleError (List Placement)}
    (sound : ∀ block placements, (arrange block).outcome = .ok placements →
      Arranged scheduler analysis block placements)
    {block : Block} {cluster : Cluster} {placement : Placement}
    (found : (scheduler.placeCluster analysis arrange block cluster).outcome = .ok placement) :
    Placed scheduler analysis block cluster placement := by
  rw [placeCluster, Attempt.outcome_bind_eq_ok] at found
  obtain ⟨type, required, found⟩ := found
  have known := requireType_eq_ok.mp required
  obtain ⟨bodies, placed, found⟩ := Attempt.outcome_bind_eq_ok.mp found
  have inside := bodies_of_placeBodies sound placed
  split at found
  · rename_i single
    cases found
    exact .node known inside single
  · rename_i arms branching
    obtain ⟨thenArm, onSuccess, found⟩ := Attempt.outcome_bind_eq_ok.mp found
    obtain ⟨elseArm, onFailure, found⟩ := Attempt.outcome_bind_eq_ok.mp found
    cases found
    exact .branch known inside branching (sound _ _ onSuccess) (sound _ _ onFailure)

theorem placedEach_of_mapM {place : Cluster → Attempt ScheduleError Placement} {block : Block}
    (sound : ∀ cluster placement, (place cluster).outcome = .ok placement →
      Placed scheduler analysis block cluster placement)
    {clusters : List Cluster} {placements : List Placement}
    (found : (clusters.mapM place).outcome = .ok placements) :
    PlacedEach scheduler analysis block clusters placements := by
  induction clusters generalizing placements with
  | nil =>
      cases found
      exact .nil
  | cons cluster rest ih =>
      rw [List.mapM_cons, Attempt.outcome_bind_eq_ok] at found
      obtain ⟨placement, placed, found⟩ := found
      obtain ⟨others, placedRest, found⟩ := Attempt.outcome_bind_eq_ok.mp found
      cases found
      exact .cons (sound _ _ placed) (ih placedRest)

theorem rounds_of_arrangeRounds {arrange : Block → Attempt ScheduleError (List Placement)}
    (sound : ∀ block placements, (arrange block).outcome = .ok placements →
      Arranged scheduler analysis block placements)
    {count : Nat} {block : Block} {pending : List Cluster} {placements : List Placement}
    (found : (scheduler.arrangeRounds analysis arrange count block pending).outcome =
      .ok placements) :
    Rounds scheduler analysis block pending placements := by
  induction count generalizing block pending placements with
  | zero =>
      cases pending with
      | nil =>
          rw [arrangeRounds, Attempt.outcome_bind_eq_ok] at found
          obtain ⟨inlined, ordered, found⟩ := found
          cases found
          exact .done ordered
      | cons => cases found
  | succ count ih =>
      cases pending with
      | nil =>
          rw [arrangeRounds, Attempt.outcome_bind_eq_ok] at found
          obtain ⟨inlined, ordered, found⟩ := found
          cases found
          exact .done ordered
      | cons first others =>
          rw [arrangeRounds, Attempt.outcome_bind_eq_ok] at found
          · obtain ⟨⟨ready, waiting⟩, parted, found⟩ := found
            cases ready with
            | nil => cases found
            | cons =>
                obtain ⟨inlined, ordered, found⟩ := Attempt.outcome_bind_eq_ok.mp found
                obtain ⟨placed, each, found⟩ := Attempt.outcome_bind_eq_ok.mp found
                obtain ⟨rest, further, found⟩ := Attempt.outcome_bind_eq_ok.mp found
                cases found
                exact .round parted (by simp) ordered
                  (placedEach_of_mapM (fun _ _ => placed_of_placeCluster sound) each) (ih further)
          · simp

/-- **What the scheduler finds for a block is an arrangement of it.** -/
theorem arranged_of_arrange {levels : Nat} {block : Block} {placements : List Placement}
    (found : (scheduler.arrange analysis levels block).outcome = .ok placements) :
    Arranged scheduler analysis block placements := by
  induction levels generalizing block placements with
  | zero => cases found
  | succ levels ih => exact .block (rounds_of_arrangeRounds (fun _ _ => ih) found)

end Scheduler

end WorkflowGraph
