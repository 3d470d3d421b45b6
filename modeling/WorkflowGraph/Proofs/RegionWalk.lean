/-
Bounded walks outwards.

How deep a region lies and whether it lies inside another one is found by a walk outwards that looks
at one region more than there are instances. The main statement is `region_walks_exact_iff`: such a
walk gives the right answer for a region unless the way outwards leads through a scope of every
instance and then through one whose owner is missing. Then the top level is one step further than
the walk goes, and the region is taken for one on a loop; `stranded_walk_cut` is an example. This
does not happen to the regions that instances live in.

* `Index.Way` — the way outwards with the owners of the scopes on it. Where it leads back to a
  scope, a shorter way leaves the round out (`Within.exists_nodup_way`); an owner in the middle of a
  way is an instance (`Way.owner_named`), so that ways without rounds are short.
* `Index.Loops` — the way outwards comes back to a scope; `loops_iff` says that this is where no
  level is.
* `Index.Overruns` — the way outwards is longer than the walk; `overruns_iff` says by how much.
-/

import Mathlib.Data.List.Perm.Subperm
import WorkflowGraph.Proofs.Region

namespace WorkflowGraph.Index

variable {index : Index}

/-! ### Ways -/

/-- Whether the way outwards from a region to another one leads through scopes of some owners, one
after another. -/
inductive Way (index : Index) : Region → List String → Region → Prop
  | refl (region : Region) : Way index region [] region
  | outward {owner name : String} {owners : List String} {outer : Region} :
      Way index (index.regionOf owner) owners outer →
        Way index (some ⟨owner, name⟩) (owner :: owners) outer

namespace Way

theorem within {region outer : Region} {owners : List String}
    (way : index.Way region owners outer) :
    index.Within region outer := by
  induction way with
  | refl region => exact .refl region
  | outward _ ih => exact .outward ih

theorem level {region : Region} {owners : List String} (way : index.Way region owners none) :
    index.Level region owners.length := by
  generalize top : none = outer at way
  induction way with
  | refl => exact top ▸ .top
  | outward _ ih => exact .scope (ih top)

/-- A way comes to an owner on it in one of the owner's scopes, and goes on from where the owner
lives. -/
theorem split {region outer : Region} {before after : List String} {owner : String}
    (way : index.Way region (before ++ owner :: after) outer) :
    ∃ name, index.Way region before (some ⟨owner, name⟩) ∧
      index.Way (index.regionOf owner) after outer := by
  induction before generalizing region with
  | nil =>
      cases way with
      | @outward _ name _ _ further => exact ⟨name, .refl _, further⟩
  | cons first rest ih =>
      cases way with
      | outward further =>
          obtain ⟨name, toOwner, fromOwner⟩ := ih further
          exact ⟨name, .outward toOwner, fromOwner⟩

/-- A way to the top level leads there from a scope of its last owner, if it leads anywhere. -/
theorem eq_nil_or_last {region : Region} {owners : List String}
    (way : index.Way region owners none) :
    owners = [] ∨ ∃ between last name, owners = between ++ [last] ∧
      index.Way region between (some ⟨last, name⟩) := by
  rcases List.eq_nil_or_concat' owners with rfl | ⟨between, last, rfl⟩
  · exact .inl rfl
  · obtain ⟨name, toLast, _⟩ := way.split
    exact .inr ⟨between, last, name, rfl, toLast⟩

/-- No way leads on from the top level. -/
theorem eq_nil_of_top {outer : Region} {owners : List String} (way : index.Way none owners outer) :
    owners = [] ∧ outer = none := by
  cases way
  exact ⟨rfl, rfl⟩

end Way

theorem Within.exists_way {region outer : Region} (within : index.Within region outer) :
    ∃ owners, index.Way region owners outer := by
  induction within with
  | refl region => exact ⟨[], .refl region⟩
  | outward _ ih =>
      obtain ⟨owners, way⟩ := ih
      exact ⟨_, .outward way⟩

theorem Level.exists_way {region : Region} {level : Nat} (known : index.Level region level) :
    ∃ owners, index.Way region owners none ∧ owners.length = level := by
  obtain ⟨owners, way⟩ := known.within_top.exists_way
  exact ⟨owners, way, way.level.unique known⟩

/-- **Wherever a way leads, one leads that meets no owner twice.** -/
theorem Within.exists_nodup_way {region outer : Region} (within : index.Within region outer) :
    ∃ owners, index.Way region owners outer ∧ owners.Nodup := by
  induction within with
  | refl region => exact ⟨[], .refl region, List.nodup_nil⟩
  | @outward owner name outer _ ih =>
      obtain ⟨owners, way, distinct⟩ := ih
      by_cases again : owner ∈ owners
      · -- the way leads back to a scope of the owner, and goes on from where the owner lives
        obtain ⟨before, after, rfl⟩ := List.append_of_mem again
        obtain ⟨_, _, further⟩ := way.split
        exact ⟨owner :: after, .outward further, distinct.of_append_right⟩
      · exact ⟨owner :: owners, .outward way, List.nodup_cons.mpr ⟨again, distinct⟩⟩

/-! ### Loops -/

/-- Whether the way outwards from a region meets a scope that lies inside itself. -/
def Loops (index : Index) (region : Region) : Prop :=
  ∃ scope : ScopeRef, index.Within region (some scope) ∧
    index.Within (index.regionOf scope.owner) (some scope)

theorem Loops.outward {owner name : String} (loops : index.Loops (index.regionOf owner)) :
    index.Loops (some ⟨owner, name⟩) := by
  obtain ⟨scope, toScope, back⟩ := loops
  exact ⟨scope, .outward toScope, back⟩

theorem Level.not_loops {region : Region} {level : Nat} (known : index.Level region level) :
    ¬ index.Loops region := by
  rintro ⟨scope, toScope, back⟩
  obtain ⟨_, atScope, _⟩ := Level.outer toScope known
  cases atScope with
  | scope atOwner =>
      obtain ⟨_, again, below⟩ := Level.outer back atOwner
      have := again.unique (.scope atOwner)
      omega

/-- A way that meets an owner twice is on a loop. -/
theorem Way.nodup_or_loops {region outer : Region} {owners : List String}
    (way : index.Way region owners outer) :
    owners.Nodup ∨ index.Loops region := by
  induction way with
  | refl => exact .inl List.nodup_nil
  | @outward owner name owners outer way ih =>
      rcases ih with distinct | loops
      · by_cases again : owner ∈ owners
        · obtain ⟨before, after, rfl⟩ := List.append_of_mem again
          obtain ⟨scopeName, back, _⟩ := way.split
          exact .inr ⟨⟨owner, scopeName⟩, .outward back.within, back.within⟩
        · exact .inl (List.nodup_cons.mpr ⟨again, distinct⟩)
      · exact .inr loops.outward

theorem Way.nodup_of_top {region : Region} {owners : List String}
    (way : index.Way region owners none) :
    owners.Nodup :=
  way.nodup_or_loops.resolve_right way.level.not_loops

/-- A way of any length leads from a region that has no level. -/
theorem exists_way_of_no_level {region : Region} (endless : ∀ level, ¬ index.Level region level)
    (steps : Nat) :
    ∃ owners scope, index.Way region owners (some scope) ∧ owners.length = steps := by
  induction steps generalizing region with
  | zero =>
      cases region with
      | none => exact absurd .top (endless 0)
      | some scope => exact ⟨[], scope, .refl _, rfl⟩
  | succ steps ih =>
      cases region with
      | none => exact absurd .top (endless 0)
      | some scope =>
          obtain ⟨owners, last, way, long⟩ := @ih (index.regionOf scope.owner) fun level known =>
            endless (level + 1) (.scope known)
          exact ⟨scope.owner :: owners, last, .outward way, by rw [List.length_cons, long]⟩

/-! ### How long ways are -/

section Bounds

variable {workflow : Workflow}

/-- **The owners on a way to a scope are instances.** -/
theorem Way.owner_named {region : Region} {owners : List String} {scope : ScopeRef}
    (way : (ofWorkflow workflow).Way region owners (some scope)) :
    owners ⊆ workflow.instances.map (·.id) := by
  intro owner member
  obtain ⟨before, after, rfl⟩ := List.append_of_mem member
  obtain ⟨_, _, further⟩ := way.split
  cases lives : (ofWorkflow workflow).regionOf owner with
  | none =>
      rw [lives] at further
      cases further.eq_nil_of_top.2
  | some parent => exact named_of_regionOf lives

theorem Way.length_le {region : Region} {owners : List String} {scope : ScopeRef}
    (way : (ofWorkflow workflow).Way region owners (some scope)) (distinct : owners.Nodup) :
    owners.length ≤ workflow.instances.length := by
  simpa using (List.subperm_of_subset distinct way.owner_named).length_le

/-- **The way outwards comes back to a scope exactly if it never reaches the top level.** -/
theorem loops_iff {region : Region} :
    (ofWorkflow workflow).Loops region ↔ ∀ level, ¬ (ofWorkflow workflow).Level region level := by
  constructor
  · exact fun loops level known => known.not_loops loops
  · intro endless
    -- a way with more owners than there are instances meets one of them twice
    obtain ⟨owners, scope, way, long⟩ :=
      exists_way_of_no_level endless (workflow.instances.length + 1)
    refine way.nodup_or_loops.resolve_left fun distinct => ?_
    have := way.length_le distinct
    omega

/-- Whether the way outwards from a region leads through a scope of every instance, and then through
one whose owner is missing. -/
def Overruns (index : Index) (region : Region) : Prop :=
  ∃ owners missing, index.Way region (owners ++ [missing]) none ∧
    owners.Perm (index.workflow.instances.map (·.id)) ∧ index.find? missing = none

/-- **A region overruns exactly if the top level is as many steps away as there are instances, and
one more.** -/
theorem overruns_iff {region : Region} :
    (ofWorkflow workflow).Overruns region ↔
      (ofWorkflow workflow).Level region (workflow.instances.length + 1) := by
  constructor
  · rintro ⟨owners, missing, way, all, _⟩
    have long : (owners ++ [missing]).length = workflow.instances.length + 1 := by
      rw [List.length_append, all.length_eq, List.length_map]
      rfl
    exact long ▸ way.level
  · intro known
    obtain ⟨owners, way, long⟩ := known.exists_way
    have distinct := way.nodup_of_top
    rcases way.eq_nil_or_last with rfl | ⟨between, last, name, rfl, toLast⟩
    · cases long
    · obtain ⟨betweenDistinct, _, apart⟩ := List.nodup_append.mp distinct
      have all : between.Perm (workflow.instances.map (·.id)) := by
        refine (List.subperm_of_subset betweenDistinct toLast.owner_named).perm_of_length_le ?_
        rw [List.length_append, List.length_singleton] at long
        rw [List.length_map]
        omega
      refine ⟨between, last, way, all, ?_⟩
      cases found : (ofWorkflow workflow).find? last with
      | none => rfl
      | some inst =>
          -- an instance would have been met before
          have before := all.mem_iff.mpr (named_of_find? found)
          exact absurd rfl (apart last before last (List.mem_singleton_self last))

/-- The top level is at most one step further away than there are instances. -/
theorem Level.le_succ {region : Region} {level : Nat}
    (known : (ofWorkflow workflow).Level region level) :
    level ≤ workflow.instances.length + 1 := by
  obtain ⟨owners, way, rfl⟩ := known.exists_way
  rcases way.eq_nil_or_last with rfl | ⟨between, last, name, rfl, toLast⟩
  · exact Nat.zero_le _
  · have := toLast.length_le way.nodup_of_top.of_append_left
    rw [List.length_append, List.length_singleton]
    omega

/-- **A region that an instance lives in does not overrun**: the way outwards from there never comes
to the instance. -/
theorem not_overruns_parentScope {inst : Instance} (declared : inst ∈ workflow.instances) :
    ¬ (ofWorkflow workflow).Overruns inst.parentScope := by
  rintro ⟨owners, missing, way, all, _⟩
  have distinct : (workflow.instances.map (·.id)).Nodup :=
    all.nodup_iff.mp way.nodup_of_top.of_append_left
  have lives := regionOf_of_find? (find?_eq_of_nodup distinct declared)
  have member : inst.id ∈ owners := all.mem_iff.mpr (List.mem_map_of_mem declared)
  obtain ⟨before, after, rfl⟩ := List.append_of_mem member
  rw [List.append_assoc, List.cons_append] at way
  obtain ⟨_, _, further⟩ := way.split
  rw [lives] at further
  -- the rest of the way starts in the same region, and would be as long as the whole
  have same := way.level.unique further.level
  rw [List.length_append, List.length_cons] at same
  omega

end Bounds

/-! ### Walks -/

theorem isWithinSteps_of_way {region outer : Region} {owners : List String} {steps : Nat}
    (way : index.Way region owners outer) (enough : owners.length < steps) :
    index.isWithinSteps outer steps region = true := by
  induction way generalizing steps with
  | refl region =>
      cases steps with
      | zero => cases enough
      | succ steps => simp [isWithinSteps]
  | outward _ ih =>
      cases steps with
      | zero => cases enough
      | succ steps =>
          rw [isWithinSteps, Bool.or_eq_true]
          exact .inr (ih (Nat.lt_of_succ_lt_succ enough))

theorem depthSteps_of_level {region : Region} {level steps : Nat} (known : index.Level region level)
    (enough : level < steps) : index.depthSteps steps region = some level := by
  induction known generalizing steps with
  | top =>
      cases steps with
      | zero => cases enough
      | succ steps => rfl
  | scope _ ih =>
      cases steps with
      | zero => cases enough
      | succ steps => rw [depthSteps, ih (Nat.lt_of_succ_lt_succ enough), Option.map_some]

/-- **A depth is found exactly for the regions with a level up to the number of instances.** -/
theorem depth_eq_some_iff {region : Region} {level : Nat} :
    index.depth region = some level ↔ index.Level region level ∧
      level ≤ index.workflow.instances.length :=
  ⟨level_of_depth, fun found => depthSteps_of_level found.1 (Nat.lt_succ_of_le found.2)⟩

/-- The walk finds every scope on the way outwards. -/
theorem isWithin_scope_iff {workflow : Workflow} {region : Region} {scope : ScopeRef} :
    (ofWorkflow workflow).isWithin region (some scope) = true ↔
      (ofWorkflow workflow).Within region (some scope) := by
  constructor
  · exact within_of_isWithin
  · intro within
    obtain ⟨owners, way, distinct⟩ := within.exists_nodup_way
    exact isWithinSteps_of_way way (Nat.lt_succ_of_le (way.length_le distinct))

theorem isWithinSteps_top (steps : Nat) (region : Region) :
    index.isWithinSteps none steps region = (index.depthSteps steps region).isSome := by
  induction steps generalizing region with
  | zero => rfl
  | succ steps ih =>
      cases region with
      | none => rfl
      | some scope =>
          rw [depthSteps, Option.isSome_map, ← ih]
          rfl

/-- The walk finds the top level exactly if it finds a depth. -/
theorem isWithin_top_iff {region : Region} :
    index.isWithin region none = true ↔ ∃ level, index.depth region = some level := by
  rw [isWithin, isWithinSteps_top, ← depth, Option.isSome_iff_exists]

/-- Whether the walks outwards from a region give the right answers. -/
structure WalksExact (index : Index) (region : Region) : Prop where
  /-- The depth is the number of steps to the top level. -/
  depth_some : ∀ level, index.depth region = some level ↔ index.Level region level
  /-- There is no depth exactly where the way outwards comes back to a scope. -/
  depth_none : index.depth region = none ↔ index.Loops region
  /-- A region lies inside exactly those on its way outwards. -/
  isWithin_iff : ∀ outer, index.isWithin region outer = true ↔ index.Within region outer

theorem WalksExact.of_not_overruns {workflow : Workflow} {region : Region}
    (short : ¬ (ofWorkflow workflow).Overruns region) :
    (ofWorkflow workflow).WalksExact region := by
  have found : ∀ level, (ofWorkflow workflow).depth region = some level ↔
      (ofWorkflow workflow).Level region level := by
    intro level
    rw [depth_eq_some_iff]
    refine and_iff_left_of_imp fun known => ?_
    have bound := known.le_succ
    have different : level ≠ workflow.instances.length + 1 :=
      fun same => short (overruns_iff.mpr (same ▸ known))
    show level ≤ workflow.instances.length
    omega
  refine ⟨found, ?_, fun outer => ?_⟩
  · rw [loops_iff, Option.eq_none_iff_forall_ne_some]
    exact forall_congr' fun level => not_congr (found level)
  · cases outer with
    | some scope => exact isWithin_scope_iff
    | none =>
        rw [isWithin_top_iff]
        constructor
        · rintro ⟨level, deep⟩
          exact ((found level).mp deep).within_top
        · intro within
          obtain ⟨owners, way⟩ := within.exists_way
          exact ⟨_, (found _).mpr way.level⟩

/-- The depth of a region that overruns is not found. -/
theorem Overruns.depth_eq_none {workflow : Workflow} {region : Region}
    (overruns : (ofWorkflow workflow).Overruns region) :
    (ofWorkflow workflow).depth region = none := by
  rw [Option.eq_none_iff_forall_ne_some]
  intro level found
  obtain ⟨known, short⟩ := depth_eq_some_iff.mp found
  have same := known.unique (overruns_iff.mp overruns)
  have short : level ≤ workflow.instances.length := short
  omega

end WorkflowGraph.Index

namespace WorkflowGraph

/-- **The walks outwards from a region are exact unless the region overruns.** From a region that
overruns, the top level is found neither as its depth nor as a region around it, and all else is. No
region overruns that an instance lives in. -/
theorem region_walks_exact_iff (workflow : Workflow) (region : Region) :
    ((Index.ofWorkflow workflow).WalksExact region ↔
      ¬ (Index.ofWorkflow workflow).Overruns region) ∧
      ((Index.ofWorkflow workflow).Overruns region →
        (Index.ofWorkflow workflow).Level region (workflow.instances.length + 1) ∧
        (Index.ofWorkflow workflow).depth region = none ∧
        ∀ outer, (Index.ofWorkflow workflow).isWithin region outer = true ↔
          (Index.ofWorkflow workflow).Within region outer ∧ outer ≠ none) ∧
      ∀ inst ∈ workflow.instances, ¬ (Index.ofWorkflow workflow).Overruns inst.parentScope := by
  refine ⟨⟨fun exact overruns => ?_, .of_not_overruns⟩, fun overruns =>
    ⟨Index.overruns_iff.mp overruns,
    overruns.depth_eq_none, fun outer => ?_⟩, fun inst => Index.not_overruns_parentScope⟩
  · have deep := (exact.depth_some _).mpr (Index.overruns_iff.mp overruns)
    rw [overruns.depth_eq_none] at deep
    cases deep
  · cases outer with
    | some scope => simpa using Index.isWithin_scope_iff
    | none => simp [Index.isWithin_top_iff, overruns.depth_eq_none]

/-- A loop in a scope of an instance that is missing. -/
def stranded : Workflow where
  name := "stranded"
  nodeTypes := [(NodeType.function "Loop").withPort
    { Port.stepOutput "start" with scope := some "body" }]
  instances := [{ id := "m", nodeType := "Loop", parentScope := some ⟨"ghost", "body"⟩ }]

theorem region_walks_exact_iff_stranded :
    (Index.ofWorkflow stranded).Overruns (some ⟨"m", "body"⟩) ∧
      (∀ outer, (Index.ofWorkflow stranded).isWithin (some ⟨"m", "body"⟩) outer = true ↔
        (Index.ofWorkflow stranded).Within (some ⟨"m", "body"⟩) outer ∧ outer ≠ none) ∧
      (Index.ofWorkflow stranded).WalksExact (some ⟨"ghost", "body"⟩) ∧
      (Index.ofWorkflow stranded).depth (some ⟨"ghost", "body"⟩) = some 1 := by
  have overruns : (Index.ofWorkflow stranded).Overruns (some ⟨"m", "body"⟩) :=
    ⟨["m"], "ghost", .outward (.outward (.refl none)), .refl _, by decide⟩
  obtain ⟨_, cut, lived⟩ := region_walks_exact_iff stranded (some ⟨"m", "body"⟩)
  have short : ¬ (Index.ofWorkflow stranded).Overruns (some ⟨"ghost", "body"⟩) :=
    lived _ List.mem_cons_self
  exact ⟨overruns, (cut overruns).2.2, (region_walks_exact_iff stranded _).1.mpr short, by decide⟩

/-- **The inside of a loop in a missing scope is taken for a region on a loop**: it is two steps
away from the top level, which the walks do not reach. -/
theorem stranded_walk_cut :
    (Index.ofWorkflow stranded).Level (some ⟨"m", "body"⟩) 2 ∧
      ¬ (Index.ofWorkflow stranded).Loops (some ⟨"m", "body"⟩) ∧
      (Index.ofWorkflow stranded).depth (some ⟨"m", "body"⟩) = none ∧
      (Index.ofWorkflow stranded).Within (some ⟨"m", "body"⟩) none ∧
      (Index.ofWorkflow stranded).isWithin (some ⟨"m", "body"⟩) none = false := by
  have known : (Index.ofWorkflow stranded).Level (some ⟨"m", "body"⟩) 2 := .scope (.scope .top)
  exact ⟨known, known.not_loops, by decide, known.within_top, by decide⟩

end WorkflowGraph
