/-
Workflows that are built step by step.

A scope table says again what the instances of a workflow say of the regions that they live in. The
main statement is `built_scopes_agree`: whatever the steps are, the table of the workflow that they
build lists each scope that an instance lives in once, with the ids of its instances in the order in
which they were added. The rule of scope integrity then finds no disagreement between the two,
unless an id was used twice.

* `Workflow.declared` — the ids and regions of the instances; a step appends what it declares
  (`declared_apply`).
* `Workflow.ScopesAgree` — the table agrees with the instances. Every step keeps that
  (`ScopesAgree.apply`), and so does every run of steps (`scopesAgree_build`).
* `ScopesAgree.checkTable_ne_mismatch` — what the rule says of a table that agrees, however the
  workflow came about.
-/

import Mathlib.Data.List.Nodup
import WorkflowGraph.Builder
import WorkflowGraph.Proofs.Index
import WorkflowGraph.Proofs.Report

namespace WorkflowGraph

/-- The id and the region of the instance that a step adds, if it adds one. -/
def BuildStep.declared? : BuildStep → Option (String × Region)
  | .node id _ => some (id, none)
  | .scopedNode id _ scope => some (id, some scope)
  | _ => none

namespace Workflow

/-- The ids of the instances with the regions that they live in. -/
def declared (workflow : Workflow) : List (String × Region) :=
  workflow.instances.map fun inst => (inst.id, inst.parentScope)

/-- The ids of the instances that live in a region, in the order in which they are declared. -/
def idsIn (workflow : Workflow) (region : Region) : List String :=
  (workflow.instances.filter fun inst => inst.parentScope = region).map (·.id)

theorem idsIn_eq (workflow : Workflow) (region : Region) :
    workflow.idsIn region = (workflow.declared.filter fun entry => entry.2 = region).map (·.1) := by
  rw [idsIn, declared, List.filter_map, List.map_map]
  rfl

theorem mem_idsIn {workflow : Workflow} {region : Region} {id : String} :
    id ∈ workflow.idsIn region ↔ ∃ inst ∈ workflow.instances, inst.parentScope = region ∧
      inst.id = id := by
  simp [idsIn, and_assoc]

theorem idsIn_ne_nil_iff {workflow : Workflow} {region : Region} :
    workflow.idsIn region ≠ [] ↔ ∃ inst ∈ workflow.instances, inst.parentScope = region := by
  simp [idsIn]

/-! ### What a step declares -/

theorem map_bindLast {α : Type} (view : Instance → α) (port : String) (value : PortBinding)
    (kept : ∀ inst : Instance,
      view { inst with bindings := inst.bindings.insert port value } = view inst)
    (instances : List Instance) :
    (bindLast port value instances).map view = instances.map view := by
  fun_induction bindLast port value instances with
  | case1 => rfl
  | case2 last => exact congrArg (fun seen => [seen]) (kept last)
  | case3 first rest _ ih => rw [List.map_cons, List.map_cons, ih]

/-- A step appends what it declares. -/
theorem declared_apply (workflow : Workflow) (step : BuildStep) :
    (workflow.apply step).declared = workflow.declared ++ step.declared?.toList := by
  unfold declared
  cases step with
  | binding port value =>
      show (bindLast port value workflow.instances).map _ = _
      rw [map_bindLast _ port value fun _ => rfl]
      exact (List.append_nil _).symm
  | node id nodeType => exact List.map_append
  | scopedNode id nodeType scope => exact List.map_append
  | strictTypes _ | parameter _ | returns _ | nodeType _ | connection _ =>
      exact (List.append_nil _).symm

theorem idsIn_apply (workflow : Workflow) (step : BuildStep) (region : Region) :
    (workflow.apply step).idsIn region =
      workflow.idsIn region ++
        (step.declared?.toList.filter fun entry => entry.2 = region).map (·.1) := by
  rw [idsIn_eq, idsIn_eq, declared_apply, List.filter_append, List.map_append]

theorem declared_foldl_apply (workflow : Workflow) (steps : List BuildStep) :
    (steps.foldl apply workflow).declared =
      workflow.declared ++ steps.filterMap BuildStep.declared? := by
  induction steps generalizing workflow with
  | nil => exact (List.append_nil _).symm
  | cons step rest ih =>
      rw [List.foldl_cons, ih, declared_apply, List.append_assoc, List.filterMap_cons]
      cases step.declared? <;> rfl

/-- **The instances of a built workflow are those that its steps declare, in their order.** -/
theorem declared_build (name : String) (steps : List BuildStep) :
    (build name steps).declared = steps.filterMap BuildStep.declared? :=
  declared_foldl_apply { name } steps

/-! ### Entering a child -/

/-- Entering a child adds its scope to those that have an entry. -/
theorem refs_enterScope (scope : ScopeRef) (child : String) (scopes : List Scope) :
    (enterScope scope child scopes).map Scope.ref =
      if scope ∈ scopes.map Scope.ref then scopes.map Scope.ref
      else scopes.map Scope.ref ++ [scope] := by
  induction scopes with
  | nil => rfl
  | cons entry rest ih =>
      unfold enterScope
      by_cases here : entry.ref = scope
      · rw [if_pos here, if_pos (by simp [here])]
        rfl
      · rw [if_neg here, List.map_cons, ih, List.map_cons]
        by_cases later : scope ∈ rest.map Scope.ref
        · rw [if_pos later, if_pos (List.mem_cons_of_mem _ later)]
        · rw [if_neg later, if_neg (by simp [Ne.symm here, later]), List.cons_append]

/-- Entering a child appends it to the children of its scope, and to no others. -/
theorem children_of_mem_enterScope {scope : ScopeRef} {child : String} {scopes : List Scope}
    {children : ScopeRef → List String} (distinct : (scopes.map Scope.ref).Nodup)
    (listed : ∀ entry ∈ scopes, entry.children = children entry.ref)
    (fresh : scope ∉ scopes.map Scope.ref → children scope = []) {entry : Scope}
    (member : entry ∈ enterScope scope child scopes) :
    entry.children = children entry.ref ++ if entry.ref = scope then [child] else [] := by
  induction scopes with
  | nil =>
      rw [enterScope, List.mem_singleton] at member
      subst member
      show [child] = children scope ++ if scope = scope then [child] else []
      rw [fresh (List.not_mem_nil), if_pos rfl, List.nil_append]
  | cons first rest ih =>
      obtain ⟨single, distinct⟩ := List.nodup_cons.mp distinct
      obtain ⟨here, listed⟩ := List.forall_mem_cons.mp listed
      unfold enterScope at member
      by_cases same : first.ref = scope
      · rw [if_pos same] at member
        rcases List.mem_cons.mp member with rfl | later
        · show first.children ++ [child] = children first.ref ++ if first.ref =
            scope then [child] else []
          rw [if_pos same, here]
        · -- no other entry is one of this scope
          have other : entry.ref ≠ scope := fun equal =>
            single (List.mem_map.mpr ⟨entry, later, equal.trans same.symm⟩)
          rw [if_neg other, List.append_nil, listed entry later]
      · rw [if_neg same] at member
        rcases List.mem_cons.mp member with rfl | later
        · rw [if_neg same, List.append_nil, here]
        · apply ih distinct listed _ later
          exact fun absent => fresh (by simp [Ne.symm same, absent])

/-! ### Tables that agree -/

/-- Whether the scope table of a workflow agrees with its instances. -/
structure ScopesAgree (workflow : Workflow) : Prop where
  /-- No scope has two entries. -/
  distinct : (workflow.scopes.map Scope.ref).Nodup
  /-- A scope has an entry if instances live in it, and not otherwise. -/
  entered : ∀ scope, scope ∈ workflow.scopes.map Scope.ref ↔ workflow.idsIn (some scope) ≠ []
  /-- An entry lists the instances that live in its scope. -/
  children : ∀ entry ∈ workflow.scopes, entry.children = workflow.idsIn (some entry.ref)

namespace ScopesAgree

variable {workflow : Workflow}

/-- Agreement is about the table and about what lives in scopes. -/
theorem congr {other : Workflow} (agree : workflow.ScopesAgree)
    (scopes : other.scopes = workflow.scopes)
    (ids : ∀ scope, other.idsIn (some scope) = workflow.idsIn (some scope)) :
    other.ScopesAgree where
  distinct := scopes ▸ agree.distinct
  entered scope := by rw [scopes, ids, agree.entered]
  children entry member := by rw [ids, agree.children entry (scopes ▸ member)]

/-- A child that is entered under its scope keeps the table in step. -/
theorem scopedNode (agree : workflow.ScopesAgree) (id nodeType : String) (scope : ScopeRef) :
    (workflow.apply (.scopedNode id nodeType scope)).ScopesAgree := by
  have ids : ∀ other, (workflow.apply (.scopedNode id nodeType scope)).idsIn (some other) =
      workflow.idsIn (some other) ++ if other = scope then [id] else [] := by
    intro other
    rw [idsIn_apply]
    by_cases same : other = scope
    · simp [BuildStep.declared?, same]
    · simp [BuildStep.declared?, same, Ne.symm same]
  have table : (workflow.apply (.scopedNode id nodeType scope)).scopes =
      enterScope scope id workflow.scopes := rfl
  refine ⟨?_, fun other => ?_, fun entry member => ?_⟩
  · rw [table, refs_enterScope]
    by_cases listed : scope ∈ workflow.scopes.map Scope.ref
    · rw [if_pos listed]
      exact agree.distinct
    · rw [if_neg listed, ← List.concat_eq_append]
      exact agree.distinct.concat listed
  · rw [table, refs_enterScope, ids]
    by_cases same : other = scope
    · subst same
      by_cases listed : other ∈ workflow.scopes.map Scope.ref <;> simp [listed]
    · rw [if_neg same, List.append_nil, ← agree.entered]
      by_cases listed : scope ∈ workflow.scopes.map Scope.ref
      · rw [if_pos listed]
      · rw [if_neg listed, List.mem_append, List.mem_singleton, or_iff_left same]
  · rw [ids]
    have fresh : scope ∉ workflow.scopes.map Scope.ref → workflow.idsIn (some scope) = [] :=
      fun absent => not_not.mp (mt (agree.entered scope).mpr absent)
    exact @children_of_mem_enterScope scope id workflow.scopes (fun scope =>
      workflow.idsIn (some scope)) agree.distinct agree.children fresh entry member

/-- **Every step keeps the scope table in step with the instances.** -/
theorem apply (agree : workflow.ScopesAgree) (step : BuildStep) :
    (workflow.apply step).ScopesAgree := by
  cases step with
  | scopedNode id nodeType scope => exact agree.scopedNode id nodeType scope
  | strictTypes _ | parameter _ | returns _ | nodeType _ | node _ _ | binding _ _ | connection _ =>
      -- nothing is added inside of a scope
      exact agree.congr rfl fun scope => by simp [idsIn_apply, BuildStep.declared?]

end ScopesAgree

/-- **The table of a built workflow agrees with its instances.** -/
theorem scopesAgree_build (name : String) (steps : List BuildStep) :
    (build name steps).ScopesAgree := by
  unfold build
  apply List.foldlRecOn (motive := ScopesAgree)
  · exact ⟨List.nodup_nil, fun scope => by simp [idsIn], fun _ none => nomatch none⟩
  · exact fun workflow agree step _ => agree.apply step

/-! ### What the rule of scope integrity says -/

namespace ScopesAgree

open ScopeIntegrity

variable {workflow : Workflow}

/-- The table lists what lives in a scope. -/
theorem exists_findScope (agree : workflow.ScopesAgree) {inst : Instance}
    (member : inst ∈ workflow.instances) {scope : ScopeRef}
    (lives : inst.parentScope = some scope) :
    ∃ entry, workflow.findScope scope.owner scope.name = some entry ∧ inst.id ∈ entry.children := by
  have inside : inst.id ∈ workflow.idsIn (some scope) := mem_idsIn.mpr ⟨inst, member, lives, rfl⟩
  obtain ⟨listed, among, same⟩ :=
    List.mem_map.mp ((agree.entered scope).mpr (List.ne_nil_of_mem inside))
  have isSome : (workflow.findScope scope.owner scope.name).isSome = true := by
    rw [findScope, List.find?_isSome]
    exact ⟨listed, among, by simp [← same, Scope.ref]⟩
  obtain ⟨entry, found⟩ := Option.isSome_iff_exists.mp isSome
  have ref : entry.ref = scope := by
    have named : entry.parent = scope.owner ∧ entry.name = scope.name := by
      simpa using List.find?_some found
    unfold Scope.ref
    rw [named.1, named.2]
  refine ⟨entry, found, ?_⟩
  rw [agree.children entry (List.mem_of_find?_eq_some found), ref]
  exact inside

/-- **The rule finds no disagreement in a table that agrees**, if ids are different. -/
theorem checkTable_ne_mismatch (agree : workflow.ScopesAgree)
    (distinct : (workflow.instances.map (·.id)).Nodup) {diagnostic : Diagnostic}
    (reported : diagnostic ∈ checkTable (.ofWorkflow workflow)) :
    diagnostic.code ≠ .scopeMembershipMismatch := by
  have childrenFine : ∀ entry ∈ workflow.scopes, ∀ child ∈ entry.children,
      checkChild (.ofWorkflow workflow) entry.ref child = [] := by
    intro entry listed child member
    rw [agree.children entry listed] at member
    obtain ⟨inst, declared, lives, rfl⟩ := mem_idsIn.mp member
    simp [checkChild, Diagnostic.when, Index.find?_eq_of_nodup distinct declared, lives]
  have instancesFine : ∀ inst ∈ workflow.instances,
      checkListed (.ofWorkflow workflow) inst = [] := by
    intro inst declared
    unfold checkListed
    split
    · rfl
    · rename_i scope lives
      obtain ⟨entry, found, inside⟩ := agree.exists_findScope declared lives
      have found : (Index.ofWorkflow workflow).workflow.findScope scope.owner scope.name =
        some entry := found
      simp [Diagnostic.when, found, inside]
  -- what is left are scopes that are not known
  rcases List.mem_append.mp reported with ofEntry | ofInstance
  · obtain ⟨entry, listed, found⟩ := List.mem_flatMap.mp ofEntry
    rw [checkEntry, List.flatMap_eq_nil_iff.mpr (childrenFine entry listed), List.append_nil,
      Option.mem_toList] at found
    obtain ⟨_, _, rfl⟩ := Option.map_eq_some_iff.mp found
    simp
  · obtain ⟨inst, declared, found⟩ := List.mem_flatMap.mp ofInstance
    rw [instancesFine inst declared] at found
    cases found

end ScopesAgree

end Workflow

/-- **A workflow that is built step by step keeps its scope table in step with its instances**,
which are those that the steps declare. A scope has at most one entry, it has one if an instance
lives in it, and the entry lists the ids of all those instances in the order of their steps. If no
id was used twice, the rule of scope integrity finds that they agree. -/
theorem built_scopes_agree (name : String) (steps : List BuildStep) :
    ((Workflow.build name steps).instances.map fun inst => (inst.id, inst.parentScope)) =
        steps.filterMap BuildStep.declared? ∧
      ((Workflow.build name steps).scopes.map Scope.ref).Nodup ∧
      (∀ scope, (∃ entry ∈ (Workflow.build name steps).scopes, entry.ref = scope) ↔
        ∃ inst ∈ (Workflow.build name steps).instances, inst.parentScope = some scope) ∧
      (∀ entry ∈ (Workflow.build name steps).scopes, entry.children =
        ((Workflow.build name steps).instances.filter fun inst =>
          inst.parentScope = some entry.ref).map (·.id)) ∧
      (((Workflow.build name steps).instances.map (·.id)).Nodup →
        ∀ diagnostic ∈ ScopeIntegrity.checkTable (.ofWorkflow (Workflow.build name steps)),
          diagnostic.code ≠ .scopeMembershipMismatch) := by
  have agree := Workflow.scopesAgree_build name steps
  refine ⟨Workflow.declared_build name steps, agree.distinct, fun scope => ?_, agree.children,
    fun distinct _ reported => agree.checkTable_ne_mismatch distinct reported⟩
  rw [← List.mem_map, agree.entered, Workflow.idsIn_ne_nil_iff]

/-- Steps that fill two scopes of a loop by turns, one of them before the loop itself is there. -/
def interleavedSteps : List BuildStep :=
  [.scopedNode "a" "Task" ⟨"m", "body"⟩, .binding "in" (.expression "1"), .node "m" "Loop",
    .scopedNode "b" "Task" ⟨"m", "last"⟩, .connection ⟨⟨"a", "out", none⟩, ⟨"c", "in", none⟩⟩,
    .scopedNode "c" "Task" ⟨"m", "body"⟩]

theorem built_scopes_agree_interleavedSteps :
    ((Workflow.build "interleaved" interleavedSteps).instances.map (·.id)).Nodup ∧
      (Workflow.build "interleaved" interleavedSteps).scopes =
        [⟨"m", "body", ["a", "c"]⟩, ⟨"m", "last", ["b"]⟩] ∧
      ∀ diagnostic ∈ ScopeIntegrity.checkTable
        (.ofWorkflow (Workflow.build "interleaved" interleavedSteps)),
        diagnostic.code ≠ .scopeMembershipMismatch := by
  have distinct : ((Workflow.build "interleaved" interleavedSteps).instances.map (·.id)).Nodup := by
    decide
  exact ⟨distinct, by decide, (built_scopes_agree "interleaved" interleavedSteps).2.2.2.2 distinct⟩

end WorkflowGraph
