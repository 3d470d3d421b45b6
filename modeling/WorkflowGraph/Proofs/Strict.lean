/-
Strict types.

Whether the types of a workflow are strict matters to one rule only. The main statement is
`strict_tightens`: where types are strict, the report is the one where they are not, with an error
in the place of each warning about a coercion, unless the coercion is one between objects of
differently named shapes. So what can be compiled with strict types can be compiled without them, to
the same plan and with the same warnings.

* `RuleGroup.check_withStrict` — no group of rules but that of type compatibility looks at whether
  types are strict, and neither does the scheduler (`Scheduler.schedule_withStrict`).
* `TypeCompatibility.tightens_check` — the diagnostics of type compatibility correspond one by one.
-/

import Mathlib.Data.List.Forall2
import WorkflowGraph.Compiler
import WorkflowGraph.Proofs.Report

namespace WorkflowGraph

/-- The workflow with its types strict or not. -/
def Workflow.withStrict (workflow : Workflow) (strict : Bool) : Workflow :=
  { workflow with strictTypes := strict }

/-- The index with the types of its workflow strict or not. -/
def Index.withStrict (index : Index) (strict : Bool) : Index :=
  { index with workflow := index.workflow.withStrict strict }

variable (index : Index) (strict : Bool)

theorem Index.ofWorkflow_withStrict (workflow : Workflow) :
    ofWorkflow (workflow.withStrict strict) = (ofWorkflow workflow).withStrict strict := rfl

/-! ### Regions -/

namespace Index

theorem isWithinSteps_withStrict (outer : Region) (steps : Nat) (region : Region) :
    (index.withStrict strict).isWithinSteps outer steps region =
      index.isWithinSteps outer steps region := by
  induction steps generalizing region with
  | zero => rfl
  | succ steps ih =>
      cases region with
      | none => rfl
      | some scope => exact congrArg (decide (some scope = outer) || ·) (ih _)

theorem isWithin_withStrict (inner outer : Region) :
    (index.withStrict strict).isWithin inner outer = index.isWithin inner outer :=
  isWithinSteps_withStrict index strict outer _ inner

theorem depthSteps_withStrict (steps : Nat) (region : Region) :
    (index.withStrict strict).depthSteps steps region = index.depthSteps steps region := by
  induction steps generalizing region with
  | zero => rfl
  | succ steps ih =>
      cases region with
      | none => rfl
      | some scope => exact congrArg (Option.map (· + 1)) (ih _)

theorem depth_withStrict (region : Region) :
    (index.withStrict strict).depth region = index.depth region :=
  depthSteps_withStrict index strict _ region

theorem ownersWithin_withStrict (steps : Nat) (region : Region) :
    (index.withStrict strict).ownersWithin steps region = index.ownersWithin steps region := by
  induction steps generalizing region with
  | zero => rfl
  | succ steps ih =>
      cases region with
      | none => rfl
      | some scope => exact congrArg (List.cons scope.owner) (ih _)

end Index

/-! ### Rules -/

theorem Structural.checkInstances_withStrict (seen : List String) (instances : List Instance) :
    checkInstances (index.withStrict strict) seen instances =
      checkInstances index seen instances := by
  induction instances generalizing seen with
  | nil => rfl
  | cons inst rest ih =>
      simp only [checkInstances, ih]
      rfl

theorem ConnectionIntegrity.checkFanIn_withStrict (fed : List PortRef)
    (connections : List (Connection × Nat)) :
    checkFanIn (index.withStrict strict) fed connections = checkFanIn index fed connections := by
  induction connections generalizing fed with
  | nil => rfl
  | cons entry rest ih =>
      simp only [checkFanIn, ih]
      rfl

namespace ScopeIntegrity

theorem checkParent_withStrict (inst : Instance) :
    checkParent (index.withStrict strict) inst = checkParent index inst := by
  simp only [checkParent, Index.depth_withStrict]
  rfl

theorem checkCrossing_withStrict (position : Nat) (connection : Connection) :
    checkCrossing (index.withStrict strict) position connection =
      checkCrossing index position connection := by
  simp only [checkCrossing, crossingProblem, Index.isWithin_withStrict]
  rfl

end ScopeIntegrity

/-- No group but that of type compatibility looks at whether types are strict. -/
theorem RuleGroup.check_withStrict {group : RuleGroup} (other : group ≠ .typeCompatibility) :
    group.check (index.withStrict strict) = group.check index := by
  cases group with
  | typeCompatibility => exact absurd rfl other
  | structural =>
      simp only [check, Structural.check, Structural.checkInstances_withStrict]
      rfl
  | connectionIntegrity =>
      simp only [check, ConnectionIntegrity.check, ConnectionIntegrity.checkFanIn_withStrict]
      rfl
  | scopeIntegrity =>
      have parents := funext (ScopeIntegrity.checkParent_withStrict index strict)
      simp only [check, ScopeIntegrity.check, parents, ScopeIntegrity.checkCrossing_withStrict]
      rfl
  | requiredInputs | graphShape | dataFlow => rfl

/-! ### Dependencies -/

/-- The analysis with the types of its workflow strict or not. -/
def Analysis.withStrict (analysis : Analysis) (strict : Bool) : Analysis :=
  { analysis with index := analysis.index.withStrict strict }

theorem Dependencies.add_withStrict (levels : Nat) :
    add (index.withStrict strict) levels = add index levels := by
  induction levels with
  | zero => rfl
  | succ levels ih =>
      funext visiting table id
      simp only [add, ih]
      rfl

theorem Analysis.ofIndex_withStrict :
    ofIndex (index.withStrict strict) = (ofIndex index).withStrict strict := by
  have dependencies : Dependencies.ofIndex (index.withStrict strict) =
      Dependencies.ofIndex index := by
    unfold Dependencies.ofIndex
    rw [Dependencies.add_withStrict]
    rfl
  have owners : (index.withStrict strict).owners = index.owners :=
    funext fun region => Index.ownersWithin_withStrict index strict _ region
  unfold ofIndex
  rw [dependencies, owners]
  rfl

variable (analysis : Analysis)

theorem Cluster.ofBlock_withStrict (block : List String) :
    ofBlock (analysis.withStrict strict) block = ofBlock analysis block := rfl

theorem Analysis.inlineOrder_withStrict (region : Region) (count : Nat)
    (available remaining : List String) :
    (analysis.withStrict strict).inlineOrder region count available remaining =
      analysis.inlineOrder region count available remaining := by
  induction count generalizing available remaining with
  | zero => cases remaining <;> rfl
  | succ count ih =>
      cases remaining with
      | nil => rfl
      | cons first rest => simp only [inlineOrder, ih]; rfl

theorem Analysis.inlineNeeded_withStrict (block : Block) (needed : List String) :
    (analysis.withStrict strict).inlineNeeded block needed = analysis.inlineNeeded block needed :=
  inlineOrder_withStrict strict analysis _ _ _ _

namespace Scheduler

variable (scheduler : Scheduler)

theorem splitReady_withStrict (resolved : List String) (clusters : List Cluster) :
    scheduler.splitReady (analysis.withStrict strict) resolved clusters =
      scheduler.splitReady analysis resolved clusters := by
  induction clusters with
  | nil => rfl
  | cons cluster rest ih => simp only [splitReady, ih]; rfl

theorem placeBodies_withStrict (arrange : Block → Attempt ScheduleError (List Placement))
    (block : Block) (owner : String) (names : List String) :
    scheduler.placeBodies (index.withStrict strict) arrange block owner names =
      scheduler.placeBodies index arrange block owner names := by
  induction names with
  | nil => rfl
  | cons name rest ih =>
      simp only [placeBodies, ih, checkDepth, Index.depth_withStrict]
      rfl

theorem placeCluster_withStrict (arrange : Block → Attempt ScheduleError (List Placement))
    (block : Block) :
    scheduler.placeCluster (analysis.withStrict strict) arrange block =
      scheduler.placeCluster analysis arrange block := by
  funext cluster
  unfold placeCluster
  simp only [Analysis.withStrict, placeBodies_withStrict]
  rfl

theorem arrangeRounds_withStrict (arrange : Block → Attempt ScheduleError (List Placement))
    (count : Nat) (block : Block) (pending : List Cluster) :
    scheduler.arrangeRounds (analysis.withStrict strict) arrange count block pending =
      scheduler.arrangeRounds analysis arrange count block pending := by
  induction count generalizing block pending with
  | zero =>
    cases pending with
    | nil =>
      simp only [arrangeRounds, Analysis.inlineNeeded_withStrict]
      rfl
    | cons first rest => rfl
  | succ count ih =>
    cases pending with
    | nil =>
      simp only [arrangeRounds, Analysis.inlineNeeded_withStrict]
      rfl
    | cons first rest =>
      simp only [arrangeRounds, splitReady_withStrict, Analysis.inlineNeeded_withStrict,
        placeCluster_withStrict, ih]
      rfl

theorem arrange_withStrict (levels : Nat) :
    scheduler.arrange (analysis.withStrict strict) levels = scheduler.arrange analysis levels := by
  induction levels with
  | zero => rfl
  | succ levels ih =>
      funext block
      simp only [arrange, ih, arrangeRounds_withStrict, Cluster.ofBlock_withStrict]

end Scheduler

theorem Merge.addProducer_withStrict (connection : Connection) (merges : List Merge) :
    addProducer (index.withStrict strict) connection merges =
      addProducer index connection merges := by
  induction merges with
  | nil => rfl
  | cons merge rest ih => simp only [addProducer, ih]

theorem Merge.declare_withStrict (outer : List Merge) (cluster : Cluster) :
    declare (index.withStrict strict) outer cluster = declare index outer cluster := by
  unfold declare
  simp only [addProducer_withStrict]
  rfl

namespace Binding

mutual

theorem place_withStrict (merges : List Merge) (placement : Placement) :
    place (index.withStrict strict) merges placement = place index merges placement := by
  cases placement with
  | inlined => rfl
  | node id bodies => simp only [place, placeBodies_withStrict merges id bodies]; rfl
  | branch cluster bodies thenArm elseArm =>
      simp only [place, Merge.declare_withStrict, placeBodies_withStrict _ cluster.head bodies,
        placeAll_withStrict _ thenArm, placeAll_withStrict _ elseArm]
      rfl
  | parallel clusters => simp only [place, placeEach_withStrict _ clusters]

theorem placeAll_withStrict (merges : List Merge) (placements : List Placement) :
    placeAll (index.withStrict strict) merges placements = placeAll index merges placements := by
  cases placements with
  | nil => rfl
  | cons placement rest =>
      simp only [placeAll, place_withStrict _ placement, placeAll_withStrict _ rest]

theorem placeEach_withStrict (merges : List Merge) (placements : List Placement) :
    placeEach (index.withStrict strict) merges placements = placeEach index merges placements := by
  cases placements with
  | nil => rfl
  | cons placement rest =>
      simp only [placeEach, place_withStrict _ placement, placeEach_withStrict _ rest]

theorem placeBodies_withStrict (merges : List Merge) (owner : String)
    (bodies : List (String × List Placement)) :
    placeBodies (index.withStrict strict) merges owner bodies =
      placeBodies index merges owner bodies := by
  cases bodies with
  | nil => rfl
  | cons entry rest =>
    obtain ⟨name, body⟩ := entry
    simp only [placeBodies, placeAll_withStrict _ body, placeBodies_withStrict _ owner rest]
    rfl

end

end Binding

/-- **The scheduler does not look at whether types are strict.** -/
theorem Scheduler.schedule_withStrict (scheduler : Scheduler) (workflow : Workflow) :
    scheduler.schedule (workflow.withStrict strict) = scheduler.schedule workflow := by
  unfold schedule
  simp only [Index.ofWorkflow_withStrict, Analysis.ofIndex_withStrict, arrangeWorkflow,
    arrange_withStrict, Binding.plan, Binding.placeAll_withStrict]
  rfl

/-! ### Diagnostics -/

namespace Workflow

variable (workflow : Workflow)

/-- Whether a connection joins objects of two differently named shapes. -/
def JoinsShapes (connection : Connection) : Prop :=
  ∃ first second, first ≠ second ∧
    ((Index.ofWorkflow workflow).sourcePort connection).bind Port.dataType? =
      some (.object (some first)) ∧
    ((Index.ofWorkflow workflow).targetPort connection).bind Port.dataType? =
      some (.object (some second))

/-- Whether a diagnostic is a warning of type compatibility, but not one about a connection that
joins objects of two differently named shapes. -/
def Coerces (diagnostic : Diagnostic) : Prop :=
  diagnostic.isError = false ∧ diagnostic.code.group = .typeCompatibility ∧
    ∀ position connection, diagnostic.location.connection = some position →
      workflow.connections[position]? = some connection → ¬ workflow.JoinsShapes connection

/-- Whether a diagnostic is what becomes of another one where types are strict. -/
def Tightens (loose tight : Diagnostic) : Prop :=
  (workflow.Coerces loose → tight.isError = true ∧ tight.code = .typeIncompatible ∧
    tight.location = loose.location ∧ tight.suggestion = none) ∧
  (¬ workflow.Coerces loose → tight = loose)

end Workflow

/-- What strictness changes about the flow of a value: types that match and objects of differently
named shapes are as before, and every other coercion is rejected. -/
theorem DataType.flowInto_cases (source target : DataType) :
    (∀ strict, source.flowInto target strict = .matched) ∨
      (∃ first second, first ≠ second ∧ source = .object (some first) ∧
        target = .object (some second) ∧
        ∀ strict, source.flowInto target strict = .coerced .shapeMismatch) ∨
      (∀ first second, source = .object (some first) → target ≠ .object (some second)) ∧
        ∃ coercion, source.flowInto target false = .coerced coercion ∧
          source.flowInto target true = .rejected coercion := by
  unfold flowInto
  by_cases same : source = target ∨ source = any ∨ target = any
  · simp [same]
  · simp only [same, if_false]
    split
    · rename_i first second
      have different : first ≠ second := fun equal => same (.inl (by rw [equal]))
      exact .inr (.inl ⟨first, second, different, rfl, rfl, fun _ => rfl⟩)
    · exact .inl fun _ => rfl
    · rename_i distinct _
      exact .inr (.inr ⟨distinct, _, rfl, rfl⟩)

namespace TypeCompatibility

variable (workflow : Workflow)

theorem group_warningCode (coercion : Coercion) :
    (warningCode coercion).group = .typeCompatibility := by
  cases coercion <;> rfl

/-- A connection is checked for the flow between the types that it joins, if it joins two. -/
theorem checkConnection_cases (position : Nat) (connection : Connection) :
    (∀ strict,
      checkConnection ((Index.ofWorkflow workflow).withStrict strict) position connection = []) ∨
      ∃ source target,
        ((Index.ofWorkflow workflow).sourcePort connection).bind Port.dataType? = some source ∧
        ((Index.ofWorkflow workflow).targetPort connection).bind Port.dataType? = some target ∧
        ∀ strict, checkConnection ((Index.ofWorkflow workflow).withStrict strict)
          position connection = checkFlow strict position connection source target := by
  have ends (strict : Bool) :
      ((Index.ofWorkflow workflow).withStrict strict).sourcePort =
      (Index.ofWorkflow workflow).sourcePort ∧
        ((Index.ofWorkflow workflow).withStrict strict).targetPort =
        (Index.ofWorkflow workflow).targetPort :=
    ⟨rfl, rfl⟩
  unfold checkConnection
  simp only [ends]
  cases ((Index.ofWorkflow workflow).sourcePort connection).bind Port.dataType? with
  | none => exact .inl fun _ => rfl
  | some source =>
      cases ((Index.ofWorkflow workflow).targetPort connection).bind Port.dataType? with
      | none => exact .inl fun _ => rfl
      | some target => exact .inr ⟨source, target, rfl, rfl, fun _ => rfl⟩

/-- The diagnostics of one connection correspond. -/
theorem tightens_checkConnection {position : Nat} {connection : Connection}
    (declared : workflow.connections[position]? = some connection) :
    List.Forall₂ workflow.Tightens
      (checkConnection ((Index.ofWorkflow workflow).withStrict false) position connection)
      (checkConnection ((Index.ofWorkflow workflow).withStrict true) position connection) := by
  rcases checkConnection_cases workflow position connection with none | ⟨source, target, atSource,
    atTarget, flow⟩
  · rw [none, none]
    exact .nil
  rw [flow, flow]
  unfold checkFlow
  rcases source.flowInto_cases target with
    matched | ⟨first, second, different, rfl, rfl, coerced⟩ | ⟨distinct, coercion,
      coerced, rejected⟩
  · rw [matched, matched]
    exact .nil
  · rw [coerced, coerced]
    refine .cons ⟨fun coerces => ?_, fun _ => rfl⟩ .nil
    exact absurd ⟨first, second, different, atSource, atTarget⟩
      (coerces.2.2 position connection rfl declared)
  · rw [coerced, rejected]
    refine .cons ⟨fun _ => ⟨rfl, rfl, rfl, rfl⟩, fun kept => absurd ?_ kept⟩ .nil
    refine ⟨rfl, group_warningCode coercion, fun other joined same found => ?_⟩
    cases same
    rw [declared] at found
    cases found
    rintro ⟨first, second, _, fromFirst, intoSecond⟩
    rw [atSource] at fromFirst
    rw [atTarget] at intoSecond
    exact distinct first second (Option.some.inj fromFirst) (Option.some.inj intoSecond)

/-- **The diagnostics of type compatibility correspond one by one.** -/
theorem tightens_check :
    List.Forall₂ workflow.Tightens (check ((Index.ofWorkflow workflow).withStrict false))
      (check ((Index.ofWorkflow workflow).withStrict true)) := by
  have same : List.Forall₂ (fun first second => first = second ∧
      workflow.connections[first.2]? = some first.1)
      workflow.connections.zipIdx workflow.connections.zipIdx :=
    List.forall₂_same.mpr fun entry member => ⟨rfl, List.mem_zipIdx_iff_getElem?.mp member⟩
  refine List.rel_flatMap same ?_
  rintro ⟨connection, position⟩ _ ⟨rfl, declared⟩
  exact tightens_checkConnection workflow declared

end TypeCompatibility

/-! ### Reports -/

variable (workflow : Workflow)

theorem Workflow.tightens_self {diagnostic : Diagnostic}
    (other : diagnostic.code.group ≠ .typeCompatibility) :
    workflow.Tightens diagnostic diagnostic :=
  ⟨fun coerces => absurd coerces.2.1 other, fun _ => rfl⟩

/-- The reports of some groups correspond one by one. -/
theorem tightens_validateWith (groups : List RuleGroup) :
    List.Forall₂ workflow.Tightens (validateWith groups (workflow.withStrict false)).diagnostics
      (validateWith groups (workflow.withStrict true)).diagnostics := by
  refine List.rel_flatMap (List.forall₂_same.mpr fun group _ => (rfl : group = group)) ?_
  rintro group _ rfl
  simp only [Index.ofWorkflow_withStrict]
  by_cases types : group = .typeCompatibility
  · subst types
    exact TypeCompatibility.tightens_check workflow
  · rw [group.check_withStrict _ _ types, group.check_withStrict _ _ types]
    refine List.forall₂_same.mpr fun diagnostic member => workflow.tightens_self ?_
    rw [group.owns_check _ diagnostic member]
    exact types

theorem Workflow.eq_of_tightens {loose tight : List Diagnostic}
    (tightens : List.Forall₂ workflow.Tightens loose tight)
    (fine : ∀ diagnostic ∈ tight, diagnostic.isError = false) : loose = tight := by
  induction tightens with
  | nil => rfl
  | @cons first second rest others first_second _ ih =>
      obtain ⟨secondFine, othersFine⟩ := List.forall_mem_cons.mp fine
      have kept : ¬ workflow.Coerces first := by
        intro coerces
        rw [(first_second.1 coerces).1] at secondFine
        cases secondFine
      rw [first_second.2 kept, ih othersFine]

/-- Where strict types give no error, they change nothing. -/
theorem validateWith_eq_of_strict {groups : List RuleGroup}
    (valid : (validateWith groups (workflow.withStrict true)).hasErrors = false) :
    validateWith groups (workflow.withStrict false) =
      validateWith groups (workflow.withStrict true) := by
  have fine : ∀ diagnostic ∈ (validateWith groups (workflow.withStrict true)).diagnostics,
      diagnostic.isError = false := by
    intro diagnostic member
    simpa using List.any_eq_false.mp valid diagnostic member
  exact congrArg Report.mk (workflow.eq_of_tightens (tightens_validateWith workflow groups) fine)

/-- **Strict types only tighten.** The report with strict types is the one without them, in which
each warning about a coercion has become an error in its place, unless it is one about objects of
differently named shapes. What can be compiled with strict types is compiled without them in the
same way. -/
theorem strict_tightens :
    List.Forall₂ workflow.Tightens (validate (workflow.withStrict false)).diagnostics
        (validate (workflow.withStrict true)).diagnostics ∧
      ∀ config predicates compiled,
        (compile config predicates (workflow.withStrict true)).outcome = .ok compiled →
        compile config predicates (workflow.withStrict false) =
          compile config predicates (workflow.withStrict true) := by
  refine ⟨tightens_validateWith workflow RuleGroup.all, fun config predicates compiled succeeds =>
    ?_⟩
  have valid : (validateWith (RuleGroup.enabled config) (workflow.withStrict true)).hasErrors =
      false := by
    by_contra errors
    rw [Bool.not_eq_false] at errors
    rw [compile, if_pos errors] at succeeds
    cases succeeds
  unfold compile
  rw [validateWith_eq_of_strict workflow valid]
  simp only [Scheduler.schedule_withStrict]
  rfl

/-- A number that flows into a text, and behind it an object that flows into one of another shape.
Only the object flows if `mixed` is false. -/
def coercions (mixed : Bool) : Workflow where
  name := "coercions"
  nodeTypes :=
    [((NodeType.function "Source").withOutput "count" .number).withOutput "user"
      (.object (some "User")),
      ((NodeType.function "Target").withOptionalInput "text" .string).withInput "owner"
        (.object (some "Owner"))]
  instances := [{ id := "a", nodeType := "Source" }, { id := "b", nodeType := "Target" }]
  connections :=
    [⟨⟨"Start", "execute", none⟩, ⟨"a", "execute", none⟩⟩] ++
      (if mixed then [⟨⟨"a", "count", none⟩, ⟨"b", "text", none⟩⟩] else []) ++
      [⟨⟨"a", "user", none⟩, ⟨"b", "owner", none⟩⟩,
        ⟨⟨"b", "onSuccess", none⟩, ⟨"Exit", "onSuccess", none⟩⟩]

theorem strict_tightens_coercions :
    List.Forall₂ (coercions true).Tightens
      (validate ((coercions true).withStrict false)).diagnostics
        (validate ((coercions true).withStrict true)).diagnostics ∧
      (validate ((coercions true).withStrict false)).diagnostics.map (·.code) =
        [.unusualTypeCoercion, .typeMismatch] ∧
      (validate ((coercions true).withStrict true)).diagnostics.map (·.code) =
        [.typeIncompatible, .typeMismatch] ∧
      ∃ compiled, (compile {} .empty ((coercions false).withStrict true)).outcome = .ok compiled ∧
        compiled.warnings.map (·.code) = [.typeMismatch, .unusedOutputPort] ∧
        compile {} .empty ((coercions false).withStrict false) =
          compile {} .empty ((coercions false).withStrict true) := by
  refine ⟨(strict_tightens (coercions true)).1, by decide +kernel, by decide +kernel, ?_⟩
  have codes : (compile {} .empty ((coercions false).withStrict true)).outcome.toOption.map
      (fun compiled => compiled.warnings.map (·.code)) =
      some [.typeMismatch, .unusedOutputPort] := by decide +kernel
  cases outcome : (compile {} .empty ((coercions false).withStrict true)).outcome with
  | error => rw [outcome] at codes; cases codes
  | ok compiled =>
      rw [outcome] at codes
      exact ⟨compiled, rfl, Option.some.inj codes, (strict_tightens (coercions false)).2 {} .empty
        compiled outcome⟩

end WorkflowGraph
