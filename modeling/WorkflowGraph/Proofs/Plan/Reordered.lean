/-
Plans whose parallel parts change places.

The children of a parallel node run in any order, and a dry run takes one of these orders.
`Reordered` relates a plan to those with another order, at any depth. What a walk meets does not
depend on the order where every branch is on the success of an instance that has run in front of it.

* `PlanNode.runs` — the runs of a node as the failures alone decide them: of each branch the arm for
  its head.
* `PlanNode.Led` — every branch of a node is on an instance that has run when a walk gets there.
* `DryRun.trace_eq_runs` — a walk through such a node meets its runs.
* `DryRun.trace_perm` — walks through reordered nodes meet the same runs, in another order.
-/

import WorkflowGraph.Proofs.Plan.Trace

namespace WorkflowGraph

namespace PlanNode

/-! ### Orders of parallel nodes -/

mutual

/-- Whether a node is another one with the children of parallel nodes in another order, at any
depth. -/
inductive Reordered : PlanNode → PlanNode → Prop
  | sequence {steps others : List PlanNode} : ReorderedAll steps others →
      Reordered (.sequence steps) (.sequence others)
  | parallel {branches others shuffled : List PlanNode} : ReorderedAll branches others →
      others.Perm shuffled → Reordered (.parallel branches) (.parallel shuffled)
  | branch {node condition : String} {hoisted : List HoistedBinding}
      {thenArm elseArm otherThen otherElse : PlanNode} :
      Reordered thenArm otherThen → Reordered elseArm otherElse →
      Reordered (.branch node condition hoisted thenArm elseArm)
        (.branch node condition hoisted otherThen otherElse)
  | step (s : Step) : Reordered (.step s) (.step s)
  | inlined (s : Step) : Reordered (.inlined s) (.inlined s)
  | iteration {s : Step} {bodies others : List (ScopeFrame × PlanNode)} : ReorderedBodies
      bodies others → Reordered (.iteration s bodies) (.iteration s others)

/-- Whether nodes are other nodes reordered, each in its place. -/
inductive ReorderedAll : List PlanNode → List PlanNode → Prop
  | nil : ReorderedAll [] []
  | cons {node other : PlanNode} {nodes others : List PlanNode} : Reordered node other →
      ReorderedAll nodes others → ReorderedAll (node :: nodes) (other :: others)

/-- Whether insides of scopes are other insides reordered. -/
inductive ReorderedBodies : List (ScopeFrame × PlanNode) → List (ScopeFrame × PlanNode) → Prop
  | nil : ReorderedBodies [] []
  | cons {frame : ScopeFrame} {body other : PlanNode}
      {bodies others : List (ScopeFrame × PlanNode)} :
      Reordered body other → ReorderedBodies bodies others →
      ReorderedBodies ((frame, body) :: bodies) ((frame, other) :: others)

end

mutual

/-- A node with the children of all its parallel nodes the other way round. -/
def mirrored : PlanNode → PlanNode
  | .sequence steps => .sequence (mirroredAll steps)
  | .parallel branches => .parallel (mirroredAll branches).reverse
  | .step s => .step s
  | .inlined s => .inlined s
  | .branch node condition hoisted thenArm elseArm =>
    .branch node condition hoisted (mirrored thenArm) (mirrored elseArm)
  | .iteration s bodies => .iteration s (mirroredBodies bodies)

/-- Several nodes mirrored, each in its place. -/
def mirroredAll : List PlanNode → List PlanNode
  | [] => []
  | node :: rest => mirrored node :: mirroredAll rest

/-- The insides of scopes mirrored. -/
def mirroredBodies : List (ScopeFrame × PlanNode) → List (ScopeFrame × PlanNode)
  | [] => []
  | (frame, body) :: rest => (frame, mirrored body) :: mirroredBodies rest

end

mutual

theorem reordered_mirrored (node : PlanNode) : node.Reordered node.mirrored := by
  cases node with
  | sequence steps => exact .sequence (reorderedAll_mirrored steps)
  | parallel branches => exact .parallel (reorderedAll_mirrored branches) (List.reverse_perm _).symm
  | step s => exact .step s
  | inlined s => exact .inlined s
  | branch _ _ _ thenArm elseArm =>
      exact .branch (reordered_mirrored thenArm) (reordered_mirrored elseArm)
  | iteration s bodies => exact .iteration (reorderedBodies_mirrored bodies)

theorem reorderedAll_mirrored (nodes : List PlanNode) : ReorderedAll nodes (mirroredAll nodes) := by
  cases nodes with
  | nil => exact .nil
  | cons node rest => exact .cons (reordered_mirrored node) (reorderedAll_mirrored rest)

theorem reorderedBodies_mirrored (bodies : List (ScopeFrame × PlanNode)) :
    ReorderedBodies bodies (mirroredBodies bodies) := by
  cases bodies with
  | nil => exact .nil
  | cons entry rest => exact .cons (reordered_mirrored entry.2) (reorderedBodies_mirrored rest)

end

/-! ### Runs -/

mutual

/-- The runs of a node when some instances fail: of a branch, those of the arm for the outcome of
its head. -/
def runs (failures : List String) : PlanNode → List Step
  | .sequence steps => runsOfAll failures steps
  | .parallel branches => runsOfAll failures branches
  | .step s => [s]
  | .inlined s => [s]
  | .branch node _ _ thenArm elseArm =>
      if failures.contains node then runs failures elseArm else runs failures thenArm
  | .iteration s bodies => s :: runsOfBodies failures bodies

/-- The runs of several nodes. -/
def runsOfAll (failures : List String) : List PlanNode → List Step
  | [] => []
  | node :: rest => runs failures node ++ runsOfAll failures rest

/-- The runs of the insides of scopes. -/
def runsOfBodies (failures : List String) : List (ScopeFrame × PlanNode) → List Step
  | [] => []
  | (_, body) :: rest => runs failures body ++ runsOfBodies failures rest

end

theorem runsOfAll_eq_flatMap (failures : List String) (nodes : List PlanNode) :
    runsOfAll failures nodes = nodes.flatMap (runs failures) := by
  induction nodes with
  | nil => rfl
  | cons node rest ih => rw [runsOfAll, ih, List.flatMap_cons]

mutual

/-- **Reordered nodes have the same runs**, in another order. -/
theorem Reordered.runs_perm (failures : List String) {node other : PlanNode} :
    Reordered node other → (runs failures node).Perm (runs failures other)
  | .sequence all => all.runs_perm failures
  | @Reordered.parallel branches others shuffled all perm => by
      have moved : (runsOfAll failures others).Perm (runsOfAll failures shuffled) := by
        rw [runsOfAll_eq_flatMap, runsOfAll_eq_flatMap]
        exact perm.flatMap_right _
      exact (all.runs_perm failures).trans moved
  | .branch onThen onElse => by
      rw [runs, runs]
      split
      · exact onElse.runs_perm failures
      · exact onThen.runs_perm failures
  | .step s => .refl _
  | .inlined s => .refl _
  | .iteration bodies => (bodies.runs_perm failures).cons _

theorem ReorderedAll.runs_perm (failures : List String) {nodes others : List PlanNode} :
    ReorderedAll nodes others → (runsOfAll failures nodes).Perm (runsOfAll failures others)
  | .nil => .refl _
  | .cons first rest => (first.runs_perm failures).append (rest.runs_perm failures)

theorem ReorderedBodies.runs_perm (failures : List String)
    {bodies others : List (ScopeFrame × PlanNode)} :
    ReorderedBodies bodies others →
      (runsOfBodies failures bodies).Perm (runsOfBodies failures others)
  | .nil => .refl _
  | .cons first rest => (first.runs_perm failures).append (rest.runs_perm failures)

end

/-! ### Branches behind their heads -/

/-- The instance that a node itself runs. -/
def started (node : PlanNode) : List String :=
  (node.ran?.map (·.node)).toList

mutual

/-- Whether every branch of a node is on the success of an instance that is known to have run. -/
def Led (known : List String) : PlanNode → Prop
  | .sequence steps => LedAll known steps
  | .parallel branches => LedEach known branches
  | .step _ => True
  | .inlined _ => True
  | .branch node condition _ thenArm elseArm =>
    (condition = Port.successName ∧ node ≠ startId ∧ node ∈ known) ∧ Led known thenArm ∧
      Led known elseArm
  | .iteration s bodies => LedBodies (s.node :: known) bodies

/-- Whether the branches of nodes one after the other are led. What runs in front is known further
on. -/
def LedAll (known : List String) : List PlanNode → Prop
  | [] => True
  | node :: rest => Led known node ∧ LedAll (node.started ++ known) rest

/-- Whether the branches of nodes side by side are led. -/
def LedEach (known : List String) : List PlanNode → Prop
  | [] => True
  | node :: rest => Led known node ∧ LedEach known rest

/-- Whether the branches of the insides of scopes are led. -/
def LedBodies (known : List String) : List (ScopeFrame × PlanNode) → Prop
  | [] => True
  | (_, body) :: rest => Led known body ∧ LedBodies known rest

end

theorem ledEach_iff {known : List String} {nodes : List PlanNode} :
    LedEach known nodes ↔ ∀ node ∈ nodes, Led known node := by
  induction nodes with
  | nil => simp [LedEach]
  | cons node rest ih => rw [LedEach, ih, List.forall_mem_cons]

theorem Reordered.started_eq {node other : PlanNode} (reordered : Reordered node other) :
    other.started = node.started := by
  cases reordered <;> rfl

mutual

/-- The branches of a reordered node are led as before. -/
theorem Reordered.led {known : List String} {node other : PlanNode} :
    Reordered node other → Led known node → Led known other
  | .sequence all, led => all.ledAll led
  | .parallel all perm, led => by
      have each := ledEach_iff.mp (all.ledEach led)
      exact ledEach_iff.mpr fun node member => each node (perm.mem_iff.mpr member)
  | .branch onThen onElse, led => ⟨led.1, onThen.led led.2.1, onElse.led led.2.2⟩
  | .step _, _ => trivial
  | .inlined _, _ => trivial
  | .iteration bodies, led => bodies.ledBodies led

theorem ReorderedAll.ledAll {known : List String} {nodes others : List PlanNode} :
    ReorderedAll nodes others → LedAll known nodes → LedAll known others
  | .nil, _ => trivial
  | .cons first rest, led => ⟨first.led led.1, first.started_eq ▸ rest.ledAll led.2⟩

theorem ReorderedAll.ledEach {known : List String} {nodes others : List PlanNode} :
    ReorderedAll nodes others → LedEach known nodes → LedEach known others
  | .nil, _ => trivial
  | .cons first rest, led => ⟨first.led led.1, rest.ledEach led.2⟩

theorem ReorderedBodies.ledBodies {known : List String}
    {bodies others : List (ScopeFrame × PlanNode)} :
    ReorderedBodies bodies others → LedBodies known bodies → LedBodies known others
  | .nil, _ => trivial
  | .cons first rest, led => ⟨first.led led.1, rest.ledBodies led.2⟩

end

/-! ### More that is known -/

mutual

theorem Led.mono {known more : List String} (subset : known ⊆ more) {node : PlanNode}
    (led : Led known node) :
    Led more node := by
  cases node with
  | sequence steps => exact (show LedAll known steps from led).mono subset
  | parallel branches => exact (show LedEach known branches from led).mono subset
  | step | inlined => trivial
  | branch =>
      obtain ⟨⟨condition, ordinary, member⟩, onThen, onElse⟩ := led
      exact ⟨⟨condition, ordinary, subset member⟩, onThen.mono subset, onElse.mono subset⟩
  | iteration s bodies =>
      exact (show LedBodies (s.node :: known) bodies from led).mono (List.cons_subset_cons _ subset)

theorem LedAll.mono {known more : List String} (subset : known ⊆ more) {nodes : List PlanNode}
    (led : LedAll known nodes) : LedAll more nodes := by
  cases nodes with
  | nil => trivial
  | cons node rest =>
      have further : node.started ++ known ⊆ node.started ++ more := by
        intro id member
        exact List.mem_append.mpr ((List.mem_append.mp member).imp_right (@subset id))
      exact ⟨led.1.mono subset, (show LedAll _ rest from led.2).mono further⟩

theorem LedEach.mono {known more : List String} (subset : known ⊆ more) {nodes : List PlanNode}
    (led : LedEach known nodes) : LedEach more nodes := by
  cases nodes with
  | nil => trivial
  | cons node rest => exact ⟨led.1.mono subset, (show LedEach known rest from led.2).mono subset⟩

theorem LedBodies.mono {known more : List String} (subset : known ⊆ more)
    {bodies : List (ScopeFrame × PlanNode)} (led : LedBodies known bodies) :
    LedBodies more bodies := by
  cases bodies with
  | nil => trivial
  | cons entry rest => exact ⟨led.1.mono subset, (show LedBodies known rest from led.2).mono subset⟩

end

theorem LedAll.append {known : List String} {first second : List PlanNode}
    (one : LedAll known first) (other : LedAll known second) : LedAll known (first ++ second) := by
  induction first generalizing known with
  | nil => exact other
  | cons node rest ih => exact ⟨one.1, ih one.2 (other.mono (List.subset_append_right _ _))⟩

theorem LedAll.ofBlock {known : List String} {nodes : List PlanNode} (led : LedAll known nodes) :
    Led known (.ofBlock nodes) := by
  unfold PlanNode.ofBlock
  split
  · exact led.1
  · exact led

end PlanNode

/-! ### Walks -/

namespace DryRun

open PlanNode State

/-- Whether a state has the outcomes of some instances as the failures decide them. -/
def State.Knows (failures : List String) (state : State) (known : List String) : Prop :=
  ∀ id ∈ known, state.outcomes.get? id = some (!failures.contains id)

namespace State.Knows

variable {failures known : List String} {state : State}

theorem after (knows : Knows failures state known) (steps : List Step) :
    Knows failures (state.after failures steps) (steps.map (·.node) ++ known) := by
  intro id member
  rw [outcome_after]
  by_cases ran : id ∈ steps.map (·.node)
  · rw [if_pos ran]
  · rw [if_neg ran]
    exact knows id ((List.mem_append.mp member).resolve_left ran)

/-- After a node its own run is known, and all that was known before. -/
theorem walk (knows : Knows failures state known) (node : PlanNode) :
    Knows failures (DryRun.walk failures state node) (node.started ++ known) := by
  have ran : ∀ id ∈ node.started, id ∈ (trace failures state node).map (·.node) := by
    cases node <;> simp [started, ran?, trace]
  rw [walk_eq_after]
  intro id member
  refine knows.after (trace failures state node) id (List.mem_append.mpr ?_)
  exact (List.mem_append.mp member).imp_left (ran id)

theorem hasFired (knows : Knows failures state known) {id : String} (member : id ∈ known)
    (ordinary : id ≠ startId) :
    state.hasFired id Port.successName = !failures.contains id := by
  rw [State.hasFired, if_neg ordinary, knows id member]
  cases failures.contains id <;> rfl

end State.Knows

mutual

/-- **A walk through a node whose branches are led meets its runs.** -/
theorem trace_eq_runs {failures known : List String} {state : State}
    (knows : state.Knows failures known) {node : PlanNode} (led : Led known node) :
    trace failures state node = runs failures node := by
  cases node with
  | sequence steps => exact traceAll_eq_runs knows (show LedAll known steps from led)
  | parallel branches => exact traceAll_eq_runsOfEach knows (show LedEach known branches from led)
  | step | inlined => rfl
  | branch node condition hoisted thenArm elseArm =>
      obtain ⟨⟨rfl, ordinary, member⟩, onThen, onElse⟩ := led
      rw [trace, runs, knows.hasFired member ordinary]
      cases failures.contains node with
      | true => exact trace_eq_runs knows onElse
      | false => exact trace_eq_runs knows onThen
  | iteration s bodies =>
      rw [trace, runs]
      exact congrArg (s :: ·)
        (traceBodies_eq_runs (knows.after [s]) (show LedBodies (s.node :: known) bodies from led))

theorem traceAll_eq_runs {failures known : List String} {state : State}
    (knows : state.Knows failures known) {nodes : List PlanNode} (led : LedAll known nodes) :
    traceAll failures state nodes = runsOfAll failures nodes := by
  cases nodes with
  | nil => rfl
  | cons node rest =>
      rw [traceAll, runsOfAll, trace_eq_runs knows led.1, traceAll_eq_runs (knows.walk node) led.2]

theorem traceAll_eq_runsOfEach {failures known : List String} {state : State}
    (knows : state.Knows failures known) {nodes : List PlanNode} (led : LedEach known nodes) :
    traceAll failures state nodes = runsOfAll failures nodes := by
  cases nodes with
  | nil => rfl
  | cons node rest =>
      have later : (walk failures state node).Knows failures known :=
        fun id member => knows.walk node id (List.mem_append_right _ member)
      rw [traceAll, runsOfAll, trace_eq_runs knows led.1, traceAll_eq_runsOfEach later led.2]

theorem traceBodies_eq_runs {failures known : List String} {state : State}
    (knows : state.Knows failures known) {bodies : List (ScopeFrame × PlanNode)}
    (led : LedBodies known bodies) :
    traceBodies failures state bodies = runsOfBodies failures bodies := by
  cases bodies with
  | nil => rfl
  | cons entry rest =>
      have later : (walk failures state entry.2).Knows failures known :=
        fun id member => knows.walk entry.2 id (List.mem_append_right _ member)
      rw [traceBodies, runsOfBodies, trace_eq_runs knows led.1, traceBodies_eq_runs later led.2]

end

/-- **Dry runs of reordered nodes meet the same runs**, in another order. -/
theorem trace_perm (failures : List String) {node other : PlanNode}
    (reordered : node.Reordered other) (led : Led [] node) :
    (trace failures {} node).Perm (trace failures {} other) := by
  have nothing : State.Knows failures {} [] := fun _ none => (nomatch none)
  rw [trace_eq_runs nothing led, trace_eq_runs nothing (reordered.led led)]
  exact reordered.runs_perm failures

end DryRun

end WorkflowGraph
