/-
Arrangements: the order in which the instances of a workflow run.

A block is arranged in rounds. Each round places all clusters whose prerequisites have been placed,
in front of them the expressions that they read and that are not at hand yet. The inside of a scope
is a block of its own, placed with the owner of the scope, and so is each arm of a branch. At the
end of a region come the expressions that are only read from outside of it.
-/

import WorkflowGraph.Config
import WorkflowGraph.Schedule.Cluster

namespace WorkflowGraph

/-- What a caller gives for scheduling. -/
structure Scheduler where
  /-- The predicates that instances may wait for. -/
  predicates : Table Predicate := .empty
  /-- How deep scopes may nest. -/
  maxScopeDepth : Nat := defaultScopeDepth

/-- A place in an arrangement. -/
inductive Placement where
  /-- An expression. -/
  | inlined (id : String)
  /-- An instance, with the insides of its scopes. -/
  | node (id : String) (bodies : List (String × List Placement))
  /-- A branch: its head with the insides of its scopes, and then one of two arms. -/
  | branch (cluster : Cluster) (bodies : List (String × List Placement))
    (thenArm elseArm : List Placement)
  /-- Clusters that can run in any order. -/
  | parallel (clusters : List Placement)

/-- A part of a region that is to be arranged. -/
structure Block where
  region : Region
  /-- Whether the block is the region as a whole, and not an arm in it. -/
  isWhole : Bool
  /-- The instances to place. -/
  members : List String
  /-- The instances that have been placed before. -/
  resolved : List String
  /-- The expressions that are at hand. -/
  available : List String

/-- The block of a region as a whole. -/
def Block.ofRegion (index : Index) (region : Region) (resolved available : List String) :
    Block where
  region := region
  isWhole := true
  members := ((index.members region).map (·.id)).filter fun id => !index.isExpression id
  resolved := resolved
  available := available

/-- The node type of an instance, which has to be there. -/
def Index.requireType (index : Index) (id : String) : Except ScheduleError NodeType :=
  match index.find? id with
  | none => .error (.unknownInstance id)
  | some inst =>
    match index.nodeType? id with
    | none => .error (.unknownNodeType id inst.nodeType)
    | some type => .ok type

/-! ### Expressions -/

namespace Analysis

/-- Instances in the order in which they are declared. -/
def inOrder (analysis : Analysis) (ids : List String) : List String :=
  (analysis.index.workflow.instances.map (·.id)).eraseDups.filter fun id => id ∈ ids

/-- The expressions that a cluster needs at hand: those that its head reads, and those from outside
that are read inside the scopes of its head. -/
def neededBy (analysis : Analysis) (cluster : Cluster) : List String :=
  let nested := analysis.descendants cluster.head
  analysis.expressionsOf cluster.head ++
    (nested.flatMap analysis.expressionsOf).filter fun id => id ∉ nested

/-- The connections into the end of a region: into the end of the workflow, or into the inputs of
the owner that collect what the scope gives. -/
def sinkConnections (analysis : Analysis) : Region → List Connection
  | none => (analysis.index.incoming exitId).map (·.2)
  | some scope =>
    ((analysis.index.incoming scope.owner).map (·.2)).filter fun connection =>
      (analysis.index.targetPort connection).any fun port => port.scope = some scope.name

/-- The expressions that the end of a region reads. -/
def sinkExpressions (analysis : Analysis) (region : Region) : List String :=
  ((analysis.sinkConnections region).filterMap analysis.index.dataSource?).flatMap fun source =>
    (Dependencies.ofSource analysis.index analysis.dependencies source).expressions

/-- The order of expressions in which each follows those that it is given; of several that could
come next, the one that is declared first. -/
def inlineOrder (analysis : Analysis) (region : Region) :
    Nat → List String → List String → Except ScheduleError (List String)
  | _, _, [] => .ok []
  | 0, _, remaining => .error (.stuck region remaining)
  | count + 1, available, remaining =>
    match remaining.find? fun id =>
        (analysis.index.expressionSources id).all fun source =>
          source ∈ available || source ∉ remaining with
    | none => .error (.stuck region remaining)
    | some id =>
      (inlineOrder analysis region count (id :: available) (remaining.erase id)).map (id :: ·)

/-- The expressions to place in a block so that `needed` are at hand. -/
def inlineNeeded (analysis : Analysis) (block : Block) (needed : List String) :
    Except ScheduleError (List String) :=
  let missing := analysis.inOrder (needed.filter fun id => id ∉ block.available)
  analysis.inlineOrder block.region missing.length block.available missing

end Analysis

/-! ### Readiness -/

namespace Scheduler

/-- Whether a cluster can be placed after `resolved`. -/
def isReady (scheduler : Scheduler) (analysis : Analysis) (resolved : List String)
    (cluster : Cluster) : Attempt ScheduleError Bool :=
  if cluster.prerequisites.all (· ∈ resolved) then do
    let triggers := analysis.triggersOf cluster.head
    let done := triggers.filter (· ∈ resolved)
    let waiting := triggers.filter (· ∉ resolved)
    let type ← .ofExcept (analysis.index.requireType cluster.head)
    match type.trigger with
    | .conjunction => return waiting.isEmpty
    | .disjunction => return triggers.isEmpty || !done.isEmpty
    | .custom name =>
      match scheduler.predicates.get? name with
      | none => .fail (.unknownPredicate name cluster.head)
      | some predicate => .consult name predicate ⟨cluster.head, done, waiting⟩
  else return false

/-- The clusters that can be placed after `resolved`, and those that cannot. -/
def splitReady (scheduler : Scheduler) (analysis : Analysis) (resolved : List String) :
    List Cluster → Attempt ScheduleError (List Cluster × List Cluster)
  | [] => return ([], [])
  | cluster :: rest => do
    let ready ← scheduler.isReady analysis resolved cluster
    let (placed, waiting) ← splitReady scheduler analysis resolved rest
    return if ready then (cluster :: placed, waiting) else (placed, cluster :: waiting)

/-! ### Rounds -/

/-- Whether a scope does not lie too deep. -/
def checkDepth (scheduler : Scheduler) (index : Index) (scope : ScopeRef) :
    Except ScheduleError Unit :=
  if (index.depth (some scope)).any (· ≤ scheduler.maxScopeDepth) then .ok ()
  else .error (.scopeTooDeep scope scheduler.maxScopeDepth)

/-- The insides of the scopes of an instance, where `arrange` arranges smaller blocks. -/
def placeBodies (scheduler : Scheduler) (index : Index)
    (arrange : Block → Attempt ScheduleError (List Placement)) (block : Block) (owner : String) :
    List String → Attempt ScheduleError (List (String × List Placement))
  | [] => return []
  | name :: rest => do
    let scope : ScopeRef := ⟨owner, name⟩
    .ofExcept (scheduler.checkDepth index scope)
    let body ← arrange (.ofRegion index (some scope) (owner :: block.resolved) block.available)
    return (name, body) :: (← placeBodies scheduler index arrange block owner rest)

/-- Places a cluster in a block, where `arrange` arranges smaller blocks. -/
def placeCluster (scheduler : Scheduler) (analysis : Analysis)
    (arrange : Block → Attempt ScheduleError (List Placement)) (block : Block)
    (cluster : Cluster) : Attempt ScheduleError Placement := do
  let type ← .ofExcept (analysis.index.requireType cluster.head)
  let bodies ← scheduler.placeBodies analysis.index arrange block cluster.head type.scopes
  match cluster.arms with
  | none => return .node cluster.head bodies
  | some arms =>
    let resolved := cluster.head :: analysis.descendants cluster.head ++ block.resolved
    let arm (members : List String) : Block := { block with isWhole := false, members, resolved }
    let thenArm ← arrange (arm arms.thenMembers)
    let elseArm ← arrange (arm arms.elseMembers)
    return .branch cluster bodies thenArm elseArm

/-- The places of the clusters of one round: one stands alone. -/
def together : List Placement → List Placement
  | [placement] => [placement]
  | placements => [.parallel placements]

/-- Arranges the clusters of a block in at most `count` rounds, where `arrange` arranges smaller
blocks. -/
def arrangeRounds (scheduler : Scheduler) (analysis : Analysis)
    (arrange : Block → Attempt ScheduleError (List Placement)) :
    Nat → Block → List Cluster → Attempt ScheduleError (List Placement)
  | _, block, [] => do
    let sinks := if block.isWhole then analysis.sinkExpressions block.region else []
    let inlined ← .ofExcept (analysis.inlineNeeded block sinks)
    return inlined.map .inlined
  | 0, block, pending => .fail (.stuck block.region (pending.map (·.head)))
  | count + 1, block, pending => do
    let (ready, waiting) ← scheduler.splitReady analysis block.resolved pending
    if ready.isEmpty then .fail (.stuck block.region (waiting.map (·.head)))
    else
      let inlined ← .ofExcept (analysis.inlineNeeded block (ready.flatMap analysis.neededBy))
      let block := { block with available := inlined ++ block.available }
      let placed ← ready.mapM (scheduler.placeCluster analysis arrange block)
      let block := { block with resolved := ready.flatMap (·.inside) ++ block.resolved }
      let rest ← arrangeRounds scheduler analysis arrange count block waiting
      return inlined.map .inlined ++ together placed ++ rest

/-- Arranges a block whose scopes and arms nest at most `levels` deep. -/
def arrange (scheduler : Scheduler) (analysis : Analysis) :
    Nat → Block → Attempt ScheduleError (List Placement)
  | 0, block => .fail (.stuck block.region block.members)
  | levels + 1, block =>
    let clusters := Cluster.ofBlock analysis block.members
    scheduler.arrangeRounds analysis (arrange scheduler analysis levels) clusters.length block
      clusters

/-- Arranges a workflow. Every level of nesting has another head, so that there are enough
levels. -/
def arrangeWorkflow (scheduler : Scheduler) (analysis : Analysis) :
    Attempt ScheduleError (List Placement) :=
  scheduler.arrange analysis (analysis.index.workflow.instances.length + 1)
    (.ofRegion analysis.index none [] [])

end Scheduler

end WorkflowGraph
