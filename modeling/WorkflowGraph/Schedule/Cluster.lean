/-
Clusters: the instances of a block that are placed together.

Most clusters are single instances. An instance whose success and failure lead to different
instances branches: its cluster also has two arms, the instances that only its success or only its
failure leads to. What both lead to joins the arms again and stays outside. An instance that is also
triggered by something outside of its arm, which in turn waits for the branching instance, leaves
the arm.
-/

import WorkflowGraph.Graph.Search
import WorkflowGraph.Schedule.Dependencies

namespace WorkflowGraph

/-- The two arms of a branch. -/
structure Arms where
  thenMembers : List String
  elseMembers : List String
deriving DecidableEq

/-- The instances in either arm. -/
def Arms.members (arms : Arms) : List String :=
  arms.thenMembers ++ arms.elseMembers

/-- A cluster of instances. -/
structure Cluster where
  /-- The instance that the others follow. -/
  head : String
  /-- The arms, if the head branches. -/
  arms : Option Arms
  /-- The head, the members of the arms, and all that is nested in their scopes. -/
  inside : List String
  /-- The instances outside that have to be placed before any instance inside. -/
  prerequisites : List String
deriving DecidableEq

/-- The members of the arms of a cluster. -/
def Cluster.armMembers (cluster : Cluster) : List String :=
  (cluster.arms.map Arms.members).getD []

/-- The cluster of a head and its arms. -/
def Cluster.make (analysis : Analysis) (head : String) (arms : Option Arms) : Cluster :=
  let followers := (arms.map Arms.members).getD []
  let members := head :: followers
  let inside := members ++ members.flatMap analysis.descendants
  let needed := inside.flatMap analysis.dataOf ++ followers.flatMap analysis.triggersOf
  { head, arms, inside, prerequisites := needed.eraseDups.filter fun id => id ∉ inside }

/-! ### Arms -/

/-- What leads from one member of a block to another. -/
structure Wiring where
  members : List String
  /-- Each member with the step outputs through which it triggers members, and those members. -/
  targets : List (String × List (String × String))
  /-- Each member with the instances that it follows directly: those that trigger it and those that
  it reads. -/
  leaders : List (String × List String)

namespace Wiring

/-- The step outputs of an instance that trigger members of a block, with those members. -/
def stepTargets (index : Index) (block : List String) (id : String) : List (String × String) :=
  ((index.outgoing id).filter fun entry =>
      (index.sourcePort entry.2).any (fun source => source.isStep && source.scope.isNone) &&
        block.contains entry.2.target.node).map
    fun entry => (entry.2.source.port, entry.2.target.node)

/-- The wiring of a block. -/
def ofBlock (analysis : Analysis) (block : List String) : Wiring where
  members := block
  targets := block.map fun id => (id, stepTargets analysis.index block id)
  leaders := block.map fun id => (id, analysis.triggersOf id ++ analysis.dataOf id)

/-- The step outputs of a member and the members that they trigger. -/
def targetsOf (wiring : Wiring) (id : String) : List (String × String) :=
  (wiring.targets.lookup id).getD []

/-- The members that a step output of a member leads to. -/
def ledTo (wiring : Wiring) (head port : String) : List String :=
  Graph.reached (fun id => (wiring.targetsOf id).map (·.2)) wiring.members.length
    (((wiring.targetsOf head).filter fun target => target.1 = port).map (·.2))

/-- The members that follow an instance directly. -/
def followers (wiring : Wiring) (id : String) : List String :=
  (wiring.leaders.filter fun entry => id ∈ entry.2).map (·.1)

/-- An instance and the members that cannot run before it. -/
def dependents (wiring : Wiring) (head : String) : List String :=
  Graph.reached wiring.followers wiring.members.length [head]

end Wiring

namespace Arms

/-- Whether an instance stays in an arm: none of its triggers is after the head and outside the
arm. -/
def stays (predecessors : String → List String) (head : String) (afterHead arm : List String)
    (id : String) : Bool :=
  (predecessors id).all fun trigger => trigger = head || trigger ∈ arm || trigger ∉ afterHead

/-- The arm that is left after at most `rounds` rounds in which all leave that do not stay. -/
def closeWithin (predecessors : String → List String) (head : String) (afterHead : List String) :
    Nat → List String → List String
  | 0, arm => arm
  | rounds + 1, arm =>
    let kept := arm.filter (stays predecessors head afterHead arm)
    if kept.length = arm.length then arm
    else closeWithin predecessors head afterHead rounds kept

/-- The arm that is left when nothing has to leave it any more. -/
def close (predecessors : String → List String) (head : String) (afterHead arm : List String) :
    List String :=
  closeWithin predecessors head afterHead arm.length arm

/-- Whether a connection starts at a port of a name outside of all scopes. -/
def fires (index : Index) (head port : String) : Bool :=
  (index.outgoing head).any fun entry =>
    entry.2.source.port = port && entry.2.source.scope.isNone

/-- The arms of a member of a block, if it branches there. -/
def ofHead (analysis : Analysis) (wiring : Wiring) (head : String) : Option Arms :=
  if fires analysis.index head Port.successName && fires analysis.index head Port.failureName then
    let onSuccess := wiring.ledTo head Port.successName
    let onFailure := wiring.ledTo head Port.failureName
    let afterHead := wiring.dependents head
    let arm (mine other : List String) : List String :=
      close analysis.triggersOf head afterHead
        (wiring.members.filter fun id => id ∈ mine && id ∉ other && id ≠ head)
    let arms : Arms := ⟨arm onSuccess onFailure, arm onFailure onSuccess⟩
    if arms.members.isEmpty then none else some arms
  else none

end Arms

/-! ### Blocks -/

namespace Cluster

/-- The branches that get their arms, of those in the order given: each whose head lies in no arm of
any, and whose arms share nothing with arms given before. -/
def withoutOverlap (nested : List String) :
    List String → List (String × Arms) → List (String × Arms)
  | _, [] => []
  | taken, (head, arms) :: rest =>
    if head ∈ nested || arms.members.any (· ∈ taken) then withoutOverlap nested taken rest
    else (head, arms) :: withoutOverlap nested (taken ++ arms.members) rest

/-- The branches of a block. -/
def branches (analysis : Analysis) (block : List String) : List (String × Arms) :=
  let wiring := Wiring.ofBlock analysis block
  let candidates := block.filterMap fun id =>
    (Arms.ofHead analysis wiring id).map fun arms => (id, arms)
  withoutOverlap (candidates.flatMap fun entry => entry.2.members) [] candidates

/-- The clusters of a block, in the order of their heads. -/
def ofBlock (analysis : Analysis) (block : List String) : List Cluster :=
  let branches := branches analysis block
  let taken := branches.flatMap fun entry => entry.2.members
  block.filterMap fun id =>
    match branches.lookup id with
    | some arms => some (make analysis id (some arms))
    | none => if id ∈ taken then none else some (make analysis id none)

end Cluster

end WorkflowGraph
