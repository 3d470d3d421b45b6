/-
The closing of an arm.

An instance is an outsider of an arm if it has a trigger outside of the arm that is not the head and
cannot run before the head. Outsiders are removed from an arm until there are none. Each removal may
make an outsider of what the removed instances trigger, so it is not clear beforehand what is left.
The main statement is `close_greatest`: the greatest part of the arm that has no outsiders is left,
in whatever order they are removed.

* `Arms.Closed` — a set of instances has no outsiders in it.
* `Arms.Removal` — one or more outsiders are removed from an arm. A removal makes the arm shorter
  (`Removal.length_lt`) and keeps every closed part of it (`Removal.keeps`), hence so does a run of
  removals; `closeWithin_removals` says that closing an arm is such a run.
-/

import Mathlib.Data.List.Chain
import Mathlib.Logic.Relation
import Mathlib.Order.Bounds.Basic
import WorkflowGraph.Proofs.Schedule.Progress

namespace WorkflowGraph.Arms

/-- Whether an instance has a trigger that is not the head, is outside of a set and cannot run
before the head. -/
def Outsider (predecessors : String → List String) (head : String) (afterHead : List String)
    (members : Set String) (id : String) : Prop :=
  ∃ trigger ∈ predecessors id, trigger ≠ head ∧ trigger ∉ members ∧ trigger ∈ afterHead

/-- Whether no member of a set of instances is an outsider of it. -/
def Closed (predecessors : String → List String) (head : String) (afterHead : List String)
    (members : Set String) : Prop :=
  ∀ id ∈ members, ¬ Outsider predecessors head afterHead members id

/-- Whether an arm is left when some outsiders, at least one, are removed from an arm. -/
def Removal (predecessors : String → List String) (head : String)
    (afterHead arm rest : List String) : Prop :=
  ∃ gone : List String, gone ≠ [] ∧
    (∀ id ∈ gone, id ∈ arm ∧ Outsider predecessors head afterHead {member | member ∈ arm} id) ∧
    rest = arm.filter (· ∉ gone)

variable {predecessors : String → List String} {head : String} {afterHead : List String}

theorem stays_iff {arm : List String} {id : String} :
    stays predecessors head afterHead arm id = true ↔
      ¬ Outsider predecessors head afterHead {member | member ∈ arm} id := by
  simp only [stays, Outsider, List.all_eq_true, Bool.or_eq_true, decide_eq_true_eq,
    Set.mem_ofPred_eq]
  grind

/-- An outsider of a set is one of each smaller set. -/
theorem Outsider.of_subset {smaller larger : Set String} {id : String} (subset : smaller ⊆ larger)
    (outsider : Outsider predecessors head afterHead larger id) :
    Outsider predecessors head afterHead smaller id := by
  obtain ⟨trigger, triggers, different, outside, after⟩ := outsider
  exact ⟨trigger, triggers, different, fun inside => outside (subset inside), after⟩

/-! ### Removals -/

namespace Removal

theorem length_lt {arm rest : List String}
    (removal : Removal predecessors head afterHead arm rest) :
    rest.length < arm.length := by
  obtain ⟨gone, nonempty, outsiders, rfl⟩ := removal
  obtain ⟨id, leaves⟩ := List.exists_mem_of_ne_nil gone nonempty
  exact List.length_filter_lt_length_iff_exists.mpr
    ⟨id, (outsiders id leaves).1, by simpa using leaves⟩

/-- **A removal keeps every closed part of an arm.** -/
theorem keeps {arm rest : List String} {members : Set String}
    (removal : Removal predecessors head afterHead arm rest)
    (closed : Closed predecessors head afterHead members) (subset : members ⊆ {id | id ∈ arm}) :
    members ⊆ {id | id ∈ rest} := by
  obtain ⟨gone, _, outsiders, rfl⟩ := removal
  intro id member
  have stays : id ∉ gone := fun leaves =>
    closed id member ((outsiders id leaves).2.of_subset subset)
  exact List.mem_filter.mpr ⟨subset member, by simpa using stays⟩

/-- What a removal leaves of an arm keeps its order. -/
theorem eq_filter {arm rest : List String}
    (removal : Removal predecessors head afterHead arm rest) :
    rest = arm.filter (· ∈ rest) := by
  obtain ⟨gone, _, _, rfl⟩ := removal
  refine List.filter_congr fun id member => ?_
  simp [member]

end Removal

/-- Whether nothing can be removed from an arm is whether it is closed. -/
theorem closed_iff_no_removal {arm : List String} :
    Closed predecessors head afterHead {id | id ∈ arm} ↔
      ∀ rest, ¬ Removal predecessors head afterHead arm rest := by
  constructor
  · rintro closed rest ⟨gone, nonempty, outsiders, -⟩
    obtain ⟨id, leaves⟩ := List.exists_mem_of_ne_nil gone nonempty
    exact closed id (outsiders id leaves).1 (outsiders id leaves).2
  · intro ended id member outsider
    exact ended _ ⟨[id], List.cons_ne_nil _ _, by simpa using ⟨member, outsider⟩, rfl⟩

/-- Whether an arm is left of an arm after some removals, one after another. -/
abbrev Removals (predecessors : String → List String) (head : String) (afterHead : List String) :
    List String → List String → Prop :=
  Relation.ReflTransGen (Removal predecessors head afterHead)

namespace Removals

theorem keeps {arm rest : List String} {members : Set String}
    (removals : Removals predecessors head afterHead arm rest)
    (closed : Closed predecessors head afterHead members) (subset : members ⊆ {id | id ∈ arm}) :
    members ⊆ {id | id ∈ rest} := by
  induction removals with
  | refl => exact subset
  | tail _ removal ih => exact removal.keeps closed ih

theorem eq_filter {arm rest : List String}
    (removals : Removals predecessors head afterHead arm rest) :
    rest = arm.filter (· ∈ rest) := by
  induction removals with
  | refl => exact (List.filter_eq_self.mpr fun _ member => by simpa using member).symm
  | @tail middle rest _ removal ih =>
      have fromMiddle := removal.eq_filter
      rw [ih, List.filter_filter] at fromMiddle
      refine fromMiddle.trans (List.filter_congr fun id _ => ?_)
      have subset : id ∈ rest → id ∈ middle := fun member =>
        (List.mem_filter.mp (removal.eq_filter ▸ member)).1
      by_cases member : id ∈ rest <;> simp [member, subset]

theorem subset {arm rest : List String} (removals : Removals predecessors head afterHead arm rest) :
    {id | id ∈ rest} ⊆ {id | id ∈ arm} := by
  intro id member
  rw [removals.eq_filter] at member
  exact (List.mem_filter.mp member).1

/-- **Two runs of removals from an arm leave the same, if both leave no outsider.** -/
theorem unique {arm first second : List String}
    (toFirst : Removals predecessors head afterHead arm first)
    (toSecond : Removals predecessors head afterHead arm second)
    (firstClosed : Closed predecessors head afterHead {id | id ∈ first})
    (secondClosed : Closed predecessors head afterHead {id | id ∈ second}) : first = second := by
  -- each of the two is a closed part of the arm, which the other run keeps
  have inSecond := toSecond.keeps firstClosed toFirst.subset
  have inFirst := toFirst.keeps secondClosed toSecond.subset
  calc first = arm.filter (· ∈ first) := toFirst.eq_filter
    _ = arm.filter (· ∈ second) :=
      List.filter_congr fun id _ => decide_eq_decide.mpr ⟨fun member => inSecond member,
        fun member => inFirst member⟩
    _ = second := toSecond.eq_filter.symm

end Removals

/-- A run of removals from an arm is at most as long as the arm. -/
theorem length_removals_le {arm : List String} {rests : List (List String)}
    (run : (arm :: rests).IsChain (Removal predecessors head afterHead)) :
    rests.length ≤ arm.length := by
  induction rests generalizing arm with
  | nil => exact Nat.zero_le _
  | cons rest later ih =>
      obtain ⟨removal, further⟩ := List.isChain_cons_cons.mp run
      exact Nat.lt_of_le_of_lt (ih further) removal.length_lt

/-! ### Rounds -/

/-- A round that changes an arm removes all its outsiders at once. -/
theorem removal_of_round {arm : List String}
    (changed : (arm.filter (stays predecessors head afterHead arm)).length ≠ arm.length) :
    Removal predecessors head afterHead arm
      (arm.filter (stays predecessors head afterHead arm)) := by
  refine ⟨arm.filter fun id => !stays predecessors head afterHead arm id, fun empty => changed ?_,
    fun id leaves => ?_, ?_⟩
  · -- a round without outsiders keeps the whole arm
    rw [List.length_filter_eq_length_iff]
    intro id member
    by_contra leaves
    have inside : id ∈ arm.filter fun id => !stays predecessors head afterHead arm id :=
      List.mem_filter.mpr ⟨member, by simpa using leaves⟩
    simp [empty] at inside
  · obtain ⟨member, notStays⟩ := List.mem_filter.mp leaves
    refine ⟨member, not_not.mp fun stays => ?_⟩
    simp [stays_iff.mpr stays] at notStays
  · refine List.filter_congr fun id member => ?_
    simp [member]

theorem closeWithin_removals (rounds : Nat) (arm : List String) :
    Removals predecessors head afterHead arm
      (closeWithin predecessors head afterHead rounds arm) := by
  induction rounds generalizing arm with
  | zero => exact .refl
  | succ rounds ih =>
      rw [closeWithin]
      split
      · exact .refl
      · rename_i changed
        exact .head (removal_of_round changed) (ih _)

/-- Rounds as many as the arm has members leave no outsider. -/
theorem closed_closeWithin {rounds : Nat} {arm : List String} (enough : arm.length ≤ rounds) :
    Closed predecessors head afterHead
      {id | id ∈ closeWithin predecessors head afterHead rounds arm} :=
  fun id member => stays_iff.mp (stays_of_mem_closeWithin enough id member)

/-- **Closing an arm leaves its greatest part that has no outsiders.** The number of rounds is never
what ends it. Runs in which outsiders are removed in another order come to an end as well, and leave
the same. -/
theorem close_greatest (analysis : Analysis) (head : String) (afterHead arm : List String) :
    IsGreatest {members : Set String | members ⊆ {id | id ∈ arm} ∧
      Closed analysis.triggersOf head afterHead members}
        {id | id ∈ close analysis.triggersOf head afterHead arm} ∧
      (∀ rounds, arm.length ≤ rounds →
        closeWithin analysis.triggersOf head afterHead rounds arm =
          close analysis.triggersOf head afterHead arm) ∧
      (∀ rests, (arm :: rests).IsChain (Removal analysis.triggersOf head afterHead) →
        rests.length ≤ arm.length) ∧
      ∀ last, Removals analysis.triggersOf head afterHead arm last →
        (∀ rest, ¬ Removal analysis.triggersOf head afterHead last rest) →
        last = close analysis.triggersOf head afterHead arm := by
  have removals : Removals analysis.triggersOf head afterHead arm
      (close analysis.triggersOf head afterHead arm) :=
    closeWithin_removals _ _
  have closed : Closed analysis.triggersOf head afterHead
      {id | id ∈ close analysis.triggersOf head afterHead arm} :=
    closed_closeWithin (Nat.le_refl _)
  refine ⟨⟨⟨removals.subset, closed⟩, ?_⟩, fun rounds enough => ?_, fun rests => length_removals_le,
    fun last toLast ended => ?_⟩
  · rintro members ⟨subset, membersClosed⟩
    exact removals.keeps membersClosed subset
  · exact (closeWithin_removals rounds arm).unique removals (closed_closeWithin enough) closed
  · exact toLast.unique removals (closed_iff_no_removal.mpr ended) closed

/-- A branch with two triggers from outside of an arm: `a` may run before the head, `w` reads a
value of the head. -/
def lateTrigger : Workflow where
  name := "late trigger"
  nodeTypes := [taskType]
  instances := ["a", "h", "x", "y", "w", "z", "v"].map fun id => { id := id, nodeType := "Task" }
  connections :=
    [⟨⟨"a", "onSuccess", none⟩, ⟨"x", "execute", none⟩⟩,
      ⟨⟨"h", "onSuccess", none⟩, ⟨"x", "execute", none⟩⟩,
      ⟨⟨"h", "onFailure", none⟩, ⟨"y", "execute", none⟩⟩, ⟨⟨"h", "out", none⟩, ⟨"w", "in", none⟩⟩,
      ⟨⟨"x", "onSuccess", none⟩, ⟨"z", "execute", none⟩⟩,
      ⟨⟨"w", "onSuccess", none⟩, ⟨"z", "execute", none⟩⟩,
      ⟨⟨"z", "onSuccess", none⟩, ⟨"v", "execute", none⟩⟩]

theorem close_greatest_lateTrigger :
    let analysis := Analysis.ofWorkflow lateTrigger
    let wiring := Wiring.ofBlock analysis (lateTrigger.instances.map (·.id))
    let afterHead := wiring.dependents "h"
    let arm := candidates wiring "h" Port.successName Port.failureName
    arm = ["x", "z", "v"] ∧ Removal analysis.triggersOf "h" afterHead arm ["x", "v"] ∧
      Removal analysis.triggersOf "h" afterHead ["x", "v"] ["x"] ∧
      (∀ rest, ¬ Removal analysis.triggersOf "h" afterHead ["x"] rest) ∧
      close analysis.triggersOf "h" afterHead arm = ["x"] ∧
      ∀ members ⊆ {id | id ∈ arm}, Closed analysis.triggersOf "h" afterHead members →
        members ⊆ {id | id ∈ ["x"]} := by
  intro analysis wiring afterHead arm
  have after : afterHead = ["h", "x", "y", "w", "z", "v"] := by decide +kernel
  have inArm : arm = ["x", "z", "v"] := by decide +kernel
  have ofX : analysis.triggersOf "x" = ["a", "h"] := by decide +kernel
  have ofZ : analysis.triggersOf "z" = ["x", "w"] := by decide +kernel
  have ofV : analysis.triggersOf "v" = ["z"] := by decide +kernel
  have first : Removal analysis.triggersOf "h" afterHead arm ["x", "v"] :=
    ⟨["z"], by decide, by simp [Outsider, ofZ, inArm, after], by simp [inArm]⟩
  have second : Removal analysis.triggersOf "h" afterHead ["x", "v"] ["x"] :=
    ⟨["v"], by decide, by simp [Outsider, ofV, after], by simp⟩
  have ended : ∀ rest, ¬ Removal analysis.triggersOf "h" afterHead ["x"] rest :=
    closed_iff_no_removal.mp (by simp [Closed, Outsider, ofX, after])
  obtain ⟨greatest, _, _, same⟩ := close_greatest analysis "h" afterHead arm
  have left := same ["x"] (.tail (.single first) second) ended
  refine ⟨inArm, first, second, ended, left.symm, fun members subset closed => ?_⟩
  rw [left]
  exact greatest.2 ⟨subset, closed⟩

end WorkflowGraph.Arms
