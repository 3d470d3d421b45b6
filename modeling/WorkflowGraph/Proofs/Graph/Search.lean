/-
The search finds exactly the nodes that can be reached.

* `reachable_of_mem_reached` — every node that is found can be reached from a start.
* `mem_reached_of_mem` — what follows a node that is found is found too, if the search may go on for
  as many levels as there are nodes that follow others. `mem_reached_iff` puts both together.
-/

import Mathlib.Data.List.Nodup
import Mathlib.Logic.Relation
import WorkflowGraph.Graph.Search

namespace WorkflowGraph.Graph

variable {next : String → List String}

/-- What a level finds: nodes that follow those of the last level and have not been found before. -/
theorem mem_level {frontier found : List String} {node : String} :
    node ∈ (frontier.flatMap next).eraseDups.filter (fun node => node ∉ found) ↔
      (∃ earlier ∈ frontier, node ∈ next earlier) ∧ node ∉ found := by
  rw [List.mem_filter, List.mem_eraseDups, List.mem_flatMap, decide_eq_true_eq]

/-! ### What is found can be reached -/

/-- Whether a node can be reached from one of the starts. -/
def Reachable (next : String → List String) (starts : List String) (node : String) : Prop :=
  ∃ start ∈ starts, Relation.ReflTransGen (fun earlier later => later ∈ next earlier) start node

theorem Reachable.step {starts : List String} {node follower : String}
    (reachable : Reachable next starts node) (follows : follower ∈ next node) :
    Reachable next starts follower := by
  obtain ⟨start, member, path⟩ := reachable
  exact ⟨start, member, path.tail follows⟩

theorem reachable_of_mem_searchFrom {starts : List String} {levels : Nat}
    {found frontier : List String} (known : ∀ node ∈ found, Reachable next starts node)
    (last : ∀ node ∈ frontier, Reachable next starts node) :
    ∀ node ∈ searchFrom next levels found frontier, Reachable next starts node := by
  induction levels generalizing found frontier with
  | zero => exact known
  | succ levels ih =>
      rw [searchFrom]
      split
      · exact known
      · have fresh : ∀ node ∈ (frontier.flatMap next).eraseDups.filter fun node => node ∉ found,
            Reachable next starts node := by
          intro node member
          obtain ⟨⟨earlier, inFrontier, follows⟩, _⟩ := mem_level.mp member
          exact (last earlier inFrontier).step follows
        exact ih (fun node member => (List.mem_append.mp member).elim (known node) (fresh node))
          fresh

/-- **Every node that the search finds can be reached from a start.** -/
theorem reachable_of_mem_reached {count : Nat} {starts : List String} {node : String}
    (found : node ∈ reached next count starts) : Reachable next starts node := by
  have start : ∀ node ∈ starts.eraseDups, Reachable next starts node :=
    fun node member => ⟨node, List.mem_eraseDups.mp member, .refl⟩
  exact reachable_of_mem_searchFrom start start node found

/-! ### What can be reached is found -/

theorem subset_searchFrom (levels : Nat) (found frontier : List String) :
    found ⊆ searchFrom next levels found frontier := by
  induction levels generalizing found frontier with
  | zero => exact List.Subset.refl _
  | succ levels ih =>
      rw [searchFrom]
      split
      · exact List.Subset.refl _
      · exact fun node member => ih _ _ (List.mem_append_left _ member)

theorem mem_reached_of_mem_starts {count : Nat} {starts : List String} {node : String}
    (member : node ∈ starts) : node ∈ reached next count starts :=
  subset_searchFrom _ _ _ (List.mem_eraseDups.mpr member)

/-- The nodes of a list that have not been found, each level finds one more of. -/
theorem length_unfound_lt {nodes found fresh : List String} (inNodes : ∀ node ∈ fresh, node ∈ nodes)
    (isNew : ∀ node ∈ fresh, node ∉ found) (some_ : fresh ≠ []) :
    (nodes.filter fun node => node ∉ found ++ fresh).length <
      (nodes.filter fun node => node ∉ found).length := by
  obtain ⟨first, member⟩ := List.exists_mem_of_ne_nil fresh some_
  have split_ : (nodes.filter fun node => node ∉ found ++ fresh) =
      (nodes.filter fun node => node ∉ found).filter fun node => node ∉ fresh := by
    rw [List.filter_filter]
    exact List.filter_congr fun node _ => by simp [Bool.and_comm]
  rw [split_, List.length_filter_lt_length_iff_exists]
  refine ⟨first, List.mem_filter.mpr ⟨inNodes first member, ?_⟩, by simp [member]⟩
  simpa using isNew first member

theorem mem_searchFrom_of_mem {nodes : List String} (followers : ∀ node, next node ⊆ nodes)
    {levels : Nat} {found frontier : List String}
    (enough : (nodes.filter fun node => node ∉ found).length ≤ levels)
    (closed : ∀ node ∈ found, node ∉ frontier → next node ⊆ found)
    {node follower : String} (member : node ∈ searchFrom next levels found frontier)
    (follows : follower ∈ next node) : follower ∈ searchFrom next levels found frontier := by
  induction levels generalizing found frontier with
  | zero =>
      -- no node is left that could be found
      have none := List.eq_nil_of_length_eq_zero (Nat.le_zero.mp enough)
      by_contra missing
      rw [searchFrom] at missing
      have unfound : follower ∈ nodes.filter fun node => node ∉ found :=
        List.mem_filter.mpr ⟨followers node follows, by simpa using missing⟩
      rw [none] at unfound
      cases unfound
  | succ levels ih =>
      rw [searchFrom] at member ⊢
      split at member
      · rename_i empty
        rw [if_pos empty]
        by_cases last : node ∈ frontier
        · by_contra missing
          have fresh := mem_level.mpr ⟨⟨node, last, follows⟩, missing⟩
          rw [List.isEmpty_iff.mp empty] at fresh
          cases fresh
        · exact closed node member last follows
      · rename_i some_
        rw [if_neg some_]
        refine ih ?_ (fun other inFound notFresh later follows => ?_) member
        · refine Nat.le_of_lt_succ (Nat.lt_of_lt_of_le (length_unfound_lt ?_ ?_ ?_) enough)
          · intro other inFresh
            obtain ⟨⟨earlier, _, follows⟩, _⟩ := mem_level.mp inFresh
            exact followers earlier follows
          · exact fun other inFresh => (mem_level.mp inFresh).2
          · exact fun empty => some_ (List.isEmpty_iff.mpr empty)
        · -- what was found before has its followers found now, and the frontier is new
          have old := (List.mem_append.mp inFound).resolve_right notFresh
          by_cases known : later ∈ found
          · exact List.mem_append_left _ known
          · have last : other ∈ frontier := by
              by_contra notLast
              exact known (closed other old notLast follows)
            exact List.mem_append_right _ (mem_level.mpr ⟨⟨other, last, follows⟩, known⟩)

/-- **What follows a node that is found is found too.** -/
theorem mem_reached_of_mem {nodes starts : List String} {count : Nat}
    (followers : ∀ node, next node ⊆ nodes) (enough : nodes.length ≤ count)
    {node follower : String} (found : node ∈ reached next count starts)
    (follows : follower ∈ next node) : follower ∈ reached next count starts :=
  mem_searchFrom_of_mem followers (Nat.le_trans (List.length_filter_le _ _) enough)
    (fun _ member notLast => absurd member notLast) found follows

theorem mem_reached_iff {nodes starts : List String} {count : Nat}
    (followers : ∀ node, next node ⊆ nodes) (enough : nodes.length ≤ count) {node : String} :
    node ∈ reached next count starts ↔ Reachable next starts node := by
  refine ⟨reachable_of_mem_reached, ?_⟩
  rintro ⟨start, member, path⟩
  induction path with
  | refl => exact mem_reached_of_mem_starts member
  | tail _ follows ih => exact mem_reached_of_mem followers enough ih follows

end WorkflowGraph.Graph
