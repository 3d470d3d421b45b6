/-
The search for cycles finds one where there is one, and finds nothing else.

* `real_of_mem_cycles` — every cycle that is found is a closed walk through the graph, and it is
  marked where one of its edges is. It meets no node twice (`nodup_dropLast_of_mem_cycles`).
* `Cycle.Real.marked_of_rising` — no cycle is real where something rises along all its edges.
* `Cycle.ClosedBy` — the edge that leads back to the path when a cycle is found.
* `exists_rank_of_spares` — the nodes have ranks that rise along every edge that starts at a root
  and closes no cycle that is found. The ranks are the places in the list of nodes that the search
  is done with. Where no cycle is found at all, they rise along every edge
  (`exists_rank_of_cycles_eq_nil`).
-/

import Mathlib.Data.List.Chain
import Mathlib.Data.List.Nodup
import Mathlib.Data.List.Perm.Subperm
import Mathlib.Data.List.TakeWhile
import Mathlib.Logic.Relation
import WorkflowGraph.Graph.Cycles

namespace WorkflowGraph.Graph

/-! ### Joined edges -/

theorem mem_addEdge {edge found : Edge} {edges : List Edge} (member : found ∈ addEdge edge edges) :
    found ∈ edges ∨ found = edge ∨ ∃ other ∈ edges,
      other.source = edge.source ∧ other.target = edge.target ∧
        found = { other with marked := other.marked || edge.marked } := by
  induction edges with
  | nil => exact .inr (.inl (by simpa [addEdge] using member))
  | cons other rest ih =>
      unfold addEdge at member
      split at member
      · rename_i same
        rcases List.mem_cons.mp member with joined | later
        · exact .inr (.inr ⟨other, List.mem_cons_self, same.1, same.2, joined⟩)
        · exact .inl (List.mem_cons_of_mem _ later)
      · rcases List.mem_cons.mp member with rfl | later
        · exact .inl List.mem_cons_self
        · rcases ih later with old | new | ⟨joined, inRest, shape⟩
          · exact .inl (List.mem_cons_of_mem _ old)
          · exact .inr (.inl new)
          · exact .inr (.inr ⟨joined, List.mem_cons_of_mem _ inRest, shape⟩)

/-- An edge that is added is there, perhaps joined with others. -/
theorem addEdge_covers (edge : Edge) (edges : List Edge) :
    ∃ found ∈ addEdge edge edges, found.source = edge.source ∧ found.target = edge.target ∧
      (edge.marked = true → found.marked = true) := by
  induction edges with
  | nil => exact ⟨edge, by simp [addEdge], rfl, rfl, id⟩
  | cons other rest ih =>
      unfold addEdge
      split
      · rename_i same
        exact ⟨_, List.mem_cons_self, same.1, same.2, fun marked => by simp [marked]⟩
      · obtain ⟨found, member, joined⟩ := ih
        exact ⟨found, List.mem_cons_of_mem _ member, joined⟩

/-- An edge that was there stays, perhaps joined with others. -/
theorem addEdge_keeps {edge old : Edge} {edges : List Edge} (member : old ∈ edges) :
    ∃ found ∈ addEdge edge edges, found.source = old.source ∧ found.target = old.target ∧
      (old.marked = true → found.marked = true) := by
  induction edges with
  | nil => cases member
  | cons other rest ih =>
      unfold addEdge
      rcases List.mem_cons.mp member with rfl | later
      · split
        · exact ⟨_, List.mem_cons_self, rfl, rfl, fun marked => by simp [marked]⟩
        · exact ⟨old, List.mem_cons_self, rfl, rfl, id⟩
      · split
        · exact ⟨old, List.mem_cons_of_mem _ later, rfl, rfl, id⟩
        · obtain ⟨found, inside, joined⟩ := ih later
          exact ⟨found, List.mem_cons_of_mem _ inside, joined⟩

theorem foldl_addEdge_covers {edges : List Edge} {edge : Edge} (graph : List Edge)
    (member : edge ∈ graph ∨ edge ∈ edges) :
    ∃ found ∈ edges.foldl (fun graph edge => addEdge edge graph) graph,
      found.source = edge.source ∧ found.target = edge.target ∧
        (edge.marked = true → found.marked = true) := by
  induction edges generalizing graph edge with
  | nil => exact ⟨edge, member.resolve_right (by simp), rfl, rfl, id⟩
  | cons first rest ih =>
      rw [List.foldl_cons]
      rcases member with inGraph | inEdges
      · obtain ⟨kept, inside, source, target, mark⟩ := @addEdge_keeps first _ _ inGraph
        obtain ⟨found, there, source', target', mark'⟩ := ih (addEdge first graph) (.inl inside)
        exact ⟨found, there, source'.trans source, target'.trans target, mark' ∘ mark⟩
      · rcases List.mem_cons.mp inEdges with rfl | later
        · obtain ⟨kept, inside, source, target, mark⟩ := addEdge_covers edge graph
          obtain ⟨found, there, source', target', mark'⟩ := ih (addEdge edge graph) (.inl inside)
          exact ⟨found, there, source'.trans source, target'.trans target, mark' ∘ mark⟩
        · exact ih (addEdge first graph) (.inr later)

/-- **Every edge is in the graph of the edges, and marked there if it is marked.** -/
theorem ofEdges_covers {edges : List Edge} {edge : Edge} (member : edge ∈ edges) :
    ∃ found ∈ ofEdges edges, found.source = edge.source ∧ found.target = edge.target ∧
      (edge.marked = true → found.marked = true) :=
  foldl_addEdge_covers [] (.inr member)

theorem mem_foldl_addEdge {edges graph : List Edge} {found : Edge}
    (member : found ∈ edges.foldl (fun graph edge => addEdge edge graph) graph) :
    found ∈ graph ∨ found ∈ edges := by
  induction edges generalizing graph with
  | nil => exact .inl member
  | cons first rest ih =>
      rcases ih member with inGraph | later
      · rcases mem_addEdge inGraph with old | new | ⟨other, there, source, target, joined⟩
        · exact .inl old
        · exact .inr (new ▸ List.mem_cons_self)
        · -- the mark of a joined edge is that of one of the two
          obtain ⟨otherSource, otherTarget, otherMark⟩ := other
          obtain ⟨firstSource, firstTarget, firstMark⟩ := first
          cases source
          cases target
          cases firstMark with
          | true => exact .inr (by simp [joined])
          | false => exact .inl (by simpa [joined] using there)
      · exact .inr (List.mem_cons_of_mem _ later)

/-- **Every edge of the graph of some edges is one of them.** -/
theorem mem_ofEdges {edges : List Edge} {found : Edge} (member : found ∈ ofEdges edges) :
    found ∈ edges :=
  (mem_foldl_addEdge member).resolve_left (by simp)

/-- The nodes that an edge joins. -/
def Edge.ends (edge : Edge) : String × String :=
  (edge.source, edge.target)

theorem nodup_ends_addEdge {edge : Edge} {edges : List Edge}
    (distinct : (edges.map Edge.ends).Nodup) : ((addEdge edge edges).map Edge.ends).Nodup := by
  induction edges with
  | nil => exact List.nodup_singleton _
  | cons other rest ih =>
      unfold addEdge
      split
      · exact distinct
      · rename_i different
        obtain ⟨fresh, distinct⟩ := List.nodup_cons.mp distinct
        refine List.nodup_cons.mpr ⟨fun met => ?_, ih distinct⟩
        obtain ⟨found, member, same⟩ := List.mem_map.mp met
        rcases mem_addEdge member with old | rfl | ⟨joined, old, _, _, rfl⟩
        · exact fresh (same ▸ List.mem_map_of_mem old)
        · exact different ⟨(Prod.mk.inj same).1.symm, (Prod.mk.inj same).2.symm⟩
        · exact fresh (same ▸ List.mem_map.mpr ⟨joined, old, rfl⟩)

/-- No two edges of the graph of some edges join the same nodes. -/
theorem nodup_ends_ofEdges (edges : List Edge) : ((ofEdges edges).map Edge.ends).Nodup :=
  List.foldlRecOn (motive := fun graph : List Edge => (graph.map Edge.ends).Nodup) edges _
    List.nodup_nil fun _ distinct _ _ => nodup_ends_addEdge distinct

/-- An edge of the graph of some edges is marked if one of them is that joins the same nodes. -/
theorem marked_of_mem_ofEdges {edges : List Edge} {edge found : Edge}
    (member : found ∈ ofEdges edges) (given : edge ∈ edges) (same : found.ends = edge.ends)
    (marked : edge.marked = true) : found.marked = true := by
  obtain ⟨other, inGraph, source, target, mark⟩ := ofEdges_covers given
  have alike : other.ends = found.ends := by rw [same, Edge.ends, Edge.ends, source, target]
  rw [← List.inj_on_of_nodup_map (nodup_ends_ofEdges edges) inGraph member alike]
  exact mark marked

/-! ### Cycles that are found -/

/-- Whether a step of a path follows another one: there is an edge, marked as the step says. -/
def Follows (graph : List Edge) (earlier later : String × Bool) : Prop :=
  ⟨earlier.1, later.1, later.2⟩ ∈ graph

/-- Whether a path follows edges and meets no node twice. -/
structure IsPath (graph : List Edge) (path : List (String × Bool)) : Prop where
  chain : path.IsChain (Follows graph)
  distinct : (path.map (·.1)).Nodup

theorem isPath_singleton (graph : List Edge) (step : String × Bool) : IsPath graph [step] :=
  ⟨List.isChain_singleton _, List.nodup_singleton _⟩

/-- A path that an edge closes no cycle with does not meet its target. -/
theorem notMem_of_closeCycle_eq_none {path : List (String × Bool)} {edge : Edge}
    (open_ : closeCycle path edge = none) : edge.target ∉ path.map (·.1) := by
  intro met
  obtain ⟨step, inPath, same⟩ := List.mem_map.mp met
  unfold closeCycle at open_
  split at open_
  · rename_i dropped
    have := List.dropWhile_eq_nil_iff.mp dropped step inPath
    simp [same] at this
  · cases open_

/-- A path with one more edge at its end, which closes no cycle, is a path. -/
theorem IsPath.extend {graph : List Edge} {path : List (String × Bool)} {last : String × Bool}
    {edge : Edge} (isPath : IsPath graph path) (ends : path.getLast? = some last)
    (source : edge.source = last.1) (member : edge ∈ graph) (open_ : closeCycle path edge = none) :
    IsPath graph (path ++ [(edge.target, edge.marked)]) where
  chain := by
    refine List.isChain_append.mpr ⟨isPath.chain, List.isChain_singleton _,
      fun earlier isEnd later isFirst => ?_⟩
    rw [ends] at isEnd
    cases isEnd
    cases isFirst
    show (⟨last.1, edge.target, edge.marked⟩ : Edge) ∈ graph
    rw [← source]
    exact member
  distinct := by
    rw [List.map_append, List.map_singleton, ← List.concat_eq_append]
    exact isPath.distinct.concat (notMem_of_closeCycle_eq_none open_)

/-- Whether an edge closes a cycle with a path that leads to its source. -/
def Cycle.ClosedBy (graph : List Edge) (edge : Edge) (cycle : Cycle) : Prop :=
  edge ∈ graph ∧ ∃ (path : List (String × Bool)) (last : String × Bool),
    IsPath graph path ∧ path.getLast? = some last ∧ edge.source = last.1 ∧
      closeCycle path edge = some cycle

theorem visit_closed {graph : List Edge} {fuel : Nat} {node : String} {path : List (String × Bool)}
    {search : Search} (isPath : IsPath graph path) (ends : path.getLast?.map (·.1) = some node)
    (known : ∀ cycle ∈ search.cycles, ∃ edge, cycle.ClosedBy graph edge) :
    ∀ cycle ∈ (visit graph fuel node path search).cycles, ∃ edge, cycle.ClosedBy graph edge := by
  induction fuel generalizing node path search with
  | zero => exact known
  | succ fuel ih =>
      obtain ⟨last, isLast, same⟩ := Option.map_eq_some_iff.mp ends
      rw [visit]
      -- every edge that is followed closes cycles with the path only, or makes it longer
      refine List.foldlRecOn
        (motive := fun search : Search => ∀ cycle ∈ search.cycles, ∃ edge,
          cycle.ClosedBy graph edge)
        _ _ known fun search known edge inEdges => ?_
      obtain ⟨member, source⟩ := List.mem_filter.mp inEdges
      have source : edge.source = last.1 := by simpa [same] using source
      unfold followEdge
      split
      · rename_i cycle closed
        intro found inside
        rcases List.mem_append.mp inside with old | new
        · exact known found old
        · rw [List.mem_singleton.mp new]
          exact ⟨edge, member, path, last, isPath, isLast, source, closed⟩
      · rename_i open_
        split
        · exact known
        · exact ih (isPath.extend isLast source member open_) (by simp) known

/-- **Every cycle that the search finds is closed by an edge.** -/
theorem closedBy_of_mem_cycles {graph : List Edge} {roots : List String} {cycle : Cycle}
    (found : cycle ∈ cycles graph roots) : ∃ edge, cycle.ClosedBy graph edge := by
  refine List.foldlRecOn
    (motive := fun search : Search => ∀ cycle ∈ search.cycles, ∃ edge, cycle.ClosedBy graph edge)
    roots (visitRoot graph) (by simp) (fun search known root _ => ?_) cycle found
  unfold visitRoot
  split
  · exact known
  · exact visit_closed (isPath_singleton _ _) rfl known

/-- What a cycle is that an edge closes: the end of a path from the target of the edge on, and the
edge. -/
theorem Cycle.ClosedBy.shape {graph : List Edge} {edge : Edge} {cycle : Cycle}
    (closed : cycle.ClosedBy graph edge) :
    ∃ (first last : String × Bool) (rest : List (String × Bool)), IsPath graph (first :: rest) ∧
      (first :: rest).getLast? = some last ∧ edge.source = last.1 ∧ first.1 = edge.target ∧
      cycle = ⟨first.1 :: rest.map (·.1) ++ [edge.target], edge.marked || rest.any (·.2)⟩ := by
  obtain ⟨_, path, last, isPath, ends, source, closes⟩ := closed
  unfold closeCycle at closes
  split at closes
  · cases closes
  · rename_i first rest dropped
    cases closes
    have suffix : first :: rest <:+ path := dropped ▸ List.dropWhile_suffix _
    have atTarget : first.1 = edge.target := by
      have stops := List.head?_dropWhile_not (fun step : String × Bool =>
        decide (step.1 ≠ edge.target)) path
      rw [dropped] at stops
      simpa using stops
    refine ⟨first, last, rest, ⟨isPath.chain.suffix suffix, ?_⟩, ?_, source, atTarget, rfl⟩
    · exact (suffix.map _).sublist.nodup isPath.distinct
    · obtain ⟨before, same⟩ := suffix
      rw [← same, List.getLast?_append_cons] at ends
      exact ends

/-- Whether a cycle is a closed walk through a graph. -/
def Cycle.Real (graph : List Edge) (cycle : Cycle) : Prop :=
  ∃ (start : String × Bool) (steps : List (String × Bool)),
    cycle.nodes = start.1 :: steps.map (·.1) ∧ cycle.marked = steps.any (·.2) ∧
      (start :: steps).IsChain (Follows graph) ∧ ∃ mark, steps.getLast? = some (start.1, mark)

/-- **Every cycle that the search finds is a closed walk through the graph.** -/
theorem real_of_mem_cycles {graph : List Edge} {roots : List String} {cycle : Cycle}
    (found : cycle ∈ cycles graph roots) : cycle.Real graph := by
  obtain ⟨edge, closed⟩ := closedBy_of_mem_cycles found
  obtain ⟨first, last, rest, isPath, ends, source, atTarget, rfl⟩ := closed.shape
  refine ⟨first, rest ++ [(edge.target, edge.marked)], ?_, ?_, ?_, edge.marked, ?_⟩
  · simp
  · simp [Bool.or_comm]
  · rw [← List.cons_append, List.isChain_append]
    refine ⟨isPath.chain, List.isChain_singleton _, fun earlier isLast later isFirst => ?_⟩
    rw [ends] at isLast
    cases isLast
    cases isFirst
    show (⟨last.1, edge.target, edge.marked⟩ : Edge) ∈ graph
    rw [← source]
    exact closed.1
  · rw [List.getLast?_concat, atTarget]

/-- A cycle that the search finds meets no node twice before it closes. -/
theorem nodup_dropLast_of_mem_cycles {graph : List Edge} {roots : List String} {cycle : Cycle}
    (found : cycle ∈ cycles graph roots) : cycle.nodes.dropLast.Nodup := by
  obtain ⟨edge, closed⟩ := closedBy_of_mem_cycles found
  obtain ⟨first, last, rest, isPath, _, _, _, rfl⟩ := closed.shape
  rw [List.dropLast_concat, ← List.map_cons]
  exact isPath.distinct

theorem rises_along_chain {graph : List Edge} {Rises : String → String → Prop}
    (edges : ∀ edge ∈ graph, edge.marked = false → Rises edge.source edge.target)
    (trans : ∀ {first second third}, Rises first second → Rises second third → Rises first third)
    {start last : String × Bool} {steps : List (String × Bool)}
    (chain : (start :: steps).IsChain (Follows graph)) (unmarked : ∀ step ∈ steps, step.2 = false)
    (ends : steps.getLast? = some last) : Rises start.1 last.1 := by
  induction steps generalizing start with
  | nil => cases ends
  | cons step rest ih =>
      obtain ⟨follows, chainRest⟩ := List.isChain_cons_cons.mp chain
      have first : Rises start.1 step.1 := edges _ follows (unmarked step List.mem_cons_self)
      cases rest with
      | nil =>
          cases ends
          exact first
      | cons next others =>
          rw [List.getLast?_cons_cons] at ends
          exact trans first
            (ih chainRest (fun other member => unmarked other (List.mem_cons_of_mem _ member)) ends)

/-- A cycle without a marked edge cannot be real where something rises along the edges without a
mark. -/
theorem Cycle.Real.marked_of_rising {graph : List Edge} {cycle : Cycle} (real : cycle.Real graph)
    {Rises : String → String → Prop}
    (edges : ∀ edge ∈ graph, edge.marked = false → Rises edge.source edge.target)
    (trans : ∀ {first second third}, Rises first second → Rises second third → Rises first third)
    (irrefl : ∀ node, ¬ Rises node node) : cycle.marked = true := by
  obtain ⟨start, steps, _, marked, chain, mark, ends⟩ := real
  by_contra unmarked
  rw [marked, Bool.not_eq_true, List.any_eq_false] at unmarked
  have back := rises_along_chain edges trans chain (by simpa using unmarked) ends
  exact irrefl start.1 back

/-- An edge that closes a cycle without a mark has none itself, and there is a way back without
marks. -/
theorem Cycle.ClosedBy.unmarked {graph : List Edge} {edge : Edge} {cycle : Cycle}
    (closed : cycle.ClosedBy graph edge) (none : cycle.marked = false) :
    edge.marked = false ∧
      Relation.ReflTransGen (fun earlier later => ⟨earlier, later, false⟩ ∈ graph) edge.target
      edge.source := by
  obtain ⟨first, last, rest, isPath, ends, source, atTarget, rfl⟩ := closed.shape
  obtain ⟨bare, bareRest⟩ := Bool.or_eq_false_iff.mp none
  refine ⟨bare, ?_⟩
  rw [source, ← atTarget]
  cases rest with
  | nil =>
      cases ends
      exact .refl
  | cons step rest =>
      rw [List.getLast?_cons_cons] at ends
      refine rises_along_chain (fun edge member unmarked => .single ?_) (fun there onwards =>
        there.trans onwards) isPath.chain (by simpa using bareRest) ends
      rw [← unmarked]
      exact member

/-- Along a chain of steps with a mark there is an edge with a mark. -/
theorem exists_marked_of_chain {graph : List Edge} {start : String × Bool}
    {steps : List (String × Bool)} (chain : (start :: steps).IsChain (Follows graph))
    (marked : steps.any (·.2) = true) :
    ∃ before first second after, start.1 :: steps.map (·.1) = before ++ first :: second :: after ∧
      ⟨first, second, true⟩ ∈ graph := by
  induction steps generalizing start with
  | nil => cases marked
  | cons step rest ih =>
      obtain ⟨follows, later⟩ := List.isChain_cons_cons.mp chain
      rcases Bool.or_eq_true_iff.mp marked with here | further
      · obtain ⟨node, mark⟩ := step
        cases here
        exact ⟨[], start.1, node, rest.map (·.1), rfl, follows⟩
      · obtain ⟨before, first, second, after, split, edge⟩ := ih later further
        exact ⟨start.1 :: before, first, second,
          after, by rw [List.map_cons, split, List.cons_append], edge⟩

/-! ### Edges that close no cycle -/

theorem visit_cycles_grow (graph : List Edge) (fuel : Nat) (node : String)
    (path : List (String × Bool)) (search : Search) :
    search.cycles <+: (visit graph fuel node path search).cycles := by
  induction fuel generalizing node path search with
  | zero => exact List.prefix_rfl
  | succ fuel ih =>
      rw [visit]
      refine List.foldlRecOn (motive := fun later : Search => search.cycles <+: later.cycles)
        _ _ List.prefix_rfl fun later grown edge _ => ?_
      unfold followEdge
      split
      · exact grown.trans (List.prefix_append _ _)
      · split
        · exact grown
        · exact grown.trans (ih _ _ _)

theorem followEdge_cycles_grow (graph : List Edge) (fuel : Nat) (path : List (String × Bool))
    (search : Search) (edge : Edge) :
    search.cycles <+: (followEdge (fun path search => visit graph fuel edge.target path search) path
      search edge).cycles := by
  unfold followEdge
  split
  · exact List.prefix_append _ _
  · split
    · exact List.prefix_rfl
    · exact visit_cycles_grow _ _ _ _ _

theorem visitRoot_cycles_grow (graph : List Edge) (search : Search) (root : String) :
    search.cycles <+: (visitRoot graph search root).cycles := by
  unfold visitRoot
  split
  · exact List.prefix_rfl
  · exact visit_cycles_grow _ _ _ _ _

/-- Whether none of some edges closes a cycle that has been found. -/
def Search.Spares (graph walk : List Edge) (search : Search) : Prop :=
  ∀ cycle ∈ search.cycles, ∀ edge ∈ walk, ¬ cycle.ClosedBy graph edge

/-- A search that only gains cycles spares edges before if it does in the end. -/
theorem Search.Spares.of_foldl {graph walk : List Edge} {α : Type} {step : Search → α → Search}
    {items : List α} {search : Search} (spares : (items.foldl step search).Spares graph walk)
    (grows : ∀ search item, search.cycles <+: (step search item).cycles) :
    search.Spares graph walk := by
  have grown : search.cycles <+: (items.foldl step search).cycles :=
    List.foldlRecOn (motive := fun later : Search => search.cycles <+: later.cycles) items step
      List.prefix_rfl fun later grown item _ => grown.trans (grows later item)
  exact fun cycle found => spares cycle (grown.subset found)

/-- Whether every node of a list has all its edges to nodes further back in the list. -/
def Finished (graph : List Edge) : List String → Prop
  | [] => True
  | node :: rest =>
    (∀ edge ∈ graph, edge.source = node → edge.target ∈ rest) ∧ Finished graph rest

theorem Finished.mem_of_mem {graph : List Edge} {done : List String}
    (finished : Finished graph done) {edge : Edge} (member : edge ∈ graph)
    (isDone : edge.source ∈ done) : edge.target ∈ done := by
  induction done with
  | nil => cases isDone
  | cons node rest ih =>
      rcases List.mem_cons.mp isDone with first | later
      · exact List.mem_cons_of_mem _ (finished.1 edge member first)
      · exact List.mem_cons_of_mem _ (ih finished.2 later)

/-- What the search keeps true of the nodes that it is done with, while it works on a path. -/
structure Clean (walk : List Edge) (path : List (String × Bool)) (done : List String) : Prop where
  finished : Finished walk done
  distinct : done.Nodup
  /-- The search is not done with the nodes that it works on. -/
  fresh : ∀ step ∈ path, step.1 ∉ done

theorem targets_of_chain {graph : List Edge} {first : String × Bool} {rest : List (String × Bool)}
    (chain : (first :: rest).IsChain (Follows graph)) : rest.map (·.1) ⊆ graph.map (·.target) := by
  induction rest generalizing first with
  | nil => exact List.nil_subset _
  | cons step rest ih =>
      obtain ⟨follows, later⟩ := List.isChain_cons_cons.mp chain
      exact List.cons_subset.mpr ⟨List.mem_map.mpr ⟨_, follows, rfl⟩, ih later⟩

/-- Paths are bounded: every node but the first is the target of an edge. -/
theorem IsPath.length_le {graph : List Edge} {path : List (String × Bool)}
    (isPath : IsPath graph path) : path.length ≤ graph.length + 1 := by
  cases path with
  | nil => exact Nat.zero_le _
  | cons first rest =>
      have distinct : (rest.map (·.1)).Nodup := (List.nodup_cons.mp isPath.distinct).2
      have bound := (List.subperm_of_subset distinct (targets_of_chain isPath.chain)).length_le
      simp only [List.length_map] at bound
      simpa using bound

section Spared

variable {graph walk : List Edge} {path : List (String × Bool)}

theorem Clean.extend {done : List String} {step : String × Bool} (clean : Clean walk path done)
    (open_ : step.1 ∉ done) :
    Clean walk (path ++ [step]) done := by
  refine ⟨clean.finished, clean.distinct, fun other member => ?_⟩
  rcases List.mem_append.mp member with old | new
  · exact clean.fresh other old
  · rw [List.mem_singleton.mp new]
    exact open_

/-- The search is done with the last node of a path when it is done with all that the edges of
`walk` lead to from there. -/
theorem Clean.finish {done : List String} {last : String × Bool}
    (isPath : IsPath graph (path ++ [last])) (clean : Clean walk (path ++ [last]) done)
    (targets : ∀ edge ∈ walk, edge.source = last.1 → edge.target ∈ done) :
    Clean walk path (last.1 :: done) where
  finished := ⟨targets, clean.finished⟩
  distinct := List.nodup_cons.mpr ⟨clean.fresh last (by simp), clean.distinct⟩
  fresh := by
    intro step member isDone
    rcases List.mem_cons.mp isDone with same | earlier
    · have distinct := isPath.distinct
      rw [List.map_append, List.nodup_append] at distinct
      exact distinct.2.2 step.1 (List.mem_map_of_mem member) last.1 (by simp) same
    · exact clean.fresh step (List.mem_append_left _ member) earlier

/-- What a part of the search gets done while it works on a path: the nodes that it is done with
stay clean, none is lost, and those that are wanted are among them. -/
structure Advances (walk : List Edge) (path : List (String × Bool)) (wanted : String → Prop)
    (search later : Search) : Prop where
  clean : Clean walk path later.done
  grown : search.done ⊆ later.done
  reached : ∀ node, wanted node → node ∈ later.done

/-- Parts of the search that each get some nodes done, one after the other, get all of these nodes
done. -/
theorem Advances.foldl {α : Type} (wanted : α → String → Prop) {step : Search → α → Search}
    {items : List α} {search : Search}
    (grows : ∀ search item, search.cycles <+: (step search item).cycles)
    (advances : ∀ item ∈ items, ∀ search : Search, Clean walk path search.done →
      (step search item).Spares graph walk →
      Advances walk path (wanted item) search (step search item))
    (clean : Clean walk path search.done) (spares : (items.foldl step search).Spares graph walk) :
    Advances walk path (fun node => ∃ item ∈ items, wanted item node) search
      (items.foldl step search) := by
  induction items generalizing search with
  | nil => exact ⟨clean, List.Subset.refl _, by simp⟩
  | cons item rest ih =>
      rw [List.foldl_cons] at spares ⊢
      have first := advances item List.mem_cons_self search clean (spares.of_foldl grows)
      have later := ih (fun other member => advances other (List.mem_cons_of_mem _ member))
        first.clean spares
      refine ⟨later.clean, List.Subset.trans first.grown later.grown, ?_⟩
      rintro node ⟨other, member, wanted⟩
      rcases List.mem_cons.mp member with rfl | inRest
      · exact later.grown (first.reached node wanted)
      · exact later.reached node ⟨other, inRest, wanted⟩

/-- An edge of `walk` that is followed leads to a node that the search is done with then, if a visit
of the node gets it done. -/
theorem followEdge_advances {fuel : Nat} {last : String × Bool} {search : Search} {edge : Edge}
    (isPath : IsPath graph path) (ends : path.getLast? = some last) (source : edge.source = last.1)
    (member : edge ∈ graph) (clean : Clean walk path search.done)
    (visits : closeCycle path edge = none → edge.target ∉ search.done →
      (visit graph fuel edge.target (path ++ [(edge.target, edge.marked)]) search).Spares graph
      walk → Advances walk path (· = edge.target) search
        (visit graph fuel edge.target (path ++ [(edge.target, edge.marked)]) search))
    (spares : (followEdge (fun path search => visit graph fuel edge.target path search) path
      search edge).Spares graph walk) :
    Advances walk path (fun node => edge ∈ walk ∧ node = edge.target) search
      (followEdge (fun path search => visit graph fuel edge.target path search) path
        search edge) := by
  unfold followEdge at spares ⊢
  split at spares
  · rename_i cycle closed
    refine ⟨clean, List.Subset.refl _, fun _ wanted => ?_⟩
    -- the edge closes the cycle that is added
    exact absurd ⟨member, path, last, isPath, ends, source, closed⟩
      (spares cycle (by simp) edge wanted.1)
  · rename_i open_
    split at spares
    · rename_i isDone
      rw [if_pos isDone]
      exact ⟨clean, List.Subset.refl _, fun _ wanted => wanted.2 ▸ isDone⟩
    · rename_i notDone
      rw [if_neg notDone]
      have visited := visits open_ notDone spares
      exact ⟨visited.clean, visited.grown, fun node wanted => visited.reached node wanted.2⟩

/-- **A visit that closes no cycle with the edges of `walk`** is done with the last node of the path
then, and with all that these edges lead to from there. -/
theorem visit_advances (inside : walk ⊆ graph) {fuel : Nat} {last : String × Bool} {search : Search}
    (isPath : IsPath graph (path ++ [last])) (enough : graph.length + 2 ≤ fuel + (path.length + 1))
    (clean : Clean walk (path ++ [last]) search.done)
    (spares : (visit graph fuel last.1 (path ++ [last]) search).Spares graph walk) :
    Advances walk path (· = last.1) search (visit graph fuel last.1 (path ++ [last]) search) := by
  induction fuel generalizing last path search with
  | zero =>
      have := isPath.length_le
      simp only [List.length_append, List.length_singleton] at this
      omega
  | succ fuel ih =>
      rw [visit] at spares ⊢
      -- the edges are followed one after the other; the search may be done with more nodes each
      -- time
      have followed := Advances.foldl (fun edge node => edge ∈ walk ∧ node = edge.target)
        (followEdge_cycles_grow graph fuel (path ++ [last])) (fun edge leaves search clean spares =>
          ?_) clean spares
      · have targets : ∀ edge ∈ walk, edge.source = last.1 → edge.target ∈ _ :=
            fun edge member source =>
          followed.reached edge.target ⟨edge,
            List.mem_filter.mpr ⟨inside member, by simpa using source⟩, member, rfl⟩
        refine ⟨followed.clean.finish isPath targets, ?_, fun _ same => same ▸ List.mem_cons_self⟩
        exact fun other member => List.mem_cons_of_mem _ (followed.grown member)
      · obtain ⟨member, source⟩ := List.mem_filter.mp leaves
        have source : edge.source = last.1 := by simpa using source
        refine followEdge_advances isPath List.getLast?_concat source member clean
          (fun open_ notDone spares => ?_) spares
        refine ih (isPath.extend List.getLast?_concat source member open_) ?_ (clean.extend notDone)
          spares
        simp only [List.length_append, List.length_singleton]
        omega

theorem visitRoot_advances (inside : walk ⊆ graph) {root : String} {search : Search}
    (clean : Clean walk [] search.done) (spares : (visitRoot graph search root).Spares graph walk) :
    Advances walk [] (· = root) search (visitRoot graph search root) := by
  unfold visitRoot at spares ⊢
  split at spares
  · rename_i isDone
    rw [if_pos isDone]
    exact ⟨clean, List.Subset.refl _, fun _ same => same ▸ isDone⟩
  · rename_i notDone
    rw [if_neg notDone]
    exact visit_advances inside (isPath_singleton graph (root, false)) (by simp)
      (clean.extend notDone) spares

end Spared

/-- In a list in which nodes lead back, the place of a node is in front of those it leads to. -/
theorem Finished.idxOf_lt {graph : List Edge} {done : List String} (finished : Finished graph done)
    {edge : Edge} (member : edge ∈ graph) (isDone : edge.source ∈ done) (distinct : done.Nodup) :
    done.idxOf edge.source < done.idxOf edge.target := by
  induction done with
  | nil => cases isDone
  | cons node rest ih =>
      obtain ⟨edges, finished⟩ := finished
      obtain ⟨fresh, distinct⟩ := List.nodup_cons.mp distinct
      by_cases first : edge.source = node
      · have later := edges edge member first
        have different : node ≠ edge.target := fun same => fresh (same ▸ later)
        rw [first, List.idxOf_cons_self, List.idxOf_cons_ne _ different]
        exact Nat.succ_pos _
      · have inRest := (List.mem_cons.mp isDone).resolve_left first
        by_cases target : edge.target = node
        · -- the node that the search was done with last is reached by no earlier one
          exact absurd (finished.mem_of_mem member inRest) (target ▸ fresh)
        · rw [List.idxOf_cons_ne _ (Ne.symm first), List.idxOf_cons_ne _ (Ne.symm target)]
          exact Nat.succ_lt_succ (ih finished inRest distinct)

/-- **Ranks rise along edges that start at roots and close no cycle that is found.** -/
theorem exists_rank_of_spares {graph walk : List Edge} {roots : List String} (inside : walk ⊆ graph)
    (spares : ∀ cycle ∈ cycles graph roots, ∀ edge ∈ walk, ¬ cycle.ClosedBy graph edge) :
    ∃ rank : String → Nat, ∀ edge ∈ walk, edge.source ∈ roots →
      rank edge.source < rank edge.target := by
  have start : Clean walk [] (⟨[], []⟩ : Search).done := ⟨trivial, List.nodup_nil, by simp⟩
  have visited := Advances.foldl (fun root node => node = root) (visitRoot_cycles_grow graph)
    (fun root _ search clean spares => visitRoot_advances inside clean spares) start spares
  refine ⟨fun node => List.idxOf node (roots.foldl (visitRoot graph) ⟨[], []⟩).done,
    fun edge member root => ?_⟩
  exact visited.clean.finished.idxOf_lt member (visited.reached edge.source ⟨_, root, rfl⟩)
    visited.clean.distinct

/-- **Where no cycle is found, ranks rise along every edge that starts at a root.** -/
theorem exists_rank_of_cycles_eq_nil {graph : List Edge} {roots : List String}
    (none : cycles graph roots = []) :
    ∃ rank : String → Nat, ∀ edge ∈ graph, edge.source ∈ roots →
      rank edge.source < rank edge.target :=
  exists_rank_of_spares (List.Subset.refl graph) (by simp [none])

end WorkflowGraph.Graph
