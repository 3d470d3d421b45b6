/-
Cycles in directed graphs.

A graph is a list of edges between named nodes; an edge may be marked. The search goes depth first
from given roots and reports one cycle for each edge that leads back to a node it is still working
on. `addEdge` joins a second edge between the same nodes with the first.
-/

namespace WorkflowGraph.Graph

/-- An edge between two nodes. -/
structure Edge where
  source : String
  target : String
  marked : Bool
deriving DecidableEq

/-- The edges with one more; of edges between the same nodes one is kept, marked if any of them
is. -/
def addEdge (edge : Edge) : List Edge → List Edge
  | [] => [edge]
  | other :: rest =>
    if other.source = edge.source ∧ other.target = edge.target then
      { other with marked := other.marked || edge.marked } :: rest
    else other :: addEdge edge rest

/-- The graph of a list of edges. -/
def ofEdges (edges : List Edge) : List Edge :=
  edges.foldl (fun graph edge => addEdge edge graph) []

/-- A cycle: its nodes, with the first one again at the end, and whether one of its edges is
marked. -/
structure Cycle where
  nodes : List String
  marked : Bool
deriving DecidableEq

/-- What the search knows: the nodes it is done with, and the cycles it has found. -/
structure Search where
  done : List String
  cycles : List Cycle

/-- The cycle that an edge closes with the path that leads to its source. A step of the path is a
node and whether the edge to it is marked. -/
def closeCycle (path : List (String × Bool)) (edge : Edge) : Option Cycle :=
  match path.dropWhile fun step => step.1 ≠ edge.target with
  | [] => none
  | first :: rest =>
    some
      { nodes := first.1 :: rest.map (·.1) ++ [edge.target]
        marked := edge.marked || rest.any (·.2) }

/-- Follows an edge from the end of a path: back to the path it closes a cycle, a new node is
visited by `visit`. -/
def followEdge (visit : List (String × Bool) → Search → Search) (path : List (String × Bool))
    (search : Search) (edge : Edge) : Search :=
  match closeCycle path edge with
  | some cycle => { search with cycles := search.cycles ++ [cycle] }
  | none =>
    if edge.target ∈ search.done then search
    else visit (path ++ [(edge.target, edge.marked)]) search

/-- Visits the last node of a path: follows its edges, and is done with it then. -/
def visit (graph : List Edge) : Nat → String → List (String × Bool) → Search → Search
  | 0, _, _, search => search
  | fuel + 1, node, path, search =>
    let edges := graph.filter fun edge => edge.source = node
    let search := edges.foldl
      (fun search edge =>
        followEdge (fun path search => visit graph fuel edge.target path search) path search edge)
      search
    { search with done := node :: search.done }

/-- Visits a root, unless the search is done with it. -/
def visitRoot (graph : List Edge) (search : Search) (root : String) : Search :=
  if root ∈ search.done then search
  else visit graph (graph.length + 1) root [(root, false)] search

/-- The cycles of a graph that the search finds from roots, in the order in which it finds them. -/
def cycles (graph : List Edge) (roots : List String) : List Cycle :=
  (roots.foldl (visitRoot graph) ⟨[], []⟩).cycles

end WorkflowGraph.Graph
