/-
Search in directed graphs: which nodes can be reached from given ones.

A graph is given by the nodes that follow each node. The search goes on level by level from the
nodes found last, so it meets every node once.
-/

namespace WorkflowGraph.Graph

/-- The nodes found in at most `levels` further levels, where `found` have been found and `frontier`
are those of the last level. -/
def searchFrom (next : String → List String) : Nat → List String → List String → List String
  | 0, found, _ => found
  | levels + 1, found, frontier =>
    let fresh := (frontier.flatMap next).eraseDups.filter fun node => node ∉ found
    if fresh.isEmpty then found else searchFrom next levels (found ++ fresh) fresh

/-- The nodes that can be reached from `starts`, themselves included. At most `count` nodes follow
others in the graph. -/
def reached (next : String → List String) (count : Nat) (starts : List String) : List String :=
  searchFrom next count starts.eraseDups starts.eraseDups

end WorkflowGraph.Graph
