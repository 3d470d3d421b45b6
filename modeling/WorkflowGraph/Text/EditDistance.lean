/-
The edit distance of two texts: the least number of insertions, deletions and replacements of single
characters that make one text of the other.

The distance is computed row by row. The row of a text `a` lists the distances of `a` to the
beginnings of `b`, from the empty one to `b` itself.
-/

namespace WorkflowGraph.Text

/-- The rest of the row after the text grows by `c`: `left` is the entry before, and the old row is
given from the entry above that one. -/
def nextRow (c : Char) (left : Nat) : List Char → List Nat → List Nat
  | d :: b, diagonal :: above :: row =>
    let entry := min (min (diagonal + if c = d then 0 else 1) (above + 1)) (left + 1)
    entry :: nextRow c entry b (above :: row)
  | _, _ => []

/-- The row of a text, from the row of a text that it extends at the end. -/
def rowAfter (b : List Char) : List Char → List Nat → List Nat
  | [], row => row
  | c :: a, row =>
    let first := row.headD 0 + 1
    rowAfter b a (first :: nextRow c first b row)

/-- The edit distance of two texts. -/
def editDistance (a b : List Char) : Nat :=
  (rowAfter b a (List.range (b.length + 1))).getLastD 0

end WorkflowGraph.Text
