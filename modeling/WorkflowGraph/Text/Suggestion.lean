/-
The known name that a misspelled name was meant to be.

Case does not matter. A known name that contains the name, or is contained in it, is taken first;
otherwise the one with the least edit distance, if that is at most two. Of equals the earliest is
taken, and the name itself is never suggested.
-/

import WorkflowGraph.Text.EditDistance
import WorkflowGraph.Text.Lowercase

namespace WorkflowGraph.Text

/-- The greatest edit distance of a suggestion. -/
def suggestionReach : Nat := 2

/-- Whether a text occurs in another. -/
def occursIn (part : List Char) : List Char → Bool
  | [] => part.isEmpty
  | c :: rest => part.isPrefixOf (c :: rest) || occursIn part rest

/-- Whether two texts are not empty and one occurs in the other. -/
def overlap (a b : List Char) : Bool :=
  !a.isEmpty && !b.isEmpty && (occursIn a b || occursIn b a)

/-- The nearest of several names within reach, the earliest of equals; `best` is the nearest so
far. -/
def nearest (name : List Char) (best : Option (Nat × String)) : List String → Option (Nat × String)
  | [] => best
  | candidate :: rest =>
    let distance := editDistance name (lower candidate.toList)
    let better := distance ≤ suggestionReach && best.all fun found => distance < found.1
    nearest name (if better then some (distance, candidate) else best) rest

/-- The known name that `name` was meant to be. -/
def closest (name : String) (known : List String) : Option String :=
  let meant := lower name.toList
  let candidates := known.filter fun candidate => candidate ≠ name
  match candidates.find? fun candidate => overlap meant (lower candidate.toList) with
  | some found => some found
  | none => (nearest meant none candidates).map (·.2)

end WorkflowGraph.Text
