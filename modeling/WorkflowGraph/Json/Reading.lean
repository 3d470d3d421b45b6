/-
What a reader makes of a JSON text.

A `Reading` is the tree of a text as far as the text can be followed. Where it cannot, the tree
holds an `Obstacle`, which says what becomes of each kind of reader that arrives there: one that
takes the value in, one that only passes over it, and one that looks for the name of an alternative.
A reader goes through the tree from left to right, so the first thing wrong with a text, be it the
text or what the text says, is the one that is reported.
-/

import WorkflowGraph.Json.Value

namespace WorkflowGraph.Json

/-- Why a text does not give the value that is wanted. -/
inductive Fault where
  /-- The text ends too early. -/
  | ended
  /-- The text is not JSON. -/
  | malformed
  /-- The text is JSON, of another shape than wanted. -/
  | mismatch
deriving DecidableEq

/-- A place where a text cannot be followed. -/
structure Obstacle where
  /-- What a reader meets that takes the value in. -/
  taken : Fault
  /-- What a reader meets that passes over the value, if it is stopped at all. -/
  passed : Option Fault
  /-- What a reader meets that looks for the name of an alternative. -/
  chosen : Fault
deriving DecidableEq

/-- The obstacle that stops every reader for the same reason. -/
def Obstacle.all (fault : Fault) : Obstacle :=
  ⟨fault, some fault, fault⟩

/-- The obstacle behind a comma. An alternative is the only member of its object, so a reader that
looks for one is stopped by the comma. -/
def Obstacle.afterComma (obstacle : Obstacle) : Obstacle :=
  { obstacle with chosen := .malformed }

/-- The tree of a text as far as it can be followed. A container that is not closed holds the
obstacle that stands after its last item or member. -/
inductive Reading where
  | null
  | bool (value : Bool)
  | number (value : Number)
  | string (value : String)
  | array (items : List Reading) (stop : Option Obstacle)
  | object (members : List (String × Reading)) (stop : Option Obstacle)
  | blocked (obstacle : Obstacle)

namespace Reading

/-! ### Passing over a value -/

/-- What stops a reader that passes over the end of a container. -/
def passStop : Option Obstacle → Option Fault
  | none => none
  | some obstacle => obstacle.passed

mutual

/-- What stops a reader that passes over a value. -/
def passFault : Reading → Option Fault
  | null | bool _ | number _ | string _ => none
  | array items stop => passItems items stop
  | object members stop => passMembers members stop
  | blocked obstacle => obstacle.passed

/-- What stops a reader that passes over items and the end of their array. -/
def passItems : List Reading → Option Obstacle → Option Fault
  | [], stop => passStop stop
  | item :: rest, stop =>
    match passFault item with
    | some fault => some fault
    | none => passItems rest stop

/-- What stops a reader that passes over members and the end of their object. -/
def passMembers : List (String × Reading) → Option Obstacle → Option Fault
  | [], stop => passStop stop
  | (_, value) :: rest, stop =>
    match passFault value with
    | some fault => some fault
    | none => passMembers rest stop

end

/-! ### Taking a value in -/

/-- Goes on past the end of a container, if it is closed. -/
def takeStop : Option Obstacle → Except Fault Unit
  | none => .ok ()
  | some obstacle => .error obstacle.taken

mutual

/-- The value of a reading. Of members with one name the last counts. -/
def take : Reading → Except Fault Json
  | null => .ok .null
  | bool b => .ok (.bool b)
  | number n => .ok (.number n)
  | string s => .ok (.string s)
  | array items stop => do
    let values ← takeItems items
    takeStop stop
    return .array values
  | object members stop => do
    let values ← takeMembers members []
    takeStop stop
    return .object values
  | blocked obstacle => .error obstacle.taken

/-- The values of items, from the first to the last. -/
def takeItems : List Reading → Except Fault (List Json)
  | [] => .ok []
  | item :: rest => do
    let value ← take item
    let values ← takeItems rest
    return value :: values

/-- The values of members added to those before them, from the first to the last. -/
def takeMembers : List (String × Reading) → List (String × Json) →
    Except Fault (List (String × Json))
  | [], before => .ok before
  | (name, value) :: rest, before => do
    let json ← take value
    takeMembers rest (setMember before name json)

end

/-! ### Readings of values in hand -/

mutual

/-- The reading of a value, in which nothing is in the way. -/
def ofJson : Json → Reading
  | .null => null
  | .bool b => bool b
  | .number n => number n
  | .string s => string s
  | .array items => array (ofItems items) none
  | .object members => object (ofMembers members) none

/-- The readings of items. -/
def ofItems : List Json → List Reading
  | [] => []
  | item :: rest => ofJson item :: ofItems rest

/-- The readings of members. -/
def ofMembers : List (String × Json) → List (String × Reading)
  | [] => []
  | (name, value) :: rest => (name, ofJson value) :: ofMembers rest

end

/-! ### Size -/

mutual

/-- How deep containers nest in a reading. -/
def height : Reading → Nat
  | array items _ => heightItems items + 1
  | object members _ => heightMembers members + 1
  | _ => 0

/-- The greatest height among items. -/
def heightItems : List Reading → Nat
  | [] => 0
  | item :: rest => max (height item) (heightItems rest)

/-- The greatest height among members. -/
def heightMembers : List (String × Reading) → Nat
  | [] => 0
  | (_, value) :: rest => max (height value) (heightMembers rest)

end

end Reading

end WorkflowGraph.Json
