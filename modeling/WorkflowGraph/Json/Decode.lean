/-
Decoders: from readings to values of other types.

A decoder goes through a reading from left to right and stops at the first fault. Some faults depend
on where the reading comes from, its `Origin`: a text that is still being read, a value in hand, or
the content of a tagged object, which is taken in whole before its tag is known.

Records are written as objects, or as arrays of their fields in order. Alternatives are written as a
name, or as an object whose one member is the name and what it carries. Tagged alternatives are
objects with the name in a member of their own, or arrays that start with it.
-/

import WorkflowGraph.Json.Scan

namespace WorkflowGraph.Json

/-- Where a reading comes from. -/
inductive Origin where
  /-- A text that is still being read. -/
  | streamed
  /-- A value in hand. -/
  | held
  /-- The content of a tagged object, taken in before its tag is known. -/
  | buffered
deriving DecidableEq

/-- A way to make a value of type `α` out of a reading. -/
def Decoder (α : Type) : Type :=
  Origin → Reading → Except Fault α

namespace Decoder

variable {α β : Type}

/-- Decodes a text. Nothing but blanks may follow the value. -/
def decodeText (decoder : Decoder α) (text : String) : Except Fault α := do
  let (reading, rest) := readText text
  let value ← decoder .streamed reading
  if (skipBlank (rest.getD [])).isEmpty then return value else throw .malformed

/-- Decodes a value in hand. -/
def decodeJson (decoder : Decoder α) (value : Json) : Except Fault α :=
  decoder .held (Reading.ofJson value)

/-- The fault of a reading that is not of the kind wanted. -/
def unexpected : Reading → Fault
  | .blocked obstacle => obstacle.taken
  | _ => .mismatch

/-- The decoded value put through a function. -/
def map (f : α → β) (decoder : Decoder α) : Decoder β :=
  fun origin reading => (decoder origin reading).map f

/-! ### Plain values -/

/-- Any JSON value. -/
def json : Decoder Json :=
  fun _ reading => reading.take

/-- A string. -/
def string : Decoder String
  | _, .string s => .ok s
  | _, reading => .error (unexpected reading)

/-- A truth value. -/
def bool : Decoder Bool
  | _, .bool b => .ok b
  | _, reading => .error (unexpected reading)

/-- A natural number below a bound. -/
def natBelow (bound : Nat) : Decoder Nat
  | _, .number (.integer (.ofNat n)) => if n < bound then .ok n else .error .mismatch
  | _, reading => .error (unexpected reading)

/-- A value, or null for none. -/
def option (decoder : Decoder α) : Decoder (Option α)
  | _, .null => .ok none
  | origin, reading => (decoder origin reading).map some

/-- An array of values. -/
def list (decoder : Decoder α) : Decoder (List α)
  | origin, .array items stop => do
    let values ← items.mapM (decoder origin)
    Reading.takeStop stop
    return values
  | _, reading => .error (unexpected reading)

/-- An object of values under any names. Of members with one name the last counts. -/
def table (decoder : Decoder α) : Decoder (Table α)
  | origin, .object members stop => do
    let entries ← members.mapM fun member => return (member.1, ← decoder origin member.2)
    Reading.takeStop stop
    return Table.ofList entries
  | _, reading => .error (unexpected reading)

/-! ### Records -/

/-- The fields of a record: their names in order, how a field's value is looked at on the way, and
how the record is put together once all values have been met. -/
structure Fields (α : Type) where
  names : List String
  inspect : Origin → String → Reading → Except Fault Unit
  assemble : Origin → (String → Option Reading) → Except Fault α

namespace Fields

/-- A field that has to be there. -/
def required (name : String) (decoder : Decoder α) : Fields α where
  names := [name]
  inspect origin _ reading := (decoder origin reading).map fun _ => ()
  assemble origin find :=
    match find name with
    | some reading => decoder origin reading
    | none => .error .mismatch

/-- A field that has a value of its own where it is missing. -/
def defaulted (name : String) (decoder : Decoder α) (value : α) : Fields α where
  names := [name]
  inspect origin _ reading := (decoder origin reading).map fun _ => ()
  assemble origin find :=
    match find name with
    | some reading => decoder origin reading
    | none => .ok value

/-- A field that may be missing or null. -/
def optional (name : String) (decoder : Decoder α) : Fields (Option α) :=
  defaulted name decoder.option none

/-- Fields put through a function. -/
def map (f : α → β) (fields : Fields α) : Fields β where
  names := fields.names
  inspect := fields.inspect
  assemble origin find := (fields.assemble origin find).map f

/-- Fields followed by further fields. -/
def andThen (first : Fields (α → β)) (second : Fields α) : Fields β where
  names := first.names ++ second.names
  inspect origin name reading :=
    if name ∈ first.names then first.inspect origin name reading
    else second.inspect origin name reading
  assemble origin find := do
    let f ← first.assemble origin find
    let a ← second.assemble origin find
    return f a

instance : Functor Fields where
  map := map

instance : Seq Fields where
  seq first second := andThen first (second ())

/-- Looks at the members of an object from left to right. A name of the record may occur once; a
member of another name is passed over. -/
def inspectMembers (fields : Fields α) (origin : Origin) (seen : List String) :
    List (String × Reading) → Except Fault Unit
  | [] => .ok ()
  | (name, reading) :: rest => do
    if name ∈ fields.names then
      if name ∈ seen then throw .mismatch
      if origin = .streamed then fields.inspect origin name reading
      inspectMembers fields origin (name :: seen) rest
    else
      match reading.passFault with
      | some fault => throw fault
      | none => inspectMembers fields origin seen rest

/-- Looks at the items of an array from left to right, each as the field in its place. -/
def inspectItems (fields : Fields α) (origin : Origin) :
    List String → List Reading → Except Fault Unit
  | name :: names, reading :: rest => do
    if origin = .streamed then fields.inspect origin name reading
    inspectItems fields origin names rest
  | _, _ => .ok ()

end Fields

/-- A record, written as an object or as an array of its fields. -/
def record (fields : Fields α) : Decoder α
  | origin, .object members stop => do
    fields.inspectMembers origin [] members
    Reading.takeStop stop
    fields.assemble origin fun name => members.lookup name
  | origin, .array items stop => do
    fields.inspectItems origin fields.names items
    if fields.names.length < items.length then
      throw (if origin = .streamed then .malformed else .mismatch)
    Reading.takeStop stop
    fields.assemble origin fun name => (fields.names.zip items).lookup name
  | _, reading => .error (unexpected reading)

/-- The record that an alternative carries. Of a value in hand it has to be an object. -/
def carriedRecord (fields : Fields α) : Decoder α
  | .held, .array _ _ => .error .mismatch
  | origin, reading => record fields origin reading

/-! ### Alternatives -/

/-- What an alternative that carries nothing may be given: null, or in buffered content an object
without members. -/
def nothing (value : α) : Decoder α
  | _, .null => .ok value
  | .buffered, .object [] none => .ok value
  | _, reading => .error (unexpected reading)

/-- One of several named alternatives: those that carry nothing with their values, the others with
decoders for what they carry. -/
def alternatives (plain : List (String × α)) (carrying : List (String × Decoder α)) : Decoder α :=
  let carried (name : String) : Decoder α := fun origin reading =>
    match carrying.lookup name, plain.lookup name with
    | some decoder, _ => decoder origin reading
    | none, some value => nothing value origin reading
    | none, none => .error .mismatch
  fun origin reading =>
    match origin, reading with
    | _, .string name =>
      match plain.lookup name with
      | some value => .ok value
      | none => .error .mismatch
    | .streamed, .object [] stop =>
      .error ((stop.map Obstacle.chosen).getD .malformed)
    | .streamed, .object ((name, reading) :: rest) stop => do
      let value ← carried name .streamed reading
      match rest, stop with
      | [], none => return value
      | [], some obstacle => throw obstacle.chosen
      | _ :: _, _ => throw .malformed
    | .streamed, .blocked obstacle => .error obstacle.chosen
    | .streamed, _ => .error .malformed
    | origin, .object [(name, reading)] none => carried name origin reading
    | _, _ => .error .mismatch

/-- The decoder that a tag selects. In buffered content the place of a name among the names may
stand for it. -/
def selected (variants : List (String × Decoder α)) : Origin → Reading → Except Fault (Decoder α)
  | _, .string name =>
    match variants.lookup name with
    | some decoder => .ok decoder
    | none => .error .mismatch
  | .buffered, .number (.integer (.ofNat place)) =>
    match variants[place]? with
    | some variant => .ok variant.2
    | none => .error .mismatch
  | _, reading => .error (unexpected reading)

/-- Goes through the members of a tagged object from left to right: the tag selects, everything else
is taken in. -/
def selectMember (tag : String) (variants : List (String × Decoder α)) (origin : Origin)
    (found : Option (Decoder α)) : List (String × Reading) → Except Fault (Option (Decoder α))
  | [] => .ok found
  | (name, reading) :: rest => do
    if name = tag then
      if found.isSome then throw .mismatch
      let decoder ← selected variants origin reading
      selectMember tag variants origin (some decoder) rest
    else
      if origin = .streamed then let _ ← reading.take
      selectMember tag variants origin found rest

/-- One of several alternatives told apart by the name in the member `tag`. -/
def tagged (tag : String) (variants : List (String × Decoder α)) : Decoder α
  | origin, .object members stop => do
    let found ← selectMember tag variants origin none members
    Reading.takeStop stop
    match found with
    | none => throw .mismatch
    | some decoder => decoder .buffered (.object (members.filter fun member => member.1 ≠ tag) none)
  | _, .array [] stop => do
    Reading.takeStop stop
    throw .mismatch
  | origin, .array (first :: rest) stop => do
    let decoder ← selected variants origin first
    if origin = .streamed then let _ ← Reading.takeItems rest
    Reading.takeStop stop
    decoder .buffered (.array rest none)
  | _, reading => .error (unexpected reading)

/-- A tagged alternative without content of its own. -/
def bare (value : α) : Decoder α
  | _, .array (_ :: _) _ => .error .mismatch
  | _, _ => .ok value

end Decoder

end WorkflowGraph.Json
