/-
JSON values.

A number is an integer between `-2 ^ 63` and `2 ^ 64 - 1`, or a binary floating-point number. The
members of an object are a list; an object taken in from a text has its members in increasing order
of their names, each name once, as `Json.setMember` leaves them.
-/

import WorkflowGraph.Table
import WorkflowGraph.Json.Binary

namespace WorkflowGraph

/-- A JSON number: an exact integer, or a floating-point number. -/
inductive Json.Number where
  | integer (value : Int)
  | real (value : Json.Binary)
deriving DecidableEq

/-- A JSON value. -/
inductive Json where
  | null
  | bool (value : Bool)
  | number (value : Json.Number)
  | string (value : String)
  | array (items : List Json)
  | object (members : List (String × Json))

namespace Json

instance : Inhabited Json :=
  ⟨null⟩

/-! ### Equality -/

mutual

/-- Whether two values are the same. -/
def decEq : (a b : Json) → Decidable (a = b)
  | null, null => isTrue rfl
  | bool x, bool y =>
    if same : x = y then isTrue (same ▸ rfl) else isFalse fun h => same (bool.inj h)
  | number x, number y =>
    if same : x = y then isTrue (same ▸ rfl) else isFalse fun h => same (number.inj h)
  | string x, string y =>
    if same : x = y then isTrue (same ▸ rfl) else isFalse fun h => same (string.inj h)
  | array xs, array ys =>
    match decEqItems xs ys with
    | isTrue same => isTrue (same ▸ rfl)
    | isFalse different => isFalse fun h => different (array.inj h)
  | object xs, object ys =>
    match decEqMembers xs ys with
    | isTrue same => isTrue (same ▸ rfl)
    | isFalse different => isFalse fun h => different (object.inj h)
  | null, bool _ | null, number _ | null, string _ | null, array _ | null, object _
  | bool _, null | bool _, number _ | bool _, string _ | bool _, array _ | bool _, object _
  | number _, null | number _, bool _ | number _, string _ | number _, array _ | number _, object _
  | string _, null | string _, bool _ | string _, number _ | string _, array _ | string _, object _
  | array _, null | array _, bool _ | array _, number _ | array _, string _ | array _, object _
  | object _, null | object _, bool _ | object _, number _ | object _, string _
  | object _, array _ =>
    isFalse (by simp)

/-- Whether two item lists are the same. -/
def decEqItems : (xs ys : List Json) → Decidable (xs = ys)
  | [], [] => isTrue rfl
  | [], _ :: _ | _ :: _, [] => isFalse (by simp)
  | x :: xs, y :: ys =>
    match decEq x y, decEqItems xs ys with
    | isTrue first, isTrue rest => isTrue (first ▸ rest ▸ rfl)
    | isFalse different, _ => isFalse fun h => different (List.cons.inj h).1
    | _, isFalse different => isFalse fun h => different (List.cons.inj h).2

/-- Whether two member lists are the same. -/
def decEqMembers : (xs ys : List (String × Json)) → Decidable (xs = ys)
  | [], [] => isTrue rfl
  | [], _ :: _ | _ :: _, [] => isFalse (by simp)
  | (name, x) :: xs, (other, y) :: ys =>
    if names : name = other then
      match decEq x y, decEqMembers xs ys with
      | isTrue first, isTrue rest => isTrue (names ▸ first ▸ rest ▸ rfl)
      | isFalse different, _ => isFalse fun h => different (Prod.mk.inj (List.cons.inj h).1).2
      | _, isFalse different => isFalse fun h => different (List.cons.inj h).2
    else isFalse fun h => names (Prod.mk.inj (List.cons.inj h).1).1

end

instance : DecidableEq Json :=
  decEq

/-! ### Access -/

/-- The value of an object's member, if the value is an object that has it. -/
def member? (value : Json) (name : String) : Option Json :=
  match value with
  | object members => members.lookup name
  | _ => none

/-- Members with `name` set to `value`, in increasing order of the names. -/
def setMember (members : List (String × Json)) (name : String) (value : Json) :
    List (String × Json) :=
  Table.insertEntry name value members

/-- An integer. -/
def ofNat (n : Nat) : Json :=
  number (.integer n)

/-- A list of texts. -/
def ofStrings (texts : List String) : Json :=
  array (texts.map string)

/-- A value, or null where there is none. -/
def ofOption {α : Type} (encode : α → Json) : Option α → Json
  | none => null
  | some a => encode a

/-- A member that is left out where there is no value. -/
def optionalMember {α : Type} (name : String) (encode : α → Json) (value : Option α) :
    List (String × Json) :=
  (value.map fun a => (name, encode a)).toList

/-- A member that is left out where the list is empty. -/
def listMember {α : Type} (name : String) (encode : α → Json) (values : List α) :
    List (String × Json) :=
  if values.isEmpty then [] else [(name, array (values.map encode))]

end Json

end WorkflowGraph
