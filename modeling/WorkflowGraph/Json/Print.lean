/-
The two printed forms of a JSON value.

`Json.compact` writes no blanks. `Json.pretty` gives every item and member a line of its own,
indented by two blanks for each level, and keeps empty containers on one line. Both keep the order
of the members and escape the same characters: the quote, the backslash and the control characters
below U+0020.
-/

import WorkflowGraph.Json.Decimal
import WorkflowGraph.Json.Value

namespace WorkflowGraph.Json

/-- The lower-case hexadecimal digit of a number below sixteen. -/
def hexDigit (n : Nat) : Char :=
  Nat.digitChar n

/-- A character as it stands in a printed string. -/
def escape (c : Char) : List Char :=
  if c = '"' then ['\\', '"']
  else if c = '\\' then ['\\', '\\']
  else if c.toNat < 0x20 then
    if c.toNat = 0x08 then ['\\', 'b']
    else if c.toNat = 0x09 then ['\\', 't']
    else if c.toNat = 0x0a then ['\\', 'n']
    else if c.toNat = 0x0c then ['\\', 'f']
    else if c.toNat = 0x0d then ['\\', 'r']
    else ['\\', 'u', '0', '0', hexDigit (c.toNat / 16), hexDigit (c.toNat % 16)]
  else [c]

/-- A text in quotes. -/
def quote (text : String) : List Char :=
  '"' :: text.toList.flatMap escape ++ ['"']

/-- The text of a number. -/
def Number.write : Number → List Char
  | integer (.ofNat n) => Decimal.digits n
  | integer (.negSucc n) => '-' :: Decimal.digits (n + 1)
  | real x => Decimal.write x

/-- The text of a truth value. -/
def writeBool (b : Bool) : List Char :=
  if b then ['t', 'r', 'u', 'e'] else ['f', 'a', 'l', 's', 'e']

/-- The text of null. -/
def writeNull : List Char :=
  ['n', 'u', 'l', 'l']

/-! ### Without blanks -/

mutual

/-- The characters of the compact form. -/
def compactChars : Json → List Char
  | null => writeNull
  | bool b => writeBool b
  | number n => n.write
  | string s => quote s
  | array [] => ['[', ']']
  | array (first :: rest) => '[' :: compactChars first ++ compactItems rest ++ [']']
  | object [] => ['\x7b', '\x7d']
  | object ((name, value) :: rest) =>
    '\x7b' :: quote name ++ ':' :: compactChars value ++ compactMembers rest ++ ['\x7d']

/-- The characters of further items, each after a comma. -/
def compactItems : List Json → List Char
  | [] => []
  | item :: rest => ',' :: compactChars item ++ compactItems rest

/-- The characters of further members, each after a comma. -/
def compactMembers : List (String × Json) → List Char
  | [] => []
  | (name, value) :: rest => ',' :: quote name ++ ':' :: compactChars value ++ compactMembers rest

end

/-- The compact text of a value. -/
def compact (value : Json) : String :=
  String.ofList (compactChars value)

/-! ### With lines -/

/-- A line break followed by the indentation of a level. -/
def newLine (level : Nat) : List Char :=
  '\n' :: List.replicate (2 * level) ' '

mutual

/-- The characters of the form with lines, for a value that stands at a level. -/
def prettyChars (level : Nat) : Json → List Char
  | null => writeNull
  | bool b => writeBool b
  | number n => n.write
  | string s => quote s
  | array [] => ['[', ']']
  | array (first :: rest) =>
    '[' :: newLine (level + 1) ++ prettyChars (level + 1) first ++ prettyItems (level + 1) rest ++
      newLine level ++ [']']
  | object [] => ['\x7b', '\x7d']
  | object ((name, value) :: rest) =>
    '\x7b' :: newLine (level + 1) ++ quote name ++ ':' :: ' ' :: prettyChars (level + 1) value ++
      prettyMembers (level + 1) rest ++ newLine level ++ ['\x7d']

/-- The characters of further items, each on a line of its own. -/
def prettyItems (level : Nat) : List Json → List Char
  | [] => []
  | item :: rest => ',' :: newLine level ++ prettyChars level item ++ prettyItems level rest

/-- The characters of further members, each on a line of its own. -/
def prettyMembers (level : Nat) : List (String × Json) → List Char
  | [] => []
  | (name, value) :: rest =>
    ',' :: newLine level ++ quote name ++ ':' :: ' ' :: prettyChars level value ++
      prettyMembers level rest

end

/-- The text of a value with a line for each item and member. -/
def pretty (value : Json) : String :=
  String.ofList (prettyChars 0 value)

end WorkflowGraph.Json
