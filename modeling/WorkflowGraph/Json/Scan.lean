/-
From a text to its reading.

Strings and numbers are scanned into their parts, containers are followed recursively. Containers
nest fewer than `nestingLimit` deep; a deeper one can be passed over but not taken in. The same
holds of a number that is too large for a finite one, and of a string with a surrogate that has no
partner.
-/

import WorkflowGraph.Json.Reading

namespace WorkflowGraph.Json

/-- Whether a character is blank space between the parts of a text. -/
def isBlank (c : Char) : Bool :=
  c == ' ' || c == '\n' || c == '\t' || c == '\r'

/-- The text from its first character that is not blank. -/
def skipBlank (text : List Char) : List Char :=
  text.dropWhile isBlank

/-! ### Words -/

/-- Follows a word whose first character has been met. -/
def scanWord : List Char → List Char → Except Fault (List Char)
  | [], rest => .ok rest
  | _ :: _, [] => .error .ended
  | expected :: word, c :: rest => if c = expected then scanWord word rest else .error .malformed

/-! ### Strings -/

/-- How a string ends: at its closing quote, with the text it stands for and what follows, or at a
fault. Both say whether every surrogate up to there has its partner. -/
inductive StringEnd where
  | closed (text : List Char) (paired : Bool) (rest : List Char)
  | broken (fault : Fault) (paired : Bool)

/-- A string end with a character put before its text. -/
def StringEnd.push (c : Char) : StringEnd → StringEnd
  | closed text paired rest => closed (c :: text) paired rest
  | broken fault paired => broken fault paired

/-- The value of a hexadecimal digit. -/
def hexValue (c : Char) : Option Nat :=
  if '0' ≤ c ∧ c ≤ '9' then some (c.toNat - '0'.toNat)
  else if 'a' ≤ c ∧ c ≤ 'f' then some (c.toNat - 'a'.toNat + 10)
  else if 'A' ≤ c ∧ c ≤ 'F' then some (c.toNat - 'A'.toNat + 10)
  else none

/-- The code unit of four hexadecimal digits. -/
def codeUnit (a b c d : Char) : Option Nat := do
  return (((← hexValue a) * 16 + (← hexValue b)) * 16 + (← hexValue c)) * 16 + (← hexValue d)

/-- Whether a code unit is the first half of a surrogate pair. -/
def isLeading (unit : Nat) : Bool :=
  0xD800 ≤ unit && unit ≤ 0xDBFF

/-- Whether a code unit is the second half of a surrogate pair. -/
def isTrailing (unit : Nat) : Bool :=
  0xDC00 ≤ unit && unit ≤ 0xDFFF

/-- The character a surrogate pair stands for. -/
def pairChar (leading trailing : Nat) : Char :=
  Char.ofNat ((leading - 0xD800) * 0x400 + (trailing - 0xDC00) + 0x10000)

/-- The character that a backslash and a letter stand for. -/
def escapedChar (c : Char) : Option Char :=
  if c = '"' then some '"'
  else if c = '\\' then some '\\'
  else if c = '/' then some '/'
  else if c = 'b' then some '\x08'
  else if c = 'f' then some '\x0c'
  else if c = 'n' then some '\n'
  else if c = 'r' then some '\r'
  else if c = 't' then some '\t'
  else none

/-- How many bytes a text takes in UTF-8. -/
def byteLength (text : List Char) : Nat :=
  text.foldr (fun c length => c.utf8Size + length) 0

/-- Scans a string after its opening quote. `leading` is the first half of a surrogate pair that has
just been met, `paired` whether all surrogates before it have their partners. -/
def scanString (leading : Option Nat) (paired : Bool) : List Char → StringEnd
  | [] => .broken .ended paired
  | '"' :: rest => .closed [] (paired && leading.isNone) rest
  | '\\' :: 'u' :: a :: b :: c :: d :: rest =>
    match codeUnit a b c d, leading with
    | none, _ => .broken .malformed paired
    | some unit, some first =>
      if isTrailing unit then (scanString none paired rest).push (pairChar first unit)
      else scanString none false rest
    | some unit, none =>
      if isLeading unit then scanString (some unit) paired rest
      else if isTrailing unit then scanString none false rest
      else (scanString none paired rest).push (Char.ofNat unit)
  | '\\' :: 'u' :: rest => .broken (if byteLength rest < 4 then .ended else .malformed) paired
  | '\\' :: c :: rest =>
    match escapedChar c with
    | none => .broken .malformed paired
    | some meant => (scanString none (paired && leading.isNone) rest).push meant
  | ['\\'] => .broken .ended paired
  | c :: rest =>
    if c.toNat < 0x20 then .broken .malformed paired
    else (scanString none (paired && leading.isNone) rest).push c

/-- The obstacle of a string that breaks off. -/
def brokenString (fault : Fault) (paired : Bool) : Obstacle :=
  let taken := if paired then fault else .malformed
  ⟨taken, some fault, taken⟩

/-! ### Numbers -/

/-- The parts of a number as it is written. -/
structure Literal where
  negative : Bool
  /-- The digits before the point. -/
  whole : List Char
  /-- The digits after the point, empty if there is no point. -/
  fraction : List Char
  /-- The sign and the digits of the exponent. -/
  exponent : Option (Bool × List Char)

/-- The value of a decimal digit. -/
def digitValue (c : Char) : Nat :=
  c.toNat - '0'.toNat

/-- The number that digits stand for. -/
def digitsValue (ds : List Char) : Nat :=
  ds.foldl (fun n d => n * 10 + digitValue d) 0

/-- Integers and significands are kept exactly up to here. -/
def significandLimit : Nat := Nat.pow 2 64

/-- Takes digits into a significand for as long as it stays below the limit; the rest is left. -/
def takeDigits (significand : Nat) : List Char → Nat × List Char
  | [] => (significand, [])
  | d :: rest =>
    let next := significand * 10 + digitValue d
    if next < significandLimit then takeDigits next rest else (significand, d :: rest)

/-- The exponent a literal gives. -/
def Literal.power (literal : Literal) : Int :=
  match literal.exponent with
  | none => 0
  | some (negative, ds) => if negative then -(digitsValue ds : Int) else digitsValue ds

/-- The number a literal stands for, unless it is too large. Digits beyond the significand count by
their place only. -/
def Literal.value (literal : Literal) : Option Number :=
  let (whole, dropped) := takeDigits 0 literal.whole
  let isInteger := literal.fraction.isEmpty && literal.exponent.isNone && dropped.isEmpty
  if isInteger && !literal.negative then some (.integer whole)
  else if isInteger && 0 < whole && whole ≤ Nat.pow 2 63 then some (.integer (-(whole : Int)))
  else
    let (significand, ignored) := takeDigits whole literal.fraction
    let places : Int := (dropped.length : Int) - ((literal.fraction.length : Int) - ignored.length)
    (Binary.ofDecimal literal.negative significand (places + literal.power)).map .real

/-- What is wrong where a digit is missing before `rest`. -/
def missingDigit (rest : List Char) : Fault :=
  if rest.isEmpty then .ended else .malformed

/-- Scans the exponent of a number, if it has one. -/
def scanExponent : List Char → Except Fault (Option (Bool × List Char) × List Char)
  | [] => .ok (none, [])
  | c :: rest =>
    if c = 'e' ∨ c = 'E' then
      let (negative, rest) := match rest with
        | '+' :: rest => (false, rest)
        | '-' :: rest => (true, rest)
        | rest => (false, rest)
      let ds := rest.takeWhile Char.isDigit
      if ds.isEmpty then .error (missingDigit rest)
      else .ok (some (negative, ds), rest.dropWhile Char.isDigit)
    else .ok (none, c :: rest)

/-- Scans the fraction of a number, if it has one. -/
def scanFraction : List Char → Except Fault (List Char × List Char)
  | [] => .ok ([], [])
  | c :: rest =>
    if c = '.' then
      let ds := rest.takeWhile Char.isDigit
      if ds.isEmpty then .error (missingDigit rest)
      else .ok (ds, rest.dropWhile Char.isDigit)
    else .ok ([], c :: rest)

/-- Scans a number. -/
def scanNumber (text : List Char) : Except Fault (Literal × List Char) := do
  let (negative, text) := match text with
    | '-' :: rest => (true, rest)
    | text => (false, text)
  let whole := text.takeWhile Char.isDigit
  let rest := text.dropWhile Char.isDigit
  match whole with
  | [] => throw (missingDigit text)
  | '0' :: _ :: _ => throw .malformed
  | _ =>
    let (fraction, rest) ← scanFraction rest
    let (exponent, rest) ← scanExponent rest
    return (⟨negative, whole, fraction, exponent⟩, rest)

/-! ### Values -/

/-- Containers nest fewer levels than this. -/
def nestingLimit : Nat := 128

/-- A container, or the obstacle it is where it nests too deep. -/
def nested (depth : Nat) (container : Reading) : Reading :=
  if depth + 1 < nestingLimit then container
  else .blocked ⟨.malformed, container.passFault, .malformed⟩

/-- The reading of a word that starts with a given character. -/
def readWord (word : List Char) (value : Reading) (text : List Char) :
    Reading × Option (List Char) :=
  match scanWord word text with
  | .ok rest => (value, some rest)
  | .error fault => (.blocked ⟨fault, some fault, .malformed⟩, none)

/-- The reading of a number. -/
def readNumber (text : List Char) : Reading × Option (List Char) :=
  match scanNumber text with
  | .error fault => (.blocked ⟨fault, some .malformed, .malformed⟩, none)
  | .ok (literal, rest) =>
    match literal.value with
    | some value => (.number value, some rest)
    | none => (.blocked ⟨.malformed, none, .malformed⟩, some rest)

/-- The reading of a string, after its opening quote. -/
def readString (text : List Char) : Reading × Option (List Char) :=
  match scanString none true text with
  | .closed text true rest => (.string (String.ofList text), some rest)
  | .closed _ false rest => (.blocked ⟨.malformed, none, .malformed⟩, some rest)
  | .broken fault paired => (.blocked (brokenString fault paired), none)

mutual

/-- The reading of the value at the start of a text inside `depth` containers, and the text after it
where that can be told. -/
def readValue : Nat → Nat → List Char → Reading × Option (List Char)
  | 0, _, _ => (.blocked (.all .ended), none)
  | fuel + 1, depth, text =>
    match skipBlank text with
    | [] => (.blocked (.all .ended), none)
    | 'n' :: rest => readWord ['u', 'l', 'l'] .null rest
    | 't' :: rest => readWord ['r', 'u', 'e'] (.bool true) rest
    | 'f' :: rest => readWord ['a', 'l', 's', 'e'] (.bool false) rest
    | '"' :: rest => readString rest
    | '[' :: rest =>
      match skipBlank rest with
      | [] => (nested depth (.array [] (some (.all .ended))), none)
      | ']' :: rest => (nested depth (.array [] none), some rest)
      | rest =>
        let (items, stop, after) := readItems fuel (depth + 1) rest
        (nested depth (.array items stop), after)
    | '\x7b' :: rest =>
      match skipBlank rest with
      | [] => (nested depth (.object [] (some (.all .ended))), none)
      | '\x7d' :: rest => (nested depth (.object [] none), some rest)
      | '"' :: rest =>
        let (members, stop, after) := readMembers fuel (depth + 1) rest
        (nested depth (.object members stop), after)
      | _ => (nested depth (.object [] (some (.all .malformed))), none)
    | c :: rest =>
      if c = '-' ∨ c.isDigit then readNumber (c :: rest) else (.blocked (.all .malformed), none)

/-- The items of an array from the place where one of them starts. -/
def readItems : Nat → Nat → List Char → List Reading × Option Obstacle × Option (List Char)
  | 0, _, _ => ([], some (.all .ended), none)
  | fuel + 1, depth, text =>
    match readValue fuel depth text with
    | (item, none) => ([item], none, none)
    | (item, some rest) =>
      match skipBlank rest with
      | [] => ([item], some (.all .ended), none)
      | ']' :: rest => ([item], none, some rest)
      | ',' :: rest =>
        let (items, stop, after) := readItems fuel depth rest
        (item :: items, stop, after)
      | _ => ([item], some (.all .malformed), none)

/-- The members of an object from the place after the opening quote of a name. -/
def readMembers : Nat → Nat → List Char →
    List (String × Reading) × Option Obstacle × Option (List Char)
  | 0, _, _ => ([], some (.all .ended), none)
  | fuel + 1, depth, text =>
    match scanString none true text with
    | .broken fault paired => ([], some (brokenString fault paired), none)
    | .closed name paired rest =>
      let (value, after) := match skipBlank rest with
        | ':' :: rest => readValue fuel depth rest
        | [] => (.blocked (.all .ended), none)
        | _ => (.blocked (.all .malformed), none)
      let (members, stop, after) := match after with
        | none => ([], none, none)
        | some rest =>
          match skipBlank rest with
          | [] => ([], some (.all .ended), none)
          | '\x7d' :: rest => ([], none, some rest)
          | ',' :: rest =>
            match skipBlank rest with
            | [] => ([], some ⟨.ended, some .ended, .malformed⟩, none)
            | '"' :: rest =>
              let (members, stop, after) := readMembers fuel depth rest
              (members, stop.map Obstacle.afterComma, after)
            | _ => ([], some (.all .malformed), none)
          | _ => ([], some (.all .malformed), none)
      if paired then ((String.ofList name, value) :: members, stop, after)
      else
        let passed := (Reading.object (("", value) :: members) stop).passFault
        ([], some ⟨.malformed, passed, .malformed⟩, after)

end

/-- The reading of a text, and the text after the value where that can be told. -/
def readText (text : String) : Reading × Option (List Char) :=
  let chars := text.toList
  readValue (2 * chars.length + 2) 0 chars

end WorkflowGraph.Json
