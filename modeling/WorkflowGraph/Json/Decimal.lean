/-
The shortest decimal that reads as a given binary number.

Of the decimals that lie closer to the number than to its neighbours, `shortest` takes one with the
fewest digits, and of those the one nearest to the number, a tie to the even digit. `write` lays
those digits out: positional notation for decimal exponents from -5 to 15, with at least one digit
after the point, and an explicit exponent with its sign otherwise.
-/

import WorkflowGraph.Json.Binary

namespace WorkflowGraph.Json.Decimal

/-- The decimal digits of a number, most significant first. -/
def digits (n : Nat) : List Char :=
  Nat.toDigits 10 n

/-- The value of a decimal grid point: `count * 10 ^ place` as a ratio. -/
def gridPoint (count : Nat) (place : Int) : Nat × Nat :=
  if place < 0 then (count, Nat.pow 10 place.natAbs) else (count * Nat.pow 10 place.natAbs, 1)

/-- The set of reals that round to a number: its two ends, and whether they belong to it. -/
structure Span where
  low : Nat × Nat
  high : Nat × Nat
  closed : Bool

/-- The span of a positive number. Below a power of two the neighbour is half as far away. -/
def spanOf (x : Binary) : Span :=
  let narrow := x.significand == Binary.normalBound && x.exponent > Binary.leastExponent
  let quarter := (Binary.mk false 1 (x.exponent - 2)).ratio
  let low := if narrow then 4 * x.significand - 1 else 4 * x.significand - 2
  { low := (low * quarter.1, quarter.2)
    high := ((4 * x.significand + 2) * quarter.1, quarter.2)
    closed := x.significand % 2 == 0 }

/-- Whether one ratio is less than another. -/
def less (a b : Nat × Nat) : Bool :=
  a.1 * b.2 < b.1 * a.2

/-- Whether a ratio belongs to a span. -/
def Span.holds (span : Span) (point : Nat × Nat) : Bool :=
  if span.closed then !less point span.low && !less span.high point
  else less span.low point && less point span.high

/-- The exponent of the first digit of a positive ratio, started from an estimate that is not above
it by more than `steps`. -/
def leadingPlace (value : Nat × Nat) (place : Int) : Nat → Int
  | 0 => place
  | steps + 1 =>
      if less value (gridPoint 1 place) then leadingPlace value (place - 1) steps else place

/-- The first digit's exponent of a positive number. -/
def firstPlace (x : Binary) : Int :=
  let (num, den) := x.ratio
  let estimate : Int := (((num.log2 : Int) - (den.log2 : Int) + 1) * 30103) / 100000 + 1
  leadingPlace (num, den) estimate 4

/-- Of the two neighbours of `x` on the grid of step `10 ^ place`, the nearest that lies in the span
of `x`, a tie to the even one. -/
def nearestOnGrid (x : Binary) (span : Span) (place : Int) : Option Nat :=
  let (num, den) := x.ratio
  let unit := Nat.pow 10 place.natAbs
  let (high, low) := if place < 0 then (num * unit, den) else (num, den * unit)
  let below := high / low
  let twice := 2 * (high % low)
  let preferAbove := twice > low || (twice == low && below % 2 == 1)
  let candidates := if preferAbove then [below + 1, below] else [below, below + 1]
  candidates.find? fun count => count != 0 && span.holds (gridPoint count place)

/-- The count and the grid of the shortest decimal, trying one digit more at each step. -/
def shortestFrom (x : Binary) (span : Span) (place : Int) : Nat → Nat × Int
  | 0 => ((nearestOnGrid x span place).getD 0, place)
  | more + 1 =>
    match nearestOnGrid x span place with
    | some count => (count, place)
    | none => shortestFrom x span (place - 1) more

/-- A count without the zeros at its end, and the grid it then stands on. -/
def trimZeros (count : Nat) (place : Int) : Nat → Nat × Int
  | 0 => (count, place)
  | steps + 1 =>
    if count != 0 && count % 10 == 0 then trimZeros (count / 10) (place + 1) steps
    else (count, place)

/-- The shortest decimal of a positive number: its digits as a count, and the place of the last. -/
def shortest (x : Binary) : Nat × Int :=
  let (count, place) := shortestFrom x (spanOf x) (firstPlace x) 17
  trimZeros count place 20

/-- Positional notation is used for first digits at these places. -/
def positional (place : Int) : Bool :=
  -5 ≤ place && place ≤ 15

/-- The digits of a decimal laid out around the point or before an exponent. -/
def layOut (count : Nat) (place : Int) : List Char :=
  let ds := digits count
  let first : Int := place + (ds.length : Int) - 1
  if positional first then
    if first < 0 then
      ['0', '.'] ++ List.replicate (first.natAbs - 1) '0' ++ ds
    else if place < 0 then
      let whole := first.natAbs + 1
      ds.take whole ++ ['.'] ++ ds.drop whole
    else
      ds ++ List.replicate place.natAbs '0' ++ ['.', '0']
  else
    let fraction := match ds with
      | [] | [_] => ds
      | d :: rest => d :: '.' :: rest
    fraction ++ ['e', if first < 0 then '-' else '+'] ++ digits first.natAbs

/-- The text of a binary number. -/
def write (x : Binary) : List Char :=
  let magnitude :=
    if x.isZero then ['0', '.', '0']
    else
      let (count, place) := shortest x
      layOut count place
  if x.negative then '-' :: magnitude else magnitude

end WorkflowGraph.Json.Decimal
