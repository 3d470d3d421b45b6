/-
Binary floating-point numbers of 64 bits, in exact integer arithmetic.

A finite number is a sign and `significand * 2 ^ exponent`. `Binary.round` takes a ratio of natural
numbers to the nearest such number, a tie to the even significand, and refuses what is too large.
Products and quotients are the rounded exact ones.
-/

namespace WorkflowGraph.Json

/-- A finite binary floating-point number: a sign, and `significand * 2 ^ exponent`. -/
structure Binary where
  negative : Bool
  significand : Nat
  exponent : Int
deriving DecidableEq

namespace Binary

/-- The least exponent, that of the numbers next to zero. -/
def leastExponent : Int := -1074

/-- The greatest exponent of a finite number. -/
def greatestExponent : Int := 971

/-- The significands of normal numbers start here. -/
def normalBound : Nat := Nat.pow 2 52

/-- Zero, with a sign. -/
def zero (negative : Bool) : Binary :=
  ⟨negative, 0, leastExponent⟩

/-- Whether a number is zero, of either sign. -/
def isZero (x : Binary) : Bool :=
  x.significand == 0

/-- Equality of numbers, in which the two zeros are equal. -/
def equals (x y : Binary) : Bool :=
  x == y || (x.isZero && y.isZero)

/-- The quotient nearest to `num / den`; a tie goes to the even one. -/
def nearestQuotient (num den : Nat) : Nat :=
  let quotient := num / den
  let twice := 2 * (num % den)
  if twice > den || (twice == den && quotient % 2 == 1) then quotient + 1 else quotient

/-- The ratio `num / den` divided by `2 ^ exponent`, as a ratio. -/
def scale (num den : Nat) (exponent : Int) : Nat × Nat :=
  let power := Nat.pow 2 exponent.natAbs
  if exponent < 0 then (num * power, den) else (num, den * power)

/-- The exponent at which a positive ratio has a significand of 53 bits, or the least exponent. -/
def exponentOf (num den : Nat) : Int :=
  let guess : Int := (num.log2 : Int) - (den.log2 : Int) - 52
  let (high, low) := scale num den guess
  max (if high / low < normalBound then guess - 1 else guess) leastExponent

/-- The number nearest to `num / den`, unless that is too large for a finite one. -/
def round (negative : Bool) (num den : Nat) : Option Binary :=
  if num == 0 then some (zero negative)
  else
    let exponent := exponentOf num den
    let (high, low) := scale num den exponent
    let significand := nearestQuotient high low
    let (significand, exponent) :=
      if significand == 2 * normalBound then (normalBound, exponent + 1)
      else (significand, exponent)
    if exponent > greatestExponent then none else some ⟨negative, significand, exponent⟩

/-- The magnitude of a number as a ratio. -/
def ratio (x : Binary) : Nat × Nat :=
  let power := Nat.pow 2 x.exponent.natAbs
  if x.exponent < 0 then (x.significand, power) else (x.significand * power, 1)

/-- The rounded product, with the sign of `x`. -/
def mul (x y : Binary) : Option Binary :=
  let (a, b) := x.ratio
  let (c, d) := y.ratio
  round x.negative (a * c) (b * d)

/-- The rounded quotient by a number other than zero, with the sign of `x`. -/
def div (x y : Binary) : Option Binary :=
  let (a, b) := x.ratio
  let (c, d) := y.ratio
  round x.negative (a * d) (b * c)

/-- The number nearest to a natural number. -/
def ofNat (negative : Bool) (n : Nat) : Option Binary :=
  round negative n 1

/-- The largest power of ten that is a finite number has this exponent. -/
def tenLimit : Nat := 308

/-- The number nearest to a power of ten, for exponents up to `tenLimit`. -/
def ten (exponent : Nat) : Option Binary :=
  round false (Nat.pow 10 exponent) 1

/-- Divides by a power of ten in steps of at most `tenLimit`, rounding after each step. -/
def divTen (x : Binary) (exponent : Nat) : Nat → Option Binary
  | 0 => some x
  | steps + 1 =>
    if exponent ≤ tenLimit then do (x.div (← ten exponent))
    else if x.isZero then some x
    else do divTen (← x.div (← ten tenLimit)) (exponent - tenLimit) steps

/-- The number a decimal `significand * 10 ^ exponent` is read as: the significand is rounded first,
then multiplied or divided by rounded powers of ten. -/
def ofDecimal (negative : Bool) (significand : Nat) (exponent : Int) : Option Binary := do
  let start ← ofNat negative significand
  if exponent < 0 then divTen start exponent.natAbs (exponent.natAbs / tenLimit + 1)
  else if exponent.natAbs ≤ tenLimit then start.mul (← ten exponent.natAbs)
  else if start.isZero then some start
  else none

end Binary

end WorkflowGraph.Json
