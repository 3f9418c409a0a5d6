import SchemaUnfolding.Decimal.Digits

/-!
# Binary floating point with 53 bits

A number of the format is a significand below `2 ^ 53` times a power of two, or infinite. Reading a
decimal gives the nearest number of the format; of two equally near ones, the one whose significand
is even. All arithmetic is on natural numbers and exact.
-/

namespace SchemaUnfolding.Decimal

/-- The size of a number of the format, without its sign. -/
inductive Magnitude
  | finite (significand : Nat) (exponent : Int)
  | infinite
deriving DecidableEq, Repr

/-- A number of the format. Zero keeps its sign. -/
structure Binary64 where
  negative : Bool
  magnitude : Magnitude
deriving DecidableEq, Repr

namespace Binary64

/-- The exponent of the smallest positive numbers of the format. -/
def leastExponent : Int := -1074

/-- The exponent of the largest finite numbers of the format. -/
def greatestExponent : Int := 971

/-- The quotient rounded to the nearest natural number, a half to the even neighbour. -/
def roundedQuotient (numerator denominator : Nat) : Nat :=
  let floor := numerator / denominator
  let twice := 2 * (numerator % denominator)
  if twice < denominator then floor
  else if denominator < twice then floor + 1
  else if floor % 2 = 0 then floor
  else floor + 1

/-- The quotient of two natural numbers, scaled by a power of two, as a fraction. -/
def scaledFraction (numerator denominator : Nat) (exponent : Int) : Nat × Nat :=
  if 0 ≤ exponent then (numerator * Nat.pow 2 exponent.toNat, denominator)
  else (numerator, denominator * Nat.pow 2 (-exponent).toNat)

/-- The exponent of the greatest power of two that is not above a positive fraction. -/
def binaryExponent (numerator denominator : Nat) : Int :=
  let guess : Int := (Nat.log2 numerator : Int) - Nat.log2 denominator
  let (top, bottom) := scaledFraction numerator denominator (-guess)
  if bottom ≤ top then guess else guess - 1

/-- The magnitude nearest to a fraction. -/
def nearest (numerator denominator : Nat) : Magnitude :=
  if numerator = 0 then .finite 0 leastExponent
  else
    let exponent := max (binaryExponent numerator denominator - 52) leastExponent
    let (top, bottom) := scaledFraction numerator denominator (-exponent)
    let significand := roundedQuotient top bottom
    let (significand, exponent) :=
      if significand = Nat.pow 2 53 then (Nat.pow 2 52, exponent + 1) else (significand, exponent)
    if greatestExponent < exponent then .infinite else .finite significand exponent

/-- The magnitude nearest to `digits · 10 ^ exponent`. Exponents so large or small that the answer
is infinite or zero whatever the digits are not raised to a power. -/
def nearestDecimal (digits : List Char) (exponent : Int) : Magnitude :=
  let significant := digits.dropWhile (· == '0')
  let count : Int := significant.length
  if significant.isEmpty then .finite 0 leastExponent
  else if 400 < count + exponent then .infinite
  else if count + exponent < -400 then .finite 0 leastExponent
  else if 0 ≤ exponent then nearest (value significant * Nat.pow 10 exponent.toNat) 1
  else nearest (value significant) (Nat.pow 10 (-exponent).toNat)

end Binary64

end SchemaUnfolding.Decimal
