/-!
# Decimal digits

Digit strings read as numbers. A numeral is a nonempty run of digits.
-/

namespace SchemaUnfolding.Decimal

/-- The number that a string of digits denotes; other characters count as their distance from
zero, so callers check the digits first. -/
def value (digits : List Char) : Nat :=
  digits.foldl (fun total digit => 10 * total + (digit.toNat - '0'.toNat)) 0

/-- Whether the characters are a nonempty run of digits. -/
def isNumeral (cs : List Char) : Bool := !cs.isEmpty && cs.all Char.isDigit

/-- Read a nonempty run of digits. -/
def natural? (cs : List Char) : Option Nat := if isNumeral cs then some (value cs) else none

/-- Whether the characters are a run of digits without a superfluous zero in front. -/
def isPlainNumeral (cs : List Char) : Bool :=
  isNumeral cs && (cs.head? != some '0' || cs.length == 1)

/-- Whether the characters are an integer: a minus sign or none, then a plain numeral. -/
def isInteger : List Char → Bool
  | '-' :: digits => isPlainNumeral digits
  | digits => isPlainNumeral digits

/-- Read an integer. -/
def integer? : List Char → Option Int
  | '-' :: digits => if isPlainNumeral digits then some (-(value digits : Int)) else none
  | digits => if isPlainNumeral digits then some (value digits) else none

end SchemaUnfolding.Decimal
