import SchemaUnfolding.Decimal.Binary64

/-!
# The shortest decimal that reads back

A finite number of the format is written with the fewest digits that still read back as the same
number; among decimals with that many digits the nearest is taken, and of two equally near ones the
greater. The notation is positional: no exponent is ever written.
-/

namespace SchemaUnfolding.Decimal

namespace Shortest

/-- A positive number `centre / unit` together with the ends of the interval of numbers that round
to it. The ends belong to the interval when `closed` is set. -/
structure Interval where
  low : Nat
  centre : Nat
  high : Nat
  unit : Nat
  closed : Bool

/-- The interval of a positive significand and its exponent. Below a power of two the numbers of the
format lie twice as close. -/
def interval (significand : Nat) (exponent : Int) : Interval :=
  let (scale, unit) := Binary64.scaledFraction 1 4 exponent
  let below := if significand = Nat.pow 2 52 ∧ Binary64.leastExponent < exponent then 1 else 2
  { low := (4 * significand - below) * scale
    centre := 4 * significand * scale
    high := (4 * significand + 2) * scale
    unit
    closed := significand % 2 = 0 }

namespace Interval

/-- Whether the fraction `top / bottom` lies in the interval. -/
def contains (i : Interval) (top bottom : Nat) : Bool :=
  if i.closed then i.low * bottom ≤ top * i.unit && top * i.unit ≤ i.high * bottom
  else i.low * bottom < top * i.unit && top * i.unit < i.high * bottom

/-- The better of the two neighbours of the number on the grid of multiples of `10 ^ exponent`, as a
multiple, if one of them reads back. -/
def neighbour? (i : Interval) (exponent : Int) : Option Nat :=
  let (scale, bottom) :=
    if 0 ≤ exponent then (Nat.pow 10 exponent.toNat, 1) else (1, Nat.pow 10 (-exponent).toNat)
  let floor := i.centre * bottom / (i.unit * scale)
  let rest := i.centre * bottom - floor * (i.unit * scale)
  let below := i.contains (floor * scale) bottom
  let above := i.contains ((floor + 1) * scale) bottom
  if below ∧ (¬ above ∨ 2 * rest < i.unit * scale) then some floor
  else if above then some (floor + 1)
  else none

/-- The least exponent of ten whose power is above the number, searched upwards from `start`. -/
def exponentAbove (i : Interval) : Nat → Int → Int
  | 0, start => start
  | steps + 1, start =>
    let (scale, bottom) :=
      if 0 ≤ start then (Nat.pow 10 start.toNat, 1) else (1, Nat.pow 10 (-start).toNat)
    if i.centre * bottom < i.unit * scale then start else exponentAbove i steps (start + 1)

end Interval

/-- The first grid that holds a decimal that reads back, tried from coarse to fine: the multiple and
the exponent of ten of the grid. -/
def search (i : Interval) : Nat → Int → Nat × Int
  | 0, exponent => ((i.neighbour? exponent).getD 0, exponent)
  | grids + 1, exponent =>
    match i.neighbour? exponent with
    | some multiple => (multiple, exponent)
    | none => search i grids (exponent - 1)

/-- The digits and the exponent of ten of the shortest decimal for a positive significand and its
exponent. Seventeen digits are always enough. -/
def decimal (significand : Nat) (exponent : Int) : Nat × Int :=
  let i := interval significand exponent
  let log : Int := (Nat.log2 significand : Int) + exponent
  let top := i.exponentAbove 4 (log * 30103 / 100000 - 1)
  search i 17 (top - 1)

/-- Write `multiple · 10 ^ exponent` without an exponent and without zeros at the end of the
fraction. -/
def positional (multiple : Nat) (exponent : Int) : List Char :=
  let digits := Nat.toDigits 10 multiple
  if 0 ≤ exponent then digits ++ List.replicate exponent.toNat '0'
  else
    let places := (-exponent).toNat
    let padded := List.replicate (places + 1 - digits.length) '0' ++ digits
    let whole := padded.take (padded.length - places)
    let fraction := ((padded.drop (padded.length - places)).reverse.dropWhile (· == '0')).reverse
    if fraction.isEmpty then whole else whole ++ '.' :: fraction

end Shortest

namespace Binary64

/-- The text of a number: the shortest decimal that reads back, in positional notation, with a minus
sign also before a negative zero. -/
def text (number : Binary64) : String :=
  let sign := if number.negative then ['-'] else []
  String.ofList <| sign ++ match number.magnitude with
    | .infinite => "inf".toList
    | .finite 0 _ => ['0']
    | .finite significand exponent =>
      let (multiple, power) := Shortest.decimal significand exponent
      Shortest.positional multiple power

end Binary64

end SchemaUnfolding.Decimal
