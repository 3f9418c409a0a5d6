import SchemaUnfolding.Decimal.Binary64
import SchemaUnfolding.Text.Hex

/-!
# Numbers and quoted strings in schema documents

What the spelling of a number and of a quoted string denotes. Each function takes the characters of
the literal and gives nothing when they are no such literal.
-/

namespace SchemaUnfolding.Sdl

/-! ## Numbers -/

/-- Read an integer of 64 bits. -/
def integer? (cs : List Char) : Option Int := do
  let value ← Decimal.integer? cs
  guard (-0x8000000000000000 ≤ value ∧ value < 0x8000000000000000)
  return value

/-- Split off the part of a text after its last character from a set, if it has one. -/
def splitLast (isMark : Char → Bool) (cs : List Char) : List Char × Option (List Char) :=
  let back := cs.reverse
  match back.dropWhile (fun c => !isMark c) with
  | [] => (cs, none)
  | _ :: front => (front.reverse, some (back.takeWhile (fun c => !isMark c)).reverse)

/-- Read an exponent: digits with or without a sign. An exponent without a sign starts with one of
the digits from 1 to 8. -/
def exponent? : List Char → Option Int
  | '+' :: digits => (Decimal.natural? digits).map Int.ofNat
  | '-' :: digits => (Decimal.natural? digits).map fun value => -(value : Int)
  | c :: digits =>
    if '1' ≤ c ∧ c ≤ '8' then (Decimal.natural? (c :: digits)).map Int.ofNat else none
  | [] => none

/-- Read a number with a fraction, an exponent or both. -/
def decimal? (cs : List Char) : Option Decimal.Binary64 := do
  let (mantissa, exponent) := splitLast (fun c => c == 'e' || c == 'E') cs
  let power ← exponent.elim (some 0) exponent?
  let (whole, fraction) := splitLast (· == '.') mantissa
  let fraction := fraction.elim (some []) fun digits =>
    if Decimal.isNumeral digits then some digits else none
  let fraction ← fraction
  guard (Decimal.isInteger whole)
  let negative := whole.head? == some '-'
  let digits := (if negative then whole.drop 1 else whole) ++ fraction
  return ⟨negative, Decimal.Binary64.nearestDecimal digits (power - fraction.length)⟩

/-! ## Quoted strings -/

/-- Read the four characters after the escape `\u`: hexadecimal digits, the first of which may be a
plus sign instead. -/
def codePoint? : List Char → Option Nat
  | '+' :: digits => if digits.isEmpty then none else Text.hexNumber? digits
  | digits => if digits.isEmpty then none else Text.hexNumber? digits

/-- The character of a code point, if it is one. -/
def character? (code : Nat) : Option Char :=
  if _ : code.isValidChar then some (Char.ofNat code) else none

/-- The character for an escape of one letter. The escape `\b` stands for the code point 16. -/
def escape? (c : Char) : Option Char :=
  match c with
  | '"' => some '"'
  | '\\' => some '\\'
  | '/' => some '/'
  | 'b' => some '\x10'
  | 'f' => some '\x0c'
  | 'n' => some '\n'
  | 'r' => some '\r'
  | 't' => some '\t'
  | _ => none

/-- Replace the escapes in the characters between quotes. -/
def unescape : List Char → Option (List Char)
  | [] => some []
  | '\\' :: 'u' :: a :: b :: c :: d :: rest => do
    let code ← codePoint? [a, b, c, d]
    let character ← character? code
    return character :: (← unescape rest)
  | '\\' :: c :: rest => do
    let character ← escape? c
    return character :: (← unescape rest)
  | c :: rest => return c :: (← unescape rest)

end SchemaUnfolding.Sdl
