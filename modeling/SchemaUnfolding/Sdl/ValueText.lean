import SchemaUnfolding.Decimal.Shortest
import SchemaUnfolding.Sdl.Syntax
import SchemaUnfolding.Text.Blank
import SchemaUnfolding.Text.Lines

/-!
# The text of a value

How a value is written back. A string becomes a block string when it spans lines and holds nothing
that a block string could not show; every other string is quoted.
-/

namespace SchemaUnfolding.Sdl

/-- Whether a character can be written as it is, apart from line ends and tabs. -/
def isShown (c : Char) : Bool := 0x20 ≤ c.toNat && c.toNat ≤ 0xFFFF

/-- A number in decimal with at least four digits. -/
def fourDigits (n : Nat) : List Char :=
  let digits := Nat.toDigits 10 n
  List.replicate (4 - digits.length) '0' ++ digits

/-- One character between quotes. A character that cannot be shown is written by its code point in
decimal. -/
def quotedChar (c : Char) : List Char :=
  if c = '\r' then ['\\', 'r']
  else if c = '\n' then ['\\', 'n']
  else if c = '\t' then ['\\', 't']
  else if c = '"' ∨ c = '\\' then ['\\', c]
  else if isShown c then [c]
  else '\\' :: 'u' :: fourDigits c.toNat

/-- Put a backslash before each triple quote. -/
def escapeTriple : List Char → List Char
  | '"' :: '"' :: '"' :: rest => '\\' :: '"' :: '"' :: '"' :: escapeTriple rest
  | c :: rest => c :: escapeTriple rest
  | [] => []

/-- A line of a block string with its end. A blank line is written as an empty one. -/
def blockLine (line : List Char) : List Char :=
  if line.all Text.isBlank then ['\n'] else ' ' :: ' ' :: escapeTriple line ++ ['\n']

/-- The characters of a string, as a block string or quoted. -/
def stringChars (cs : List Char) : List Char :=
  if cs.contains '\n' ∧ cs.all fun c => isShown c || c == '\n' || c == '\r' || c == '\t' then
    let quotes := ['"', '"', '"']
    quotes ++ '\n' :: (Text.lines cs).flatMap blockLine ++ quotes
  else '"' :: cs.flatMap quotedChar ++ ['"']

namespace Value

mutual

/-- The text of a value. -/
def text : Value → String
  | .variable name => "$" ++ name
  | integer value => toString value
  | decimal value => value.text
  | string value => String.ofList (stringChars value.toList)
  | boolean value => if value then "true" else "false"
  | null => "null"
  | enum name => name
  | list items => "[" ++ itemsText items ++ "]"
  | object entries => "\x7b" ++ entriesText entries ++ "\x7d"

/-- The texts of the items of a list with commas between them. -/
def itemsText : List Value → String
  | [] => ""
  | [item] => item.text
  | item :: next :: rest => item.text ++ ", " ++ itemsText (next :: rest)

/-- The texts of the entries of an object with commas between them. -/
def entriesText : List (String × Value) → String
  | [] => ""
  | [(name, value)] => name ++ ": " ++ value.text
  | (name, value) :: next :: rest => name ++ ": " ++ value.text ++ ", " ++ entriesText (next :: rest)

end

end Value

end SchemaUnfolding.Sdl
