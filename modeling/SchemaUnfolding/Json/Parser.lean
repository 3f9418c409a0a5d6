import SchemaUnfolding.Decimal.Digits
import SchemaUnfolding.Json
import SchemaUnfolding.Text.Hex

/-!
# Reading JSON text

The grammar of JSON texts. A text is read when it holds one value and blanks. Escapes for surrogates
come in pairs; half a pair stands for no character, so a value that needs it for its text or for the
name of a member is kept as it is spelled.
-/

namespace SchemaUnfolding.Json

/-- Whether a character may stand between tokens. -/
def isSpace (c : Char) : Bool := c == ' ' || c == '\n' || c == '\r' || c == '\t'

/-- Drop the blanks in front. -/
def skipSpaces (cs : List Char) : List Char := cs.dropWhile isSpace

/-- The code unit that four hexadecimal digits denote. -/
def unit? (a b c d : Char) : Option Nat := Text.hexNumber? [a, b, c, d]

/-- The character after a backslash, for the escapes of one character. -/
def escape? (c : Char) : Option Char :=
  match c with
  | '"' => some '"'
  | '\\' => some '\\'
  | '/' => some '/'
  | 'b' => some '\x08'
  | 'f' => some '\x0c'
  | 'n' => some '\n'
  | 'r' => some '\r'
  | 't' => some '\t'
  | _ => none

/-- The character of a surrogate pair. -/
def pairedChar (high low : Nat) : Char :=
  Char.ofNat (0x10000 + (high - 0xD800) * 0x400 + (low - 0xDC00))

/-- Read the rest of a string after its opening quote. `done` holds the characters read so far in
reverse order, or nothing once half a surrogate pair was among them. -/
def readString (done : Option (List Char)) : List Char → Option (Option String × List Char)
  | [] => none
  | '"' :: rest => some (done.map fun cs => String.ofList cs.reverse, rest)
  | '\\' :: 'u' :: a :: b :: c :: d :: rest =>
    match unit? a b c d with
    | none => none
    | some unit =>
      if 0xD800 ≤ unit ∧ unit < 0xDC00 then
        match rest with
        | '\\' :: 'u' :: e :: f :: g :: h :: rest =>
          match unit? e f g h with
          | none => none
          | some low =>
            if 0xDC00 ≤ low ∧ low < 0xE000 then
              readString (done.map (pairedChar unit low :: ·)) rest
            else readString none ('\\' :: 'u' :: e :: f :: g :: h :: rest)
        | rest => readString none rest
      else if 0xDC00 ≤ unit ∧ unit < 0xE000 then readString none rest
      else readString (done.map (Char.ofNat unit :: ·)) rest
  | '\\' :: c :: rest =>
    match escape? c with
    | none => none
    | some c => readString (done.map (c :: ·)) rest
  | c :: rest => if c.toNat < 0x20 then none else readString (done.map (c :: ·)) rest

/-- The spelling of what was read from `cs`. -/
def spelling (cs rest : List Char) : String := String.ofList (cs.take (cs.length - rest.length))

/-- The string that was read from `cs`. -/
def ofString (cs : List Char) : Option String × List Char → Json × List Char
  | (some text, rest) => (string text, rest)
  | (none, rest) => (unreadable (spelling cs rest), rest)

/-- The object that was read from `cs`. -/
def ofMembers (cs : List Char) :
    List (Option String × Json) × List Char → Json × List Char
  | (members, rest) =>
    match members.mapM fun (name, value) => name.map fun name => (name, value) with
    | some members => (object members, rest)
    | none => (unreadable (spelling cs rest), rest)

/-- Split off a fraction: a point and at least one digit, or nothing. -/
def spanFraction : List Char → Option (List Char × List Char)
  | '.' :: rest =>
    let digits := rest.takeWhile Char.isDigit
    if digits.isEmpty then none else some ('.' :: digits, rest.dropWhile Char.isDigit)
  | rest => some ([], rest)

/-- Split off an exponent: its mark, a sign or none and at least one digit, or nothing. -/
def spanExponent : List Char → Option (List Char × List Char)
  | [] => some ([], [])
  | mark :: rest =>
    if mark = 'e' ∨ mark = 'E' then
      let sign := (rest.take 1).filter fun c => c == '+' || c == '-'
      let rest := rest.drop sign.length
      let digits := rest.takeWhile Char.isDigit
      if digits.isEmpty then none else some (mark :: sign ++ digits, rest.dropWhile Char.isDigit)
    else some ([], mark :: rest)

/-- Read a number. -/
def readNumber (cs : List Char) : Option (Json × List Char) := do
  let sign := (cs.take 1).filter (· == '-')
  let unsigned := cs.drop sign.length
  let whole := unsigned.takeWhile Char.isDigit
  guard (Decimal.isPlainNumeral whole)
  let (fraction, rest) ← spanFraction (unsigned.dropWhile Char.isDigit)
  let (exponent, rest) ← spanExponent rest
  if sign.isEmpty && fraction.isEmpty && exponent.isEmpty then
    return (natural (Decimal.value whole), rest)
  else
    return (numeral (String.ofList (sign ++ whole ++ fraction ++ exponent)), rest)

/-- Split off a fixed word. -/
def word? (word : String) (value : Json) (cs : List Char) : Option (Json × List Char) :=
  if word.toList.isPrefixOf cs then some (value, cs.drop word.toList.length) else none

mutual

/-- Read a value and return what follows it. Every level of nesting and every further item takes
one unit of fuel. -/
def readValue : Nat → List Char → Option (Json × List Char)
  | 0, _ => none
  | fuel + 1, cs =>
    match skipSpaces cs with
    | [] => none
    | '"' :: rest => (readString (some []) rest).map (ofString ('"' :: rest))
    | '[' :: rest =>
      match skipSpaces rest with
      | ']' :: rest => some (array [], rest)
      | rest => (readItems fuel rest).map fun (items, rest) => (array items, rest)
    | '{' :: rest =>
      match skipSpaces rest with
      | '}' :: rest => some (object [], rest)
      | members => (readMembers fuel members).map (ofMembers ('{' :: rest))
    | 'n' :: rest => word? "null" null ('n' :: rest)
    | 't' :: rest => word? "true" (bool true) ('t' :: rest)
    | 'f' :: rest => word? "false" (bool false) ('f' :: rest)
    | rest => readNumber rest

/-- Read the items of an array up to and with its closing bracket. -/
def readItems : Nat → List Char → Option (List Json × List Char)
  | 0, _ => none
  | fuel + 1, cs => do
    let (item, rest) ← readValue fuel cs
    match skipSpaces rest with
    | ',' :: rest =>
      let (items, rest) ← readItems fuel rest
      return (item :: items, rest)
    | ']' :: rest => return ([item], rest)
    | _ => none

/-- Read the members of an object up to and with its closing brace. -/
def readMembers : Nat → List Char → Option (List (Option String × Json) × List Char)
  | 0, _ => none
  | fuel + 1, cs =>
    match skipSpaces cs with
    | '"' :: rest => do
      let (name, rest) ← readString (some []) rest
      match skipSpaces rest with
      | ':' :: rest =>
        let (value, rest) ← readValue fuel rest
        match skipSpaces rest with
        | ',' :: rest =>
          let (members, rest) ← readMembers fuel rest
          return ((name, value) :: members, rest)
        | '}' :: rest => return ([(name, value)], rest)
        | _ => none
      | _ => none
    | _ => none

end

/-- Read a text that holds one value and blanks. -/
def ofText? (text : String) : Option Json :=
  let cs := text.toList
  match readValue (2 * cs.length + 2) cs with
  | some (value, rest) => if (skipSpaces rest).isEmpty then some value else none
  | none => none

end SchemaUnfolding.Json
