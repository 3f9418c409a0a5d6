import SchemaUnfolding.Text.Lines
import SchemaUnfolding.Text.Quoted

/-!
# Block strings

The text that a block string denotes: its lines without the blank lines at both ends, and without
the indentation that all lines but the first have in common. Indentation is counted in bytes, and a
blank character may take several of them. Where the common indentation of other blanks ends inside
such a character, the block string has no text.
-/

namespace SchemaUnfolding.Sdl

/-- A character of a line inside which the indentation to remove ends. -/
structure SplitCharacter where
  /-- How many bytes were to be removed. -/
  indentation : Nat
  /-- How many bytes of the line stand before the character. -/
  start : Nat
  character : Char
deriving DecidableEq, Repr

/-- The wording of a split character. -/
def SplitCharacter.message : SplitCharacter → String
  | ⟨indentation, start, character⟩ =>
    s!"start byte index {indentation} is not a char boundary; it is inside '" ++
      String.ofList (Text.quotedChar character) ++
      s!"' (bytes {start}..{start + character.utf8Size} of string)"

/-- The number of bytes of some characters. -/
def byteCount (cs : List Char) : Nat := cs.foldl (fun count c => count + c.utf8Size) 0

/-- Whether a line holds blank characters only. -/
def isBlankLine (line : List Char) : Bool := line.all Text.isBlank

/-- The number of bytes of the blank characters that a line starts with. -/
def indentation (line : List Char) : Nat := byteCount (line.takeWhile Text.isBlank)

/-- The least indentation of the lines that are not blank. -/
def commonIndentation (lines : List (List Char)) : Option Nat :=
  ((lines.filter fun line => !isBlankLine line).map indentation).min?

/-- Drop characters from the front until a number of bytes is gone, given how many are gone
already. -/
def dropBytes (bytes gone : Nat) : List Char → Except SplitCharacter (List Char)
  | [] => .ok []
  | c :: rest =>
    if bytes ≤ gone then .ok (c :: rest)
    else if bytes < gone + c.utf8Size then .error ⟨bytes, gone, c⟩
    else dropBytes bytes (gone + c.utf8Size) rest

/-- Remove an indentation from a line that is long enough. -/
def outdent (bytes : Nat) (line : List Char) : Except SplitCharacter (List Char) :=
  if bytes ≤ byteCount line then dropBytes bytes 0 line else .ok line

/-- A line and the indentation to remove from it. -/
structure Indented where
  bytes : Nat
  line : List Char

/-- The lines with the indentation to remove from each. The first line neither counts for the common
indentation nor loses it. -/
def measured : List (List Char) → List Indented
  | [] => []
  | first :: rest =>
    let common := (commonIndentation rest).getD 0
    ⟨0, first⟩ :: rest.map fun line => ⟨common, line⟩

/-- Drop the blank lines at both ends. -/
def trimBlankLines (lines : List Indented) : List Indented :=
  let isBlank (indented : Indented) : Bool := isBlankLine indented.line
  ((lines.dropWhile isBlank).reverse.dropWhile isBlank).reverse

/-- Replace each escaped triple quote by a triple quote. -/
def unescapeTriple : List Char → List Char
  | '\\' :: '"' :: '"' :: '"' :: rest => '"' :: '"' :: '"' :: unescapeTriple rest
  | c :: rest => c :: unescapeTriple rest
  | [] => []

/-- The text of a block string, given the characters between its triple quotes. -/
def blockText (cs : List Char) : Except SplitCharacter (List Char) := do
  let lines ← (trimBlankLines (measured (Text.lines cs))).mapM fun indented =>
    outdent indented.bytes indented.line
  return ['\n'].intercalate (lines.map unescapeTriple)

example : blockText "x\n  a\n   b\n ".toList = .ok "x\na\n b".toList := rfl
example : blockText "\n a\n\u3000".toList = .ok "a".toList := rfl
example : blockText "\n a\n\u3000b".toList = .error ⟨1, 0, '\u3000'⟩ := rfl

end SchemaUnfolding.Sdl
