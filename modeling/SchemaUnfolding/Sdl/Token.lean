import SchemaUnfolding.Decimal.Binary64
import SchemaUnfolding.Location
import SchemaUnfolding.Sdl.BlockString

/-!
# Tokens of the schema definition language

The tokens a schema document is made of, and the ways in which a document can be malformed.
-/

namespace SchemaUnfolding.Sdl

/-- The three kinds of bracket. -/
inductive Bracket
  | round
  | square
  | curly
deriving DecidableEq, Repr

/-- The punctuation other than brackets. -/
inductive Mark
  | exclamation
  | dollar
  | colon
  | equals
  | atSign
  | bar
  | ampersand
  | ellipsis
deriving DecidableEq, Repr

/-- A token. Numbers and strings carry what they denote. -/
inductive Token
  | opening (bracket : Bracket)
  | closing (bracket : Bracket)
  | mark (mark : Mark)
  | name (text : String)
  | integer (value : Int)
  | decimal (value : Decimal.Binary64)
  | text (value : String)
  /-- A block string without a text. No token follows it. -/
  | splitText (cause : SplitCharacter)
deriving DecidableEq, Repr

/-- Why a document is malformed. -/
inductive SyntaxError
  /-- A character that starts no token. -/
  | strayCharacter (position : Position) (c : Char)
  /-- A number that is none, or an integer outside 64 bits. -/
  | malformedNumber (position : Position)
  /-- A string without an end, or one with an escape that means nothing. -/
  | malformedText (position : Position)
  /-- More than fifty brackets open at a time. -/
  | nestedTooDeep (position : Position)
  /-- A bracket that does not match. -/
  | unbalanced (position : Position)
  /-- A token that the grammar does not allow there. -/
  | unexpected (position : Position)
  /-- An end where the grammar wants more. -/
  | incomplete
  /-- A block string without a text, where the grammar allows a string. -/
  | splitText (cause : SplitCharacter)
deriving DecidableEq, Repr

namespace SyntaxError

/-- The wording of a syntax error. -/
def message : SyntaxError → String
  | strayCharacter ⟨line, column⟩ c => s!"stray character {c} at {line}:{column}"
  | malformedNumber ⟨line, column⟩ => s!"malformed number at {line}:{column}"
  | malformedText ⟨line, column⟩ => s!"malformed string at {line}:{column}"
  | nestedTooDeep ⟨line, column⟩ => s!"brackets nested too deep at {line}:{column}"
  | unbalanced ⟨line, column⟩ => s!"unbalanced bracket at {line}:{column}"
  | unexpected ⟨line, column⟩ => s!"unexpected token at {line}:{column}"
  | incomplete => "unexpected end of the document"
  | splitText cause => cause.message

end SyntaxError

end SchemaUnfolding.Sdl
