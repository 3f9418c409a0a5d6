/-!
# Where a schema element was written

A position is a line and a column, both counted from one. A location adds the file, if the source
came from one; the types that every schema has were written nowhere.
-/

namespace SchemaUnfolding

/-- A line and a column, both counted from one. -/
structure Position where
  line : Nat
  column : Nat
deriving DecidableEq, Repr

namespace Position

/-- The first position of a source. -/
def start : Position := ⟨1, 1⟩

/-- The position a number of columns further on. -/
def advance (position : Position) (columns : Nat) : Position :=
  { position with column := position.column + columns }

/-- The start of a later line. -/
def nextLine (position : Position) : Position := ⟨position.line + 1, 1⟩

end Position

/-- Where a schema element was written. -/
inductive Location
  | builtIn
  | source (file : Option String) (position : Position)
deriving DecidableEq, Repr

namespace Location

/-- The place of a position in the file that a location is in. -/
def within : Location → Position → Location
  | builtIn, _ => builtIn
  | source file _, position => source file position

@[simp]
theorem source_within (file : Option String) (outer position : Position) :
    (source file outer).within position = source file position :=
  rfl

/-- The text of a location. A source without a file is shown as a string. -/
def text : Location → String
  | builtIn => "<builtin>"
  | source file ⟨line, column⟩ =>
    let origin := file.getD "<str>"
    s!"{origin}:{line}:{column}"

end Location

end SchemaUnfolding
