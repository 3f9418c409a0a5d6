import SchemaUnfolding.Operation.Variables

/-!
# Selections

What a document selects, as a tree. The printer gives one line to each selection and one to each
closing brace; a line is indented by the number of braces that are open where it stands.
-/

namespace SchemaUnfolding

/-- A selection: the name of the type at hand, a field with its arguments and what is selected below
it, or selections for one type. -/
inductive Selection
  | typename
  | field (label : Option String) (name : String) (arguments : List (String × String))
      (selections : List Selection)
  | fragment (type : String) (selections : List Selection)
deriving Inhabited

/-- A line of a document and the number of braces open where it starts. -/
structure Line where
  nesting : Nat
  text : String
deriving DecidableEq, Repr

namespace Line

/-- The blanks in front of a line. -/
def indentation (nesting : Nat) : String := String.ofList (List.replicate (4 * nesting) ' ')

/-- The line as it is written. -/
def toString (line : Line) : String := indentation line.nesting ++ line.text

end Line

namespace Selection

/-- What stands before the selections of a field. -/
def fieldHead (label : Option String) (name : String) (arguments : List (String × String)) :
    String :=
  let front := label.elim "" (· ++ ": ")
  let back := if arguments.isEmpty then "" else "(" ++ argumentsText arguments ++ ")"
  front ++ name ++ back

mutual

/-- The lines of a selection. -/
def lines (nesting : Nat) : Selection → List Line
  | typename => [⟨nesting, "__typename"⟩]
  | field label name arguments [] => [⟨nesting, fieldHead label name arguments⟩]
  | field label name arguments (first :: rest) =>
    ⟨nesting, fieldHead label name arguments ++ "\x7b"⟩ ::
      linesOfAll (nesting + 1) (first :: rest) ++ [⟨nesting, "\x7d"⟩]
  | fragment type selections =>
    ⟨nesting, "... on " ++ type ++ " \x7b"⟩ ::
      linesOfAll (nesting + 1) selections ++ [⟨nesting, "\x7d"⟩]

/-- The lines of several selections, one after the other. -/
def linesOfAll (nesting : Nat) : List Selection → List Line
  | [] => []
  | selection :: rest => selection.lines nesting ++ linesOfAll nesting rest

end

/-- The text of a selection at a nesting. -/
def text (nesting : Nat) (selection : Selection) : String :=
  "\n".intercalate ((selection.lines nesting).map Line.toString)

end Selection

end SchemaUnfolding
