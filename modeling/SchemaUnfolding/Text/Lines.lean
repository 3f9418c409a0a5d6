/-!
# Lines of a text

A line ends at a line feed, and a carriage return directly before that line feed belongs to the
line's end. Text after the last line feed is a line of its own, unless there is none.
-/

namespace SchemaUnfolding.Text

/-- Drop one carriage return at the end of a line, if there is one. -/
def dropReturn (line : List Char) : List Char :=
  if line.getLast? = some '\r' then line.dropLast else line

/-- The lines of a text, given the line read so far in reverse order. -/
def linesFrom (current : List Char) : List Char → List (List Char)
  | [] => if current.isEmpty then [] else [current.reverse]
  | '\n' :: rest => dropReturn current.reverse :: linesFrom [] rest
  | c :: rest => linesFrom (c :: current) rest

/-- The lines of a text, without their ends. -/
def lines (text : List Char) : List (List Char) := linesFrom [] text

example : lines "a\r\nb\n\nc\r".toList = ["a".toList, "b".toList, [], "c\r".toList] := by decide
example : lines "a\n".toList = ["a".toList] := by decide
example : lines [] = [] := rfl

end SchemaUnfolding.Text
