import SchemaUnfolding.Event
import SchemaUnfolding.Operation.Selection
import SchemaUnfolding.Text.Blank

/-!
# Documents

A document is one operation: a keyword, the name of a root field, declarations of variables and a
selection. A selection that was left out leaves an empty line.
-/

namespace SchemaUnfolding

/-- An executable document with one operation. -/
structure Document where
  keyword : String
  name : String
  declarations : List (String × TypeRef)
  selection : Option Selection

namespace Document

/-- The first line of a document up to its brace. -/
def header (document : Document) : String :=
  let list :=
    if document.declarations.isEmpty then ""
    else "(" ++ declarationsText document.declarations ++ ")"
  document.keyword ++ " " ++ document.name ++ list

/-- The lines of a document. -/
def lines (document : Document) : List Line :=
  let body := document.selection.elim [⟨0, ""⟩] (Selection.lines 1)
  ⟨0, document.header ++ "\x7b"⟩ :: body ++ [⟨0, "\x7d"⟩]

/-- The text of a document. -/
def text (document : Document) : String :=
  "\n".intercalate (document.lines.map Line.toString)

end Document

/-- The kind whose keyword the name of a root type contains, in any case of letters. Of several the
first in the order of generation counts. -/
def OperationKind.named? (root : String) : Option OperationKind :=
  OperationKind.all.find? fun kind => Text.contains (Text.lowerAscii root) kind.keyword

/-- The keyword of documents for fields of a root type, or the name of the type itself when it
contains no keyword. -/
def operationKeyword (root : String) : String :=
  ((OperationKind.named? root).map OperationKind.keyword).getD root

/-- The events that the choice of a keyword causes. -/
def keywordEvents (root : String) : List Event :=
  if (OperationKind.named? root).isNone then [.keywordUnclear root] else []

end SchemaUnfolding
