import SchemaUnfolding.OperationKind

/-!
# Index modules

Modules for Node.js that load documents from their files and export them: one for each kind of
operation, and one that exports those.
-/

namespace SchemaUnfolding

/-- The statement that exports the document of a field. -/
def exportDocument (extension field : String) : String :=
  "module.exports." ++ field ++ " = fs.readFileSync(path.join(__dirname, '" ++ field ++ "." ++
    extension ++ "'), 'utf8');\n"

/-- The index of the documents of some fields. -/
def kindIndex (extension : String) (fields : List String) : String :=
  "const fs = require('fs');\nconst path = require('path');\n\n" ++
    String.join (fields.map (exportDocument extension))

/-- The statement that exports the index of a kind. -/
def exportKind (kind : OperationKind) : String :=
  "module.exports." ++ kind.directory ++ " = require('./" ++ kind.directory ++ "');\n"

/-- The index of the indexes of some kinds. -/
def rootIndex (kinds : List OperationKind) : String := String.join (kinds.map exportKind)

end SchemaUnfolding
