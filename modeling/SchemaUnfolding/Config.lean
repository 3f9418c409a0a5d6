import SchemaUnfolding.Json.Record
import SchemaUnfolding.Schema.Basic

/-!
# Choices about documents

How much of a schema each document selects, and the extension of the files that hold the documents.
Choices can be read from a JSON record; those it leaves out have their default.
-/

namespace SchemaUnfolding

/-- The choices about documents. -/
structure Config where
  /-- The greatest depth at which a field with fields of its own is expanded; a root field has depth
  one. -/
  depthLimit : Nat := 100
  /-- The extension of the names of documents, without a dot. -/
  extension : String := "gql"
  /-- Whether an edge between two fields is expanded each time it is reached, or once. -/
  repeatEdges : Bool := false
  /-- Whether deprecated fields are selected. -/
  includeDeprecated : Bool := false
deriving DecidableEq, Repr

namespace Config

/-- Whether a field may be selected. -/
def includes (config : Config) (field : Field) : Bool :=
  config.includeDeprecated || field.deprecation.isNone

/-- Fields that are not deprecated may be selected, and all others only when they are asked for. -/
theorem includes_iff {config : Config} {field : Field} :
    config.includes field = true ↔
      field.deprecation = none ∨ config.includeDeprecated = true := by
  simp [includes, or_comm]

/-- The names of the choices in JSON, in order. -/
def fieldNames : List String :=
  ["depth_limit", "file_extension", "include_cross_references", "include_deprecated_fields"]

/-- Read a field of a record; one that is missing has its default. -/
def fieldOrDefault {α : Type} (default : α) (read : Json → Option α) (field : Option Json) :
    Option α :=
  field.elim (some default) read

/-- Read the choices from the fields of a record. -/
def ofFields? : List (Option Json) → Option Config
  | [depthLimit, extension, repeatEdges, includeDeprecated] => do
    let standard : Config := {}
    return {
      depthLimit := ← fieldOrDefault standard.depthLimit Json.natural? depthLimit
      extension := ← fieldOrDefault standard.extension Json.text? extension
      repeatEdges := ← fieldOrDefault standard.repeatEdges Json.bool? repeatEdges
      includeDeprecated := ← fieldOrDefault standard.includeDeprecated Json.bool?
        includeDeprecated }
  | _ => none

/-- Read the choices. An array holds the first of them in order. -/
def ofJson? : Json → Option Config
  | .array items =>
    let missing := fieldNames.length - items.length
    ofFields? (items.map some ++ List.replicate missing none)
  | json => (Json.fields? fieldNames json).bind ofFields?

/-- The choices as JSON. -/
def toJson (config : Config) : Json :=
  .object
    [("depth_limit", .natural config.depthLimit), ("file_extension", .string config.extension),
      ("include_cross_references", .bool config.repeatEdges),
      ("include_deprecated_fields", .bool config.includeDeprecated)]

end Config

end SchemaUnfolding
