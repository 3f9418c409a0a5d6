import SchemaUnfolding.Schema.Fault
import SchemaUnfolding.Schema.Violation
import SchemaUnfolding.Sdl.Token

/-!
# Why no schema could be built

The causes that stop the building of a schema, each with what it is about and where.
-/

namespace SchemaUnfolding

/-- Why no schema could be built. -/
inductive BuildError
  | duplicateEnumValue (enum value : String) (enumAt first second : Location)
  | duplicateField (type field : String) (first second : Location)
  | duplicateInterface (type interface : String) (location : Location)
  | duplicateRoot (operation : OperationKind) (first second : NamedRef)
  | duplicateParameter (type field parameter : String) (first second : Location)
  | duplicateType (type : String) (first second : Location)
  | duplicateMember (member : String) (first second : Location)
  | undefinedExtension (type : String) (location : Location)
  | mismatchedExtension (type : String) (kind : TypeKind) (location : Location)
  | reservedField (type field : String) (location : Location)
  | reservedParameter (type field parameter : String) (location : Location)
  | reservedType (type : String) (location : Location)
  | selfImplementing (interface : String) (location : Location)
  | sharedRoot (type : String) (operation : OperationKind) (location : Location)
      (operation' : OperationKind) (location' : Location)
  | malformed (file : Option String) (error : Sdl.SyntaxError)
  | invalid (violations : List Violation)
deriving DecidableEq, Repr

namespace BuildError

/-- The wording of a cause. -/
def message : BuildError → String
  | duplicateEnumValue enum _ _ _ _ =>
    s!"Multiple enum values named `{enum}` were defined on a single enum type"
  | duplicateField type field _ _ => s!"Multiple `{type}.{field}` fields were defined"
  | duplicateInterface type interface _ =>
    s!"The `{type}` type declares that it implements the `{interface}` interface more than once"
  | duplicateRoot operation _ _ =>
    s!"The {operation.keyword} root operation type was defined more than once"
  | duplicateParameter type field parameter _ _ =>
    s!"Multiple `{parameter}` arguments were defined on `{type}.{field}`"
  | duplicateType type _ _ => s!"Multiple GraphQL types named `{type}` were defined"
  | duplicateMember member _ _ =>
    s!"A union type specifies `{member}` as a member multiple times"
  | undefinedExtension type _ => s!"Attempted to extend `{type}`, which is not defined"
  | mismatchedExtension type kind _ =>
    s!"Attempted to extend the {kind.text} type `{type}` using a different kind of type extension"
  | reservedField type field _ => s!"Field names must not start with `__`: `{type}.{field}`"
  | reservedParameter type field parameter _ =>
    s!"Argument names must not start with `__`: `{type}.{field}({parameter})`"
  | reservedType type _ => s!"Type names must not start with `__`: `{type}`"
  | selfImplementing interface _ =>
    s!"Interface types may not declare that they implement themselves: The `{interface}` " ++
      "interface does just that"
  | sharedRoot type operation _ another _ =>
    s!"The {operation.keyword} and {another.keyword} root operations are both defined with the " ++
      s!"`{type}` type, but all root operations must be defined with different types"
  | malformed _ error => "Error parsing schema source: " ++ error.message
  | invalid violations =>
    "Encountered the following type-validation errors while building the schema:\n\n" ++
      "\n".intercalate (violations.map fun violation => "  * " ++ violation.message)

/-- The fault behind a cause, if it is one. -/
def fault? : BuildError → Option Fault
  | malformed _ (.splitText cause) => some (.splitText cause)
  | _ => none

end BuildError

end SchemaUnfolding
