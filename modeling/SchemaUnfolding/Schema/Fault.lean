import SchemaUnfolding.Schema.Basic
import SchemaUnfolding.Sdl.BlockString

/-!
# Faults of a schema

What leaves a run without an answer: a block string of the schema's source that has no text, and
what can be wrong with a schema whose rules were taken for granted, found while fields are expanded.
The expansion of a schema without violations meets none of these faults.
-/

namespace SchemaUnfolding

/-- A fault of a schema. -/
inductive Fault
  /-- A block string has no text. -/
  | splitText (cause : Sdl.SplitCharacter)
  /-- The type of a field is not defined. -/
  | undefinedType (type field target : String)
  /-- A member of a union has no fields. -/
  | unselectableMember (union member : String)
  /-- A type has no field of a name. -/
  | missingField (kind : TypeKind) (type field : String)
deriving DecidableEq, Repr

/-- The wording of a fault. -/
def Fault.message : Fault → String
  | splitText cause => cause.message
  | undefinedType type field target =>
    s!"`{type}.{field}` references `{target}`, which is not defined in the schema"
  | unselectableMember union member =>
    s!"Member `{member}` of union `{union}` is not an object type defined in the schema"
  | missingField kind type field => s!"The {kind.text} type `{type}` has no field named `{field}`"

end SchemaUnfolding
