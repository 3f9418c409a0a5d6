import SchemaUnfolding.Schema.Basic

/-!
# What is written in a schema

All locations in a schema and all references to types that its fields and parameters have, as lists.
-/

namespace SchemaUnfolding

/-! ## Locations -/

/-- The locations in a reference to a type, from the outside inwards. -/
def TypeRef.locations : TypeRef → List Location
  | named _ target => [target.location]
  | list _ item location => location :: item.locations

/-- The locations in a parameter. -/
def Parameter.locations (parameter : Parameter) : List Location :=
  parameter.location :: parameter.type.locations

/-- The locations in a field. -/
def Field.locations (field : Field) : List Location :=
  field.location :: (field.parameters.values.flatMap Parameter.locations ++ field.type.locations)

/-- The locations in an object type or an interface. -/
def FieldedType.locations (type : FieldedType) : List Location :=
  type.location ::
    (type.fields.values.flatMap Field.locations ++ type.interfaces.map NamedRef.location)

/-- The locations in a field of an input type. -/
def InputField.locations (field : InputField) : List Location :=
  field.location :: field.type.locations

/-- The locations in a type. -/
def TypeDef.locations : TypeDef → List Location
  | boolean | float | id | int | string => []
  | scalar type => [type.location]
  | object type | interface type => type.locations
  | union type => type.location :: type.members.values.map NamedRef.location
  | enum type => type.location :: type.values.values.map EnumValue.location
  | input type => type.location :: type.fields.values.flatMap InputField.locations

/-- The locations in a schema. -/
def Schema.locations (schema : Schema) : List Location :=
  (OperationKind.all.filterMap schema.rootRef?).map NamedRef.location ++
    schema.types.values.flatMap TypeDef.locations

/-! ## References -/

/-- How many lists a reference stands for, one inside the other. -/
def TypeRef.depth : TypeRef → Nat
  | named .. => 0
  | list _ item _ => item.depth + 1

/-- The references that a field has: its own and those of its parameters. -/
def Field.references (field : Field) : List TypeRef :=
  field.type :: field.parameters.values.map Parameter.type

/-- The references that the fields of a type have. -/
def TypeDef.references : TypeDef → List TypeRef
  | object type | interface type => type.fields.values.flatMap Field.references
  | input type => type.fields.values.map InputField.type
  | _ => []

/-- The references that the fields of a schema have. -/
def Schema.references (schema : Schema) : List TypeRef :=
  schema.types.values.flatMap TypeDef.references

end SchemaUnfolding
