import SchemaUnfolding.Json.Printer
import SchemaUnfolding.Schema.Basic

/-!
# Schemas as JSON values

A schema is written as a record of its root types and its types. Tables become objects whose members
have the table's order, alternatives become objects with their tag as the only name, and
alternatives without content become texts.
-/

namespace SchemaUnfolding

namespace Json

/-- A text or null. -/
def ofOption (text : Option String) : Json := text.elim null string

/-- The object of a table. -/
def ofTable {α : Type} (write : α → Json) (table : Table α) : Json :=
  object (table.entries.map fun (name, value) => (name, write value))

end Json

/-- A location as JSON. -/
def Location.toJson : Location → Json
  | builtIn => .string "GraphQLBuiltIn"
  | source file position =>
    .object [("Schema", .object
      [("col", .natural position.column), ("file", .ofOption file),
        ("line", .natural position.line)])]

/-- A type's name and location as JSON. -/
def NamedRef.toJson (ref : NamedRef) : Json :=
  .object [("name", .string ref.name), ("ref_location", ref.location.toJson)]

/-- A reference to a type as JSON. -/
def TypeRef.toJson : TypeRef → Json
  | named nullable target =>
    .object [("Named", .object [("nullable", .bool nullable), ("type_ref", target.toJson)])]
  | list nullable item location =>
    .object [("List", .object
      [("ref_location", location.toJson), ("inner_type_ref", item.toJson),
        ("nullable", .bool nullable)])]

/-- A parameter as JSON. -/
def Parameter.toJson (parameter : Parameter) : Json :=
  .object
    [("def_location", parameter.location.toJson), ("default_value", .ofOption parameter.default),
      ("description", .ofOption parameter.description), ("name", .string parameter.name),
      ("type_annotation", parameter.type.toJson)]

/-- A field as JSON. -/
def Field.toJson (field : Field) : Json :=
  .object
    [("def_location", field.location.toJson), ("deprecation_reason", .ofOption field.deprecation),
      ("description", .ofOption field.description), ("name", .string field.name),
      ("parameters", .ofTable Parameter.toJson field.parameters),
      ("parent_type_name", .string field.parent), ("type_annotation", field.type.toJson)]

/-- An object type or an interface as JSON. -/
def FieldedType.toJson (type : FieldedType) : Json :=
  .object
    [("def_location", type.location.toJson), ("description", .ofOption type.description),
      ("fields", .ofTable Field.toJson type.fields),
      ("interfaces", .array (type.interfaces.map NamedRef.toJson)), ("name", .string type.name)]

/-- A value of an enumeration as JSON. -/
def EnumValue.toJson (value : EnumValue) : Json :=
  .object
    [("def_location", value.location.toJson), ("deprecation_reason", .ofOption value.deprecation),
      ("name", .string value.name)]

/-- An enumeration as JSON. -/
def EnumType.toJson (type : EnumType) : Json :=
  .object
    [("def_location", type.location.toJson), ("description", .ofOption type.description),
      ("name", .string type.name), ("values", .ofTable EnumValue.toJson type.values)]

/-- A scalar as JSON. -/
def ScalarType.toJson (type : ScalarType) : Json :=
  .object
    [("def_location", type.location.toJson), ("description", .ofOption type.description),
      ("name", .string type.name)]

/-- A field of an input type as JSON. -/
def InputField.toJson (field : InputField) : Json :=
  .object
    [("def_location", field.location.toJson), ("name", .string field.name),
      ("type_annotation", field.type.toJson)]

/-- An input type as JSON. -/
def InputType.toJson (type : InputType) : Json :=
  .object
    [("def_location", type.location.toJson), ("description", .ofOption type.description),
      ("fields", .ofTable InputField.toJson type.fields), ("name", .string type.name)]

/-- A union as JSON. -/
def UnionType.toJson (type : UnionType) : Json :=
  .object
    [("def_location", type.location.toJson), ("description", .ofOption type.description),
      ("name", .string type.name), ("members", .ofTable NamedRef.toJson type.members)]

/-- A type as JSON. -/
def TypeDef.toJson : TypeDef → Json
  | boolean => .string "Bool"
  | float => .string "Float"
  | id => .string "ID"
  | int => .string "Int"
  | string => .string "String"
  | scalar type => .object [("Scalar", type.toJson)]
  | object type => .object [("Object", type.toJson)]
  | interface type => .object [("Interface", type.toJson)]
  | union type => .object [("Union", type.toJson)]
  | enum type => .object [("Enum", type.toJson)]
  | input type => .object [("InputObject", type.toJson)]

/-- A schema as JSON. -/
def Schema.toJson (schema : Schema) : Json :=
  let root (ref : Option NamedRef) : Json := ref.elim .null NamedRef.toJson
  .object
    [("query_type", root schema.query), ("mutation_type", root schema.mutation),
      ("subscription_type", root schema.subscription),
      ("types", .ofTable TypeDef.toJson schema.types)]

end SchemaUnfolding
