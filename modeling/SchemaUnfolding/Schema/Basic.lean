import SchemaUnfolding.OperationKind
import SchemaUnfolding.Schema.TypeRef
import SchemaUnfolding.Table

/-!
# Schemas

A schema is a table of types together with the names of its root types. Types refer to each other by
name, so the types of a schema may form cycles; a name may also refer to nothing.
-/

namespace SchemaUnfolding

/-- A parameter of a field. -/
structure Parameter where
  location : Location
  default : Option String
  description : Option String
  name : String
  type : TypeRef
deriving DecidableEq

/-- A field of an object type or an interface. -/
structure Field where
  location : Location
  deprecation : Option String
  description : Option String
  name : String
  parameters : Table Parameter
  parent : String
  type : TypeRef
deriving DecidableEq

/-- An object type or an interface: a type with fields. -/
structure FieldedType where
  location : Location
  description : Option String
  fields : Table Field
  interfaces : List NamedRef
  name : String
deriving DecidableEq

/-- A value of an enumeration. -/
structure EnumValue where
  location : Location
  deprecation : Option String
  name : String
deriving DecidableEq

/-- An enumeration. -/
structure EnumType where
  location : Location
  description : Option String
  name : String
  values : Table EnumValue
deriving DecidableEq

/-- A scalar that a schema defines. -/
structure ScalarType where
  location : Location
  description : Option String
  name : String
deriving DecidableEq

/-- A field of an input type. -/
structure InputField where
  location : Location
  name : String
  type : TypeRef
deriving DecidableEq

/-- An input type. -/
structure InputType where
  location : Location
  description : Option String
  fields : Table InputField
  name : String
deriving DecidableEq

/-- A union of object types. -/
structure UnionType where
  location : Location
  description : Option String
  name : String
  members : Table NamedRef
deriving DecidableEq

/-- A type of a schema. The first five are there without being defined. -/
inductive TypeDef
  | boolean
  | float
  | id
  | int
  | string
  | scalar (type : ScalarType)
  | object (type : FieldedType)
  | interface (type : FieldedType)
  | union (type : UnionType)
  | enum (type : EnumType)
  | input (type : InputType)
deriving DecidableEq

/-- The kinds of type. -/
inductive TypeKind
  | boolean
  | float
  | id
  | int
  | string
  | scalar
  | object
  | interface
  | union
  | enum
  | input
deriving DecidableEq, Repr

/-- The name of a kind of type. -/
def TypeKind.text : TypeKind → String
  | boolean => "Boolean"
  | float => "Float"
  | id => "ID"
  | int => "Int"
  | string => "String"
  | scalar => "Scalar"
  | object => "Object"
  | interface => "Interface"
  | union => "Union"
  | enum => "Enum"
  | input => "InputObject"

namespace FieldedType

/-- Whether a type declares that it implements an interface. -/
def implements (type : FieldedType) (interface : String) : Bool :=
  type.interfaces.any fun ref => ref.name == interface

end FieldedType

namespace TypeDef

/-- The kind of a type. -/
def kind : TypeDef → TypeKind
  | boolean => .boolean
  | float => .float
  | id => .id
  | int => .int
  | string => .string
  | scalar _ => .scalar
  | object _ => .object
  | interface _ => .interface
  | union _ => .union
  | enum _ => .enum
  | input _ => .input

/-- The name that a type has itself. -/
def name : TypeDef → String
  | boolean => "Boolean"
  | float => "Float"
  | id => "ID"
  | int => "Int"
  | string => "String"
  | scalar type => type.name
  | object type => type.name
  | interface type => type.name
  | union type => type.name
  | enum type => type.name
  | input type => type.name

/-- Where a type was defined. -/
def location : TypeDef → Location
  | boolean | float | id | int | string => .builtIn
  | scalar type => type.location
  | object type => type.location
  | interface type => type.location
  | union type => type.location
  | enum type => type.location
  | input type => type.location

/-- The description of a type. -/
def description : TypeDef → Option String
  | boolean | float | id | int | string => none
  | scalar type => type.description
  | object type => type.description
  | interface type => type.description
  | union type => type.description
  | enum type => type.description
  | input type => type.description

/-- The object type that a type is. -/
def object? : TypeDef → Option FieldedType
  | object type => some type
  | _ => none

/-- The enumeration that a type is. -/
def enum? : TypeDef → Option EnumType
  | enum type => some type
  | _ => none

/-- The union that a type is. -/
def union? : TypeDef → Option UnionType
  | union type => some type
  | _ => none

/-- The fields that can be selected on a type: those of an object type or an interface. -/
def fields? : TypeDef → Option (Table Field)
  | object type | interface type => some type.fields
  | _ => none

/-- Whether a parameter or an input field can have a type. -/
def isInput : TypeDef → Bool
  | object _ | interface _ | union _ => false
  | _ => true

/-- Whether a field of a type is selected without fields of its own. -/
def isLeaf : TypeDef → Bool
  | object _ | interface _ | union _ | input _ => false
  | _ => true

/-- The types that every schema has, in order. -/
def builtIns : Table TypeDef where
  entries := [("Boolean", boolean), ("Float", float), ("ID", id), ("Int", int), ("String", string)]
  nodup := by decide

end TypeDef

/-- A schema: its root types, if it has them, and all its types. -/
structure Schema where
  query : Option NamedRef
  mutation : Option NamedRef
  subscription : Option NamedRef
  types : Table TypeDef
deriving DecidableEq

/-- A reference to a type that a schema does not define. -/
structure DanglingReference where
  name : String
deriving DecidableEq, Repr

/-- The wording of a dangling reference. -/
def DanglingReference.message (reference : DanglingReference) : String :=
  s!"No type named `{reference.name}` is defined in the schema"

namespace Schema

/-- The type under a name. -/
def type? (schema : Schema) (name : String) : Option TypeDef := schema.types.get? name

/-- The type that a name refers to. -/
def resolve (schema : Schema) (name : String) : Except DanglingReference TypeDef :=
  match schema.type? name with
  | some type => .ok type
  | none => .error ⟨name⟩

/-- The reference to the root type of a kind. -/
def rootRef? (schema : Schema) : OperationKind → Option NamedRef
  | .query => schema.query
  | .mutation => schema.mutation
  | .subscription => schema.subscription

/-- The root type of a kind: the object type that the schema's reference leads to. -/
def root? (schema : Schema) (kind : OperationKind) : Option FieldedType :=
  (schema.rootRef? kind).bind fun ref => (schema.type? ref.name).bind TypeDef.object?

/-- The object types that implement an interface, in the order of their definitions. -/
def possibleTypes (schema : Schema) (interface : String) : List FieldedType :=
  (schema.types.values.filterMap TypeDef.object?).filter (·.implements interface)

end Schema

end SchemaUnfolding
