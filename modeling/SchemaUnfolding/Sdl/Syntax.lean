import SchemaUnfolding.Decimal.Binary64
import SchemaUnfolding.Location

/-!
# Schema documents

A schema document is a list of definitions: type definitions, extensions of types, schema blocks
that name the root types, and definitions of directives. This is what the grammar of the schema
definition language produces; whether the definitions fit together is decided later.
-/

namespace SchemaUnfolding.Sdl

/-- A value: an argument of a directive or the default of a parameter. -/
inductive Value
  | variable (name : String)
  | integer (value : Int)
  | decimal (value : Decimal.Binary64)
  | string (value : String)
  | boolean (value : Bool)
  | null
  | enum (name : String)
  | list (items : List Value)
  | object (entries : List (String × Value))
deriving Inhabited

/-- A type as it is written: a name, a list of another type, or another type that is never null. -/
inductive TypeExpr
  | named (name : String)
  | list (item : TypeExpr)
  | nonNull (type : TypeExpr)
deriving DecidableEq, Repr, Inhabited

/-- The spelling of a type. -/
def TypeExpr.text : TypeExpr → String
  | named name => name
  | list item => "[" ++ item.text ++ "]"
  | nonNull type => type.text ++ "!"

/-- A use of a directive. -/
structure Directive where
  name : String
  arguments : List (String × Value)

/-- A parameter of a field or a field of an input type. -/
structure InputDecl where
  position : Position
  description : Option String
  name : String
  type : TypeExpr
  default : Option Value
  directives : List Directive

/-- A field of an object type or an interface. -/
structure FieldDecl where
  position : Position
  description : Option String
  name : String
  parameters : List InputDecl
  type : TypeExpr
  directives : List Directive

/-- A value of an enumeration. -/
structure EnumValueDecl where
  position : Position
  description : Option String
  name : String
  directives : List Directive

/-- What stands after the name and the directives of a type. -/
inductive TypeBody
  | scalar
  | object (interfaces : List String) (fields : List FieldDecl)
  | interface (interfaces : List String) (fields : List FieldDecl)
  | union (members : List String)
  | enum (values : List EnumValueDecl)
  | input (fields : List InputDecl)

/-- A definition of a type or an extension of one, which has no description. -/
structure TypeDecl where
  position : Position
  description : Option String
  name : String
  directives : List Directive
  body : TypeBody

/-- A schema block, which names some of the root types. -/
structure SchemaBlock where
  position : Position
  query : Option String
  mutation : Option String
  subscription : Option String

/-- One definition of a schema document. -/
inductive Definition
  | schema (block : SchemaBlock)
  | type (decl : TypeDecl)
  | extension (decl : TypeDecl)
  | directive (name : String)

end SchemaUnfolding.Sdl
