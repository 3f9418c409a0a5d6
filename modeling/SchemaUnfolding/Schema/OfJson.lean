import SchemaUnfolding.Json.Parser
import SchemaUnfolding.Json.Record
import SchemaUnfolding.Schema.Basic

/-!
# Schemas from JSON values

Reading what `Schema.toJson` writes, and a little more: fields that may be null may be missing,
unknown fields do not matter, and records may be written as arrays. The names inside types need not
be those under which the tables hold them.
-/

namespace SchemaUnfolding

open Json

/-- Read a position in a file. -/
def Location.sourceOfJson? : Decoder Location
  | _ + 1, json => do
    match ← fields? ["col", "file", "line"] json with
    | [column, file, line] =>
      return .source (← optional text? file)
        ⟨← required natural? line, ← required natural? column⟩
    | _ => none
  | 0, _ => none

/-- Read a location. -/
def Location.ofJson? (room : Nat) (json : Json) : Option Location :=
  if isUnit "GraphQLBuiltIn" room json then some .builtIn
  else
    match tagged? room json with
    | some ("Schema", content) => sourceOfJson? (room - 1) content
    | _ => none

/-- Read a type's name and location. -/
def NamedRef.ofJson? : Decoder NamedRef
  | room + 1, json => do
    match ← fields? ["name", "ref_location"] json with
    | [name, location] =>
      return ⟨← required text? name, ← required (Location.ofJson? room) location⟩
    | _ => none
  | 0, _ => none

/-- Read a reference to a type. Each level of it takes two levels of nesting. -/
def TypeRef.ofJson? : Decoder TypeRef
  | room + 2, json => do
    match ← tagged? (room + 2) json with
    | ("Named", content) =>
      match ← fields? ["nullable", "type_ref"] content with
      | [nullable, target] =>
        return .named (← required bool? nullable) (← required (NamedRef.ofJson? room) target)
      | _ => none
    | ("List", content) =>
      match ← fields? ["ref_location", "inner_type_ref", "nullable"] content with
      | [location, item, nullable] =>
        let location ← required (Location.ofJson? room) location
        let item ← required (ofJson? room) item
        return .list (← required bool? nullable) item location
      | _ => none
    | _ => none
  | _, _ => none

/-- Read a parameter. -/
def Parameter.ofJson? : Decoder Parameter
  | room + 1, json => do
    match ← fields? ["def_location", "default_value", "description", "name", "type_annotation"]
        json with
    | [location, default, description, name, type] =>
      return {
        location := ← required (Location.ofJson? room) location
        default := ← optional text? default
        description := ← optional text? description
        name := ← required text? name
        type := ← required (TypeRef.ofJson? room) type }
    | _ => none
  | 0, _ => none

/-- Read a field. -/
def Field.ofJson? : Decoder Field
  | room + 1, json => do
    match ← fields? ["def_location", "deprecation_reason", "description", "name", "parameters",
        "parent_type_name", "type_annotation"] json with
    | [location, deprecation, description, name, parameters, parent, type] =>
      return {
        location := ← required (Location.ofJson? room) location
        deprecation := ← optional text? deprecation
        description := ← optional text? description
        name := ← required text? name
        parameters := ← required (table? Parameter.ofJson? room) parameters
        parent := ← required text? parent
        type := ← required (TypeRef.ofJson? room) type }
    | _ => none
  | 0, _ => none

/-- Read an object type or an interface. -/
def FieldedType.ofJson? : Decoder FieldedType
  | room + 1, json => do
    match ← fields? ["def_location", "description", "fields", "interfaces", "name"] json with
    | [location, description, fields, interfaces, name] =>
      return {
        location := ← required (Location.ofJson? room) location
        description := ← optional text? description
        fields := ← required (table? Field.ofJson? room) fields
        interfaces := ← required (list? NamedRef.ofJson? room) interfaces
        name := ← required text? name }
    | _ => none
  | 0, _ => none

/-- Read a value of an enumeration. -/
def EnumValue.ofJson? : Decoder EnumValue
  | room + 1, json => do
    match ← fields? ["def_location", "deprecation_reason", "name"] json with
    | [location, deprecation, name] =>
      return {
        location := ← required (Location.ofJson? room) location
        deprecation := ← optional text? deprecation
        name := ← required text? name }
    | _ => none
  | 0, _ => none

/-- Read an enumeration. -/
def EnumType.ofJson? : Decoder EnumType
  | room + 1, json => do
    match ← fields? ["def_location", "description", "name", "values"] json with
    | [location, description, name, values] =>
      return {
        location := ← required (Location.ofJson? room) location
        description := ← optional text? description
        name := ← required text? name
        values := ← required (table? EnumValue.ofJson? room) values }
    | _ => none
  | 0, _ => none

/-- Read a scalar. -/
def ScalarType.ofJson? : Decoder ScalarType
  | room + 1, json => do
    match ← fields? ["def_location", "description", "name"] json with
    | [location, description, name] =>
      return {
        location := ← required (Location.ofJson? room) location
        description := ← optional text? description
        name := ← required text? name }
    | _ => none
  | 0, _ => none

/-- Read a field of an input type. -/
def InputField.ofJson? : Decoder InputField
  | room + 1, json => do
    match ← fields? ["def_location", "name", "type_annotation"] json with
    | [location, name, type] =>
      return {
        location := ← required (Location.ofJson? room) location
        name := ← required text? name
        type := ← required (TypeRef.ofJson? room) type }
    | _ => none
  | 0, _ => none

/-- Read an input type. -/
def InputType.ofJson? : Decoder InputType
  | room + 1, json => do
    match ← fields? ["def_location", "description", "fields", "name"] json with
    | [location, description, fields, name] =>
      return {
        location := ← required (Location.ofJson? room) location
        description := ← optional text? description
        fields := ← required (table? InputField.ofJson? room) fields
        name := ← required text? name }
    | _ => none
  | 0, _ => none

/-- Read a union. -/
def UnionType.ofJson? : Decoder UnionType
  | room + 1, json => do
    match ← fields? ["def_location", "description", "name", "members"] json with
    | [location, description, name, members] =>
      return {
        location := ← required (Location.ofJson? room) location
        description := ← optional text? description
        name := ← required text? name
        members := ← required (table? NamedRef.ofJson? room) members }
    | _ => none
  | 0, _ => none

/-- Read a type. -/
def TypeDef.ofJson? (room : Nat) (json : Json) : Option TypeDef :=
  if isUnit "Bool" room json then some .boolean
  else if isUnit "Float" room json then some .float
  else if isUnit "ID" room json then some .id
  else if isUnit "Int" room json then some .int
  else if isUnit "String" room json then some .string
  else
    match tagged? room json with
    | some ("Scalar", content) => (ScalarType.ofJson? (room - 1) content).map .scalar
    | some ("Object", content) => (FieldedType.ofJson? (room - 1) content).map .object
    | some ("Interface", content) => (FieldedType.ofJson? (room - 1) content).map .interface
    | some ("Union", content) => (UnionType.ofJson? (room - 1) content).map .union
    | some ("Enum", content) => (EnumType.ofJson? (room - 1) content).map .enum
    | some ("InputObject", content) => (InputType.ofJson? (room - 1) content).map .input
    | _ => none

/-- Read a schema at a level of nesting. -/
def Schema.ofJsonAt? : Decoder Schema
  | room + 1, json => do
    match ← fields? ["query_type", "mutation_type", "subscription_type", "types"] json with
    | [query, mutation, subscription, types] =>
      return {
        query := ← optional (NamedRef.ofJson? room) query
        mutation := ← optional (NamedRef.ofJson? room) mutation
        subscription := ← optional (NamedRef.ofJson? room) subscription
        types := ← required (table? TypeDef.ofJson? room) types }
    | _ => none
  | 0, _ => none

/-- Read a schema. -/
def Schema.ofJson? (json : Json) : Option Schema := ofJsonAt? nestingLimit json

/-- Read a schema from JSON text. -/
def Schema.ofJsonText? (text : String) : Option Schema :=
  (Json.ofText? text).bind Schema.ofJson?

end SchemaUnfolding
