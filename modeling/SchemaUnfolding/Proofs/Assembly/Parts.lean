import Mathlib.Data.List.Basic
import Mathlib.Data.List.Flatten
import SchemaUnfolding.Proofs.Table
import SchemaUnfolding.Schema.Builder

/-!
# Parts of types

A type is written in parts: its definition and the extensions of it, each in a file of its own. This
file says what a part writes, which parts fit together, and which type they make. The order of the
parts decides the order inside the type and nothing else.
-/

namespace SchemaUnfolding

/-! ## What a body writes -/

namespace Sdl

/-- The kind of type that a body belongs to. -/
def TypeBody.kind : TypeBody → TypeKind
  | scalar => .scalar
  | object .. => .object
  | interface .. => .interface
  | union _ => .union
  | enum _ => .enum
  | input _ => .input

/-- The interfaces that a body declares to implement. -/
def TypeBody.interfaces : TypeBody → List String
  | object interfaces _ | interface interfaces _ => interfaces
  | _ => []

/-- The fields of an object type or an interface. -/
def TypeBody.fields : TypeBody → List FieldDecl
  | object _ fields | interface _ fields => fields
  | _ => []

/-- The members of a union. -/
def TypeBody.members : TypeBody → List String
  | union members => members
  | _ => []

/-- The values of an enumeration. -/
def TypeBody.values : TypeBody → List EnumValueDecl
  | enum values => values
  | _ => []

/-- The fields of an input type. -/
def TypeBody.inputFields : TypeBody → List InputDecl
  | input fields => fields
  | _ => []

/-- The names of what a body holds: of its fields, values or members, in order. -/
def TypeBody.memberNames : TypeBody → List String
  | scalar => []
  | object _ fields | interface _ fields => fields.map FieldDecl.name
  | union members => members
  | enum values => values.map EnumValueDecl.name
  | input fields => fields.map InputDecl.name

/-- No name in a field is reserved, and no parameter is declared twice. -/
structure FieldDecl.Proper (decl : FieldDecl) : Prop where
  name : isReserved decl.name = false
  parameters : ∀ parameter ∈ decl.parameters, isReserved parameter.name = false
  distinct : (decl.parameters.map InputDecl.name).Nodup

/-- Each field that a body holds may be a field of some type. -/
def TypeBody.Proper : TypeBody → Prop
  | object _ fields | interface _ fields => ∀ field ∈ fields, field.Proper
  | input fields => ∀ field ∈ fields, isReserved field.name = false
  | _ => True

namespace TypeBody

variable {body : TypeBody}

theorem interfaces_eq_nil (object : body.kind ≠ .object) (interface : body.kind ≠ .interface) :
    body.interfaces = [] := by
  cases body <;> simp_all [kind, interfaces]

theorem fields_eq_nil (object : body.kind ≠ .object) (interface : body.kind ≠ .interface) :
    body.fields = [] := by
  cases body <;> simp_all [kind, fields]

theorem members_eq_nil (union : body.kind ≠ .union) : body.members = [] := by
  cases body <;> simp_all [kind, members]

theorem values_eq_nil (enum : body.kind ≠ .enum) : body.values = [] := by
  cases body <;> simp_all [kind, values]

theorem inputFields_eq_nil (input : body.kind ≠ .input) : body.inputFields = [] := by
  cases body <;> simp_all [kind, inputFields]

theorem memberNames_eq_nil (scalar : body.kind = .scalar) :
    body.memberNames = [] := by
  cases body with
  | scalar => rfl
  | _ => cases scalar

theorem Proper.of_mem_fields {decl : FieldDecl} (proper : body.Proper)
    (declared : decl ∈ body.fields) : decl.Proper := by
  cases body with
  | object | interface => exact proper decl declared
  | _ => cases declared

theorem proper_iff_fields (fielded : body.kind = .object ∨ body.kind = .interface) :
    body.Proper ↔ ∀ field ∈ body.fields, field.Proper := by
  cases body <;> simp_all [kind, Proper, fields]

theorem proper_iff_inputFields (input : body.kind = .input) :
    body.Proper ↔ ∀ field ∈ body.inputFields, isReserved field.name = false := by
  cases body <;> simp_all [kind, Proper, inputFields]

theorem proper_of_kind (fieldless : body.kind = .union ∨ body.kind = .enum) : body.Proper := by
  cases body <;> simp_all [kind, Proper]

end TypeBody

end Sdl

/-! ## What a part writes -/

/-- The field that a declaration declares on a type. -/
def Field.ofDecl (typeAt : Location) (holder : String) (decl : Sdl.FieldDecl) : Field :=
  let location := typeAt.within decl.position
  { location
    deprecation := deprecationReason decl.directives
    description := decl.description
    name := decl.name
    parameters := .ofList
      (decl.parameters.map fun parameter => (parameter.name, .ofDecl location parameter))
    parent := holder
    type := .ofExpr location decl.type }

/-- The field that a declaration declares on an input type. -/
def InputField.ofDecl (typeAt : Location) (decl : Sdl.InputDecl) : InputField :=
  let location := typeAt.within decl.position
  ⟨location, decl.name, .ofExpr location decl.type⟩

/-- The value that a declaration declares. -/
def EnumValue.ofDecl (typeAt : Location) (decl : Sdl.EnumValueDecl) : EnumValue :=
  ⟨typeAt.within decl.position, deprecationReason decl.directives, decl.name⟩

/-- A part of a type: its definition or an extension of it, with the file that it is in. -/
abbrev Part := Option String × Sdl.TypeDecl

namespace Part

/-- Where a part is written. -/
def location (part : Part) : Location := .source part.1 part.2.position

/-- The name of the type that a part belongs to. -/
def name (part : Part) : String := part.2.name

/-- The names of what a part holds. -/
def memberNames (part : Part) : List String := part.2.body.memberNames

/-- The interfaces that a part names. -/
def interfaceNames (part : Part) : List String := part.2.body.interfaces

/-- The references to the interfaces that a part names. -/
def interfaces (part : Part) : List NamedRef :=
  part.interfaceNames.map fun interface => ⟨interface, part.location⟩

/-- The fields that a part gives to a type, each under its name. -/
def fields (holder : String) (part : Part) : List (String × Field) :=
  part.2.body.fields.map fun decl => (decl.name, .ofDecl part.location holder decl)

/-- The members that a part gives to a union. -/
def members (part : Part) : List (String × NamedRef) :=
  part.2.body.members.map fun member => (member, ⟨member, part.location⟩)

/-- The values that a part gives to an enumeration. -/
def values (part : Part) : List (String × EnumValue) :=
  part.2.body.values.map fun decl => (decl.name, .ofDecl part.location decl)

/-- The fields that a part gives to an input type. -/
def inputFields (part : Part) : List (String × InputField) :=
  part.2.body.inputFields.map fun decl => (decl.name, .ofDecl part.location decl)

end Part

/-! ## Parts that fit together -/

/-- Parts that can make up the type of a definition: all of one kind, no two of them with a field,
value or member of one name or with one interface, and none with the type as its own interface. -/
structure Part.Compatible (definition : Part) (parts : List Part) : Prop where
  kinds : ∀ part ∈ parts, part.2.body.kind = definition.2.body.kind
  proper : ∀ part ∈ parts, part.2.body.Proper
  members : (parts.flatMap Part.memberNames).Nodup
  interfaces : (parts.flatMap Part.interfaceNames).Nodup
  others : ∀ part ∈ parts, definition.name ∉ part.interfaceNames

namespace Part.Compatible

variable {definition : Part} {parts others : List Part}

theorem nil (definition : Part) : Compatible definition [] where
  kinds := by simp
  proper := by simp
  members := by simp
  interfaces := by simp
  others := by simp

/-- Whether parts fit together does not depend on their order. -/
theorem perm (same : parts.Perm others) (compatible : Compatible definition parts) :
    Compatible definition others where
  kinds part member := compatible.kinds part (same.mem_iff.mpr member)
  proper part member := compatible.proper part (same.mem_iff.mpr member)
  members := (same.flatMap_right _).nodup_iff.mp compatible.members
  interfaces := (same.flatMap_right _).nodup_iff.mp compatible.interfaces
  others part member := compatible.others part (same.mem_iff.mpr member)

theorem of_sublist (some : others.Sublist parts) (compatible : Compatible definition parts) :
    Compatible definition others where
  kinds part member := compatible.kinds part (some.subset member)
  proper part member := compatible.proper part (some.subset member)
  members := (some.flatMap _).nodup compatible.members
  interfaces := (some.flatMap _).nodup compatible.interfaces
  others part member := compatible.others part (some.subset member)

/-- One more part fits when it is of the kind, is proper, and brings only new names. -/
theorem concat_iff {part : Part} (compatible : Compatible definition parts) :
    Compatible definition (parts ++ [part]) ↔
      part.2.body.kind = definition.2.body.kind ∧ part.2.body.Proper ∧
        (parts.flatMap Part.memberNames ++ part.memberNames).Nodup ∧
        (parts.flatMap Part.interfaceNames ++ part.interfaceNames).Nodup ∧
        definition.name ∉ part.interfaceNames := by
  constructor
  · intro larger
    have last : part ∈ parts ++ [part] := by simp
    exact ⟨larger.kinds part last, larger.proper part last, by simpa using larger.members,
      by simpa using larger.interfaces, larger.others part last⟩
  · rintro ⟨kind, proper, members, interfaces, other⟩
    constructor
    · exact List.forall_mem_append.mpr ⟨compatible.kinds, List.forall_mem_singleton.mpr kind⟩
    · exact List.forall_mem_append.mpr ⟨compatible.proper, List.forall_mem_singleton.mpr proper⟩
    · simpa using members
    · simpa using interfaces
    · exact List.forall_mem_append.mpr ⟨compatible.others, List.forall_mem_singleton.mpr other⟩

end Part.Compatible

/-! ## Names in columns -/

namespace Part

variable {part : Part}

theorem map_fst_fields {holder : String}
    (kind : part.2.body.kind = .object ∨ part.2.body.kind = .interface) :
    (part.fields holder).map Prod.fst = part.memberNames := by
  rcases part with ⟨file, position, description, name, directives, body⟩
  cases body <;> simp_all [fields, memberNames, Sdl.TypeBody.kind, Sdl.TypeBody.fields,
    Sdl.TypeBody.memberNames]

theorem map_fst_members (kind : part.2.body.kind = .union) :
    part.members.map Prod.fst = part.memberNames := by
  rcases part with ⟨file, position, description, name, directives, body⟩
  cases body <;> simp_all [members, memberNames, Sdl.TypeBody.kind, Sdl.TypeBody.members,
    Sdl.TypeBody.memberNames, Function.comp_def]

theorem map_fst_values (kind : part.2.body.kind = .enum) :
    part.values.map Prod.fst = part.memberNames := by
  rcases part with ⟨file, position, description, name, directives, body⟩
  cases body <;> simp_all [values, memberNames, Sdl.TypeBody.kind, Sdl.TypeBody.values,
    Sdl.TypeBody.memberNames]

theorem map_fst_inputFields (kind : part.2.body.kind = .input) :
    part.inputFields.map Prod.fst = part.memberNames := by
  rcases part with ⟨file, position, description, name, directives, body⟩
  cases body <;> simp_all [inputFields, memberNames, Sdl.TypeBody.kind, Sdl.TypeBody.inputFields,
    Sdl.TypeBody.memberNames]

variable {definition : Part} {parts : List Part} {α : Type} {column : Part → List (String × α)}

theorem map_fst_flatMap (named : ∀ part ∈ parts, (column part).map Prod.fst = part.memberNames) :
    (parts.flatMap column).map Prod.fst = parts.flatMap memberNames := by
  rw [List.map_flatMap]
  exact List.flatMap_congr named

/-- What parts that fit together give to a table is all entered, in the order of the parts. -/
theorem Compatible.entries_column (compatible : Compatible definition parts)
    (named : ∀ part ∈ parts, (column part).map Prod.fst = part.memberNames) :
    (Table.ofList (parts.flatMap column)).entries = parts.flatMap column := by
  apply Table.entries_ofList
  rw [map_fst_flatMap named]
  exact compatible.members

theorem Compatible.names_column (compatible : Compatible definition parts)
    (named : ∀ part ∈ parts, (column part).map Prod.fst = part.memberNames) :
    (Table.ofList (parts.flatMap column)).names = parts.flatMap memberNames := by
  rw [Table.names, compatible.entries_column named, map_fst_flatMap named]

theorem map_name_interfaces :
    (parts.flatMap interfaces).map NamedRef.name = parts.flatMap interfaceNames := by
  simp [List.map_flatMap, interfaces, Function.comp_def]

end Part

/-! ## The type that parts make -/

/-- The object type or interface of a definition with the contents of parts. -/
def FieldedType.gather (definition : Part) (parts : List Part) : FieldedType where
  location := definition.location
  description := definition.2.description
  fields := .ofList (parts.flatMap (Part.fields definition.name))
  interfaces := parts.flatMap Part.interfaces
  name := definition.name

/-- The type of a definition with the contents of parts. -/
def TypeDef.gather (definition : Part) (parts : List Part) : TypeDef :=
  let description := definition.2.description
  match definition.2.body with
  | .scalar => .scalar ⟨definition.location, description, definition.name⟩
  | .object .. => .object (.gather definition parts)
  | .interface .. => .interface (.gather definition parts)
  | .union _ => .union
      ⟨definition.location, description, definition.name, .ofList (parts.flatMap Part.members)⟩
  | .enum _ => .enum
      ⟨definition.location, description, definition.name, .ofList (parts.flatMap Part.values)⟩
  | .input _ => .input
      ⟨definition.location, description, .ofList (parts.flatMap Part.inputFields),
        definition.name⟩

@[simp]
theorem TypeDef.kind_gather (definition : Part) (parts : List Part) :
    (gather definition parts).kind = definition.2.body.kind := by
  rw [gather]
  cases definition.2.body <;> rfl

@[simp]
theorem TypeDef.name_gather (definition : Part) (parts : List Part) :
    (gather definition parts).name = definition.name := by
  rw [gather]
  cases definition.2.body <;> rfl

@[simp]
theorem TypeDef.description_gather (definition : Part) (parts : List Part) :
    (gather definition parts).description = definition.2.description := by
  rw [gather]
  cases definition.2.body <;> rfl

@[simp]
theorem TypeDef.location_gather (definition : Part) (parts : List Part) :
    (gather definition parts).location = definition.location := by
  rw [gather]
  cases definition.2.body <;> rfl

end SchemaUnfolding
