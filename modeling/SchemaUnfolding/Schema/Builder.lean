import SchemaUnfolding.Event
import SchemaUnfolding.Schema.BuildError
import SchemaUnfolding.Sdl.Grammar
import SchemaUnfolding.Sdl.ValueText

/-!
# Building a schema

A builder takes definitions one by one. A type definition is an empty type of its kind that is
extended by its own body, so definitions and extensions follow the same rules. An extension of a
type that is not there yet waits until the schema is built.
-/

namespace SchemaUnfolding

/-- Whether a name is reserved for the language itself. -/
def isReserved (name : String) : Bool := name.startsWith "__"

/-- Why something is deprecated, read from its directives. The argument `reason` counts when it is a
string. -/
def deprecationReason (directives : List Sdl.Directive) : Option String :=
  (directives.find? (·.name == "deprecated")).map fun directive =>
    (directive.arguments.findSome? fun
      | ("reason", .string reason) => some reason
      | _ => none).getD "No longer supported"

/-- The arguments of a use of `deprecated` give a reason: the first string that is passed as
`reason`, or a fixed text when there is none. -/
def GivesReason (arguments : List (String × Sdl.Value)) (reason : String) : Prop :=
  (∃ before after, arguments = before ++ ("reason", .string reason) :: after ∧
    ∀ text, ("reason", .string text) ∉ before) ∨
  (∀ text, ("reason", .string text) ∉ arguments) ∧ reason = "No longer supported"

/-- Something is deprecated exactly when `deprecated` is among its directives. -/
theorem deprecationReason_eq_none_iff {directives : List Sdl.Directive} :
    deprecationReason directives = none ↔
      ∀ directive ∈ directives, directive.name ≠ "deprecated" := by
  simp [deprecationReason]

/-- An argument is read as a reason exactly when it is a string that is passed as `reason`. -/
theorem match_reason_eq_some_iff {argument : String × Sdl.Value} {text : String} :
    (match argument with
      | ("reason", .string reason) => some reason
      | _ => none) = some text ↔ argument = ("reason", .string text) := by
  grind

theorem getD_findSome?_eq_iff_givesReason {arguments : List (String × Sdl.Value)}
    {reason : String} :
    (arguments.findSome? fun
      | ("reason", .string reason) => some reason
      | _ => none).getD "No longer supported" = reason ↔ GivesReason arguments reason := by
  have absent : ∀ passed : List (String × Sdl.Value),
      (∀ argument ∈ passed, ∀ text, argument ≠ ("reason", .string text)) ↔
        ∀ text, ("reason", .string text) ∉ passed := by
    grind
  rw [Option.getD_eq_iff, GivesReason, List.findSome?_eq_none_iff, List.findSome?_eq_some_iff]
  simp only [Option.eq_none_iff_forall_ne_some, match_reason_eq_some_iff, ne_eq] at absent ⊢
  simp only [absent]
  refine or_congr ⟨?_, ?_⟩ (and_congr_right' eq_comm)
  · rintro ⟨before, argument, after, rfl, rfl, skipped⟩
    exact ⟨before, after, rfl, skipped⟩
  · rintro ⟨before, after, rfl, skipped⟩
    exact ⟨before, _, after, rfl, rfl, skipped⟩

/-- It is deprecated for the reason that the first use of `deprecated` gives. -/
theorem deprecationReason_eq_some_iff {directives : List Sdl.Directive} {reason : String} :
    deprecationReason directives = some reason ↔
      ∃ before directive after, directives = before ++ directive :: after ∧
        (∀ other ∈ before, other.name ≠ "deprecated") ∧ directive.name = "deprecated" ∧
        GivesReason directive.arguments reason := by
  simp only [deprecationReason, Option.map_eq_some_iff, List.find?_eq_some_iff_append,
    Bool.not_eq_true', beq_iff_eq, beq_eq_false_iff_ne, getD_findSome?_eq_iff_givesReason]
  constructor
  · rintro ⟨directive, ⟨named, before, after, rfl, skipped⟩, gives⟩
    exact ⟨before, directive, after, rfl, skipped, named, gives⟩
  · rintro ⟨before, directive, after, rfl, skipped, named, gives⟩
    exact ⟨directive, ⟨named, before, after, rfl, skipped⟩, gives⟩

/-! ## Parts of types -/

/-- The parameter that a declaration in the file of its field declares. -/
def Parameter.ofDecl (fieldAt : Location) (decl : Sdl.InputDecl) : Parameter :=
  let location := fieldAt.within decl.position
  { location
    default := decl.default.map Sdl.Value.text
    description := decl.description
    name := decl.name
    type := .ofExpr location decl.type }

/-- Add a parameter to those of a field. -/
def Parameter.add (fieldAt : Location) (type field : String) (parameters : Table Parameter)
    (decl : Sdl.InputDecl) : Except BuildError (Table Parameter) :=
  let location := fieldAt.within decl.position
  if isReserved decl.name then .error (.reservedParameter type field decl.name location)
  else match parameters.get? decl.name with
    | some known => .error (.duplicateParameter type field decl.name known.location location)
    | none => .ok (parameters.insert decl.name (.ofDecl fieldAt decl))

/-- Add a field to those of an object type or an interface. -/
def Field.add (typeAt : Location) (type : String) (fields : Table Field)
    (decl : Sdl.FieldDecl) : Except BuildError (Table Field) := do
  let location := typeAt.within decl.position
  if isReserved decl.name then throw (.reservedField type decl.name location)
  if let some known := fields.get? decl.name then
    throw (.duplicateField type decl.name known.location location)
  let parameters ← decl.parameters.foldlM (Parameter.add location type decl.name) .empty
  return fields.insert decl.name
    { location
      deprecation := deprecationReason decl.directives
      description := decl.description
      name := decl.name
      parameters
      parent := type
      type := .ofExpr location decl.type }

/-- Add a field to those of an input type. -/
def InputField.add (typeAt : Location) (type : String) (fields : Table InputField)
    (decl : Sdl.InputDecl) : Except BuildError (Table InputField) :=
  let location := typeAt.within decl.position
  if isReserved decl.name then .error (.reservedField type decl.name location)
  else match fields.get? decl.name with
    | some known => .error (.duplicateField type decl.name known.location location)
    | none =>
      .ok (fields.insert decl.name ⟨location, decl.name, .ofExpr location decl.type⟩)

/-- Add an interface to those that a type declares to implement. -/
def NamedRef.addInterface (location : Location) (type : String) (interfaces : List NamedRef)
    (interface : String) : Except BuildError (List NamedRef) :=
  if interfaces.any (·.name == interface) then
    .error (.duplicateInterface type interface location)
  else if interface = type then .error (.selfImplementing type location)
  else .ok (interfaces ++ [⟨interface, location⟩])

/-- Add a value to those of an enumeration. -/
def EnumType.addValue (typeAt : Location) (type : EnumType) (decl : Sdl.EnumValueDecl) :
    Except BuildError EnumType :=
  let location := typeAt.within decl.position
  match type.values.get? decl.name with
  | some known =>
    .error (.duplicateEnumValue type.name decl.name type.location known.location location)
  | none =>
    let value := ⟨location, deprecationReason decl.directives, decl.name⟩
    .ok { type with values := type.values.insert decl.name value }

/-- Add a member to those of a union. -/
def NamedRef.addMember (location : Location) (members : Table NamedRef) (member : String) :
    Except BuildError (Table NamedRef) :=
  match members.get? member with
  | some known => .error (.duplicateMember member known.location location)
  | none => .ok (members.insert member ⟨member, location⟩)

/-! ## Types -/

/-- Extend an object type or an interface: first by interfaces, then by fields. -/
def FieldedType.extend (location : Location) (type : FieldedType) (interfaces : List String)
    (fields : List Sdl.FieldDecl) : Except BuildError FieldedType := do
  let interfaces ←
    interfaces.foldlM (NamedRef.addInterface location type.name) type.interfaces
  let fields ← fields.foldlM (Field.add location type.name) type.fields
  return { type with interfaces, fields }

/-- Extend a type by a body of its own kind. -/
def TypeDef.extend (file : Option String) (type : TypeDef) (decl : Sdl.TypeDecl) :
    Except BuildError TypeDef :=
  let location := Location.source file decl.position
  match type, decl.body with
  | .scalar type, .scalar => .ok (.scalar type)
  | .object type, .object interfaces fields =>
    (type.extend location interfaces fields).map .object
  | .interface type, .interface interfaces fields =>
    (type.extend location interfaces fields).map .interface
  | .union type, .union members =>
    (members.foldlM (NamedRef.addMember location) type.members).map fun members =>
      .union { type with members }
  | .enum type, .enum values => (values.foldlM (EnumType.addValue location) type).map .enum
  | .input type, .input fields =>
    (fields.foldlM (InputField.add location type.name) type.fields).map fun fields =>
      .input { type with fields }
  | type, _ => .error (.mismatchedExtension decl.name type.kind location)

/-- The empty type of the kind that a definition defines. -/
def TypeDef.blank (file : Option String) (decl : Sdl.TypeDecl) : TypeDef :=
  let location := Location.source file decl.position
  match decl.body with
  | .scalar => .scalar ⟨location, decl.description, decl.name⟩
  | .object .. => .object ⟨location, decl.description, .empty, [], decl.name⟩
  | .interface .. => .interface ⟨location, decl.description, .empty, [], decl.name⟩
  | .union _ => .union ⟨location, decl.description, decl.name, .empty⟩
  | .enum _ => .enum ⟨location, decl.description, decl.name, .empty⟩
  | .input _ => .input ⟨location, decl.description, .empty, decl.name⟩

/-- The type that a definition in a file defines. -/
def TypeDef.ofDecl (file : Option String) (decl : Sdl.TypeDecl) : Except BuildError TypeDef :=
  (TypeDef.blank file decl).extend file decl

/-! ## The builder -/

/-- What has been loaded: the types, the root types that schema blocks chose, the extensions that
wait for their type, and whether the rules between types are taken for granted. -/
structure SchemaBuilder where
  assumeValid : Bool := false
  types : Table TypeDef := TypeDef.builtIns
  query : Option NamedRef := none
  mutation : Option NamedRef := none
  subscription : Option NamedRef := none
  pending : List (Option String × Sdl.TypeDecl) := []

namespace SchemaBuilder

/-- The builder before anything is loaded. -/
def empty : SchemaBuilder := {}

/-- The root type of a kind that a schema block chose. -/
def chosen (builder : SchemaBuilder) : OperationKind → Option NamedRef
  | .query => builder.query
  | .mutation => builder.mutation
  | .subscription => builder.subscription

/-- Let a root type be chosen. -/
def setChosen (builder : SchemaBuilder) (root : NamedRef) : OperationKind → SchemaBuilder
  | .query => { builder with query := some root }
  | .mutation => { builder with mutation := some root }
  | .subscription => { builder with subscription := some root }

/-- Choose a root type, once for each kind. -/
def choose (builder : SchemaBuilder) (location : Location) (operation : OperationKind) :
    Option String → Except BuildError SchemaBuilder
  | none => .ok builder
  | some type =>
    match builder.chosen operation with
    | some known => .error (.duplicateRoot operation known ⟨type, location⟩)
    | none => .ok (builder.setChosen ⟨type, location⟩ operation)

/-- That two root types share a name. -/
def sharing (builder : SchemaBuilder) (first second : OperationKind) : Option BuildError :=
  match builder.chosen first, builder.chosen second with
  | some root, some root' =>
    if root.name = root'.name then
      some (.sharedRoot root.name first root.location second root'.location)
    else none
  | _, _ => none

/-- Enter a schema block. No two kinds of operation share their root type. -/
def enterBlock (builder : SchemaBuilder) (file : Option String) (block : Sdl.SchemaBlock) :
    Except BuildError SchemaBuilder := do
  let location := Location.source file block.position
  let builder ← builder.choose location .query block.query
  let builder ← builder.choose location .mutation block.mutation
  let builder ← builder.choose location .subscription block.subscription
  let shared := [(.query, .mutation), (.query, .subscription), (.mutation, .subscription)].findSome?
    fun (first, second) => builder.sharing first second
  match shared with
  | some error => .error error
  | none => .ok builder

/-- Enter a type definition. -/
def define (builder : SchemaBuilder) (file : Option String) (decl : Sdl.TypeDecl) :
    Except BuildError SchemaBuilder := do
  let type ← TypeDef.ofDecl file decl
  if isReserved decl.name then throw (.reservedType decl.name type.location)
  match builder.types.get? decl.name with
  | some known => throw (.duplicateType decl.name known.location type.location)
  | none => return { builder with types := builder.types.insert decl.name type }

/-- Extend a type of a table. -/
def extendIn (types : Table TypeDef) (file : Option String) (decl : Sdl.TypeDecl) :
    Except BuildError (Table TypeDef) :=
  match types.get? decl.name with
  | some type => (type.extend file decl).map fun extended => types.insert decl.name extended
  | none => .error (.undefinedExtension decl.name (.source file decl.position))

/-- Enter an extension: apply it to its type, or keep it until the schema is built. -/
def extend (builder : SchemaBuilder) (file : Option String) (decl : Sdl.TypeDecl) :
    Except BuildError SchemaBuilder :=
  if builder.types.contains decl.name then
    (extendIn builder.types file decl).map fun types => { builder with types }
  else .ok { builder with pending := builder.pending ++ [(file, decl)] }

/-- Enter a definition from a file. The definition of a directive changes nothing. -/
def add (builder : SchemaBuilder) (file : Option String) :
    Sdl.Definition → Except BuildError SchemaBuilder
  | .schema block => builder.enterBlock file block
  | .type decl => builder.define file decl
  | .extension decl => builder.extend file decl
  | .directive _ => .ok builder

/-- The events that a definition causes. -/
def eventsOf : Sdl.Definition → List Event
  | .directive name => [.directiveIgnored name]
  | _ => []

/-- Enter definitions from a file one after the other, up to the first that cannot be entered. -/
def addAll (builder : SchemaBuilder) (file : Option String) :
    List Sdl.Definition → List Event × Except BuildError SchemaBuilder
  | [] => ([], .ok builder)
  | definition :: rest =>
    match builder.add file definition with
    | .error error => ([], .error error)
    | .ok builder =>
      let (events, result) := builder.addAll file rest
      (eventsOf definition ++ events, result)

/-- Load a source: read its text and enter its definitions. -/
def load (builder : SchemaBuilder) (file : Option String) (source : String) :
    List Event × Except BuildError SchemaBuilder :=
  match Sdl.definitions source with
  | .error error => ([], .error (.malformed file error))
  | .ok definitions => builder.addAll file definitions

/-- The root type of a kind: the chosen one, or the object type with the default name. -/
def root (builder : SchemaBuilder) (types : Table TypeDef) (operation : OperationKind) :
    Option NamedRef :=
  match builder.chosen operation with
  | some root => some root
  | none =>
    match types.get? operation.defaultRoot with
    | some (.object type) => some ⟨operation.defaultRoot, type.location⟩
    | _ => none

/-- Build the schema: apply the extensions that waited, settle the root types and, unless they are
taken for granted, check the rules between types. -/
def build (builder : SchemaBuilder) : Except BuildError Schema := do
  let types ← builder.pending.foldlM (fun types (file, decl) => extendIn types file decl)
    builder.types
  let root := builder.root types
  unless builder.assumeValid do
    let roots := OperationKind.all.filterMap fun operation =>
      (root operation).map fun ref => (operation, ref)
    match violations types roots with
    | [] => pure ()
    | found => throw (.invalid found)
  return { query := root .query, mutation := root .mutation,
           subscription := root .subscription, types }

end SchemaBuilder

end SchemaUnfolding
