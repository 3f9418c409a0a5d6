import SchemaUnfolding.Schema.Basic

/-!
# Violations

The rules that connect the types of a schema: names refer to types, and to types of the right kind.
`violations` lists every breach of a rule, the root types first and then type by type.
-/

namespace SchemaUnfolding

/-- A breach of a rule, with the location of the offender. -/
inductive Violation
  | emptyEnum (enum : String) (location : Location)
  | implementsNonInterface (type interface : String) (location : Location)
  | implementsUndefined (type interface : String) (location : Location)
  | inputAsResult (type field fieldType : String) (location : Location)
  | parameterNotInput (type field parameter parameterType : String) (location : Location)
  | inputFieldNotInput (type field fieldType : String) (location : Location)
  | rootNotObject (operation : OperationKind) (type : String) (kind : TypeKind)
      (location : Location)
  | rootUndefined (operation : OperationKind) (type : String) (location : Location)
  | undefinedType (type : String) (location : Location)
  | memberNotObject (union member : String) (kind : TypeKind) (location : Location)
  | emptyUnion (union : String) (location : Location)
deriving DecidableEq, Repr

namespace Violation

/-- The location of the offender. -/
def location : Violation → Location
  | emptyEnum _ location
  | implementsNonInterface _ _ location
  | implementsUndefined _ _ location
  | inputAsResult _ _ _ location
  | parameterNotInput _ _ _ _ location
  | inputFieldNotInput _ _ _ location
  | rootNotObject _ _ _ location
  | rootUndefined _ _ location
  | undefinedType _ location
  | memberNotObject _ _ _ location
  | emptyUnion _ location => location

/-- The wording of a breach. -/
def message : Violation → String
  | emptyEnum enum _ => s!"The `{enum}` enum type must define one or more values"
  | implementsNonInterface type interface _ =>
    s!"The `{type}` type declares that it implements `{interface}`, but `{interface}` is not an " ++
      "interface type"
  | implementsUndefined type interface _ =>
    s!"The `{type}` type declares that it implements the `{interface}` interface, but no such " ++
      "type is defined"
  | inputAsResult type field fieldType _ =>
    s!"The `{type}.{field}` field is typed as `{fieldType}`, which is an input type and cannot " ++
      "be used as a field result"
  | parameterNotInput type field parameter parameterType _ =>
    s!"The `{parameter}` argument of `{type}.{field}` is typed as `{parameterType}`, which is " ++
      "not an input type"
  | inputFieldNotInput type field fieldType _ =>
    s!"The `{type}.{field}` input field is typed as `{fieldType}`, which is not an input type"
  | rootNotObject operation type kind _ =>
    s!"The {operation.keyword} root operation type `{type}` is a {kind.text} type, but root " ++
      "operation types must be object types"
  | rootUndefined operation type _ =>
    s!"The {operation.keyword} root operation type `{type}` is not defined"
  | undefinedType type _ => s!"Reference to an undefined type named `{type}`"
  | memberNotObject union member kind _ =>
    s!"The `{union}` union lists `{member}` as a member, but `{member}` is a {kind.text} type " ++
      "and union members must be object types"
  | emptyUnion union _ => s!"The `{union}` union type must define one or more members"

end Violation

namespace Violation

variable (types : Table TypeDef)

/-- The breach of a reference that refers to nothing, or else what a rule says of its target. -/
def ofRef (ref : TypeRef) (rule : TypeDef → List Violation) : List Violation :=
  match types.get? ref.name with
  | some target => rule target
  | none => [undefinedType ref.name ref.location]

/-- The breaches of a root type. -/
def ofRoot (operation : OperationKind) (root : NamedRef) : List Violation :=
  match types.get? root.name with
  | some (.object _) => []
  | some other => [rootNotObject operation root.name other.kind root.location]
  | none => [rootUndefined operation root.name root.location]

/-- The breaches of an interface that a type declares to implement. -/
def ofInterface (type : FieldedType) (interface : NamedRef) : List Violation :=
  match types.get? interface.name with
  | some (.interface _) => []
  | some _ => [implementsNonInterface type.name interface.name type.location]
  | none => [implementsUndefined type.name interface.name type.location]

/-- The breaches of a parameter. -/
def ofParameter (type : FieldedType) (field : Field) (parameter : Parameter) : List Violation :=
  ofRef types parameter.type fun target =>
    if target.isInput then []
    else [parameterNotInput type.name field.name parameter.name target.name parameter.location]

/-- The breaches of a field: first of its result, then of its parameters. -/
def ofField (type : FieldedType) (field : Field) : List Violation :=
  (ofRef types field.type fun target =>
    match target with
    | .input _ => [inputAsResult type.name field.name target.name field.location]
    | _ => []) ++
  field.parameters.values.flatMap (ofParameter types type field)

/-- The breaches of an object type or an interface. -/
def ofFielded (type : FieldedType) : List Violation :=
  type.interfaces.flatMap (ofInterface types type) ++
    type.fields.values.flatMap (ofField types type)

/-- The breaches of a field of an input type. -/
def ofInputField (type : InputType) (field : InputField) : List Violation :=
  ofRef types field.type fun target =>
    if target.isInput then []
    else [inputFieldNotInput type.name field.name target.name field.location]

/-- The breaches of a member of a union. -/
def ofMember (type : UnionType) (member : NamedRef) : List Violation :=
  match types.get? member.name with
  | some (.object _) => []
  | some other => [memberNotObject type.name member.name other.kind member.location]
  | none => [undefinedType member.name member.location]

/-- The breaches of a type. -/
def ofType : TypeDef → List Violation
  | .enum type => if type.values.isEmpty then [emptyEnum type.name type.location] else []
  | .input type => type.fields.values.flatMap (ofInputField types type)
  | .object type | .interface type => ofFielded types type
  | .union type =>
    (if type.members.isEmpty then [emptyUnion type.name type.location] else []) ++
      type.members.values.flatMap (ofMember types type)
  | _ => []

end Violation

/-- All breaches: of the root types and of the types of a table. -/
def violations (types : Table TypeDef) (roots : List (OperationKind × NamedRef)) :
    List Violation :=
  (roots.flatMap fun (operation, root) => Violation.ofRoot types operation root) ++
    types.values.flatMap (Violation.ofType types)

end SchemaUnfolding
