import SchemaUnfolding.Proofs.Schema.Closed

/-!
# Rules between types

Whether a schema breaks a rule depends on what its types hold and on the kinds of the types that
names lead to, and on nothing else: in particular not on the order of anything. This file says what
each rule asks for.
-/

namespace SchemaUnfolding

/-! ## What a type holds -/

namespace TypeDef

/-- The fields of an object type or an interface, each under its name. -/
def fieldEntries : TypeDef → List (String × Field)
  | object type | interface type => type.fields.entries
  | _ => []

/-- The interfaces that a type declares to implement. -/
def declaredInterfaces : TypeDef → List NamedRef
  | object type | interface type => type.interfaces
  | _ => []

/-- The members of a union, each under its name. -/
def memberEntries : TypeDef → List (String × NamedRef)
  | union type => type.members.entries
  | _ => []

/-- The values of an enumeration, each under its name. -/
def valueEntries : TypeDef → List (String × EnumValue)
  | enum type => type.values.entries
  | _ => []

/-- The fields of an input type, each under its name. -/
def inputEntries : TypeDef → List (String × InputField)
  | input type => type.fields.entries
  | _ => []

end TypeDef

/-! ## Kinds that names lead to -/

/-- Whether a parameter or an input field can have a type of a kind. -/
def TypeKind.isInput : TypeKind → Bool
  | object | interface | union => false
  | _ => true

/-- The kind of the type that a name leads to. -/
def kindAt (types : Table TypeDef) (name : String) : Option TypeKind :=
  (types.get? name).map TypeDef.kind

/-- A parameter or an input field can have the type that a name leads to. -/
def IsInputAt (types : Table TypeDef) (name : String) : Prop :=
  ∃ kind, kindAt types name = some kind ∧ kind.isInput = true

/-- A field has a type that is no input type, and each of its parameters has one that parameters can
have. -/
structure Field.Lawful (types : Table TypeDef) (field : Field) : Prop where
  result : ∃ kind, kindAt types field.type.name = some kind ∧ kind ≠ .input
  parameters : ∀ parameter ∈ field.parameters.values, IsInputAt types parameter.type.name

/-- What a type holds refers to types of the right kinds, and no enumeration and no union is
empty. -/
@[mk_iff]
structure TypeDef.Lawful (types : Table TypeDef) (type : TypeDef) : Prop where
  fields : ∀ entry ∈ type.fieldEntries, entry.2.Lawful types
  interfaces : ∀ ref ∈ type.declaredInterfaces, kindAt types ref.name = some .interface
  members : ∀ entry ∈ type.memberEntries, kindAt types entry.2.name = some .object
  inputs : ∀ entry ∈ type.inputEntries, IsInputAt types entry.2.type.name
  valued : type.kind = .enum → type.valueEntries ≠ []
  peopled : type.kind = .union → type.memberEntries ≠ []

/-! ## What each rule asks for -/

variable {types : Table TypeDef} {name : String}

theorem kindAt_eq_object_iff :
    kindAt types name = some .object ↔ ∃ object, types.get? name = some (.object object) := by
  rw [kindAt, Option.map_eq_some_iff]
  constructor
  · rintro ⟨type, found, same⟩
    cases type with
    | object object => exact ⟨object, found⟩
    | _ => cases same
  · rintro ⟨object, found⟩
    exact ⟨_, found, rfl⟩

namespace Violation

theorem ofInterface_eq_nil_iff {type : FieldedType} {interface : NamedRef} :
    ofInterface types type interface = [] ↔ kindAt types interface.name = some .interface := by
  rw [ofInterface, kindAt]
  cases found : types.get? interface.name with
  | none => simp
  | some target => cases target <;> simp [TypeDef.kind]

/-- A rule that asks for a type of some kind. -/
theorem ofRef_eq_nil_iff_kindAt {ref : TypeRef} {rule : TypeDef → List Violation}
    {good : TypeKind → Prop} (asks : ∀ type, rule type = [] ↔ good type.kind) :
    ofRef types ref rule = [] ↔ ∃ kind, kindAt types ref.name = some kind ∧ good kind := by
  rw [ofRef_eq_nil_iff, kindAt]
  simp only [Option.map_eq_some_iff]
  constructor
  · rintro ⟨target, found, valid⟩
    exact ⟨_, ⟨target, found, rfl⟩, (asks target).mp valid⟩
  · rintro ⟨_, ⟨target, found, rfl⟩, valid⟩
    exact ⟨target, found, (asks target).mpr valid⟩

theorem ofParameter_eq_nil_iff {type : FieldedType} {field : Field} {parameter : Parameter} :
    ofParameter types type field parameter = [] ↔ IsInputAt types parameter.type.name := by
  apply ofRef_eq_nil_iff_kindAt
  intro target
  cases target <;> simp [TypeDef.isInput, TypeDef.kind, TypeKind.isInput]

theorem ofInputField_eq_nil_iff {type : InputType} {field : InputField} :
    ofInputField types type field = [] ↔ IsInputAt types field.type.name := by
  apply ofRef_eq_nil_iff_kindAt
  intro target
  cases target <;> simp [TypeDef.isInput, TypeDef.kind, TypeKind.isInput]

theorem ofField_eq_nil_iff {type : FieldedType} {field : Field} :
    ofField types type field = [] ↔ field.Lawful types := by
  rw [ofField, List.append_eq_nil_iff, List.flatMap_eq_nil_iff, ofRef_eq_nil_iff_kindAt]
  · constructor
    · rintro ⟨result, parameters⟩
      exact ⟨result, fun parameter member =>
        ofParameter_eq_nil_iff.mp (parameters parameter member)⟩
    · rintro ⟨result, parameters⟩
      exact ⟨result, fun parameter member =>
        ofParameter_eq_nil_iff.mpr (parameters parameter member)⟩
  · intro target
    cases target <;> simp [TypeDef.kind]

theorem ofFielded_eq_nil_iff {type : FieldedType} :
    ofFielded types type = [] ↔
      (∀ ref ∈ type.interfaces, kindAt types ref.name = some .interface) ∧
        ∀ entry ∈ type.fields.entries, entry.2.Lawful types := by
  rw [ofFielded, List.append_eq_nil_iff, List.flatMap_eq_nil_iff, List.flatMap_eq_nil_iff,
    Table.values, List.forall_mem_map]
  simp only [ofInterface_eq_nil_iff, ofField_eq_nil_iff]

/-- A type breaks no rule exactly when it is lawful. -/
theorem ofType_eq_nil_iff {type : TypeDef} : ofType types type = [] ↔ type.Lawful types := by
  rw [TypeDef.lawful_iff]
  cases type with
  | object type | interface type =>
    rw [ofType, ofFielded_eq_nil_iff]
    simp [TypeDef.fieldEntries, TypeDef.declaredInterfaces, TypeDef.memberEntries,
      TypeDef.inputEntries, TypeDef.kind, and_comm]
  | union type =>
    rw [ofType, List.append_eq_nil_iff, List.flatMap_eq_nil_iff, Table.values, List.forall_mem_map]
    simp [TypeDef.fieldEntries, TypeDef.declaredInterfaces, TypeDef.memberEntries,
      TypeDef.inputEntries, TypeDef.kind, ofMember_eq_nil_iff, kindAt_eq_object_iff,
      Table.isEmpty, and_comm]
  | enum type =>
    simp [ofType, TypeDef.fieldEntries, TypeDef.declaredInterfaces, TypeDef.memberEntries,
      TypeDef.inputEntries, TypeDef.valueEntries, TypeDef.kind, Table.isEmpty]
  | input type =>
    rw [ofType, List.flatMap_eq_nil_iff, Table.values, List.forall_mem_map]
    simp [TypeDef.fieldEntries, TypeDef.declaredInterfaces, TypeDef.memberEntries,
      TypeDef.inputEntries, TypeDef.kind, ofInputField_eq_nil_iff]
  | _ =>
    simp [ofType, TypeDef.fieldEntries, TypeDef.declaredInterfaces, TypeDef.memberEntries,
      TypeDef.inputEntries, TypeDef.kind]

end Violation

/-- No rule is broken exactly when each root type is an object type and each type is lawful. -/
theorem violations_eq_nil_iff {roots : List (OperationKind × NamedRef)} :
    violations types roots = [] ↔
      (∀ choice ∈ roots, kindAt types choice.2.name = some .object) ∧
        ∀ type ∈ types.values, type.Lawful types := by
  rw [violations, List.append_eq_nil_iff, List.flatMap_eq_nil_iff, List.flatMap_eq_nil_iff]
  simp only [Violation.ofRoot_eq_nil_iff, kindAt_eq_object_iff, Violation.ofType_eq_nil_iff]

end SchemaUnfolding
