import SchemaUnfolding.Proofs.Schema.Loaded

/-!
# Closed schemas

When the rules between types were checked, the names that an expansion follows lead somewhere: the
type of a field to a type that is no input type, a member of a union and a root to an object type.
This file reads that off the list of breaches being empty.
-/

namespace SchemaUnfolding

/-! ## Types that a schema has -/

namespace Schema

variable {schema : Schema}

theorem mem_values_of_type? {name : String} {type : TypeDef}
    (found : schema.type? name = some type) : type ∈ schema.types.values :=
  Table.mem_values_of_get? found

theorem object_mem_of_mem_possibleTypes {interface : String} {type : FieldedType}
    (possible : type ∈ schema.possibleTypes interface) :
    .object type ∈ schema.types.values := by
  rw [possibleTypes, List.mem_filter, List.mem_filterMap] at possible
  rcases possible with ⟨⟨known, member, same⟩, _⟩
  cases known with
  | object other =>
    cases same
    exact member
  | _ => cases same

theorem object_mem_of_root? {kind : OperationKind} {root : FieldedType}
    (known : schema.root? kind = some root) : .object root ∈ schema.types.values := by
  rcases Option.bind_eq_some_iff.mp known with ⟨ref, _, found⟩
  rcases Option.bind_eq_some_iff.mp found with ⟨type, resolved, same⟩
  cases type with
  | object other =>
    cases same
    exact mem_values_of_type? resolved
  | _ => cases same

theorem WellFormed.of_root? (wellFormed : schema.WellFormed) {kind : OperationKind}
    {root : FieldedType} (known : schema.root? kind = some root) : root.WellFormed :=
  wellFormed.types.types.values _ (object_mem_of_root? known)

theorem WellFormed.type?_of_root? (wellFormed : schema.WellFormed) {kind : OperationKind}
    {root : FieldedType} (known : schema.root? kind = some root) :
    schema.type? root.name = some (.object root) :=
  wellFormed.types.types.keyed.get?_eq_some_iff.mpr ⟨object_mem_of_root? known, rfl⟩

end Schema

/-! ## References -/

/-- The names in a schema that an expansion follows lead to types of the right kind. -/
structure Schema.Closed (schema : Schema) : Prop where
  roots : ∀ operation, ∀ ref ∈ schema.rootRef? operation,
    ∃ object, schema.type? ref.name = some (.object object)
  fields : ∀ type ∈ schema.types.values, ∀ fields ∈ type.fields?, ∀ field ∈ fields.values,
    ∃ target, schema.type? field.type.name = some target ∧ ∀ input, target ≠ .input input
  members : ∀ union, .union union ∈ schema.types.values → ∀ member ∈ union.members.names,
    ∃ object, schema.type? member = some (.object object)

namespace Violation

variable {types : Table TypeDef}

theorem ofRoot_eq_nil_iff {operation : OperationKind} {root : NamedRef} :
    ofRoot types operation root = [] ↔ ∃ object, types.get? root.name = some (.object object) := by
  rw [ofRoot]
  split <;> simp_all

theorem ofMember_eq_nil_iff {type : UnionType} {member : NamedRef} :
    ofMember types type member = [] ↔
      ∃ object, types.get? member.name = some (.object object) := by
  rw [ofMember]
  split <;> simp_all

theorem ofRef_eq_nil_iff {ref : TypeRef} {rule : TypeDef → List Violation} :
    ofRef types ref rule = [] ↔ ∃ target, types.get? ref.name = some target ∧ rule target = [] := by
  rw [ofRef]
  split <;> simp_all

/-- A field without breaches has a type, and that is no input type. -/
theorem exists_target_of_ofField {type : FieldedType} {field : Field}
    (valid : ofField types type field = []) :
    ∃ target, types.get? field.type.name = some target ∧ ∀ input, target ≠ .input input := by
  have result := (List.append_eq_nil_iff.mp valid).1
  rcases ofRef_eq_nil_iff.mp result with ⟨target, found, proper⟩
  refine ⟨target, found, ?_⟩
  rintro input rfl
  cases proper

/-- No breach in a type that has fields is no breach in any of them. -/
theorem ofField_of_ofType {type : TypeDef} {fields : Table Field} (known : fields ∈ type.fields?)
    (valid : ofType types type = []) :
    ∃ holder, ∀ field ∈ fields.values, ofField types holder field = [] := by
  cases type with
  | object holder | interface holder =>
    cases known
    have declared := (List.append_eq_nil_iff.mp valid).2
    exact ⟨holder, List.flatMap_eq_nil_iff.mp declared⟩
  | _ => cases known

theorem ofMember_of_ofType {union : UnionType} (valid : ofType types (.union union) = []) :
    ∀ member ∈ union.members.values, ofMember types union member = [] :=
  List.flatMap_eq_nil_iff.mp (List.append_eq_nil_iff.mp valid).2

end Violation

theorem Schema.mem_roots_of_rootRef? {schema : Schema} {operation : OperationKind} {ref : NamedRef}
    (known : ref ∈ schema.rootRef? operation) : (operation, ref) ∈ schema.roots := by
  rw [Schema.roots, List.mem_filterMap]
  refine ⟨operation, by cases operation <;> simp [OperationKind.all], ?_⟩
  rw [Option.mem_def.mp known]
  rfl

/-- A well-formed schema without breaches is closed. -/
theorem Schema.WellFormed.closed {schema : Schema} (wellFormed : schema.WellFormed)
    (valid : violations schema.types schema.roots = []) : schema.Closed := by
  have rootsValid := List.flatMap_eq_nil_iff.mp (List.append_eq_nil_iff.mp valid).1
  have typesValid := List.flatMap_eq_nil_iff.mp (List.append_eq_nil_iff.mp valid).2
  constructor
  · intro operation ref known
    exact Violation.ofRoot_eq_nil_iff.mp
      (rootsValid (operation, ref) (Schema.mem_roots_of_rootRef? known))
  · intro type member fields known field declared
    rcases Violation.ofField_of_ofType known (typesValid type member) with ⟨holder, fieldsValid⟩
    exact Violation.exists_target_of_ofField (fieldsValid field declared)
  · intro union member name listed
    have held : union.members.Holds NamedRef.name fun member => Sdl.IsName member.name :=
      wellFormed.types.types.values _ member
    rcases Table.mem_names_iff.mp listed with ⟨ref, entered⟩
    have named : ref.name = name := held.keyed _ entered
    have memberValid := Violation.ofMember_of_ofType (typesValid _ member) ref
      (Table.mem_values_iff.mpr ⟨name, entered⟩)
    rw [← named]
    exact Violation.ofMember_eq_nil_iff.mp memberValid

/-- A schema that was built with its rules checked is closed. -/
theorem Schema.Checked.closed {schema : Schema} (checked : schema.Checked) : schema.Closed := by
  have wellFormed := checked.built.wellFormed
  rcases checked with ⟨builder, _, strict, built⟩
  exact wellFormed.closed ((SchemaBuilder.parts_of_build built).2.2 strict)

end SchemaUnfolding
