import SchemaUnfolding.Proofs.Unfolding.Branches
import SchemaUnfolding.Proofs.Unfolding.Distinct

/-!
# Fields by their names

A selection names its fields only. In a well-formed schema the name of a field and the type at hand
lead back to the field, for all fields that an expansion follows.
-/

namespace SchemaUnfolding

open Expansion

/-- The field of a name of the type of a name. -/
def Schema.fieldOf? (schema : Schema) (type name : String) : Option Field :=
  ((schema.type? type).bind TypeDef.fields?).bind (·.get? name)

section Fields

variable {schema : Schema} {config : Config} (wellFormed : schema.WellFormed)
include wellFormed

theorem Schema.WellFormed.fieldOf?_of_mem {name : String} {type : TypeDef}
    (found : schema.type? name = some type) {fields : Table Field}
    (declares : type.fields? = some fields) {field : Field} (declared : field ∈ fields.values) :
    schema.fieldOf? name field.name = some field := by
  have keyed := (wellFormed.fields_holds (Schema.mem_values_of_type? found) declares).keyed
  rw [Schema.fieldOf?, found, Option.bind_some, declares, Option.bind_some]
  exact keyed.get?_eq_some_iff.mpr ⟨declared, rfl⟩

/-- The own fields that an expansion follows are found in the type. -/
theorem Schema.WellFormed.fieldOf?_of_mem_ownFields {name : String} {type : TypeDef}
    (found : schema.type? name = some type) :
    ∀ entry ∈ (ownFields config type).map fun inner => ((none : Option String), inner),
      schema.fieldOf? name entry.2.name = some entry.2 := by
  intro entry listed
  obtain ⟨inner, own, rfl⟩ := List.mem_map.mp listed
  obtain ⟨fields, declares, declared, _⟩ := mem_ownFields_iff.mp own
  exact wellFormed.fieldOf?_of_mem found declares declared

theorem Schema.WellFormed.fieldOf?_of_mem_fieldsOf {name : String} {field : Field}
    (declared : field ∈ schema.fieldsOf name) : schema.fieldOf? name field.name = some field := by
  rw [Schema.fieldsOf] at declared
  cases resolved : (schema.type? name).bind TypeDef.fields? with
  | none =>
    rw [resolved] at declared
    cases declared
  | some fields =>
    rw [resolved] at declared
    obtain ⟨type, found, declares⟩ := Option.bind_eq_some_iff.mp resolved
    exact wellFormed.fieldOf?_of_mem found declares declared

/-- The fields that an expansion follows in a fragment are found in the type of the fragment. -/
theorem Schema.WellFormed.fieldOf?_of_branches? {type : TypeDef} {branches : List Branch}
    (known : branches? schema config type = some branches) :
    ∀ branch ∈ branches, ∀ entry ∈ branch.fields,
      schema.fieldOf? branch.type entry.2.name = some entry.2 := by
  rintro branch member ⟨label, field⟩ listed
  cases type with
  | interface interface =>
    cases known
    obtain ⟨type, possible, rfl⟩ := List.mem_map.mp member
    have held := Schema.object_mem_of_mem_possibleTypes possible
    have found : schema.type? type.name = some (.object type) :=
      wellFormed.types.types.keyed.get?_eq_some_iff.mpr ⟨held, rfl⟩
    exact wellFormed.fieldOf?_of_mem found rfl (mem_implementorBranch_iff.mp listed).2.1
  | union union =>
    rw [memberBranches?_eq_some known] at member
    obtain ⟨name, _, rfl⟩ := List.mem_map.mp member
    exact wellFormed.fieldOf?_of_mem_fieldsOf (mem_memberBranch_iff.mp listed).2.1
  | _ =>
    cases known
    cases member

/-- A field that is found belongs to the type and has the name that lead to it. -/
theorem Schema.WellFormed.of_fieldOf? {type name : String} {field : Field}
    (found : schema.fieldOf? type name = some field) :
    field.parent = type ∧ field.name = name ∧ schema.Offers field := by
  obtain ⟨fields, listed, held⟩ := Option.bind_eq_some_iff.mp found
  obtain ⟨holder, resolved, declares⟩ := Option.bind_eq_some_iff.mp listed
  have known := Schema.mem_values_of_type? resolved
  have holds := wellFormed.fields_holds known declares
  have entered := holds.keyed.get?_eq_some_iff.mp held
  have holderName := (wellFormed.types.types.keyed.get?_eq_some_iff.mp resolved).2
  refine ⟨?_, entered.2, holder, known, fields, declares, entered.1⟩
  rw [← holderName]
  exact (holds.values field entered.1).parent

end Fields

end SchemaUnfolding
