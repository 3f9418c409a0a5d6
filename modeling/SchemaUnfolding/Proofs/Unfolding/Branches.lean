import SchemaUnfolding.Proofs.Expansion.Derivation
import SchemaUnfolding.Proofs.Expansion.Safety
import SchemaUnfolding.Proofs.Unfolding.Paths

/-!
# Where paths continue and what an expansion follows

A field at a site makes a stop. The own fields and the fragments that an expansion follows from the
site are the stops at which paths continue.
-/

namespace SchemaUnfolding

open Expansion

variable {schema : Schema} {config : Config}

/-- The stop that a field makes at a site. -/
def Stop.ofSite (condition : Option String) (site : Site) (field : Field) : Stop :=
  ⟨condition, field, site.depth, site.inFragment⟩

/-! ## Own fields -/

theorem Expansion.mem_ownFields_iff {type : TypeDef} {field : Field} :
    field ∈ ownFields config type ↔
      ∃ fields, type.fields? = some fields ∧ field ∈ fields.values ∧
        config.includes field = true := by
  rw [ownFields]
  cases type.fields? with
  | none => simp
  | some fields => simp

/-! ## Fragments -/

/-- The fragment for a member of a union. -/
def Expansion.memberBranch (schema : Schema) (config : Config) (member : String) : Branch :=
  ⟨member, ((schema.fieldsOf member).filter config.includes).map fun field => (none, field)⟩

theorem Expansion.memberBranches?_eq_some {members : List String} {branches : List Branch}
    (known : memberBranches? schema config members = some branches) :
    branches = members.map (memberBranch schema config) := by
  induction members generalizing branches with
  | nil =>
    cases known
    rfl
  | cons member rest ih =>
    simp only [memberBranches?, Option.bind_eq_bind, Option.pure_def, Option.bind_eq_some_iff,
      Option.some.injEq] at known
    rcases known with ⟨fields, found, others, listed, rfl⟩
    have declared : schema.fieldsOf member = fields.values := by
      rw [Schema.fieldsOf, Option.bind_eq_some_iff.mpr found]
      rfl
    rw [List.map_cons, ← ih listed, memberBranch, declared]

theorem Expansion.mem_implementorBranch_iff {interface type : FieldedType}
    {possible : List FieldedType} {label : Option String} {field : Field} :
    (label, field) ∈ (implementorBranch config interface possible type).fields ↔
      label = interface.label? possible type field ∧ field ∈ type.fields.values ∧
        field.name ∉ interface.fields.names ∧ config.includes field = true := by
  simp only [implementorBranch, FieldedType.fieldsBeyond, List.mem_map, List.mem_filter,
    Prod.mk.injEq]
  constructor
  · rintro ⟨_, ⟨⟨declared, beyond⟩, included⟩, rfl, rfl⟩
    refine ⟨rfl, declared, ?_, included⟩
    simpa [← Table.contains_iff] using beyond
  · rintro ⟨rfl, declared, beyond, included⟩
    refine ⟨field, ⟨⟨declared, ?_⟩, included⟩, rfl, rfl⟩
    simpa [← Table.contains_iff] using beyond

theorem Expansion.mem_memberBranch_iff {member : String} {label : Option String} {field : Field} :
    (label, field) ∈ (memberBranch schema config member).fields ↔
      label = none ∧ field ∈ schema.fieldsOf member ∧ config.includes field = true := by
  simp only [memberBranch, List.mem_map, List.mem_filter, Prod.mk.injEq]
  constructor
  · rintro ⟨_, ⟨declared, included⟩, rfl, rfl⟩
    exact ⟨rfl, declared, included⟩
  · rintro ⟨rfl, declared, included⟩
    exact ⟨field, ⟨declared, included⟩, rfl, rfl⟩

/-! ## Offered fields -/

theorem Schema.offers_of_mem_fieldsOf {name : String} {field : Field}
    (declared : field ∈ schema.fieldsOf name) : schema.Offers field := by
  rw [Schema.fieldsOf] at declared
  cases known : (schema.type? name).bind TypeDef.fields? with
  | none =>
    rw [known] at declared
    cases declared
  | some fields =>
    rw [known] at declared
    rcases Option.bind_eq_some_iff.mp known with ⟨type, found, declares⟩
    exact ⟨type, Schema.mem_values_of_type? found, fields, declares, declared⟩

theorem Schema.offers_of_ownFields {type : TypeDef} (known : type ∈ schema.types.values)
    (config : Config) :
    ∀ entry ∈ (ownFields config type).map fun inner => ((none : Option String), inner),
      schema.Offers entry.2 := by
  intro entry listed
  rcases List.mem_map.mp listed with ⟨inner, own, rfl⟩
  exact Schema.offers_of_mem_ownFields known own

/-- The fields in the fragments below a field are fields of types. -/
theorem Schema.offers_of_branches? {type : TypeDef} {branches : List Branch}
    (known : branches? schema config type = some branches) :
    ∀ branch ∈ branches, ∀ entry ∈ branch.fields, schema.Offers entry.2 := by
  intro branch member entry listed
  cases type with
  | interface interface =>
    cases known
    rcases List.mem_map.mp member with ⟨type, possible, rfl⟩
    exact ⟨_, Schema.object_mem_of_mem_possibleTypes possible, _, rfl,
      (mem_implementorBranch_iff.mp listed).2.1⟩
  | union union =>
    rw [memberBranches?_eq_some known] at member
    rcases List.mem_map.mp member with ⟨name, _, rfl⟩
    exact Schema.offers_of_mem_fieldsOf (mem_memberBranch_iff.mp listed).2.1
  | _ =>
    cases known
    cases member

/-! ## Continuing -/

theorem Selection.spotsOfAll_typenames (condition : Option String) (type : TypeDef) :
    Selection.spotsOfAll condition type.typenames = [] := by
  rw [TypeDef.typenames]
  split
  · simp [Selection.spots]
  · simp

/-- Paths continue at the own fields and in the fragments that an expansion follows. -/
theorem continues_iff {condition : Option String} {site : Site} {field : Field} {type : TypeDef}
    {branches : List Branch} (found : schema.type? field.type.name = some type)
    (known : branches? schema config type = some branches) {next : Stop} :
    Continues schema config (.ofSite condition site field) next ↔
      (∃ inner ∈ ownFields config type, next = .ofSite none (site.below field.name) inner) ∨
        ∃ branch ∈ branches, ∃ entry ∈ branch.fields,
          next = .ofSite (some branch.type) (site.inFragmentBelow field.name) entry.2 := by
  constructor
  · intro continued
    cases continued with
    | own same declares declared included =>
      cases found.symm.trans same
      exact .inl ⟨_, mem_ownFields_iff.mpr ⟨_, declares, declared, included⟩, rfl⟩
    | @possible interface type inner same possible declared beyond included =>
      cases found.symm.trans same
      cases known
      exact .inr ⟨_, List.mem_map.mpr ⟨_, possible, rfl⟩, (_, inner),
        mem_implementorBranch_iff.mpr ⟨rfl, declared, beyond, included⟩, rfl⟩
    | @member union member inner same inside declared included =>
      cases found.symm.trans same
      rw [memberBranches?_eq_some known]
      exact .inr ⟨_, List.mem_map.mpr ⟨_, inside, rfl⟩, (none, inner),
        mem_memberBranch_iff.mpr ⟨rfl, declared, included⟩, rfl⟩
  · rintro (⟨inner, own, rfl⟩ | ⟨branch, member, entry, listed, rfl⟩)
    · rcases mem_ownFields_iff.mp own with ⟨fields, declares, declared, included⟩
      exact .own found declares declared included
    · cases type with
      | interface interface =>
        cases known
        rcases List.mem_map.mp member with ⟨type, possible, rfl⟩
        rcases mem_implementorBranch_iff.mp listed with ⟨_, declared, beyond, included⟩
        exact .possible found possible declared beyond included
      | union union =>
        rw [memberBranches?_eq_some known] at member
        rcases List.mem_map.mp member with ⟨name, inside, rfl⟩
        rcases mem_memberBranch_iff.mp listed with ⟨_, declared, included⟩
        exact .member found inside declared included
      | _ =>
        cases known
        cases member

theorem exists_continues_iff {condition : Option String} {site : Site} {field : Field}
    {type : TypeDef} {branches : List Branch} (found : schema.type? field.type.name = some type)
    (known : branches? schema config type = some branches) {good : Stop → Prop} :
    (∃ next, Continues schema config (.ofSite condition site field) next ∧ good next) ↔
      (∃ inner ∈ ownFields config type, good (.ofSite none (site.below field.name) inner)) ∨
        ∃ branch ∈ branches, ∃ entry ∈ branch.fields,
          good (.ofSite (some branch.type) (site.inFragmentBelow field.name) entry.2) := by
  constructor
  · rintro ⟨next, continued, holds⟩
    rcases (continues_iff found known).mp continued with
      ⟨inner, own, rfl⟩ | ⟨branch, member, entry, listed, rfl⟩
    · exact .inl ⟨inner, own, holds⟩
    · exact .inr ⟨branch, member, entry, listed, holds⟩
  · rintro (⟨inner, own, holds⟩ | ⟨branch, member, entry, listed, holds⟩)
    · exact ⟨_, (continues_iff found known).mpr (.inl ⟨inner, own, rfl⟩), holds⟩
    · exact ⟨_, (continues_iff found known).mpr (.inr ⟨branch, member, entry, listed, rfl⟩), holds⟩

end SchemaUnfolding
