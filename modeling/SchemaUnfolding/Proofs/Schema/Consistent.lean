import SchemaUnfolding.Proofs.Assembly.Contents
import SchemaUnfolding.Proofs.Schema.Rules

/-!
# Consistent tables of types

Types and their parts are looked up by the names they are entered under, and shown by the names
inside them. In every builder and in every built schema the two agree, each field knows the type
that holds it, no name that was defined is reserved, and a type implements other types only, each
once. Extensions keep all this, whether they are applied when they are loaded or when the schema is
built.
-/

namespace SchemaUnfolding

/-- A name begins like those that are reserved for the language itself. -/
def HasReservedStart (name : String) : Prop := "__".toList <+: name.toList

theorem not_hasReservedStart_iff {name : String} :
    ¬ HasReservedStart name ↔ isReserved name = false :=
  String.startsWith_string_eq_false_iff.symm

theorem IsFree.not_hasReservedStart {name : String} (free : IsFree name) :
    ¬ HasReservedStart name :=
  not_hasReservedStart_iff.mpr free.unreserved

/-- What a field holds is entered under its own names, none of them reserved, and the field knows
its holder. -/
structure Field.Consistent (holder : String) (field : Field) : Prop where
  parent : field.parent = holder
  parameters : ∀ entry ∈ field.parameters.entries,
    entry.2.name = entry.1 ∧ ¬ HasReservedStart entry.1

/-- What a type holds is entered under its own names, none of those of its fields reserved, and the
type implements other types only, each once. -/
structure TypeDef.Consistent (type : TypeDef) : Prop where
  fields : ∀ entry ∈ type.fieldEntries,
    entry.2.name = entry.1 ∧ ¬ HasReservedStart entry.1 ∧ entry.2.Consistent type.name
  inputFields : ∀ entry ∈ type.inputEntries, entry.2.name = entry.1 ∧ ¬ HasReservedStart entry.1
  values : ∀ entry ∈ type.valueEntries, entry.2.name = entry.1
  members : ∀ entry ∈ type.memberEntries, entry.2.name = entry.1
  interfaces : (type.declaredInterfaces.map NamedRef.name).Nodup
  others : type.name ∉ type.declaredInterfaces.map NamedRef.name

/-- A table holds the types that every schema has under their names, and every type in it is
consistent and entered under its own name, which is not reserved. -/
structure TypesConsistent (types : Table TypeDef) : Prop where
  builtIns : ∀ entry ∈ TypeDef.builtIns.entries, entry ∈ types.entries
  types : ∀ entry ∈ types.entries,
    entry.2.name = entry.1 ∧ ¬ HasReservedStart entry.1 ∧ entry.2.Consistent

/-! ## Well-formed types -/

theorem Table.Holds.of_mem_entries {α : Type} {nameOf : α → String} {good : α → Prop}
    {table : Table α} (holds : table.Holds nameOf good) {entry : String × α}
    (entered : entry ∈ table.entries) : nameOf entry.2 = entry.1 ∧ good entry.2 :=
  ⟨holds.keyed entry entered, holds.values _ (Table.mem_values_iff.mpr ⟨entry.1, entered⟩)⟩

theorem Field.WellFormed.consistent {holder : String} {field : Field}
    (wellFormed : field.WellFormed holder) : field.Consistent holder where
  parent := wellFormed.parent
  parameters := by
    intro entry entered
    rcases wellFormed.parameters.of_mem_entries entered with ⟨named, proper⟩
    exact ⟨named, named ▸ proper.name.not_hasReservedStart⟩

theorem InterfacesWellFormed.not_mem {type : String} {interfaces : List NamedRef}
    (wellFormed : InterfacesWellFormed type interfaces) : type ∉ interfaces.map NamedRef.name := by
  intro own
  rcases List.mem_map.mp own with ⟨interface, declared, same⟩
  exact wellFormed.others interface declared same

/-- A well-formed type is consistent. The parts that a type of its kind has not are empty. -/
theorem TypeDef.WellFormed.consistent {type : TypeDef} (wellFormed : type.WellFormed) :
    type.Consistent where
  fields := by
    intro entry entered
    cases type with
    | object type | interface type =>
      rcases FieldedType.WellFormed.fields wellFormed |>.of_mem_entries entered with
        ⟨named, proper⟩
      exact ⟨named, named ▸ proper.name.not_hasReservedStart, proper.consistent⟩
    | _ => cases entered
  inputFields := by
    intro entry entered
    cases type with
    | input type =>
      rcases Table.Holds.of_mem_entries wellFormed entered with ⟨named, proper⟩
      exact ⟨named, named ▸ proper.name.not_hasReservedStart⟩
    | _ => cases entered
  values := by
    intro entry entered
    cases type with
    | enum type => exact (Table.Holds.of_mem_entries wellFormed entered).1
    | _ => cases entered
  members := by
    intro entry entered
    cases type with
    | union type => exact (Table.Holds.of_mem_entries wellFormed entered).1
    | _ => cases entered
  interfaces := by
    cases type with
    | object type | interface type => exact wellFormed.interfaces.nodup
    | _ => exact List.nodup_nil
  others := by
    cases type with
    | object type | interface type => exact wellFormed.interfaces.not_mem
    | _ => exact List.not_mem_nil

theorem TypesWellFormed.consistent {types : Table TypeDef} (wellFormed : TypesWellFormed types) :
    TypesConsistent types where
  builtIns := wellFormed.builtIns
  types := by
    intro entry entered
    rcases wellFormed.types.of_mem_entries entered with ⟨named, proper⟩
    have free := wellFormed.names entry.1 (Table.mem_names_iff.mpr ⟨entry.2, entered⟩)
    exact ⟨named, free.not_hasReservedStart, proper.consistent⟩

/-! ## Builders and built schemas -/

/-- The types of every builder that sources were loaded into are consistent, and so are the types of
every schema that is built from it, whether rules are taken for granted or not. -/
theorem SchemaBuilder.Loaded.types_consistent {builder : SchemaBuilder} (loaded : builder.Loaded) :
    TypesConsistent builder.types ∧
      ∀ assumeValid schema, { builder with assumeValid }.build = .ok schema →
        TypesConsistent schema.types := by
  constructor
  · exact loaded.wellFormed.types.consistent
  · intro assumeValid schema built
    have known : schema.Built := ⟨_, loaded.assuming assumeValid, built⟩
    exact known.wellFormed.types.consistent

/-- The type that is written in three files is consistent before its waiting extension is applied
and after that. -/
theorem scatteredBuilder_types_consistent :
    scatteredBuilder.Loaded ∧ TypesConsistent scatteredBuilder.types ∧
      scatteredBuilder.build = .ok scatteredSchema ∧ TypesConsistent scatteredSchema.types := by
  have loaded := loadedFrom_scatteredScript.loaded
  have consistent := loaded.types_consistent
  exact ⟨loaded, consistent.1, build_scatteredBuilder,
    consistent.2 false scatteredSchema build_scatteredBuilder⟩

end SchemaUnfolding
