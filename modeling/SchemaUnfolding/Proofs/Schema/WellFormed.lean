import SchemaUnfolding.Proofs.Sdl.Definitions
import SchemaUnfolding.Proofs.Table
import SchemaUnfolding.Schema.Builder

/-!
# Well-formed schemas

What holds of every type that a builder makes, whatever was loaded: tables are keyed by the names
inside them, fields know the type that holds them, names are names of the language and none is
reserved for the language itself, and no type declares an interface twice or implements itself.

Each step of the builder keeps this, an extension no less than a definition. Whether the names in a
schema refer to anything is another matter.
-/

namespace SchemaUnfolding

open Sdl (IsName)

/-! ## Well-formed types -/

/-- A name of the language that is not reserved. -/
structure IsFree (name : String) : Prop where
  isName : IsName name
  unreserved : isReserved name = false

/-- A parameter and its type have names. -/
structure Parameter.WellFormed (parameter : Parameter) : Prop where
  name : IsFree parameter.name
  type : IsName parameter.type.name

/-- A field knows its holder, and its parameters are entered under their names. -/
structure Field.WellFormed (holder : String) (field : Field) : Prop where
  name : IsFree field.name
  parent : field.parent = holder
  type : IsName field.type.name
  parameters : field.parameters.Holds Parameter.name Parameter.WellFormed

/-- Interfaces that a type declares: names without repetition, the type itself not among them. -/
structure InterfacesWellFormed (type : String) (interfaces : List NamedRef) : Prop where
  names : ∀ interface ∈ interfaces, IsName interface.name
  nodup : (interfaces.map NamedRef.name).Nodup
  others : ∀ interface ∈ interfaces, interface.name ≠ type

/-- The interfaces and the fields of an object type or an interface are well-formed. -/
structure FieldedType.WellFormed (type : FieldedType) : Prop where
  interfaces : InterfacesWellFormed type.name type.interfaces
  fields : type.fields.Holds Field.name (Field.WellFormed type.name)

/-- An enumeration of a name, its values entered under their names. -/
structure EnumType.WellFormed (name : String) (type : EnumType) : Prop where
  name : type.name = name
  values : type.values.Holds EnumValue.name fun value => IsName value.name

/-- A field of an input type and its type have names. -/
structure InputField.WellFormed (field : InputField) : Prop where
  name : IsFree field.name
  type : IsName field.type.name

/-- What a type holds is well-formed and entered under its names. -/
def TypeDef.WellFormed : TypeDef → Prop
  | object type | interface type => type.WellFormed
  | union type => type.members.Holds NamedRef.name fun member => IsName member.name
  | enum type => type.values.Holds EnumValue.name fun value => IsName value.name
  | input type => type.fields.Holds InputField.name InputField.WellFormed
  | _ => True

/-- Well-formed types, each under its own name, and among them those that every schema has. -/
structure TypesWellFormed (types : Table TypeDef) : Prop where
  builtIns : ∀ entry ∈ TypeDef.builtIns.entries, entry ∈ types.entries
  names : ∀ name ∈ types.names, IsFree name
  types : types.Holds TypeDef.name TypeDef.WellFormed

/-! ## Parts of types -/

theorem TypeRef.name_ofExprAt {location : Location} {nullable : Bool} {type : Sdl.TypeExpr}
    (named : type.Named) : IsName (TypeRef.ofExprAt location nullable type).name := by
  induction type generalizing nullable with
  | named name => exact named
  | list item ih => exact ih named
  | nonNull type ih => exact ih named

theorem TypeRef.name_ofExpr {location : Location} {type : Sdl.TypeExpr} (named : type.Named) :
    IsName (TypeRef.ofExpr location type).name :=
  TypeRef.name_ofExprAt named

theorem Parameter.holds_of_add {location : Location} {type field : String}
    {parameters result : Table Parameter} {decl : Sdl.InputDecl}
    (added : Parameter.add location type field parameters decl = .ok result) (named : decl.Named)
    (known : parameters.Holds Parameter.name Parameter.WellFormed) :
    result.Holds Parameter.name Parameter.WellFormed := by
  unfold Parameter.add at added
  dsimp only at added
  split at added
  · cases added
  · rename_i unreserved
    split at added
    · cases added
    · cases added
      exact known.insert rfl ⟨⟨named.name, Bool.eq_false_of_not_eq_true unreserved⟩,
        TypeRef.name_ofExpr named.type⟩

theorem Field.holds_of_add {location : Location} {type : String} {fields result : Table Field}
    {decl : Sdl.FieldDecl} (added : Field.add location type fields decl = .ok result)
    (named : decl.Named) (known : fields.Holds Field.name (Field.WellFormed type)) :
    result.Holds Field.name (Field.WellFormed type) := by
  rw [Field.add] at added
  dsimp only at added
  split at added
  · cases added
  · rename_i unreserved
    split at added
    · cases added
    · rcases bind_eq_ok_iff.mp added with ⟨parameters, folded, ⟨⟩⟩
      have held : parameters.Holds Parameter.name Parameter.WellFormed :=
        foldlM_preserves folded Table.holds_empty fun _ parameter _ member known entered =>
          Parameter.holds_of_add entered (named.parameters parameter member) known
      apply known.insert
      · rfl
      · exact ⟨⟨named.name, Bool.eq_false_of_not_eq_true unreserved⟩, rfl,
          TypeRef.name_ofExpr named.type, held⟩

theorem InputField.holds_of_add {location : Location} {type : String}
    {fields result : Table InputField} {decl : Sdl.InputDecl}
    (added : InputField.add location type fields decl = .ok result) (named : decl.Named)
    (known : fields.Holds InputField.name InputField.WellFormed) :
    result.Holds InputField.name InputField.WellFormed := by
  unfold InputField.add at added
  dsimp only at added
  split at added
  · cases added
  · rename_i unreserved
    split at added
    · cases added
    · cases added
      apply known.insert
      · rfl
      · exact ⟨⟨named.name, Bool.eq_false_of_not_eq_true unreserved⟩,
          TypeRef.name_ofExpr named.type⟩

theorem InterfacesWellFormed.of_addInterface {location : Location} {type interface : String}
    {interfaces result : List NamedRef}
    (added : NamedRef.addInterface location type interfaces interface = .ok result)
    (named : IsName interface) (known : InterfacesWellFormed type interfaces) :
    InterfacesWellFormed type result := by
  rw [NamedRef.addInterface] at added
  split_ifs at added with repeated own
  cases added
  have fresh : ∀ other ∈ interfaces, other.name ≠ interface := by
    simpa using repeated
  constructor
  · simpa [or_imp, forall_and] using ⟨known.names, named⟩
  · simpa [List.nodup_append] using ⟨known.nodup, fresh⟩
  · simpa [or_imp, forall_and] using ⟨known.others, own⟩

theorem EnumType.WellFormed.of_addValue {location : Location} {type result : EnumType}
    {decl : Sdl.EnumValueDecl} {name : String} (added : type.addValue location decl = .ok result)
    (named : IsName decl.name) (known : type.WellFormed name) : result.WellFormed name := by
  rw [EnumType.addValue] at added
  dsimp only at added
  split at added
  · cases added
  · cases added
    exact ⟨known.name, known.values.insert rfl named⟩

theorem NamedRef.holds_of_addMember {location : Location} {members result : Table NamedRef}
    {member : String} (added : NamedRef.addMember location members member = .ok result)
    (named : IsName member)
    (known : members.Holds NamedRef.name fun member => IsName member.name) :
    result.Holds NamedRef.name fun member => IsName member.name := by
  rw [NamedRef.addMember] at added
  split at added
  · cases added
  · cases added
    exact known.insert rfl named

/-! ## Types -/

theorem FieldedType.name_of_extend {location : Location} {type result : FieldedType}
    {interfaces : List String} {fields : List Sdl.FieldDecl}
    (extended : type.extend location interfaces fields = .ok result) :
    result.name = type.name := by
  rcases bind_eq_ok_iff.mp extended with ⟨_, _, rest⟩
  rcases bind_eq_ok_iff.mp rest with ⟨_, _, ⟨⟩⟩
  rfl

theorem FieldedType.WellFormed.of_extend {location : Location}
    {type result : FieldedType} {interfaces : List String} {fields : List Sdl.FieldDecl}
    (extended : type.extend location interfaces fields = .ok result)
    (interfacesNamed : ∀ interface ∈ interfaces, IsName interface)
    (fieldsNamed : ∀ field ∈ fields, field.Named) (known : type.WellFormed) :
    result.WellFormed := by
  rcases bind_eq_ok_iff.mp extended with ⟨implemented, interfacesAdded, rest⟩
  rcases bind_eq_ok_iff.mp rest with ⟨declared, fieldsAdded, ⟨⟩⟩
  constructor
  · exact foldlM_preserves interfacesAdded known.interfaces fun _ interface _ member known added =>
      known.of_addInterface added (interfacesNamed interface member)
  · exact foldlM_preserves fieldsAdded known.fields fun _ field _ member known added =>
      Field.holds_of_add added (fieldsNamed field member) known

/-- An extension of a type by a body of its kind keeps it well-formed and keeps its name. -/
theorem TypeDef.wellFormed_of_extend {file : Option String} {type result : TypeDef}
    {decl : Sdl.TypeDecl} (extended : type.extend file decl = .ok result) (named : decl.Named)
    (known : type.WellFormed) : result.WellFormed ∧ result.name = type.name := by
  have body := named.body
  unfold TypeDef.extend at extended
  dsimp only at extended
  split at extended
  · cases extended
    exact ⟨trivial, rfl⟩
  · rename_i type interfaces fields same
    rw [same] at body
    rcases map_eq_ok_iff.mp extended with ⟨larger, grown, rfl⟩
    exact ⟨FieldedType.WellFormed.of_extend grown body.1 body.2 known,
      FieldedType.name_of_extend grown⟩
  · rename_i type interfaces fields same
    rw [same] at body
    rcases map_eq_ok_iff.mp extended with ⟨larger, grown, rfl⟩
    exact ⟨FieldedType.WellFormed.of_extend grown body.1 body.2 known,
      FieldedType.name_of_extend grown⟩
  · rename_i type members same
    rw [same] at body
    rcases map_eq_ok_iff.mp extended with ⟨larger, added, rfl⟩
    have held : larger.Holds NamedRef.name fun member => IsName member.name :=
      foldlM_preserves added known fun _ member _ inside known added =>
        NamedRef.holds_of_addMember added (body member inside) known
    exact ⟨held, rfl⟩
  · rename_i type values same
    rw [same] at body
    rcases map_eq_ok_iff.mp extended with ⟨larger, added, rfl⟩
    have held : larger.WellFormed type.name :=
      foldlM_preserves added ⟨rfl, known⟩ fun _ value _ inside known added =>
        EnumType.WellFormed.of_addValue added (body value inside) known
    exact ⟨held.values, held.name⟩
  · rename_i type fields same
    rw [same] at body
    rcases map_eq_ok_iff.mp extended with ⟨larger, added, rfl⟩
    have held : larger.Holds InputField.name InputField.WellFormed :=
      foldlM_preserves added known fun _ field _ inside known added =>
        InputField.holds_of_add added (body field inside) known
    exact ⟨held, rfl⟩
  · cases extended

theorem TypeDef.wellFormed_blank (file : Option String) (decl : Sdl.TypeDecl) :
    (TypeDef.blank file decl).WellFormed ∧ (TypeDef.blank file decl).name = decl.name := by
  rw [TypeDef.blank]
  cases decl.body with
  | scalar => exact ⟨trivial, rfl⟩
  | object => exact ⟨⟨⟨by simp, by simp, by simp⟩, Table.holds_empty⟩, rfl⟩
  | interface => exact ⟨⟨⟨by simp, by simp, by simp⟩, Table.holds_empty⟩, rfl⟩
  | union => exact ⟨Table.holds_empty, rfl⟩
  | enum => exact ⟨Table.holds_empty, rfl⟩
  | input => exact ⟨Table.holds_empty, rfl⟩

/-- A definition makes a well-formed type of its name. -/
theorem TypeDef.wellFormed_of_ofDecl {file : Option String} {decl : Sdl.TypeDecl} {type : TypeDef}
    (made : TypeDef.ofDecl file decl = .ok type) (named : decl.Named) :
    type.WellFormed ∧ type.name = decl.name := by
  have blank := TypeDef.wellFormed_blank file decl
  have extended := TypeDef.wellFormed_of_extend made named blank.1
  exact ⟨extended.1, extended.2.trans blank.2⟩

/-! ## Tables of types -/

theorem isFree_of_mem_builtIns : ∀ name ∈ TypeDef.builtIns.names, IsFree name := by
  have free : ∀ name ∈ TypeDef.builtIns.names, IsName name ∧ isReserved name = false := by
    decide +kernel
  intro name member
  exact ⟨(free name member).1, (free name member).2⟩

theorem typesWellFormed_builtIns : TypesWellFormed TypeDef.builtIns where
  builtIns _ member := member
  names := isFree_of_mem_builtIns
  types := by
    constructor <;> simp [Table.Keyed, TypeDef.builtIns, Table.values, TypeDef.name,
      TypeDef.WellFormed]

/-- A type enters a table in the place of one of its name, or anew under a free name. -/
theorem TypesWellFormed.insert {types : Table TypeDef} {type : TypeDef} {name : String}
    (known : TypesWellFormed types) (named : type.name = name) (free : IsFree name)
    (wellFormed : type.WellFormed)
    (kept : ∀ entry ∈ TypeDef.builtIns.entries, entry.1 = name → entry.2 = type) :
    TypesWellFormed (types.insert name type) where
  builtIns := by
    rintro ⟨key, builtIn⟩ member
    rw [Table.mem_entries_insert_iff]
    by_cases same : key = name
    · exact .inl ⟨same, kept _ member same⟩
    · exact .inr ⟨same, known.builtIns _ member⟩
  names := by
    intro other member
    rcases Table.mem_names_iff.mp member with ⟨held, entered⟩
    rcases Table.mem_entries_insert_iff.mp entered with ⟨rfl, _⟩ | ⟨_, before⟩
    · exact free
    · exact known.names other (Table.mem_names_iff.mpr ⟨held, before⟩)
  types := known.types.insert named wellFormed

theorem TypesWellFormed.name_of_mem {types : Table TypeDef} (wellFormed : TypesWellFormed types)
    {type : TypeDef} (known : type ∈ types.values) : IsFree type.name := by
  obtain ⟨name, entered⟩ := Table.mem_values_iff.mp known
  rw [wellFormed.types.keyed _ entered]
  exact wellFormed.names name (Table.mem_names_iff.mpr ⟨type, entered⟩)

/-- The types that every schema has cannot be extended. -/
theorem TypeDef.not_extend_builtIn {file : Option String} {decl : Sdl.TypeDecl} {result : TypeDef}
    {entry : String × TypeDef} (builtIn : entry ∈ TypeDef.builtIns.entries) :
    entry.2.extend file decl ≠ .ok result := by
  simp only [TypeDef.builtIns, List.mem_cons, List.not_mem_nil, or_false] at builtIn
  rcases builtIn with rfl | rfl | rfl | rfl | rfl <;> rintro ⟨⟩

theorem TypesWellFormed.of_extendIn {types result : Table TypeDef} {file : Option String}
    {decl : Sdl.TypeDecl} (extended : SchemaBuilder.extendIn types file decl = .ok result)
    (named : decl.Named) (known : TypesWellFormed types) : TypesWellFormed result := by
  rw [SchemaBuilder.extendIn] at extended
  split at extended
  · rename_i type found
    rcases map_eq_ok_iff.mp extended with ⟨larger, grown, rfl⟩
    have entered : (decl.name, type) ∈ types.entries := Table.get?_eq_some_iff.mp found
    have wellFormed := TypeDef.wellFormed_of_extend grown named
      (known.types.values _ (Table.mem_values_of_get? found))
    have free := known.names _ (Table.mem_names_iff.mpr ⟨type, entered⟩)
    apply known.insert (wellFormed.2.trans (known.types.keyed _ entered)) free wellFormed.1
    · intro entry member same
      have held : types.get? entry.1 = some entry.2 :=
        Table.get?_eq_some_iff.mpr (known.builtIns entry member)
      rw [same, found, Option.some.injEq] at held
      exact absurd (held ▸ grown) (TypeDef.not_extend_builtIn member)
  · cases extended

end SchemaUnfolding
