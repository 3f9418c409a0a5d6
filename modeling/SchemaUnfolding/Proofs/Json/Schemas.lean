import Mathlib.Tactic
import SchemaUnfolding.Proofs.Json.Records
import SchemaUnfolding.Proofs.Json.Text
import SchemaUnfolding.Proofs.Schema.Written
import SchemaUnfolding.Schema.OfJson

/-!
# Schemas are read back from JSON

The readers of the parts of a schema undo their writers where enough levels of nesting are left. A
line or a column is read when it is a number of 64 bits. Each list in a reference takes two levels,
so the depth of references is what decides whether the levels suffice; the parameters of fields are
the innermost place for a reference.
-/

namespace SchemaUnfolding

open Json

/-! ## Locations -/

/-- The line and the column of a position are numbers of 64 bits, as they are in any source that
fits in a memory. -/
structure Position.IsAddressable (position : Position) : Prop where
  line : position.line < 2 ^ 64
  column : position.column < 2 ^ 64

/-- The position in a location, if there is one, has numbers of 64 bits. -/
def Location.IsAddressable : Location → Prop
  | builtIn => True
  | source _ position => position.IsAddressable

instance (position : Position) : Decidable position.IsAddressable :=
  decidable_of_iff (position.line < 2 ^ 64 ∧ position.column < 2 ^ 64)
    ⟨fun ⟨line, column⟩ => ⟨line, column⟩, fun ⟨line, column⟩ => ⟨line, column⟩⟩

instance : (location : Location) → Decidable location.IsAddressable
  | .builtIn => inferInstanceAs (Decidable True)
  | .source _ position => inferInstanceAs (Decidable position.IsAddressable)

theorem Json.natural?_of_lt {value : Nat} (small : value < 2 ^ 64) :
    natural? (natural value) = some value :=
  if_pos small

theorem Location.ofJson?_toJson {location : Location} (addressable : location.IsAddressable)
    (room : Nat) : ofJson? (room + 2) location.toJson = some location := by
  cases location with
  | builtIn => simp [ofJson?, toJson]
  | source file position =>
    simp [ofJson?, toJson, isUnit_object, sourceOfJson?, fields?_object,
      natural?_of_lt addressable.line, natural?_of_lt addressable.column]

theorem NamedRef.ofJson?_toJson {ref : NamedRef} (addressable : ref.location.IsAddressable)
    (room : Nat) : ofJson? (room + 3) ref.toJson = some ref := by
  simp [toJson, ofJson?, fields?_object, Location.ofJson?_toJson addressable]

/-! ## References -/

/-- How many lists a reference may stand for if it is to be read wherever it stands. -/
def TypeRef.readableDepth : Nat := 57

theorem TypeRef.ofJson?_toJson {type : TypeRef}
    (addressable : ∀ location ∈ type.locations, location.IsAddressable) {room : Nat}
    (enough : 2 * type.depth + 5 ≤ room) : ofJson? room type.toJson = some type := by
  induction type generalizing room with
  | named nullable target =>
    obtain ⟨room, rfl⟩ : ∃ more, room = more + 5 := ⟨room - 5, by simp [depth] at enough; omega⟩
    have here : target.location.IsAddressable := addressable _ (List.mem_singleton_self _)
    simp [toJson, ofJson?, fields?_object, NamedRef.ofJson?_toJson here]
  | list nullable item location ih =>
    obtain ⟨here, inside⟩ := List.forall_mem_cons.mp addressable
    obtain ⟨room, rfl⟩ : ∃ more, room = more + 4 := ⟨room - 4, by simp [depth] at enough; omega⟩
    have inner : ofJson? (room + 2) item.toJson = some item :=
      ih inside (by simp [depth] at enough; omega)
    rw [toJson, ofJson?]
    simp [fields?_object, Location.ofJson?_toJson here, inner]

theorem TypeRef.ofJson?_toJson_of_shallow {type : TypeRef}
    (addressable : ∀ location ∈ type.locations, location.IsAddressable)
    (shallow : type.depth ≤ readableDepth) (room : Nat) :
    ofJson? (room + 119) type.toJson = some type :=
  ofJson?_toJson addressable (by rw [readableDepth] at shallow; omega)

/-! ## Parts of types -/

theorem Parameter.ofJson?_toJson {parameter : Parameter}
    (addressable : ∀ location ∈ parameter.locations, location.IsAddressable)
    (shallow : parameter.type.depth ≤ TypeRef.readableDepth) (room : Nat) :
    ofJson? (room + 120) parameter.toJson = some parameter := by
  obtain ⟨here, inside⟩ := List.forall_mem_cons.mp addressable
  simp [toJson, ofJson?, fields?_object, Location.ofJson?_toJson here,
    TypeRef.ofJson?_toJson_of_shallow inside shallow]

theorem Field.ofJson?_toJson {field : Field}
    (addressable : ∀ location ∈ field.locations, location.IsAddressable)
    (shallow : ∀ type ∈ field.references, type.depth ≤ TypeRef.readableDepth) (room : Nat) :
    ofJson? (room + 122) field.toJson = some field := by
  obtain ⟨here, inside⟩ := List.forall_mem_cons.mp addressable
  obtain ⟨ownAddressable, ownShallow⟩ := List.forall_mem_append.mp inside
  obtain ⟨own, others⟩ := List.forall_mem_cons.mp shallow
  have parameters : table? Parameter.ofJson? (room + 121)
      (ofTable Parameter.toJson field.parameters) = some field.parameters :=
    table?_ofTable fun parameter declared => Parameter.ofJson?_toJson
      (fun location known => ownAddressable location (List.mem_flatMap.mpr ⟨_, declared, known⟩))
      (others _ (List.mem_map_of_mem declared)) room
  simp [toJson, ofJson?, fields?_object, Location.ofJson?_toJson here, parameters,
    TypeRef.ofJson?_toJson_of_shallow ownShallow own]

theorem EnumValue.ofJson?_toJson {value : EnumValue} (addressable : value.location.IsAddressable)
    (room : Nat) : ofJson? (room + 3) value.toJson = some value := by
  simp [toJson, ofJson?, fields?_object, Location.ofJson?_toJson addressable]

theorem InputField.ofJson?_toJson {field : InputField}
    (addressable : ∀ location ∈ field.locations, location.IsAddressable)
    (shallow : field.type.depth ≤ TypeRef.readableDepth) (room : Nat) :
    ofJson? (room + 120) field.toJson = some field := by
  obtain ⟨here, inside⟩ := List.forall_mem_cons.mp addressable
  simp [toJson, ofJson?, fields?_object, Location.ofJson?_toJson here,
    TypeRef.ofJson?_toJson_of_shallow inside shallow]

/-! ## Types -/

theorem ScalarType.ofJson?_toJson {type : ScalarType} (addressable : type.location.IsAddressable)
    (room : Nat) : ofJson? (room + 3) type.toJson = some type := by
  simp [toJson, ofJson?, fields?_object, Location.ofJson?_toJson addressable]

theorem FieldedType.ofJson?_toJson {type : FieldedType}
    (addressable : ∀ location ∈ type.locations, location.IsAddressable)
    (shallow : ∀ ref ∈ type.fields.values.flatMap Field.references,
      ref.depth ≤ TypeRef.readableDepth) (room : Nat) :
    ofJson? (room + 124) type.toJson = some type := by
  obtain ⟨here, inside⟩ := List.forall_mem_cons.mp addressable
  obtain ⟨fieldsAddressable, interfacesAddressable⟩ := List.forall_mem_append.mp inside
  have fields : table? Field.ofJson? (room + 123) (ofTable Field.toJson type.fields) =
      some type.fields :=
    table?_ofTable fun field declared => Field.ofJson?_toJson
      (fun location known => fieldsAddressable location (List.mem_flatMap.mpr ⟨_, declared, known⟩))
      (fun ref known => shallow ref (List.mem_flatMap.mpr ⟨_, declared, known⟩)) room
  have interfaces : list? NamedRef.ofJson? (room + 123)
      (.array (type.interfaces.map NamedRef.toJson)) = some type.interfaces :=
    list?_array fun ref known =>
      NamedRef.ofJson?_toJson (interfacesAddressable _ (List.mem_map_of_mem known)) (room + 119)
  simp [toJson, ofJson?, fields?_object, Location.ofJson?_toJson here, fields, interfaces]

theorem EnumType.ofJson?_toJson {type : EnumType} (addressable : type.location.IsAddressable)
    (inside : ∀ value ∈ type.values.values, value.location.IsAddressable) (room : Nat) :
    ofJson? (room + 5) type.toJson = some type := by
  have values : table? EnumValue.ofJson? (room + 4) (ofTable EnumValue.toJson type.values) =
      some type.values :=
    table?_ofTable fun value known => EnumValue.ofJson?_toJson (inside value known) room
  simp [toJson, ofJson?, fields?_object, Location.ofJson?_toJson addressable, values]

theorem InputType.ofJson?_toJson {type : InputType} (addressable : type.location.IsAddressable)
    (inside : ∀ location ∈ type.fields.values.flatMap InputField.locations,
      location.IsAddressable)
    (shallow : ∀ field ∈ type.fields.values, field.type.depth ≤ TypeRef.readableDepth)
    (room : Nat) : ofJson? (room + 122) type.toJson = some type := by
  have fields : table? InputField.ofJson? (room + 121) (ofTable InputField.toJson type.fields) =
      some type.fields :=
    table?_ofTable fun field declared => InputField.ofJson?_toJson
      (fun location known => inside location (List.mem_flatMap.mpr ⟨_, declared, known⟩))
      (shallow field declared) room
  simp [toJson, ofJson?, fields?_object, Location.ofJson?_toJson addressable, fields]

theorem UnionType.ofJson?_toJson {type : UnionType} (addressable : type.location.IsAddressable)
    (inside : ∀ member ∈ type.members.values, member.location.IsAddressable) (room : Nat) :
    ofJson? (room + 5) type.toJson = some type := by
  have members : table? NamedRef.ofJson? (room + 4) (ofTable NamedRef.toJson type.members) =
      some type.members :=
    table?_ofTable fun member known => NamedRef.ofJson?_toJson (inside member known) room
  simp [toJson, ofJson?, fields?_object, Location.ofJson?_toJson addressable, members]

theorem TypeDef.ofJson?_toJson {type : TypeDef}
    (addressable : ∀ location ∈ type.locations, location.IsAddressable)
    (shallow : ∀ ref ∈ type.references, ref.depth ≤ TypeRef.readableDepth) (room : Nat) :
    ofJson? (room + 125) type.toJson = some type := by
  cases type with
  | boolean | float | id | int | string => simp [toJson, ofJson?]
  | scalar type =>
    have occupied : type.toJson ≠ .null := nofun
    have inner := ScalarType.ofJson?_toJson (addressable _ (List.mem_singleton_self _)) (room + 121)
    simp [toJson, ofJson?, isUnit_object occupied, inner]
  | object type =>
    have occupied : type.toJson ≠ .null := nofun
    have inner := FieldedType.ofJson?_toJson addressable shallow room
    simp [toJson, ofJson?, isUnit_object occupied, inner]
  | interface type =>
    have occupied : type.toJson ≠ .null := nofun
    have inner := FieldedType.ofJson?_toJson addressable shallow room
    simp [toJson, ofJson?, isUnit_object occupied, inner]
  | union type =>
    have occupied : type.toJson ≠ .null := nofun
    obtain ⟨here, inside⟩ := List.forall_mem_cons.mp addressable
    have inner := UnionType.ofJson?_toJson here (List.forall_mem_map.mp inside) (room + 119)
    simp [toJson, ofJson?, isUnit_object occupied, inner]
  | enum type =>
    have occupied : type.toJson ≠ .null := nofun
    obtain ⟨here, inside⟩ := List.forall_mem_cons.mp addressable
    have inner := EnumType.ofJson?_toJson here (List.forall_mem_map.mp inside) (room + 119)
    simp [toJson, ofJson?, isUnit_object occupied, inner]
  | input type =>
    have occupied : type.toJson ≠ .null := nofun
    obtain ⟨here, inside⟩ := List.forall_mem_cons.mp addressable
    have inner := InputType.ofJson?_toJson here inside (List.forall_mem_map.mp shallow) (room + 2)
    simp [toJson, ofJson?, isUnit_object occupied, inner]

/-! ## Schemas -/

/-- A root type, if there is one, is read back. -/
theorem NamedRef.optional_ofJson?_toJson {root : Option NamedRef}
    (addressable : ∀ ref ∈ root, ref.location.IsAddressable) (room : Nat) :
    optional (ofJson? (room + 3)) (some (root.elim null toJson)) = some root := by
  cases root with
  | none => rfl
  | some ref =>
    have inner := ofJson?_toJson (addressable ref rfl) room
    rw [Option.elim_some]
    change (ofJson? (room + 3) ref.toJson).map some = _
    rw [inner]
    rfl

/-- A schema whose positions have numbers of 64 bits and whose references are not too deep is read
back from its JSON. -/
theorem Schema.ofJson?_toJson {schema : Schema}
    (addressable : ∀ location ∈ schema.locations, location.IsAddressable)
    (shallow : ∀ ref ∈ schema.references, ref.depth ≤ TypeRef.readableDepth) :
    ofJson? schema.toJson = some schema := by
  obtain ⟨rootsAddressable, typesAddressable⟩ := List.forall_mem_append.mp addressable
  have roots : ∀ operation, ∀ ref ∈ schema.rootRef? operation, ref.location.IsAddressable := by
    intro operation ref chosen
    apply List.forall_mem_map.mp rootsAddressable
    exact List.mem_filterMap.mpr ⟨operation, by cases operation <;> decide, chosen⟩
  have types : table? TypeDef.ofJson? 126 (ofTable TypeDef.toJson schema.types) =
      some schema.types :=
    table?_ofTable fun type known => TypeDef.ofJson?_toJson
      (fun location inside => typesAddressable location (List.mem_flatMap.mpr ⟨_, known, inside⟩))
      (fun ref inside => shallow ref (List.mem_flatMap.mpr ⟨_, known, inside⟩)) 0
  have root : ∀ operation, optional (NamedRef.ofJson? 126)
      (some ((schema.rootRef? operation).elim null NamedRef.toJson)) =
        some (schema.rootRef? operation) :=
    fun operation => NamedRef.optional_ofJson?_toJson (roots operation) 123
  have query := root .query
  have mutation := root .mutation
  have subscription := root .subscription
  dsimp only [rootRef?] at query mutation subscription
  rw [ofJson?, toJson, nestingLimit, ofJsonAt?, fields?_object]
  · simp [query, mutation, subscription, types]
  · rfl
  · decide

/-! ## Plain values -/

theorem Json.isPlain_ofOption (text : Option String) : (ofOption text).IsPlain := by
  cases text <;> simp [ofOption]

theorem Json.isPlain_ofTable {α : Type} {write : α → Json} {table : Table α}
    (plain : ∀ value, (write value).IsPlain) : (ofTable write table).IsPlain := by
  rw [ofTable, isPlain_object, List.forall_mem_map]
  exact fun entry _ => plain entry.2

theorem Location.isPlain_toJson (location : Location) : location.toJson.IsPlain := by
  cases location <;> simp [toJson, isPlain_ofOption]

theorem NamedRef.isPlain_toJson (ref : NamedRef) : ref.toJson.IsPlain := by
  simp [toJson, Location.isPlain_toJson]

theorem TypeRef.isPlain_toJson (type : TypeRef) : type.toJson.IsPlain := by
  induction type with
  | named nullable target => simp [toJson, NamedRef.isPlain_toJson]
  | list nullable item location ih => simp [toJson, Location.isPlain_toJson, ih]

theorem Parameter.isPlain_toJson (parameter : Parameter) : parameter.toJson.IsPlain := by
  simp [toJson, Location.isPlain_toJson, isPlain_ofOption, TypeRef.isPlain_toJson]

theorem Field.isPlain_toJson (field : Field) : field.toJson.IsPlain := by
  simp [toJson, Location.isPlain_toJson, isPlain_ofOption,
    isPlain_ofTable Parameter.isPlain_toJson, TypeRef.isPlain_toJson]

theorem FieldedType.isPlain_toJson (type : FieldedType) : type.toJson.IsPlain := by
  simp [toJson, Location.isPlain_toJson, isPlain_ofOption,
    isPlain_ofTable Field.isPlain_toJson, NamedRef.isPlain_toJson]

theorem EnumValue.isPlain_toJson (value : EnumValue) : value.toJson.IsPlain := by
  simp [toJson, Location.isPlain_toJson, isPlain_ofOption]

theorem InputField.isPlain_toJson (field : InputField) : field.toJson.IsPlain := by
  simp [toJson, Location.isPlain_toJson, TypeRef.isPlain_toJson]

theorem TypeDef.isPlain_toJson (type : TypeDef) : type.toJson.IsPlain := by
  cases type <;> simp [toJson, ScalarType.toJson, UnionType.toJson, EnumType.toJson,
    InputType.toJson, Location.isPlain_toJson, isPlain_ofOption, FieldedType.isPlain_toJson,
    isPlain_ofTable NamedRef.isPlain_toJson, isPlain_ofTable EnumValue.isPlain_toJson,
    isPlain_ofTable InputField.isPlain_toJson]

theorem Schema.isPlain_toJson (schema : Schema) : schema.toJson.IsPlain := by
  have root : ∀ ref : Option NamedRef, (ref.elim null NamedRef.toJson).IsPlain := by
    rintro (_ | ref)
    · trivial
    · exact ref.isPlain_toJson
  simp [toJson, root, isPlain_ofTable TypeDef.isPlain_toJson]

/-- Such a schema is read back from the text of its JSON. -/
theorem Schema.ofJsonText?_text {schema : Schema}
    (addressable : ∀ location ∈ schema.locations, location.IsAddressable)
    (shallow : ∀ ref ∈ schema.references, ref.depth ≤ TypeRef.readableDepth) :
    ofJsonText? schema.toJson.text = some schema := by
  rw [ofJsonText?, ofText?_text schema.isPlain_toJson, Option.bind_some,
    ofJson?_toJson addressable shallow]

end SchemaUnfolding
