import SchemaUnfolding.Config
import SchemaUnfolding.Proofs.Assembly.Acceptance
import SchemaUnfolding.Proofs.Schema.Rules

/-!
# Contents of a built schema

A built schema has the types that every schema has and one type for each loaded definition. What
such a type holds is what its definition and its extensions declare, each element in the file of the
part that declares it, whenever that part was applied.
-/

namespace SchemaUnfolding

/-! ## What parts declare -/

/-- A declaration in a file declares a parameter. -/
structure Parameter.DeclaredBy (file : Option String) (decl : Sdl.InputDecl)
    (parameter : Parameter) : Prop where
  name : parameter.name = decl.name
  location : parameter.location = .source file decl.position
  description : parameter.description = decl.description
  default : parameter.default = decl.default.map Sdl.Value.text
  type : parameter.type = .ofExpr (.source file decl.position) decl.type

/-- A declaration in a file declares a field of a type, with all of its parameters in order. -/
structure Field.DeclaredBy (file : Option String) (holder : String) (decl : Sdl.FieldDecl)
    (field : Field) : Prop where
  name : field.name = decl.name
  location : field.location = .source file decl.position
  description : field.description = decl.description
  deprecation : field.deprecation = deprecationReason decl.directives
  parent : field.parent = holder
  type : field.type = .ofExpr (.source file decl.position) decl.type
  parameters : List.Forall₂ (fun decl entry => entry.1 = decl.name ∧ entry.2.DeclaredBy file decl)
    decl.parameters field.parameters.entries

/-- A declared field may be selected exactly when its declaration does not deprecate it, or when
deprecated fields are asked for. -/
theorem Field.DeclaredBy.includes_iff {file : Option String} {holder : String}
    {decl : Sdl.FieldDecl} {field : Field} (declared : field.DeclaredBy file holder decl)
    (config : Config) :
    config.includes field = true ↔
      (∀ directive ∈ decl.directives, directive.name ≠ "deprecated") ∨
        config.includeDeprecated = true := by
  rw [Config.includes_iff, declared.deprecation, deprecationReason_eq_none_iff]

/-- A declaration in a file declares a field of an input type. -/
structure InputField.DeclaredBy (file : Option String) (decl : Sdl.InputDecl)
    (field : InputField) : Prop where
  name : field.name = decl.name
  location : field.location = .source file decl.position
  type : field.type = .ofExpr (.source file decl.position) decl.type

/-- A declaration in a file declares a value of an enumeration. -/
structure EnumValue.DeclaredBy (file : Option String) (decl : Sdl.EnumValueDecl)
    (value : EnumValue) : Prop where
  name : value.name = decl.name
  location : value.location = .source file decl.position
  deprecation : value.deprecation = deprecationReason decl.directives

/-- A part names a type as a member or as an interface. -/
structure NamedRef.DeclaredBy (file : Option String) (position : Position) (name : String)
    (ref : NamedRef) : Prop where
  name : ref.name = name
  location : ref.location = .source file position

/-- What parts declare in a column of their bodies, each with its file. -/
def Part.declarations {α : Type} (column : Sdl.TypeBody → List α) (parts : List Part) :
    List (Option String × α) :=
  parts.flatMap fun part => (column part.2.body).map (part.1, ·)

/-- What parts name in a column of their bodies, each with the place of its part. -/
def Part.mentions (column : Sdl.TypeBody → List String) (parts : List Part) :
    List (Option String × Position × String) :=
  parts.flatMap fun part => (column part.2.body).map (part.1, part.2.position, ·)

/-- A type holds what parts declare between them, and nothing is declared twice. -/
structure TypeDef.DeclaredBy (definition : Part) (parts : List Part) (type : TypeDef) : Prop where
  kind : type.kind = definition.2.body.kind
  name : type.name = definition.2.name
  location : type.location = .source definition.1 definition.2.position
  description : type.description = definition.2.description
  kinds : ∀ part ∈ parts, part.2.body.kind = definition.2.body.kind
  distinct : (parts.flatMap fun part => part.2.body.memberNames).Nodup
  interfacesDistinct : (parts.flatMap fun part => part.2.body.interfaces).Nodup
  fields : List.Forall₂
    (fun (file, decl) entry =>
      entry.1 = decl.name ∧ entry.2.DeclaredBy file definition.2.name decl)
    (Part.declarations Sdl.TypeBody.fields parts) type.fieldEntries
  inputFields : List.Forall₂
    (fun (file, decl) entry => entry.1 = decl.name ∧ entry.2.DeclaredBy file decl)
    (Part.declarations Sdl.TypeBody.inputFields parts) type.inputEntries
  values : List.Forall₂
    (fun (file, decl) entry => entry.1 = decl.name ∧ entry.2.DeclaredBy file decl)
    (Part.declarations Sdl.TypeBody.values parts) type.valueEntries
  members : List.Forall₂
    (fun (file, position, name) entry => entry.1 = name ∧ entry.2.DeclaredBy file position name)
    (Part.mentions Sdl.TypeBody.members parts) type.memberEntries
  interfaces : List.Forall₂ (fun (file, position, name) ref => ref.DeclaredBy file position name)
    (Part.mentions Sdl.TypeBody.interfaces parts) type.declaredInterfaces

/-! ## What a gathered type holds -/

namespace Part.Compatible

open Sdl (TypeBody)

variable {definition : Part} {parts : List Part}

/-- Parts of a kind that has nothing in a column give nothing to it. -/
theorem flatMap_eq_nil {α : Type} {column : Part → List α}
    (compatible : Compatible definition parts)
    (absent : ∀ part : Part, part.2.body.kind = definition.2.body.kind → column part = []) :
    parts.flatMap column = [] :=
  List.flatMap_eq_nil_iff.mpr fun part member => absent part (compatible.kinds part member)

theorem fieldEntries_gather (compatible : Compatible definition parts) :
    (TypeDef.gather definition parts).fieldEntries = parts.flatMap (fields definition.name) := by
  have kinds := compatible.kinds
  rcases definition with ⟨home, position, description, name, directives, body⟩
  cases body with
  | object =>
    exact compatible.entries_column fun part member => map_fst_fields (.inl (kinds part member))
  | interface =>
    exact compatible.entries_column fun part member => map_fst_fields (.inr (kinds part member))
  | _ =>
    refine (compatible.flatMap_eq_nil fun part same => ?_).symm
    have object : part.2.body.kind ≠ .object := by
      rw [same]
      simp [TypeBody.kind]
    have interface : part.2.body.kind ≠ .interface := by
      rw [same]
      simp [TypeBody.kind]
    rw [fields, TypeBody.fields_eq_nil object interface, List.map_nil]

theorem declaredInterfaces_gather (compatible : Compatible definition parts) :
    (TypeDef.gather definition parts).declaredInterfaces = parts.flatMap Part.interfaces := by
  rcases definition with ⟨home, position, description, name, directives, body⟩
  cases body with
  | object | interface => rfl
  | _ =>
    refine (compatible.flatMap_eq_nil fun part same => ?_).symm
    have object : part.2.body.kind ≠ .object := by
      rw [same]
      simp [TypeBody.kind]
    have interface : part.2.body.kind ≠ .interface := by
      rw [same]
      simp [TypeBody.kind]
    rw [Part.interfaces, interfaceNames, TypeBody.interfaces_eq_nil object interface, List.map_nil]

theorem memberEntries_gather (compatible : Compatible definition parts) :
    (TypeDef.gather definition parts).memberEntries = parts.flatMap Part.members := by
  have kinds := compatible.kinds
  rcases definition with ⟨home, position, description, name, directives, body⟩
  cases body with
  | union =>
    exact compatible.entries_column fun part member => map_fst_members (kinds part member)
  | _ =>
    refine (compatible.flatMap_eq_nil fun part same => ?_).symm
    have other : part.2.body.kind ≠ .union := by
      rw [same]
      simp [TypeBody.kind]
    rw [Part.members, TypeBody.members_eq_nil other, List.map_nil]

theorem valueEntries_gather (compatible : Compatible definition parts) :
    (TypeDef.gather definition parts).valueEntries = parts.flatMap values := by
  have kinds := compatible.kinds
  rcases definition with ⟨home, position, description, name, directives, body⟩
  cases body with
  | enum =>
    exact compatible.entries_column fun part member => map_fst_values (kinds part member)
  | _ =>
    refine (compatible.flatMap_eq_nil fun part same => ?_).symm
    have other : part.2.body.kind ≠ .enum := by
      rw [same]
      simp [TypeBody.kind]
    rw [values, TypeBody.values_eq_nil other, List.map_nil]

theorem inputEntries_gather (compatible : Compatible definition parts) :
    (TypeDef.gather definition parts).inputEntries = parts.flatMap inputFields := by
  have kinds := compatible.kinds
  rcases definition with ⟨home, position, description, name, directives, body⟩
  cases body with
  | input =>
    exact compatible.entries_column fun part member => map_fst_inputFields (kinds part member)
  | _ =>
    refine (compatible.flatMap_eq_nil fun part same => ?_).symm
    have other : part.2.body.kind ≠ .input := by
      rw [same]
      simp [TypeBody.kind]
    rw [inputFields, TypeBody.inputFields_eq_nil other, List.map_nil]

end Part.Compatible

/-! ## What declarations declare -/

section Declarations

variable {file : Option String} {position : Position}

theorem Parameter.declaredBy_ofDecl {fieldAt : Location} (decl : Sdl.InputDecl)
    (inside : fieldAt.within decl.position = .source file decl.position) :
    DeclaredBy file decl (.ofDecl fieldAt decl) :=
  ⟨rfl, inside, rfl, rfl, congrArg (TypeRef.ofExpr · decl.type) inside⟩

theorem InputField.declaredBy_ofDecl (decl : Sdl.InputDecl) :
    DeclaredBy file decl (.ofDecl (.source file position) decl) :=
  ⟨rfl, rfl, rfl⟩

theorem EnumValue.declaredBy_ofDecl (decl : Sdl.EnumValueDecl) :
    DeclaredBy file decl (.ofDecl (.source file position) decl) :=
  ⟨rfl, rfl, rfl⟩

/-- A proper field declares each of its parameters. -/
theorem Field.declaredBy_ofDecl {holder : String} {decl : Sdl.FieldDecl} (proper : decl.Proper) :
    DeclaredBy file holder decl (.ofDecl (.source file position) holder decl) where
  name := rfl
  location := rfl
  description := rfl
  deprecation := rfl
  parent := rfl
  type := rfl
  parameters := by
    have entries : (Field.ofDecl (.source file position) holder decl).parameters.entries =
        decl.parameters.map fun parameter =>
          (parameter.name, .ofDecl (.source file decl.position) parameter) := by
      apply Table.entries_ofList
      rw [List.map_map]
      exact proper.distinct
    rw [entries, List.forall₂_map_right_iff, List.forall₂_same]
    exact fun parameter _ => ⟨rfl, Parameter.declaredBy_ofDecl parameter rfl⟩

end Declarations

theorem exists_mem_of_forall₂ {α β : Type} {relation : α → β → Prop} {firsts : List α}
    {seconds : List β} (related : List.Forall₂ relation firsts seconds) {second : β}
    (member : second ∈ seconds) : ∃ first ∈ firsts, relation first second := by
  induction related with
  | nil => cases member
  | cons here _ ih =>
    rcases List.mem_cons.mp member with rfl | later
    · exact ⟨_, List.mem_cons_self .., here⟩
    · obtain ⟨first, known, there⟩ := ih later
      exact ⟨first, List.mem_cons_of_mem _ known, there⟩

/-- Lists that are put together from related lists are related. -/
theorem forall₂_flatMap {α β γ : Type} {relation : β → γ → Prop} {items : List α}
    {first : α → List β} {second : α → List γ}
    (each : ∀ item ∈ items, List.Forall₂ relation (first item) (second item)) :
    List.Forall₂ relation (items.flatMap first) (items.flatMap second) := by
  induction items with
  | nil => exact .nil
  | cons item rest ih =>
    rcases List.forall_mem_cons.mp each with ⟨here, later⟩
    exact List.rel_append here (ih later)

/-- A type that has gathered parts that fit together holds what these declare. -/
theorem Part.Compatible.declaredBy_gather {definition : Part} {parts : List Part}
    (compatible : Compatible definition parts) :
    (TypeDef.gather definition parts).DeclaredBy definition parts where
  kind := TypeDef.kind_gather ..
  name := TypeDef.name_gather ..
  location := TypeDef.location_gather ..
  description := TypeDef.description_gather ..
  kinds := compatible.kinds
  distinct := compatible.members
  interfacesDistinct := compatible.interfaces
  fields := by
    rw [compatible.fieldEntries_gather]
    apply forall₂_flatMap
    intro part member
    rw [Part.fields, List.forall₂_map_left_iff, List.forall₂_map_right_iff, List.forall₂_same]
    intro decl declared
    exact ⟨rfl, Field.declaredBy_ofDecl ((compatible.proper part member).of_mem_fields declared)⟩
  inputFields := by
    rw [compatible.inputEntries_gather]
    apply forall₂_flatMap
    intro part _
    rw [Part.inputFields, List.forall₂_map_left_iff, List.forall₂_map_right_iff, List.forall₂_same]
    exact fun decl _ => ⟨rfl, InputField.declaredBy_ofDecl decl⟩
  values := by
    rw [compatible.valueEntries_gather]
    apply forall₂_flatMap
    intro part _
    rw [Part.values, List.forall₂_map_left_iff, List.forall₂_map_right_iff, List.forall₂_same]
    exact fun decl _ => ⟨rfl, EnumValue.declaredBy_ofDecl decl⟩
  members := by
    rw [compatible.memberEntries_gather]
    apply forall₂_flatMap
    intro part _
    rw [Part.members, List.forall₂_map_left_iff, List.forall₂_map_right_iff, List.forall₂_same]
    exact fun name _ => ⟨rfl, rfl, rfl⟩
  interfaces := by
    rw [compatible.declaredInterfaces_gather]
    apply forall₂_flatMap
    intro part _
    rw [Part.interfaces, interfaceNames, List.forall₂_map_left_iff, List.forall₂_map_right_iff,
      List.forall₂_same]
    exact fun name _ => ⟨rfl, rfl⟩

/-- Each field that a part declares is among those of the type. -/
theorem TypeDef.DeclaredBy.exists_field {definition part : Part} {parts : List Part}
    {type : TypeDef} (declared : type.DeclaredBy definition parts) (known : part ∈ parts)
    {decl : Sdl.FieldDecl} (member : decl ∈ part.2.body.fields) :
    ∃ field, (decl.name, field) ∈ type.fieldEntries ∧
      field.DeclaredBy part.1 definition.2.name decl := by
  have listed : (part.1, decl) ∈ Part.declarations Sdl.TypeBody.fields parts :=
    List.mem_flatMap_of_mem known (List.mem_map_of_mem member)
  rcases exists_mem_of_forall₂ (List.Forall₂.flip declared.fields) listed with
    ⟨⟨name, field⟩, found, rfl, declares⟩
  exact ⟨field, found, declares⟩

/-! ## Built schemas -/

namespace SchemaBuilder

variable {script : Script} {builder : SchemaBuilder} {schema : Schema}

/-- A built schema has the types that every schema has, followed by one type for each loaded
definition in order, under its name. Each of these holds what its definition and all of its
extensions declare between them, no more and no less, and no loaded extension is left over. -/
theorem LoadedFrom.types_declared (loaded : LoadedFrom script builder)
    (built : builder.build = .ok schema) :
    (∃ defined, schema.types.entries = TypeDef.builtIns.entries ++ defined ∧
      List.Forall₂ (fun definition entry => entry.1 = definition.2.name ∧
          ∃ parts, parts.Perm (definition :: script.extensionsOf definition.2.name) ∧
            entry.2.DeclaredBy definition parts)
        script.definitions defined) ∧
      ∀ extension ∈ script.extensions,
        ∃ definition ∈ script.definitions, definition.2.name = extension.2.name := by
  rcases (Entered.of_loadedFrom loaded).of_build built with ⟨acceptable, assembled⟩
  constructor
  · refine ⟨_, assembled.entries, ?_⟩
    rw [List.forall₂_map_right_iff, List.forall₂_same]
    intro definition known
    refine ⟨rfl, _, ?_, (assembled.compatible definition known).declaredBy_gather⟩
    rw [← Script.earlier_append_later]
    exact List.perm_append_comm.cons _
  · intro extension member
    exact List.mem_map.mp (acceptable.defined extension member)

end SchemaBuilder

/-! ## A deprecated field in a file of its own -/

/-- The definition of the type that has a deprecated field. -/
def retiredDefinition : Sdl.TypeDecl :=
  ⟨⟨1, 27⟩, none, "Item", [],
    .object [] [⟨⟨1, 39⟩, none, "name", [], .named "Int", []⟩]⟩

/-- The definition of the root type. -/
def retiredRoot : Sdl.TypeDecl :=
  ⟨⟨1, 1⟩, none, "Query", [], .object [] [⟨⟨1, 14⟩, none, "item", [], .named "Item", []⟩]⟩

/-- An extension with a deprecated field, then a file with the definition of its type. -/
def retiredScript : Script :=
  [(some "early.graphql", .extension retiredExtension),
    (some "base.graphql", .type retiredRoot), (some "base.graphql", .type retiredDefinition)]

theorem loadedFrom_retiredScript : SchemaBuilder.LoadedFrom retiredScript retiredBuilder := by
  have early : Sdl.definitions retiredExtending = .ok [.extension retiredExtension] := by cbv
  have base : Sdl.definitions retiredDefining =
      .ok [.type retiredRoot, .type retiredDefinition] := by cbv
  exact .load (.load .empty early load_retiredExtending) base load_retiredDefining

/-- The type in two files holds what its definition and its extension declare. The deprecated field
is in the file of the extension and has the reason that its own directive gives. -/
theorem retiredSchema_types_declared :
    SchemaBuilder.LoadedFrom retiredScript retiredBuilder ∧
      retiredBuilder.build = .ok retiredSchema ∧
      ∃ query item, retiredSchema.types.entries =
          TypeDef.builtIns.entries ++ [("Query", query), ("Item", item)] ∧
        ∃ parts, parts.Perm [(some "base.graphql", retiredDefinition),
            (some "early.graphql", retiredExtension)] ∧
          item.DeclaredBy (some "base.graphql", retiredDefinition) parts ∧
          ∃ field, ("code", field) ∈ item.fieldEntries ∧
            field.DeclaredBy (some "early.graphql") "Item" retiredDecl ∧
            field.deprecation = some "Gone" := by
  have definitions : retiredScript.definitions =
      [(some "base.graphql", retiredRoot), (some "base.graphql", retiredDefinition)] := rfl
  rcases (loadedFrom_retiredScript.types_declared build_retiredBuilder).1 with
    ⟨defined, entries, declared⟩
  rw [definitions] at declared
  rcases declared with _ | @⟨_, ⟨_, query⟩, _, _, ⟨rfl, _⟩, declared⟩
  rcases declared with _ | @⟨_, ⟨_, item⟩, _, _, ⟨rfl, parts, same, declares⟩, ⟨⟩⟩
  have known : (some "early.graphql", retiredExtension) ∈ parts :=
    same.mem_iff.mpr (List.mem_cons_of_mem _ (List.mem_singleton_self _))
  rcases declares.exists_field known (List.mem_singleton_self retiredDecl) with
    ⟨field, found, own⟩
  refine ⟨loadedFrom_retiredScript, build_retiredBuilder, query, item, entries, parts, same,
    declares, field, found, own, ?_⟩
  rw [own.deprecation, deprecationReason_eq_some_iff]
  exact ⟨[], _, [], rfl, nofun, rfl, .inl ⟨[], [], rfl, nofun⟩⟩

end SchemaUnfolding
