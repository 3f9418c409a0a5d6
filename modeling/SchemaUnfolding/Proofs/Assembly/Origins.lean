import SchemaUnfolding.Proofs.Assembly.Contents
import SchemaUnfolding.Proofs.Schema.Written
import SchemaUnfolding.Proofs.Sdl.Reading

/-!
# Where the contents of a schema come from

Each location in a built schema is that of a token in one of the loaded sources, and each reference
nests its lists as some written type does. So a limit that the tokens and written types of all
sources keep is kept by the schema.
-/

namespace SchemaUnfolding

open Sdl (PlaceIn)

/-! ## Limits -/

section Limits

variable (place : Location → Prop) (levels : Nat)

/-- A reference has only allowed locations, and its lists are nested within some levels. -/
structure TypeRef.Within (type : TypeRef) : Prop where
  locations : ∀ location ∈ type.locations, place location
  depth : type.depth ≤ levels

/-- A parameter has only allowed locations, and its lists are nested within some levels. -/
structure Parameter.Within (parameter : Parameter) : Prop where
  locations : ∀ location ∈ parameter.locations, place location
  depth : parameter.type.depth ≤ levels

/-- A field has only allowed locations, and its lists are nested within some levels. -/
structure InputField.Within (field : InputField) : Prop where
  locations : ∀ location ∈ field.locations, place location
  depth : field.type.depth ≤ levels

/-- A field has only allowed locations, and its references are nested within some levels. -/
structure Field.Within (field : Field) : Prop where
  locations : ∀ location ∈ field.locations, place location
  references : ∀ type ∈ field.references, type.depth ≤ levels

/-- A type has only allowed locations, and its references are nested within some levels. -/
structure TypeDef.Within (type : TypeDef) : Prop where
  locations : ∀ location ∈ type.locations, place location
  references : ∀ ref ∈ type.references, ref.depth ≤ levels

/-- A schema has only allowed locations, and its references are nested within some levels. -/
structure Schema.Within (schema : Schema) : Prop where
  locations : ∀ location ∈ schema.locations, place location
  references : ∀ ref ∈ schema.references, ref.depth ≤ levels

/-- All places of some tokens in a file are allowed. -/
def Allows (file : Option String) (tokens : List (Position × Sdl.Token)) : Prop :=
  ∀ position, PlaceIn tokens position → place (.source file position)

/-- A part of a type is taken from tokens in its file at allowed places. -/
def Part.Within (part : Part) : Prop :=
  ∃ tokens, part.2.TakenFrom tokens levels ∧ Allows place part.1 tokens

/-- All definitions of a script are taken from tokens in their files at allowed places. -/
def Script.Within (script : Script) : Prop :=
  ∀ entry ∈ script, ∃ tokens, entry.2.TakenFrom tokens levels ∧ Allows place entry.1 tokens

end Limits

variable {place : Location → Prop} {levels : Nat} {file : Option String}
  {tokens : List (Position × Sdl.Token)}

/-! ## References -/

theorem TypeRef.depth_ofExprAt {location : Location} {nullable : Bool} {type : Sdl.TypeExpr} :
    (ofExprAt location nullable type).depth = type.depth := by
  induction type generalizing nullable with
  | named name => rfl
  | list item ih => exact congrArg (· + 1) ih
  | nonNull type ih => exact ih

/-- A reference that is made from a written type has no location but that of the type. -/
theorem TypeRef.eq_of_mem_locations {location other : Location} {nullable : Bool}
    {type : Sdl.TypeExpr} (member : other ∈ (ofExprAt location nullable type).locations) :
    other = location := by
  induction type generalizing nullable with
  | named name => exact List.mem_singleton.mp member
  | list item ih =>
    rcases List.mem_cons.mp member with same | inside
    · exact same
    · exact ih inside
  | nonNull type ih => exact ih member

theorem TypeRef.within_ofExpr {location : Location} {type : Sdl.TypeExpr} (allowed : place location)
    (taken : type.TakenFrom tokens levels) : (ofExpr location type).Within place levels where
  locations _ member := eq_of_mem_locations member ▸ allowed
  depth := depth_ofExprAt.trans_le taken.depth

/-! ## Elements of types -/

/-- What parts declare in a column is declared by one of them. -/
theorem exists_part_of_declarations {α β : Type} {column : Sdl.TypeBody → List α}
    {parts : List Part} {relation : Option String × α → β → Prop} {seconds : List β}
    (related : List.Forall₂ relation (Part.declarations column parts) seconds) {second : β}
    (member : second ∈ seconds) :
    ∃ part ∈ parts, ∃ decl ∈ column part.2.body, relation (part.1, decl) second := by
  obtain ⟨first, known, relates⟩ := exists_mem_of_forall₂ related member
  obtain ⟨part, isPart, inside⟩ := List.mem_flatMap.mp known
  obtain ⟨decl, declared, rfl⟩ := List.mem_map.mp inside
  exact ⟨part, isPart, decl, declared, relates⟩

/-- What parts name in a column is named by one of them. -/
theorem exists_part_of_mentions {β : Type} {column : Sdl.TypeBody → List String}
    {parts : List Part} {relation : Option String × Position × String → β → Prop}
    {seconds : List β} (related : List.Forall₂ relation (Part.mentions column parts) seconds)
    {second : β} (member : second ∈ seconds) :
    ∃ part ∈ parts, ∃ name, relation (part.1, part.2.position, name) second := by
  obtain ⟨first, known, relates⟩ := exists_mem_of_forall₂ related member
  obtain ⟨part, isPart, inside⟩ := List.mem_flatMap.mp known
  obtain ⟨name, _, rfl⟩ := List.mem_map.mp inside
  exact ⟨part, isPart, name, relates⟩

theorem Parameter.DeclaredBy.within {decl : Sdl.InputDecl} {parameter : Parameter}
    (declared : DeclaredBy file decl parameter) (allowed : Allows place file tokens)
    (taken : decl.TakenFrom tokens levels) : parameter.Within place levels := by
  have here := allowed _ taken.position
  have type : parameter.type.Within place levels :=
    declared.type ▸ TypeRef.within_ofExpr here taken.type
  exact ⟨List.forall_mem_cons.mpr ⟨declared.location ▸ here, type.locations⟩, type.depth⟩

theorem InputField.DeclaredBy.within {decl : Sdl.InputDecl} {field : InputField}
    (declared : DeclaredBy file decl field) (allowed : Allows place file tokens)
    (taken : decl.TakenFrom tokens levels) : field.Within place levels := by
  have here := allowed _ taken.position
  have type : field.type.Within place levels :=
    declared.type ▸ TypeRef.within_ofExpr here taken.type
  exact ⟨List.forall_mem_cons.mpr ⟨declared.location ▸ here, type.locations⟩, type.depth⟩

theorem Field.DeclaredBy.within {holder : String} {decl : Sdl.FieldDecl} {field : Field}
    (declared : DeclaredBy file holder decl field) (allowed : Allows place file tokens)
    (taken : decl.TakenFrom tokens levels) : field.Within place levels := by
  have here := allowed _ taken.position
  have type : field.type.Within place levels :=
    declared.type ▸ TypeRef.within_ofExpr here taken.type
  have parameters : ∀ parameter ∈ field.parameters.values, parameter.Within place levels := by
    refine List.forall_mem_map.mpr fun entry member => ?_
    obtain ⟨other, known, relates⟩ := exists_mem_of_forall₂ declared.parameters member
    exact relates.2.within allowed (taken.parameters other known)
  constructor
  · refine List.forall_mem_cons.mpr ⟨declared.location ▸ here, List.forall_mem_append.mpr ⟨?_,
      type.locations⟩⟩
    intro location member
    obtain ⟨parameter, known, inside⟩ := List.mem_flatMap.mp member
    exact (parameters parameter known).locations location inside
  · exact List.forall_mem_cons.mpr ⟨type.depth,
      List.forall_mem_map.mpr fun parameter known => (parameters parameter known).depth⟩

/-! ## Types -/

namespace Sdl.TypeBody.TakenFrom

variable {body : TypeBody}

theorem fields (taken : body.TakenFrom tokens levels) :
    ∀ decl ∈ body.fields, decl.TakenFrom tokens levels := by
  cases body with
  | object interfaces fields | interface interfaces fields => exact taken.2
  | _ => exact fun _ => nofun

theorem values (taken : body.TakenFrom tokens levels) :
    ∀ decl ∈ body.values, decl.TakenFrom tokens := by
  cases body with
  | enum values => exact taken
  | _ => exact fun _ => nofun

theorem inputFields (taken : body.TakenFrom tokens levels) :
    ∀ decl ∈ body.inputFields, decl.TakenFrom tokens levels := by
  cases body with
  | input fields => exact taken
  | _ => exact fun _ => nofun

end Sdl.TypeBody.TakenFrom

/-- A type keeps a limit when all that it holds does. -/
theorem TypeDef.within_of_entries {type : TypeDef} (here : place type.location)
    (fields : ∀ entry ∈ type.fieldEntries, entry.2.Within place levels)
    (interfaces : ∀ ref ∈ type.declaredInterfaces, place ref.location)
    (members : ∀ entry ∈ type.memberEntries, place entry.2.location)
    (values : ∀ entry ∈ type.valueEntries, place entry.2.location)
    (inputs : ∀ entry ∈ type.inputEntries, entry.2.Within place levels) :
    type.Within place levels := by
  cases type with
  | boolean | float | id | int | string => exact ⟨by simp [locations], by simp [references]⟩
  | scalar type => exact ⟨List.forall_mem_singleton.mpr here, by simp [references]⟩
  | object type | interface type =>
    have fields : ∀ field ∈ type.fields.values, field.Within place levels :=
      List.forall_mem_map.mpr fields
    constructor
    · refine List.forall_mem_cons.mpr ⟨here, List.forall_mem_append.mpr ⟨?_,
        List.forall_mem_map.mpr interfaces⟩⟩
      exact List.forall_mem_flatMap.mpr fun field known => (fields field known).locations
    · exact List.forall_mem_flatMap.mpr fun field known => (fields field known).references
  | union type =>
    refine ⟨List.forall_mem_cons.mpr ⟨here, ?_⟩, by simp [references]⟩
    exact List.forall_mem_map.mpr (List.forall_mem_map.mpr members)
  | enum type =>
    refine ⟨List.forall_mem_cons.mpr ⟨here, ?_⟩, by simp [references]⟩
    exact List.forall_mem_map.mpr (List.forall_mem_map.mpr values)
  | input type =>
    have fields : ∀ field ∈ type.fields.values, field.Within place levels :=
      List.forall_mem_map.mpr inputs
    constructor
    · refine List.forall_mem_cons.mpr ⟨here, ?_⟩
      exact List.forall_mem_flatMap.mpr fun field known => (fields field known).locations
    · exact List.forall_mem_map.mpr fun field known => (fields field known).depth

theorem TypeDef.DeclaredBy.within {definition : Part} {parts : List Part} {type : TypeDef}
    (declared : type.DeclaredBy definition parts) (whole : definition.Within place levels)
    (each : ∀ part ∈ parts, part.Within place levels) : type.Within place levels := by
  apply TypeDef.within_of_entries
  · obtain ⟨tokens, taken, allowed⟩ := whole
    exact declared.location ▸ allowed _ taken.position
  · intro entry member
    obtain ⟨part, known, decl, inside, relates⟩ :=
      exists_part_of_declarations declared.fields member
    obtain ⟨tokens, taken, allowed⟩ := each part known
    exact relates.2.within allowed (taken.body.fields decl inside)
  · intro ref member
    obtain ⟨part, known, name, relates⟩ := exists_part_of_mentions declared.interfaces member
    obtain ⟨tokens, taken, allowed⟩ := each part known
    exact relates.location ▸ allowed _ taken.position
  · intro entry member
    obtain ⟨part, known, name, relates⟩ := exists_part_of_mentions declared.members member
    obtain ⟨tokens, taken, allowed⟩ := each part known
    exact relates.2.location ▸ allowed _ taken.position
  · intro entry member
    obtain ⟨part, known, decl, inside, relates⟩ :=
      exists_part_of_declarations declared.values member
    obtain ⟨tokens, taken, allowed⟩ := each part known
    exact relates.2.location ▸ allowed _ (taken.body.values decl inside).position
  · intro entry member
    obtain ⟨part, known, decl, inside, relates⟩ :=
      exists_part_of_declarations declared.inputFields member
    obtain ⟨tokens, taken, allowed⟩ := each part known
    exact relates.2.within allowed (taken.body.inputFields decl inside)

/-! ## Schemas -/

theorem Script.location_eq_of_mem_pick {location : Location} {operation : OperationKind}
    {root : Option String} {choice : OperationKind × NamedRef}
    (member : choice ∈ pick location operation root) : choice.2.location = location := by
  cases root with
  | none => cases member
  | some name => rw [List.mem_singleton.mp member]

/-- All choices of a schema block have its location. -/
theorem Script.location_eq_of_mem_picksOf {block : Sdl.SchemaBlock}
    {choice : OperationKind × NamedRef} (member : choice ∈ picksOf file block) :
    choice.2.location = .source file block.position := by
  rcases List.mem_append.mp member with early | subscription
  · rcases List.mem_append.mp early with query | mutation
    · exact location_eq_of_mem_pick query
    · exact location_eq_of_mem_pick mutation
  · exact location_eq_of_mem_pick subscription

namespace Script.Within

variable {script : Script}

theorem definitions (within : script.Within place levels) :
    ∀ part ∈ script.definitions, part.Within place levels := by
  intro part defined
  obtain ⟨⟨file, definition⟩, member, same⟩ := List.mem_filterMap.mp defined
  cases definition with
  | type decl =>
    cases same
    exact within _ member
  | _ => cases same

theorem extensionsOf (within : script.Within place levels) (name : String) :
    ∀ part ∈ script.extensionsOf name, part.Within place levels := by
  intro part extending
  obtain ⟨⟨file, definition⟩, member, same⟩ :=
    List.mem_filterMap.mp (List.mem_filter.mp extending).1
  cases definition with
  | extension decl =>
    cases same
    exact within _ member
  | _ => cases same

theorem picks (within : script.Within place levels) :
    ∀ choice ∈ script.picks, place choice.2.location := by
  intro choice member
  obtain ⟨⟨file, definition⟩, known, chosen⟩ := List.mem_flatMap.mp member
  cases definition with
  | schema block =>
    obtain ⟨tokens, taken, allowed⟩ := within _ known
    rw [location_eq_of_mem_picksOf chosen]
    exact allowed _ (Sdl.SchemaBlock.TakenFrom.position taken)
  | _ => cases chosen

end Script.Within

namespace SchemaBuilder.LoadedFrom

variable {script : Script} {builder : SchemaBuilder} {schema : Schema}

theorem types_within (loaded : LoadedFrom script builder) (built : builder.build = .ok schema)
    (within : script.Within place levels) :
    ∀ type ∈ schema.types.values, type.Within place levels := by
  obtain ⟨⟨defined, entries, declared⟩, -⟩ := loaded.types_declared built
  rw [Table.values, entries, List.map_append, List.forall_mem_append]
  constructor
  · have bare : ∀ type ∈ TypeDef.builtIns.values, type.locations = [] ∧ type.references = [] := by
      decide
    intro type member
    obtain ⟨locations, references⟩ := bare type member
    exact ⟨by simp [locations], by simp [references]⟩
  · refine List.forall_mem_map.mpr fun entry member => ?_
    obtain ⟨definition, known, _, parts, same, declares⟩ := exists_mem_of_forall₂ declared member
    have whole := within.definitions definition known
    refine declares.within whole fun part inside => ?_
    rcases List.mem_cons.mp (same.mem_iff.mp inside) with rfl | extending
    · exact whole
    · exact within.extensionsOf _ part extending

/-- A built schema keeps a limit that everything loaded keeps. -/
theorem within (loaded : LoadedFrom script builder) (built : builder.build = .ok schema)
    (within : script.Within place levels) : schema.Within place levels := by
  have types := loaded.types_within built within
  have entered := Entered.of_loadedFrom loaded
  have roots : ∀ operation, ∀ ref ∈ schema.rootRef? operation, place ref.location := by
    intro operation ref chosen
    rw [(parts_of_build built).2.1 operation, Option.mem_def, root_eq_some_iff] at chosen
    rcases chosen with chosen | ⟨_, object, found, rfl⟩
    · exact within.picks _ ((entered.chosen.chosen operation ref).mp chosen)
    · exact (types _ (Table.mem_values_of_get? found)).locations _ (List.mem_cons_self ..)
  constructor
  · refine List.forall_mem_append.mpr ⟨List.forall_mem_map.mpr fun ref member => ?_,
      List.forall_mem_flatMap.mpr fun type known => (types type known).locations⟩
    obtain ⟨operation, _, chosen⟩ := List.mem_filterMap.mp member
    exact roots operation ref chosen
  · exact List.forall_mem_flatMap.mpr fun type known => (types type known).references

end SchemaBuilder.LoadedFrom

/-! ## Sources -/

/-- What a source adds to a script keeps a limit when the tokens of the source do. -/
theorem Script.Within.append {script : Script} {source : String} {definitions : List Sdl.Definition}
    (within : script.Within place Sdl.Item.nestingLimit)
    (parsed : Sdl.definitions source = .ok definitions)
    (allowed : ∀ tokens, Sdl.tokens source = .ok tokens → Allows place file tokens) :
    Script.Within place Sdl.Item.nestingLimit (script ++ definitions.map (file, ·)) := by
  refine List.forall_mem_append.mpr ⟨within, List.forall_mem_map.mpr fun definition member => ?_⟩
  obtain ⟨tokens, scanned, taken⟩ := Sdl.exists_tokens_of_definitions parsed
  exact ⟨tokens, taken definition member, allowed tokens scanned⟩

/-- Whatever is loaded is nested no deeper than brackets may be. -/
theorem SchemaBuilder.LoadedFrom.script_within {script : Script} {builder : SchemaBuilder}
    (loaded : LoadedFrom script builder) :
    script.Within (fun _ => True) Sdl.Item.nestingLimit := by
  induction loaded with
  | empty => exact fun _ => nofun
  | assuming _ _ ih => exact ih
  | load _ parsed _ ih => exact ih.append parsed fun _ _ _ _ => trivial

/-- The references in a built schema are nested no deeper than brackets may be. -/
theorem Schema.Built.depth_le {schema : Schema} (built : schema.Built) :
    ∀ ref ∈ schema.references, ref.depth ≤ Sdl.Item.nestingLimit := by
  obtain ⟨builder, loaded, succeeded⟩ := built
  obtain ⟨script, known⟩ := loaded.exists_script
  exact (known.within succeeded known.script_within).references

end SchemaUnfolding
