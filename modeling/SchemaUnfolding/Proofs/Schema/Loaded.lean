import Mathlib
import SchemaUnfolding.Proofs.Schema.WellFormed

/-!
# Loaded builders and built schemas

Every step of a builder keeps what it holds well-formed, so each schema that is built from loaded
sources is well-formed, whether its rules were taken for granted or not.
-/

namespace SchemaUnfolding

open Sdl (IsName)

namespace SchemaBuilder

/-- All that a builder holds is well-formed, and so is what it will do with its waiting
extensions. -/
structure WellFormed (builder : SchemaBuilder) : Prop where
  types : TypesWellFormed builder.types
  pending : ∀ waiting ∈ builder.pending, waiting.2.Named
  chosen : ∀ operation, ∀ root ∈ builder.chosen operation, IsName root.name

theorem wellFormed_empty : empty.WellFormed where
  types := typesWellFormed_builtIns
  pending := by simp [empty]
  chosen := by
    intro operation root member
    cases operation <;> cases member

theorem WellFormed.of_choose {builder result : SchemaBuilder} {location : Location}
    {operation : OperationKind} {root : Option String}
    (chosen : builder.choose location operation root = .ok result)
    (named : ∀ name ∈ root, IsName name) (known : builder.WellFormed) : result.WellFormed := by
  unfold choose at chosen
  split at chosen
  · cases chosen
    exact known
  · split at chosen
    · cases chosen
    · rename_i name _ _
      cases chosen
      constructor
      · cases operation <;> exact known.types
      · cases operation <;> exact known.pending
      · intro other held member
        have former := known.chosen other held
        cases operation <;> cases other <;> first
          | exact former member
          | (cases member; exact named name rfl)

theorem WellFormed.of_enterBlock {builder result : SchemaBuilder} {file : Option String}
    {block : Sdl.SchemaBlock} (entered : builder.enterBlock file block = .ok result)
    (named : block.Named) (known : builder.WellFormed) : result.WellFormed := by
  rcases bind_eq_ok_iff.mp entered with ⟨first, queryChosen, rest⟩
  rcases bind_eq_ok_iff.mp rest with ⟨second, mutationChosen, rest⟩
  rcases bind_eq_ok_iff.mp rest with ⟨third, subscriptionChosen, rest⟩
  dsimp only at rest
  split at rest
  · cases rest
  · cases rest
    exact ((known.of_choose queryChosen named.query).of_choose mutationChosen
      named.mutation).of_choose subscriptionChosen named.subscription

theorem WellFormed.of_define {builder result : SchemaBuilder} {file : Option String}
    {decl : Sdl.TypeDecl} (defined : builder.define file decl = .ok result) (named : decl.Named)
    (known : builder.WellFormed) : result.WellFormed := by
  rcases bind_eq_ok_iff.mp defined with ⟨type, made, rest⟩
  have wellFormed := TypeDef.wellFormed_of_ofDecl made named
  dsimp only at rest
  split at rest
  · cases rest
  · rename_i unreserved
    split at rest
    · cases rest
    · rename_i missing
      cases rest
      have fresh : decl.name ∉ builder.types.names := Table.get?_eq_none_iff.mp missing
      refine ⟨known.types.insert wellFormed.2
        ⟨named.name, Bool.eq_false_of_not_eq_true unreserved⟩ wellFormed.1 ?_,
        known.pending, known.chosen⟩
      rintro ⟨key, builtIn⟩ member rfl
      exact absurd (Table.mem_names_iff.mpr ⟨_, known.types.builtIns _ member⟩) fresh

theorem WellFormed.of_extend {builder result : SchemaBuilder} {file : Option String}
    {decl : Sdl.TypeDecl} (extended : builder.extend file decl = .ok result)
    (named : decl.Named) (known : builder.WellFormed) : result.WellFormed := by
  rw [extend] at extended
  split at extended
  · rcases map_eq_ok_iff.mp extended with ⟨types, grown, rfl⟩
    exact ⟨known.types.of_extendIn grown named, known.pending, known.chosen⟩
  · cases extended
    constructor
    · exact known.types
    · intro waiting member
      rcases List.mem_append.mp member with before | last
      · exact known.pending waiting before
      · rw [List.mem_singleton.mp last]
        exact named
    · exact known.chosen

theorem WellFormed.of_add {builder result : SchemaBuilder} {file : Option String}
    {definition : Sdl.Definition} (added : builder.add file definition = .ok result)
    (named : definition.Named) (known : builder.WellFormed) : result.WellFormed := by
  cases definition with
  | schema block => exact known.of_enterBlock added named
  | type decl => exact known.of_define added named
  | extension decl => exact known.of_extend added named
  | directive name =>
    cases added
    exact known

theorem WellFormed.of_addAll {builder result : SchemaBuilder} {file : Option String}
    {definitions : List Sdl.Definition} {events : List Event}
    (added : builder.addAll file definitions = (events, .ok result))
    (named : ∀ definition ∈ definitions, definition.Named) (known : builder.WellFormed) :
    result.WellFormed := by
  induction definitions generalizing builder events with
  | nil =>
    cases added
    exact known
  | cons definition rest ih =>
    rw [addAll] at added
    split at added
    · cases added
    · rename_i next first
      rw [Prod.mk.injEq] at added
      exact ih (Prod.ext rfl added.2)
        (fun other member => named other (List.mem_cons_of_mem _ member))
        (known.of_add first (named definition (List.mem_cons_self ..)))

/-- Loading a source keeps a builder well-formed. -/
theorem WellFormed.of_load {builder result : SchemaBuilder} {file : Option String}
    {source : String} {events : List Event}
    (loaded : builder.load file source = (events, .ok result)) (known : builder.WellFormed) :
    result.WellFormed := by
  rw [load] at loaded
  split at loaded
  · cases loaded
  · rename_i definitions read
    exact known.of_addAll loaded (Sdl.named_of_definitions read)

/-- A builder that came about by loading sources one after the other. -/
inductive Loaded : SchemaBuilder → Prop
  | empty : Loaded .empty
  | assuming {builder : SchemaBuilder} (assumeValid : Bool) :
      Loaded builder → Loaded { builder with assumeValid }
  | load {builder next : SchemaBuilder} {file : Option String} {source : String}
      {events : List Event} :
      Loaded builder → builder.load file source = (events, .ok next) → Loaded next

/-- Whatever was loaded, the builder is well-formed. -/
theorem Loaded.wellFormed {builder : SchemaBuilder} (loaded : builder.Loaded) :
    builder.WellFormed := by
  induction loaded with
  | empty => exact wellFormed_empty
  | assuming _ _ ih => exact ⟨ih.types, ih.pending, ih.chosen⟩
  | load _ succeeded ih => exact ih.of_load succeeded

end SchemaBuilder

/-! ## Built schemas -/

/-- The root types that a schema has, with their kinds. -/
def Schema.roots (schema : Schema) : List (OperationKind × NamedRef) :=
  OperationKind.all.filterMap fun operation =>
    (schema.rootRef? operation).map fun ref => (operation, ref)

/-- What a build does: it applies the waiting extensions, settles the root types and, unless rules
are taken for granted, finds no breach of them. -/
theorem SchemaBuilder.parts_of_build {builder : SchemaBuilder} {schema : Schema}
    (built : builder.build = .ok schema) :
    builder.pending.foldlM (fun types (file, decl) => extendIn types file decl) builder.types =
        .ok schema.types ∧
      (∀ operation, schema.rootRef? operation = builder.root schema.types operation) ∧
      (builder.assumeValid = false → violations schema.types schema.roots = []) := by
  rcases bind_eq_ok_iff.mp built with ⟨types, applied, rest⟩
  dsimp only at rest
  split at rest
  · rename_i lenient
    cases rest
    exact ⟨applied, fun operation => by cases operation <;> rfl,
      fun strict => absurd lenient (by simp [strict])⟩
  · split at rest
    · rename_i valid
      cases rest
      exact ⟨applied, fun operation => by cases operation <;> rfl, fun _ => valid⟩
    · cases rest

/-- A schema that was built from loaded sources. -/
def Schema.Built (schema : Schema) : Prop :=
  ∃ builder : SchemaBuilder, builder.Loaded ∧ builder.build = .ok schema

/-- A schema that was built from loaded sources without taking any rule for granted. -/
def Schema.Checked (schema : Schema) : Prop :=
  ∃ builder : SchemaBuilder,
    builder.Loaded ∧ builder.assumeValid = false ∧ builder.build = .ok schema

theorem Schema.Checked.built {schema : Schema} (checked : schema.Checked) : schema.Built := by
  rcases checked with ⟨builder, loaded, _, built⟩
  exact ⟨builder, loaded, built⟩

/-- The types of a schema are well-formed, and its root types have names. -/
structure Schema.WellFormed (schema : Schema) : Prop where
  types : TypesWellFormed schema.types
  roots : ∀ operation, ∀ root ∈ schema.rootRef? operation, IsName root.name

theorem OperationKind.isName_defaultRoot (operation : OperationKind) :
    IsName operation.defaultRoot := by
  cases operation <;> decide

/-- Whatever was loaded, a schema that was built from it is well-formed. -/
theorem Schema.Built.wellFormed {schema : Schema} (built : schema.Built) : schema.WellFormed := by
  rcases built with ⟨builder, loaded, succeeded⟩
  have wellFormed := loaded.wellFormed
  have parts := SchemaBuilder.parts_of_build succeeded
  have types : TypesWellFormed schema.types :=
    foldlM_preserves parts.1 wellFormed.types fun _ waiting _ member known extended =>
      known.of_extendIn extended (wellFormed.pending waiting member)
  constructor
  · exact types
  · intro operation root member
    rw [parts.2.1 operation, Option.mem_def] at member
    rw [SchemaBuilder.root] at member
    split at member
    · rename_i known chosen
      cases member
      exact wellFormed.chosen operation _ chosen
    · split at member
      · cases member
        exact operation.isName_defaultRoot
      · cases member

/-! ## Sources -/

/-- Loading a source reads its characters. To have them written out beforehand is what makes loading
a given source easy to evaluate. -/
theorem SchemaBuilder.load_of_toList {builder : SchemaBuilder} {file : Option String}
    {source : String} {cs : List Char} (spelled : source.toList = cs) :
    builder.load file source =
      match (do
        let tokens ← Sdl.tokensFrom .start [] cs
        let items ← Sdl.Item.ofTokens tokens
        Sdl.Reader.readSome Sdl.Reader.definition items) with
      | .error error => ([], .error (.malformed file error))
      | .ok definitions => builder.addAll file definitions := by
  subst spelled
  rfl

theorem toList_append_of_toList {first second : String} {cs ds : List Char}
    (spelled : first.toList = cs) (spelledToo : second.toList = ds) :
    (first ++ second).toList = cs ++ ds := by
  rw [String.toList_append, spelled, spelledToo]

/-! ## A small schema -/

/-- The source of a small schema: a field that leads back to its own interface in a fragment. -/
def sampleSource : String :=
  "type Query { n(k: ID): N } interface N { k: ID } type C implements N { k: ID n(k: ID): N }"

/-- A place in the source of the small schema. -/
def sampleAt (column : Nat) : Location := .source none ⟨1, column⟩

/-- The field `n` of a type of the small schema. -/
def sampleField (holder : String) (column parameter : Nat) : Field where
  location := sampleAt column
  deprecation := none
  description := none
  name := "n"
  parameters := .ofList
    [("k", ⟨sampleAt parameter, none, none, "k", .named true ⟨"ID", sampleAt parameter⟩⟩)]
  parent := holder
  type := .named true ⟨"N", sampleAt column⟩

/-- The field `k` of a type of the small schema. -/
def sampleKey (holder : String) (column : Nat) : Field :=
  ⟨sampleAt column, none, none, "k", .empty, holder, .named true ⟨"ID", sampleAt column⟩⟩

/-- The root type of the small schema. -/
def sampleQuery : FieldedType :=
  ⟨sampleAt 1, none, .ofList [("n", sampleField "Query" 14 16)], [], "Query"⟩

/-- The interface of the small schema. -/
def sampleInterface : FieldedType :=
  ⟨sampleAt 28, none, .ofList [("k", sampleKey "N" 42)], [], "N"⟩

/-- The type that implements the interface of the small schema. -/
def sampleImplementor : FieldedType :=
  ⟨sampleAt 50, none, .ofList [("k", sampleKey "C" 72), ("n", sampleField "C" 78 80)],
    [⟨"N", sampleAt 50⟩], "C"⟩

/-- The small schema. -/
def sampleSchema : Schema where
  query := some ⟨"Query", sampleAt 1⟩
  mutation := none
  subscription := none
  types := TypeDef.builtIns.insertAll
    [("Query", .object sampleQuery), ("N", .interface sampleInterface),
      ("C", .object sampleImplementor)]

theorem load_sampleSource :
    SchemaBuilder.empty.load none sampleSource = ([], .ok { types := sampleSchema.types }) := by
  refine (SchemaBuilder.load_of_toList String.toList_ofList).trans ?_
  cbv

theorem sampleSchema_checked : sampleSchema.Checked := by
  refine ⟨{ types := sampleSchema.types }, .load .empty load_sampleSource, rfl, ?_⟩
  cbv

/-! ## A schema with a deprecated field -/

/-- The first of two files: an extension of a type that the second defines. Its field is
deprecated. -/
def retiredExtending : String :=
  "extend type Item \x7b code: Int @deprecated(reason: \"Gone\") \x7d"

/-- The second file. -/
def retiredDefining : String := "type Query \x7b item: Item \x7d type Item \x7b name: Int \x7d"

/-- The declaration of the deprecated field. -/
def retiredDecl : Sdl.FieldDecl :=
  ⟨⟨1, 20⟩, none, "code", [], .named "Int", [⟨"deprecated", [("reason", .string "Gone")]⟩]⟩

/-- The extension in the first file. -/
def retiredExtension : Sdl.TypeDecl :=
  ⟨⟨1, 8⟩, none, "Item", [], .object [] [retiredDecl]⟩

/-- The root field of the schema with a deprecated field. -/
def retiredRootField : Field :=
  let location := Location.source (some "base.graphql") ⟨1, 14⟩
  ⟨location, none, none, "item", .empty, "Query", .named true ⟨"Item", location⟩⟩

/-- The root type of the schema with a deprecated field. -/
def retiredQuery : FieldedType :=
  ⟨.source (some "base.graphql") ⟨1, 1⟩, none, .ofList [("item", retiredRootField)], [], "Query"⟩

/-- A field of the type `Item`. -/
def retiredField (file : String) (column : Nat) (name : String) (deprecation : Option String) :
    Field :=
  let location := Location.source (some file) ⟨1, column⟩
  ⟨location, deprecation, none, name, .empty, "Item", .named true ⟨"Int", location⟩⟩

/-- The field of the type `Item` that is not deprecated. -/
def retiredName : Field := retiredField "base.graphql" 39 "name" none

/-- The deprecated field of the type `Item`. -/
def retiredCode : Field := retiredField "early.graphql" 20 "code" (some "Gone")

/-- The type `Item` with some fields. -/
def retiredItem (fields : List (String × Field)) : FieldedType :=
  ⟨.source (some "base.graphql") ⟨1, 27⟩, none, .ofList fields, [], "Item"⟩

/-- The types of the schema with a deprecated field, when the type `Item` has some fields. -/
def retiredTypes (fields : List (String × Field)) : Table TypeDef :=
  TypeDef.builtIns.insertAll
    [("Query", .object retiredQuery), ("Item", .object (retiredItem fields))]

/-- The builder after the first file: the extension waits. -/
def retiredWaiting : SchemaBuilder where
  pending := [(some "early.graphql", retiredExtension)]

/-- The builder after both files. -/
def retiredBuilder : SchemaBuilder where
  types := retiredTypes [("name", retiredName)]
  pending := retiredWaiting.pending

/-- The schema with a deprecated field. -/
def retiredSchema : Schema where
  query := some ⟨"Query", .source (some "base.graphql") ⟨1, 1⟩⟩
  mutation := none
  subscription := none
  types := retiredTypes [("name", retiredName), ("code", retiredCode)]

theorem load_retiredExtending :
    SchemaBuilder.empty.load (some "early.graphql") retiredExtending =
      ([], .ok retiredWaiting) := by
  refine (SchemaBuilder.load_of_toList String.toList_ofList).trans ?_
  cbv

theorem load_retiredDefining :
    retiredWaiting.load (some "base.graphql") retiredDefining = ([], .ok retiredBuilder) := by
  refine (SchemaBuilder.load_of_toList String.toList_ofList).trans ?_
  cbv

theorem build_retiredBuilder : retiredBuilder.build = .ok retiredSchema := by
  cbv

theorem retiredSchema_checked : retiredSchema.Checked := by
  have loaded : retiredBuilder.Loaded :=
    .load (.load .empty load_retiredExtending) load_retiredDefining
  exact ⟨retiredBuilder, loaded, rfl, build_retiredBuilder⟩

end SchemaUnfolding
