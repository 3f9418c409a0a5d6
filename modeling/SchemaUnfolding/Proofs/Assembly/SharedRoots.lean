import SchemaUnfolding.Proofs.Assembly.Entered

/-!
# Shared root types

Entering a schema block compares the root types that were chosen, and building adds the root types
that have their default name. Nothing compares the two, so two kinds of operation share their root
type exactly when one of them was given the type that the other has by default.
-/

namespace SchemaUnfolding

theorem OperationKind.defaultRoot_injective {first second : OperationKind}
    (same : first.defaultRoot = second.defaultRoot) : first = second := by
  cases first <;> cases second <;> first
    | rfl
    | exact absurd same (by decide)

/-- Two kinds of operation have root types of one name. -/
def Schema.SharesRoot (schema : Schema) (first second : OperationKind) : Prop :=
  ∃ root other, schema.rootRef? first = some root ∧ schema.rootRef? second = some other ∧
    root.name = other.name

theorem Schema.SharesRoot.symm {schema : Schema} {first second : OperationKind}
    (shares : schema.SharesRoot first second) : schema.SharesRoot second first := by
  rcases shares with ⟨root, other, known, known', same⟩
  exact ⟨other, root, known', known, same.symm⟩

/-- A schema block gives a kind of operation the object type that another kind, for which no block
chooses a root type, has by default. -/
structure Script.TakesDefault (script : Script) (types : Table TypeDef)
    (taker owner : OperationKind) : Prop where
  taken : ∃ root, (taker, root) ∈ script.picks ∧ root.name = owner.defaultRoot
  unchosen : ∀ root, (owner, root) ∉ script.picks
  exists_object : ∃ object, types.get? owner.defaultRoot = some (.object object)

namespace SchemaBuilder

variable {script : Script} {builder : SchemaBuilder} {schema : Schema}
  {first second taker owner : OperationKind}

/-- A kind that was given the default root type of another shares it. -/
theorem Entered.sharesRoot_of_takesDefault (entered : Entered script builder)
    (built : builder.build = .ok schema) (takes : script.TakesDefault schema.types taker owner) :
    schema.SharesRoot taker owner := by
  have roots := (parts_of_build built).2.1
  rcases takes with ⟨⟨root, chosen, named⟩, unchosen, object, found⟩
  refine ⟨root, ⟨owner.defaultRoot, object.location⟩, ?_, ?_, named⟩
  · rw [roots taker, root_eq_some_iff]
    exact .inl ((entered.chosen.chosen taker root).mpr chosen)
  · rw [roots owner, root_eq_some_iff]
    exact .inr ⟨entered.chosen.chosen_eq_none_iff.mpr unchosen, object, found, rfl⟩

/-- Two kinds of operation of a built schema have root types of one name exactly when a schema block
gave one of them the object type that the other has by default, and no block chose a root type for
that other. -/
theorem LoadedFrom.sharesRoot_iff (loaded : LoadedFrom script builder)
    (built : builder.build = .ok schema) (different : first ≠ second) :
    schema.SharesRoot first second ↔
      script.TakesDefault schema.types first second ∨
        script.TakesDefault schema.types second first := by
  have entered := Entered.of_loadedFrom loaded
  have roots := (parts_of_build built).2.1
  constructor
  · rintro ⟨root, other, known, known', same⟩
    rw [roots first, root_eq_some_iff] at known
    rw [roots second, root_eq_some_iff] at known'
    -- Two chosen roots were compared, and two default roots have the names of their kinds, so one
    -- of the two was chosen and the other was not.
    rcases known with chosen | ⟨unchosen, object, found, rfl⟩ <;>
      rcases known' with chosen' | ⟨unchosen', object', found', rfl⟩
    · have distinct := entered.chosen.distinct_iff_nodup.mpr entered.distinct
      exact absurd same (distinct first second different root chosen other chosen')
    · exact .inl ⟨⟨root, (entered.chosen.chosen first root).mp chosen, same⟩,
        entered.chosen.chosen_eq_none_iff.mp unchosen', object', found'⟩
    · exact .inr ⟨⟨other, (entered.chosen.chosen second other).mp chosen', same.symm⟩,
        entered.chosen.chosen_eq_none_iff.mp unchosen, object, found⟩
    · exact absurd (OperationKind.defaultRoot_injective same) different
  · rintro (takes | takes)
    · exact entered.sharesRoot_of_takesDefault built takes
    · exact (entered.sharesRoot_of_takesDefault built takes).symm

end SchemaBuilder

/-! ## A schema with a shared root type -/

/-- The source of a schema whose queries and mutations have one root type. -/
def sharedSource : String := "schema { query: Mutation } type Mutation { a: Int }"

/-- The definitions in that source. -/
def sharedScript : Script :=
  [(none, .schema ⟨⟨1, 1⟩, some "Mutation", none, none⟩),
    (none, .type ⟨⟨1, 28⟩, none, "Mutation", [],
      .object [] [⟨⟨1, 44⟩, none, "a", [], .named "Int", []⟩]⟩)]

/-- The root type of that schema. -/
def sharedRoot : FieldedType :=
  ⟨.source none ⟨1, 28⟩, none,
    .ofList [("a", ⟨.source none ⟨1, 44⟩, none, none, "a", .empty, "Mutation",
      .named true ⟨"Int", .source none ⟨1, 44⟩⟩⟩)], [], "Mutation"⟩

/-- The builder after that source. -/
def sharedBuilder : SchemaBuilder where
  types := TypeDef.builtIns.insert "Mutation" (.object sharedRoot)
  query := some ⟨"Mutation", .source none ⟨1, 1⟩⟩

/-- The schema with a shared root type. -/
def sharedSchema : Schema where
  query := some ⟨"Mutation", .source none ⟨1, 1⟩⟩
  mutation := some ⟨"Mutation", .source none ⟨1, 28⟩⟩
  subscription := none
  types := sharedBuilder.types

theorem loadedFrom_sharedScript : SchemaBuilder.LoadedFrom sharedScript sharedBuilder := by
  have parsed : Sdl.definitions sharedSource = .ok (sharedScript.map Prod.snd) := by cbv
  have loaded : SchemaBuilder.empty.load none sharedSource = ([], .ok sharedBuilder) := by cbv
  exact .load .empty parsed loaded

theorem build_sharedBuilder : sharedBuilder.build = .ok sharedSchema := by
  cbv

/-- Queries are given the root type that mutations have by default. -/
theorem sharedSchema_sharesRoot :
    SchemaBuilder.LoadedFrom sharedScript sharedBuilder ∧
      sharedBuilder.build = .ok sharedSchema ∧ OperationKind.query ≠ .mutation ∧
      sharedSchema.SharesRoot .query .mutation := by
  have takes : sharedScript.TakesDefault sharedSchema.types .query .mutation := by
    refine ⟨⟨⟨"Mutation", .source none ⟨1, 1⟩⟩, List.mem_singleton.mpr rfl, rfl⟩, ?_,
      sharedRoot, by decide⟩
    intro root chosen
    cases List.mem_singleton.mp chosen
  exact ⟨loadedFrom_sharedScript, build_sharedBuilder, by decide,
    (loadedFrom_sharedScript.sharesRoot_iff build_sharedBuilder (by decide)).mpr (.inl takes)⟩

/-- The root types of a built schema need not be different. -/
theorem sharedSchema_not_distinct :
    ¬ ∀ script builder schema first second,
      SchemaBuilder.LoadedFrom script builder → builder.build = .ok schema → first ≠ second →
      ¬ schema.SharesRoot first second := by
  intro distinct
  apply distinct sharedScript sharedBuilder sharedSchema .query .mutation loadedFrom_sharedScript
    build_sharedBuilder (by decide)
  exact ⟨_, _, rfl, rfl, rfl⟩

end SchemaUnfolding
