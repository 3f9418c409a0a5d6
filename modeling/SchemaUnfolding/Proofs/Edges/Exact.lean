import SchemaUnfolding.Proofs.Arguments.Exact
import SchemaUnfolding.Proofs.Edges.Accounting
import SchemaUnfolding.Proofs.Expansion.Growth

/-!
# Exactness of edges

The edges that an expansion remembers are those that it shows outside fragments. This holds of each
single expansion, whatever was remembered and bound before it. When edges may not be repeated, all
of them are new and no two have one key, so a document shows no key twice outside fragments.
-/

namespace SchemaUnfolding

open Expansion

/-- What an expansion at a site does to the edges, given those that its result shows. A field that
is left out leaves no trace, and inside fragments no edge is remembered. -/
structure Expansion.Remembers (config : Config) (site : Site) (before after : Progress)
    (result : Option Selection) (shown : List Edge) : Prop where
  leftOut : result = none → after.scope = before.scope ∧ after.edges = before.edges
  inFragment : site.inFragment = true → after.edges = before.edges
  exact : ∀ key, after.edges.contains key = true ↔
    before.edges.contains key = true ∨ key ∈ Edge.keysOutside shown
  distinct : config.repeatEdges = false → (Edge.keysOutside shown).Nodup
  fresh : config.repeatEdges = false →
    ∀ key ∈ Edge.keysOutside shown, before.edges.contains key = false

variable {schema : Schema} {config : Config}

/-- A field that is left out changes neither the variables nor the edges. -/
theorem Expands.eq_of_leftOut {label : Option String} {site : Site} {field : Field}
    {before after : Progress}
    (expanded : Expands schema config label site field before none after) :
    after.scope = before.scope ∧ after.edges = before.edges := by
  cases expanded with
  | leftOut => exact ⟨rfl, rfl⟩

/-- The expansion of a field remembers the edges that its result shows. -/
theorem Expands.remembers {label : Option String} {site : Site} {field : Field}
    {before after : Progress} {result : Option Selection}
    (expanded : Expands schema config label site field before result after)
    (wellFormed : schema.WellFormed) {type : String}
    (findable : schema.fieldOf? type field.name = some field) :
    Remembers config site before after result
      (Selection.edgesOfAll schema type site.container site.inFragment result.toList) := by
  have adds := expanded.adds wellFormed findable
  constructor
  · rintro rfl
    exact expanded.eq_of_leftOut
  · exact expanded.edges_eq
  · exact adds.remembered
  · exact adds.distinct
  · exact adds.fresh

/-- Whatever was loaded, whatever was expanded before and wherever the field stands: an expansion
remembers exactly the edges that its result shows outside fragments. When edges may not be repeated,
these are new and different, and a document shows no two edges with one key outside fragments. -/
theorem Schema.Built.edges_exact {schema : Schema} (built : schema.Built) :
    (∀ {config : Config} {site : Site} {type : TypeDef} {name : String} {before after : Progress}
      {result : Option Selection}, type ∈ schema.types.values →
      (expandNamed schema config site type name).Returns before result after →
      Remembers config site before after result
        (Selection.edgesOfAll schema type.name site.container site.inFragment result.toList)) ∧
    (∀ {config : Config} {kind : OperationKind} {root : FieldedType} {field : Field}
      {before after : Array Event} {operation : Operation}, config.repeatEdges = false →
      schema.root? kind = some root → field ∈ root.fields.values →
      (Generation.operation schema config kind root field).Returns before operation after →
      (Edge.keysOutside (operation.document.edges schema root.name)).Nodup) := by
  have wellFormed := built.wellFormed
  constructor
  · intro config site type name before after result known returned
    obtain ⟨field, held, expanded⟩ := field_of_returns_expandNamed returned
    obtain ⟨fields, declares, entered⟩ := Option.bind_eq_some_iff.mp held
    have found : schema.type? type.name = some type :=
      wellFormed.types.types.keyed.get?_eq_some_iff.mpr ⟨known, rfl⟩
    exact expanded.remembers wellFormed
      (wellFormed.fieldOf?_of_mem found declares (Table.mem_values_of_get? entered))
  · intro config kind root field before after operation once rooted declared returned
    obtain ⟨selection, progress, expanded, rfl, _⟩ := Generation.returns_operation_iff.mp returned
    have found := wellFormed.type?_of_root? rooted
    exact (expanded.remembers wellFormed
      (wellFormed.fieldOf?_of_mem found rfl declared)).distinct once

/-- In the small schema the edge of the root field is remembered, and none of the edges in the
fragments below it is. -/
theorem sampleSchema_edges_exact :
    (∃ result after,
      (expandNamed sampleSchema { depthLimit := 3 } (.root "Query") (.object sampleQuery)
        "n").Returns {} result after ∧
      ∀ key, after.edges.contains key = true ↔ key = "QueryTonKey") ∧
    ∃ operation after,
      (Generation.operation sampleSchema { depthLimit := 3 } .query sampleQuery
        (sampleField "Query" 14 16)).Returns #[] operation after ∧
      (Edge.keysOutside (operation.document.edges sampleSchema "Query")).Nodup := by
  have closed := sampleSchema_checked.closed
  have rooted : sampleSchema.root? .query = some sampleQuery := by decide
  have declared : sampleField "Query" 14 16 ∈ sampleQuery.fields.values := by decide
  have offered := Schema.offers_of_root? rooted declared
  have exact := sampleSchema_checked.built.edges_exact
  constructor
  · let call :=
      expandNamed sampleSchema { depthLimit := 3 } (.root "Query") (.object sampleQuery) "n"
    obtain ⟨result, after, returned⟩ : ∃ result after, call.Returns {} result after :=
      (faultless_expand closed offered (.root "Query")).returns {}
    have known : .object sampleQuery ∈ sampleSchema.types.values :=
      Schema.object_mem_of_root? rooted
    have remembers := exact.1 known returned
    have shown : (call.run.run {}).1.toOption.map (fun result =>
        Edge.keysOutside (Selection.edgesOfAll sampleSchema "Query" "Query" false result.toList)) =
        some ["QueryTonKey"] := by
      decide
    have ran : call.run.run {} = (.ok result, after) := returned
    rw [ran] at shown
    have keys : Edge.keysOutside (Selection.edgesOfAll sampleSchema
        (TypeDef.object sampleQuery).name (Site.root "Query").container
        (Site.root "Query").inFragment result.toList) = ["QueryTonKey"] :=
      Option.some.inj shown
    refine ⟨result, after, returned, fun key => ?_⟩
    have nothing : ({} : Progress).edges.contains key = false := rfl
    rw [remembers.exact, keys, nothing]
    simp
  · have never : (Generation.operation sampleSchema { depthLimit := 3 } .query sampleQuery
        (sampleField "Query" 14 16)).Faultless :=
      Generation.faultless_operation closed offered
    obtain ⟨operation, after, returned⟩ := never.returns #[]
    exact ⟨operation, after, returned, exact.2 rfl rooted declared returned⟩

end SchemaUnfolding
