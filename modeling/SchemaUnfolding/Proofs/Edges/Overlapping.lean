import SchemaUnfolding.Proofs.Edges.Keys
import SchemaUnfolding.Proofs.Edges.Repeated
import SchemaUnfolding.Proofs.Expansion.Growth

/-!
# Edges that overlap

A field is left out as repeated when the key of its edge is remembered, and pairs of names that
overlap have one key. So the edge that was expanded before is the same pair of names as the one that
was left out, or overlaps it. In the latter case what is left out may be nowhere in the document.
-/

namespace SchemaUnfolding

open Expansion

theorem Edge.mem_keysOutside_iff {edges : List Edge} {key : String} :
    key ∈ keysOutside edges ↔ ∃ edge ∈ edges, edge.inFragment = false ∧ edge.key = key := by
  simp [keysOutside, and_assoc]

/-! ## What a report tells -/

section Reports

variable {schema : Schema} {config : Config} {site : Site} {field : Field}
  {before after : Progress} {result : Option Selection}

/-- A repeated edge that an expansion reports has the key of its container and its field, and that
is remembered in the end. -/
theorem Progress.Grows.of_edgeRepeated (grows : before.Grows config after) {type name key : String}
    {depth : Nat} (reported : Event.edgeRepeated type name depth key ∈ after.events)
    (new : Event.edgeRepeated type name depth key ∉ before.events) :
    (∃ container, key = Edges.key container name) ∧ after.edges.contains key = true := by
  obtain ⟨edges, site, field, omitted, kept⟩ := (grows.omissions _ reported).resolve_left new
  obtain ⟨_, _, rfl, rfl, known⟩ := edgeRepeated_of_omission? omitted
  exact ⟨⟨site.container, rfl⟩, kept _ known⟩

/-- When a field is left out as repeated, its edge was remembered from the start, or an edge was
shown outside fragments that is the same pair of names or overlaps it. -/
theorem Expands.same_or_overlap {label : Option String}
    (expanded : Expands schema config label site field before result after)
    (wellFormed : schema.WellFormed) {holder : String}
    (findable : schema.fieldOf? holder field.name = some field) {type name key : String}
    {depth : Nat} (reported : Event.edgeRepeated type name depth key ∈ after.events)
    (new : Event.edgeRepeated type name depth key ∉ before.events) :
    ∃ container, key = Edges.key container name ∧
      (before.edges.contains key = true ∨
        ∃ edge ∈ Selection.edgesOfAll schema holder site.container site.inFragment result.toList,
          edge.inFragment = false ∧
            (edge.names = (container, name) ∨ Edges.Overlap edge.names (container, name))) := by
  obtain ⟨⟨container, rfl⟩, known⟩ := expanded.grows.of_edgeRepeated reported new
  refine ⟨container, rfl, ?_⟩
  have adds := expanded.adds wellFormed findable
  rcases (adds.remembered _).mp known with old | shown
  · exact .inl old
  · obtain ⟨edge, inside, outside, same⟩ := Edge.mem_keysOutside_iff.mp shown
    exact .inr ⟨edge, inside, outside, (Edges.key_eq_key_iff edge.names (container, name)).mp same⟩

end Reports

/-! ## Documents -/

/-- A set of edges finds a pair of names exactly when that pair or one that overlaps it was
remembered. Whatever was loaded: when a field is left out of a document as repeated, the document
shows an edge outside fragments that is the same pair of names or overlaps it. -/
theorem Schema.Built.repeated_same_or_overlap {schema : Schema} (built : schema.Built) :
    (∀ (pairs : List (String × String)) (container field : String),
      (Edges.empty.insertPairs pairs).contains (Edges.key container field) = true ↔
        (container, field) ∈ pairs ∨ ∃ pair ∈ pairs, Edges.Overlap pair (container, field)) ∧
    ∀ {config : Config} {kind : OperationKind} {root : FieldedType} {field : Field}
      {before reported : Array Event} {operation : Operation},
      schema.root? kind = some root → field ∈ root.fields.values →
      (Generation.operation schema config kind root field).Returns before operation
        (before ++ reported) →
      ∀ {type name : String} {depth : Nat} {key : String},
        Event.edgeRepeated type name depth key ∈ reported →
        ∃ container, key = Edges.key container name ∧
          ∃ edge ∈ operation.document.edges schema root.name, edge.inFragment = false ∧
            (edge.names = (container, name) ∨ Edges.Overlap edge.names (container, name)) := by
  refine ⟨fun _ _ _ => Edges.contains_key_insertPairs_iff, ?_⟩
  intro config kind root field before reported operation rooted declared returned type name depth
    key member
  have wellFormed := built.wellFormed
  obtain ⟨selection, progress, expanded, rfl, ended⟩ :=
    Generation.returns_operation_iff.mp returned
  rw [Array.append_assoc, Array.append_right_inj] at ended
  have during : Event.edgeRepeated type name depth key ∈ progress.events := by
    rw [ended] at member
    rcases Array.mem_append.mp member with during | closing
    · exact during
    · exact absurd (List.mem_toArray.mp closing) Generation.not_edgeRepeated_of_mem_closingEvents
  have found := wellFormed.type?_of_root? rooted
  have findable := wellFormed.fieldOf?_of_mem found rfl declared
  obtain ⟨container, keyed, shown⟩ :=
    expanded.same_or_overlap wellFormed findable during (Array.not_mem_empty _)
  -- Nothing is remembered at the start of a document.
  exact ⟨container, keyed, shown.resolve_left (by simp [Edges.contains, Edges.empty])⟩

/-! ## Two edges that overlap -/

/-- The source of a schema in which the names of two edges overlap. -/
def overlapSource : String :=
  "type Query { root: Root } type Root { a: A aTob: B } type A { bToc: C } type B { c: C } " ++
  "type C { x: Int }"

/-- The field of the root type of that schema. -/
def overlapRoot : Field := libraryField "Query" "root" "Root" 14

/-- That schema. -/
def overlapSchema : Schema where
  query := some ⟨"Query", sampleAt 1⟩
  mutation := none
  subscription := none
  types := TypeDef.builtIns.insertAll
    ([libraryType "Query" 1 [overlapRoot],
      libraryType "Root" 27
        [libraryField "Root" "a" "A" 39, libraryField "Root" "aTob" "B" 44],
      libraryType "A" 54 [libraryField "A" "bToc" "C" 63],
      libraryType "B" 73 [libraryField "B" "c" "C" 82],
      libraryType "C" 89 [libraryField "C" "x" "Int" 98]].map
        fun type => (type.name, .object type))

theorem load_overlapSource :
    SchemaBuilder.empty.load none overlapSource = ([], .ok { types := overlapSchema.types }) := by
  refine (SchemaBuilder.load_of_toList
    (toList_append_of_toList String.toList_ofList String.toList_ofList)).trans ?_
  cbv

theorem overlapSchema_checked : overlapSchema.Checked := by
  refine ⟨{ types := overlapSchema.types }, .load .empty load_overlapSource, rfl, ?_⟩
  cbv

/-- What is generated for the root field of that schema. -/
def overlapGeneration : Generation Operation :=
  Generation.operation overlapSchema {} .query (libraryType "Query" 1 [overlapRoot]) overlapRoot

theorem overlapRoot_declared :
    overlapSchema.root? .query = some (libraryType "Query" 1 [overlapRoot]) ∧
      overlapRoot ∈ (libraryType "Query" 1 [overlapRoot]).fields.values := by
  decide

theorem overlapGeneration_returns :
    ∃ operation reported, overlapGeneration.Returns #[] operation reported ∧
      .edgeRepeated "B" "c" 3 (Edges.key "aTob" "c") ∈ reported := by
  have never : overlapGeneration.Faultless :=
    Generation.faultless_operation overlapSchema_checked.closed
      (Schema.offers_of_root? overlapRoot_declared.1 overlapRoot_declared.2)
  obtain ⟨operation, reported, returned⟩ := never.returns #[]
  have ran : overlapGeneration.run.run #[] = (.ok operation, reported) := returned
  have repeated : .edgeRepeated "B" "c" 3 (Edges.key "aTob" "c") ∈
      (overlapGeneration.run.run #[]).2 := by
    decide +kernel
  rw [ran] at repeated
  exact ⟨operation, reported, returned, repeated⟩

/-- In that schema the field `c` below `aTob` is left out as repeated. The edge in the document that
makes it so is the same pair of names or overlaps it. -/
theorem overlapSchema_repeated :
    ∃ operation reported, overlapGeneration.Returns #[] operation reported ∧
      .edgeRepeated "B" "c" 3 (Edges.key "aTob" "c") ∈ reported ∧
      ∃ edge ∈ operation.document.edges overlapSchema "Query", edge.inFragment = false ∧
        (edge.names = ("aTob", "c") ∨ Edges.Overlap edge.names ("aTob", "c")) := by
  obtain ⟨operation, reported, returned, repeated⟩ := overlapGeneration_returns
  have started : overlapGeneration.Returns #[] operation (#[] ++ reported) := by
    rwa [Array.empty_append]
  obtain ⟨container, keyed, shown⟩ :=
    overlapSchema_checked.built.repeated_same_or_overlap.2 overlapRoot_declared.1
      overlapRoot_declared.2 started repeated
  rw [← Edges.key_left_inj.mp keyed] at shown
  exact ⟨operation, reported, returned, repeated, shown⟩

/-- Such a set finds a pair of names of the language that was not remembered, and the document in
which the field is left out as repeated shows no edge with its names. -/
theorem overlapSchema_not_told_apart :
    (∀ name ∈ ["a", "bToc", "aTob", "c"], Sdl.IsName name) ∧
    (Edges.empty.insertPairs [("a", "bToc")]).contains (Edges.key "aTob" "c") = true ∧
    ("aTob", "c") ∉ [("a", "bToc")] ∧ overlapSchema.Checked ∧
    ∃ operation reported, overlapGeneration.Returns #[] operation reported ∧
      .edgeRepeated "B" "c" 3 (Edges.key "aTob" "c") ∈ reported ∧
      ∀ edge ∈ operation.document.edges overlapSchema "Query", edge.names ≠ ("aTob", "c") := by
  obtain ⟨operation, reported, returned, repeated⟩ := overlapGeneration_returns
  have ran : overlapGeneration.run.run #[] = (.ok operation, reported) := returned
  refine ⟨by decide, by decide, by decide, overlapSchema_checked, operation,
    reported, returned, repeated, ?_⟩
  have names : (overlapGeneration.run.run #[]).1.toOption.map (fun generated =>
      (generated.document.edges overlapSchema "Query").map Edge.names) =
      some [("Query", "root"), ("root", "a"), ("a", "bToc"), ("root", "aTob")] := by
    decide
  rw [ran] at names
  have all : (operation.document.edges overlapSchema "Query").map Edge.names =
      [("Query", "root"), ("root", "a"), ("a", "bToc"), ("root", "aTob")] :=
    Option.some.inj names
  intro edge shown same
  have listed : edge.names ∈ (operation.document.edges overlapSchema "Query").map Edge.names :=
    List.mem_map_of_mem shown
  rw [all, same] at listed
  simp at listed

end SchemaUnfolding
