import SchemaUnfolding.Proofs.Edges.Accounting
import SchemaUnfolding.Proofs.Edges.Keys
import SchemaUnfolding.Proofs.Generation.Safety
import SchemaUnfolding.Proofs.Unfolding.Omissions

/-!
# Repeated edges

When edges may not be repeated, a field can be left out because its edge is remembered. Edges are
told apart by the names of their containers and fields. So the document shows exactly one edge
outside fragments that is not told apart from the one that was left out, and that may be a field of
another type; then the field that was left out may be missing from the document.
-/

namespace SchemaUnfolding

open Expansion

/-! ## Reaching -/

/-- The fields that are reached outside fragments from a root field, with the names of their
containers, however deep they stand. -/
inductive Schema.Reaches (schema : Schema) (config : Config) (root : String) (start : Field) :
    String → Field → Prop
  | start : Reaches schema config root start root start
  | onward {container : String} {field inner : Field} {type : TypeDef} :
      Reaches schema config root start container field →
      schema.type? field.type.name = some type → inner ∈ ownFields config type →
      Reaches schema config root start field.name inner

/-- An edge that stands outside fragments is a field that is reached. -/
def Edge.IsReached (schema : Schema) (config : Config) (root : String) (start : Field)
    (edge : Edge) : Prop :=
  edge.inFragment = false →
    ∃ field, schema.Reaches config root start edge.container field ∧
      field.parent = edge.type ∧ field.name = edge.field

section Reaching

variable {schema : Schema} {config : Config} {root : String} {start : Field}

mutual

/-- The edges that the expansion of a field shows outside fragments are reached. -/
theorem Expands.reached {label : Option String} {site : Site} {field : Field}
    {before after : Progress} {result : Option Selection}
    (expanded : Expands schema config label site field before result after)
    (wellFormed : schema.WellFormed) {type : String}
    (findable : schema.fieldOf? type field.name = some field)
    (reaches : site.inFragment = false →
      schema.Reaches config root start site.container field) :
    ∀ edge ∈ Selection.edgesOfAll schema type site.container site.inFragment result.toList,
      edge.IsReached schema config root start := by
  match expanded with
  | .leftOut _ _ _ => simp
  | .shown found _ ownExpanded _ known expanded =>
    have own := ownExpanded.reached wellFormed (wellFormed.fieldOf?_of_mem_ownFields found) (by
      intro entry listed outside
      obtain ⟨inner, shown, rfl⟩ := List.mem_map.mp listed
      exact .onward (reaches outside) found shown)
    have fragments := expanded.reached wellFormed rfl (wellFormed.fieldOf?_of_branches? known)
      field.type.name site.inFragment
    intro edge member
    rw [Option.toList_some, Selection.edgesOfAll_field findable, Selection.edgesOfAll_append,
      Selection.edgesOfAll_append, Selection.edgesOfAll_typenames, List.nil_append] at member
    rcases List.mem_append.mp member with here | below
    · rw [Schema.edgeOf] at here
      split at here
      · rw [List.mem_singleton.mp here]
        exact fun outside =>
          ⟨field, reaches outside, (wellFormed.of_fieldOf? findable).1, rfl⟩
      · cases here
    · rcases List.mem_append.mp below with inside | branched
      · exact own edge inside
      · exact fragments edge branched

/-- The edges that the expansion of fields shows outside fragments are reached. -/
theorem ExpandsAll.reached {site : Site} {entries : List (Option String × Field)}
    {before after : Progress} {selections : List Selection}
    (expanded : ExpandsAll schema config site entries before selections after)
    (wellFormed : schema.WellFormed) {type : String}
    (findable : ∀ entry ∈ entries, schema.fieldOf? type entry.2.name = some entry.2)
    (reaches : ∀ entry ∈ entries, site.inFragment = false →
      schema.Reaches config root start site.container entry.2) :
    ∀ edge ∈ Selection.edgesOfAll schema type site.container site.inFragment selections,
      edge.IsReached schema config root start := by
  match expanded with
  | .nil => simp
  | .cons first others =>
    have head := first.reached wellFormed (findable _ (List.mem_cons_self ..))
      (reaches _ (List.mem_cons_self ..))
    have tail := others.reached wellFormed
      (fun entry member => findable entry (List.mem_cons_of_mem _ member))
      fun entry member => reaches entry (List.mem_cons_of_mem _ member)
    intro edge member
    rw [Selection.edgesOfAll_append] at member
    rcases List.mem_append.mp member with early | late
    · exact head edge early
    · exact tail edge late

/-- The expansion of fragments shows no edge outside fragments. -/
theorem ExpandsBranches.reached {site : Site} {branches : List Branch} {before after : Progress}
    {fragments : List Selection}
    (expanded : ExpandsBranches schema config site branches before fragments after)
    (wellFormed : schema.WellFormed) (below : site.inFragment = true)
    (findable : ∀ branch ∈ branches, ∀ entry ∈ branch.fields,
      schema.fieldOf? branch.type entry.2.name = some entry.2)
    (type : String) (inFragment : Bool) :
    ∀ edge ∈ Selection.edgesOfAll schema type site.container inFragment fragments,
      edge.IsReached schema config root start := by
  match expanded with
  | .nil => simp
  | .cons first others =>
    have head := first.reached wellFormed (findable _ (List.mem_cons_self ..)) (by simp [below])
    have tail := others.reached wellFormed below
      (fun branch member => findable branch (List.mem_cons_of_mem _ member)) type inFragment
    rw [below] at head
    intro edge member
    rw [Selection.edgesOfAll_append, Selection.edgesOfAll_fragment?] at member
    rcases List.mem_append.mp member with early | late
    · exact head edge early
    · exact tail edge late

end

end Reaching

/-! ## One edge for a key -/

/-- The pair of names that the key of an edge is made of. -/
def Edge.names (edge : Edge) : String × String := (edge.container, edge.field)

/-- Where no two edges outside fragments have one key, a key that is there belongs to one edge. -/
theorem Edge.filter_eq_singleton {edges : List Edge} {key : String}
    (nodup : (keysOutside edges).Nodup) (member : key ∈ keysOutside edges) :
    ∃ edge ∈ edges, edge.inFragment = false ∧ edge.key = key ∧
      edges.filter (fun other => !other.inFragment && other.key == key) = [edge] := by
  induction edges with
  | nil => cases member
  | cons first rest ih =>
    by_cases below : first.inFragment = true
    · have skipped : keysOutside (first :: rest) = keysOutside rest := by
        simp [keysOutside, below]
      rw [skipped] at nodup member
      obtain ⟨edge, inside, outside, same, single⟩ := ih nodup member
      refine ⟨edge, List.mem_cons_of_mem _ inside, outside, same, ?_⟩
      simpa [below] using single
    · rw [Bool.not_eq_true] at below
      have counted : keysOutside (first :: rest) = first.key :: keysOutside rest := by
        simp [keysOutside, below]
      rw [counted, List.nodup_cons] at nodup
      rw [counted, List.mem_cons] at member
      by_cases same : first.key = key
      · subst same
        refine ⟨first, List.mem_cons_self .., below, rfl, ?_⟩
        have others :
            rest.filter (fun other => !other.inFragment && other.key == first.key) = [] := by
          rw [List.filter_eq_nil_iff]
          intro other listed matching
          rw [Bool.and_eq_true, beq_iff_eq] at matching
          apply nodup.1
          rw [← matching.2]
          exact List.mem_map.mpr ⟨other, List.mem_filter.mpr ⟨listed, matching.1⟩, rfl⟩
        simp [below, others]
      · have later := member.resolve_left (Ne.symm same)
        obtain ⟨edge, inside, outside, found, single⟩ := ih nodup.2 later
        refine ⟨edge, List.mem_cons_of_mem _ inside, outside, found, ?_⟩
        simpa [same] using single

/-- When edges may not be repeated and a field of a type is reported as a repeated edge, the
document leaves the field out, and it shows exactly one edge outside fragments that is not told
apart from the one to this field. If no other field is reached by an edge like that, the edge leads
to the field that was left out. -/
theorem Schema.Checked.repeated_shown_once {schema : Schema} (checked : schema.Checked)
    (config : Config) (once : config.repeatEdges = false) {kind : OperationKind}
    {root : FieldedType} (rooted : schema.root? kind = some root) {field : Field}
    (declared : field ∈ root.fields.values) (before : Array Event) :
    ∃ operation reported,
      (Generation.operation schema config kind root field).Returns before operation
        (before ++ reported) ∧
      ∀ {type name : String} {depth : Nat} {key : String},
        Event.edgeRepeated type name depth key ∈ reported →
        ∃ path stop, operation.document.LeavesOut schema config field path stop ∧
          stop.field.parent = type ∧ stop.field.name = name ∧
          key = Edges.key (containerAbove root.name path) name ∧
          ∃ container other, schema.Reaches config root.name field container other ∧
            Edges.Alike (container, other.name) (containerAbove root.name path, name) ∧
            (operation.document.edges schema root.name).filter (fun edge => !edge.inFragment &&
                decide (Edges.Alike edge.names (containerAbove root.name path, name))) =
              [⟨container, other.parent, other.name, false⟩] ∧
            ((∀ container other, schema.Reaches config root.name field container other →
                Edges.Alike (container, other.name) (containerAbove root.name path, name) →
                other.parent = type ∧ other.name = name) →
              ∃ edge ∈ operation.document.edges schema root.name,
                edge.type = type ∧ edge.field = name) := by
  have wellFormed := checked.built.wellFormed
  have offered := Schema.offers_of_root? rooted declared
  have never : (Generation.operation schema config kind root field).Faultless :=
    Generation.faultless_operation checked.closed offered
  obtain ⟨operation, after, returned⟩ := never.returns before
  obtain ⟨selection, progress, expanded, rfl, rfl⟩ :=
    Generation.returns_operation_iff.mp returned
  have found := wellFormed.type?_of_root? rooted
  have findable := wellFormed.fieldOf?_of_mem found rfl declared
  have adds := expanded.adds wellFormed findable
  have rootReached : schema.Reaches config root.name field root.name field := .start
  have reached := expanded.reached wellFormed findable fun _ => rootReached
  rw [Array.append_assoc] at returned
  refine ⟨_, _, returned, ?_⟩
  intro type name depth key member
  obtain ⟨path, stop, left, parent, named, _, rfl⟩ :=
    (checked.built.left_out_reported returned).1 member
  refine ⟨path, stop, left, parent, named, rfl, ?_⟩
  have during : Event.edgeRepeated type name depth
      (Edges.key (containerAbove root.name path) name) ∈ progress.events := by
    rcases Array.mem_append.mp member with during | closing
    · exact during
    · exact absurd (List.mem_toArray.mp closing) Generation.not_edgeRepeated_of_mem_closingEvents
  have known : progress.edges.contains (Edges.key (containerAbove root.name path) name) = true := by
    rcases adds.reported _ during with old | repeats
    · cases Array.not_mem_empty _ old
    · exact repeats rfl
  -- Nothing was remembered at the start, so the key is that of an edge in the document.
  have shown := ((adds.remembered _).mp known).resolve_left
    (by simp [Edges.contains, Edges.empty])
  obtain ⟨edge, inside, outside, same, single⟩ :=
    Edge.filter_eq_singleton (adds.distinct once) shown
  obtain ⟨other, reaches, otherParent, otherNamed⟩ := reached edge inside outside
  have alike : Edges.Alike (edge.container, other.name) (containerAbove root.name path, name) := by
    rw [otherNamed]
    exact Edges.key_eq_iff_alike.mp same
  have whole : edge = ⟨edge.container, other.parent, other.name, false⟩ := by
    rw [otherParent, otherNamed, ← outside]
  refine ⟨edge.container, other, reaches, alike, ?_, ?_⟩
  · rw [← whole, ← single]
    refine List.filter_congr fun other _ => congrArg (!other.inFragment && ·) ?_
    rw [Bool.eq_iff_iff, decide_eq_true_iff, beq_iff_eq]
    exact Edges.key_eq_iff_alike.symm
  · intro only
    obtain ⟨sameType, sameName⟩ := only edge.container other reaches alike
    exact ⟨edge, inside, otherParent.symm.trans sameType, otherNamed.symm.trans sameName⟩

/-! ## Two fields with one key -/

/-- The source of a schema in which two types have a field of one name, and both types are those of
a field of one name. -/
def librarySource : String :=
  "type Query { library: Library } type Library { item: Book shelf: Shelf } " ++
  "type Shelf { item: Disc } type Book { maker: Author } type Disc { maker: Band } " ++
  "type Author { born: Int } type Band { formed: Int }"

/-- A field of a type of that schema. -/
def libraryField (holder name type : String) (column : Nat) : Field :=
  ⟨sampleAt column, none, none, name, .empty, holder, .named true ⟨type, sampleAt column⟩⟩

/-- A type of that schema. -/
def libraryType (name : String) (column : Nat) (fields : List Field) : FieldedType :=
  ⟨sampleAt column, none, .ofList (fields.map fun field => (field.name, field)), [], name⟩

/-- The field of the root type of that schema. -/
def libraryRoot : Field := libraryField "Query" "library" "Library" 14

/-- The types of that schema. -/
def libraryTypes : List FieldedType :=
  [libraryType "Query" 1 [libraryRoot],
    libraryType "Library" 33
      [libraryField "Library" "item" "Book" 48, libraryField "Library" "shelf" "Shelf" 59],
    libraryType "Shelf" 74 [libraryField "Shelf" "item" "Disc" 87],
    libraryType "Book" 100 [libraryField "Book" "maker" "Author" 112],
    libraryType "Disc" 128 [libraryField "Disc" "maker" "Band" 140],
    libraryType "Author" 154 [libraryField "Author" "born" "Int" 168],
    libraryType "Band" 180 [libraryField "Band" "formed" "Int" 192]]

/-- That schema. -/
def librarySchema : Schema where
  query := some ⟨"Query", sampleAt 1⟩
  mutation := none
  subscription := none
  types := TypeDef.builtIns.insertAll (libraryTypes.map fun type => (type.name, .object type))

theorem load_librarySource :
    SchemaBuilder.empty.load none librarySource = ([], .ok { types := librarySchema.types }) := by
  refine (SchemaBuilder.load_of_toList (toList_append_of_toList
    (toList_append_of_toList String.toList_ofList String.toList_ofList)
    String.toList_ofList)).trans ?_
  cbv

theorem librarySchema_checked : librarySchema.Checked := by
  refine ⟨{ types := librarySchema.types }, .load .empty load_librarySource, rfl, ?_⟩
  cbv

/-- What is generated for the root field of that schema. -/
def libraryGeneration : Generation Operation :=
  Generation.operation librarySchema {} .query (libraryType "Query" 1 [libraryRoot]) libraryRoot

theorem libraryRoot_declared :
    librarySchema.root? .query = some (libraryType "Query" 1 [libraryRoot]) ∧
      libraryRoot ∈ (libraryType "Query" 1 [libraryRoot]).fields.values := by
  decide

/-- The makers of discs are left out, because an edge with the same key was expanded: the one to the
makers of books. No edge to the makers of discs is anywhere in the document. -/
theorem librarySchema_hides_maker :
    librarySchema.Checked ∧ ({} : Config).repeatEdges = false ∧
    ∃ operation reported, libraryGeneration.Returns #[] operation reported ∧
      .edgeRepeated "Disc" "maker" 4 "itemTomakerKey" ∈ reported ∧
      ¬ ∃ edge ∈ operation.document.edges librarySchema "Query",
        edge.type = "Disc" ∧ edge.field = "maker" := by
  have offered : librarySchema.Offers libraryRoot :=
    Schema.offers_of_root? libraryRoot_declared.1 libraryRoot_declared.2
  have never : libraryGeneration.Faultless :=
    Generation.faultless_operation librarySchema_checked.closed offered
  obtain ⟨operation, reported, returned⟩ := never.returns #[]
  have ran : libraryGeneration.run.run #[] = (.ok operation, reported) := returned
  refine ⟨librarySchema_checked, rfl, operation, reported, returned, ?_, ?_⟩
  · have repeated : .edgeRepeated "Disc" "maker" 4 "itemTomakerKey" ∈
        (libraryGeneration.run.run #[]).2 := by
      decide +kernel
    rwa [ran] at repeated
  · have missing : (libraryGeneration.run.run #[]).1.toOption.map (fun generated =>
        (generated.document.edges librarySchema "Query").filter fun edge =>
          edge.type = "Disc" ∧ edge.field = "maker") = some [] := by
      decide
    rw [ran] at missing
    have none := List.filter_eq_nil_iff.mp (Option.some.inj missing)
    rintro ⟨edge, shown, hidden⟩
    exact none edge shown (decide_eq_true hidden)

/-- The makers of discs are left out below a field `item`, and the makers of books are the one edge
that the document shows under these names. -/
theorem librarySchema_repeated_shown_once :
    ∃ operation reported, libraryGeneration.Returns #[] operation reported ∧
      (∃ path stop, operation.document.LeavesOut librarySchema {} libraryRoot path stop ∧
        stop.field.parent = "Disc" ∧ stop.field.name = "maker" ∧
        containerAbove "Query" path = "item") ∧
      (operation.document.edges librarySchema "Query").filter (fun edge =>
        !edge.inFragment && decide (Edges.Alike edge.names ("item", "maker"))) =
          [⟨"item", "Book", "maker", false⟩] := by
  obtain ⟨operation, reported, returned, shown⟩ :=
    librarySchema_checked.repeated_shown_once {} rfl libraryRoot_declared.1
      libraryRoot_declared.2 #[]
  rw [Array.empty_append] at returned
  have ran : libraryGeneration.run.run #[] = (.ok operation, reported) := returned
  have repeated : .edgeRepeated "Disc" "maker" 4 (Edges.key "item" "maker") ∈
      (libraryGeneration.run.run #[]).2 := by
    decide +kernel
  rw [ran] at repeated
  obtain ⟨path, stop, left, parent, named, keyed, _⟩ := shown repeated
  have above : "item" = containerAbove "Query" path := Edges.key_left_inj.mp keyed
  have books : (libraryGeneration.run.run #[]).1.toOption.map (fun generated =>
      (generated.document.edges librarySchema "Query").filter fun edge =>
        !edge.inFragment && decide (Edges.Alike edge.names ("item", "maker"))) =
      some [⟨"item", "Book", "maker", false⟩] := by
    decide
  rw [ran] at books
  exact ⟨operation, reported, returned, ⟨path, stop, left, parent, named, above.symm⟩,
    Option.some.inj books⟩

end SchemaUnfolding
