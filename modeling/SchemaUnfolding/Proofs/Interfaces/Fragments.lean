import SchemaUnfolding.Proofs.Expansion.Nodes
import SchemaUnfolding.Proofs.Generation.Safety

/-!
# Fragments below a field

What stands directly below a field whose type is an interface: its own fields, the name of the type
at hand, and a fragment for each type with a field to show. The selections in a fragment are fields
of its type, in order. A field without fields of its own is never left out.
-/

namespace SchemaUnfolding

open Expansion

/-- What a field in a selection goes by: its alias, if it has one, and its name. -/
def Selection.head? : Selection → Option (Option String × String)
  | field label name _ _ => some (label, name)
  | _ => none

variable {schema : Schema} {config : Config}

theorem FieldedType.not_mem_names_of_mem_fieldsBeyond {interface type : FieldedType} {field : Field}
    (beyond : field ∈ interface.fieldsBeyond type) : field.name ∉ interface.fields.names := by
  have outside := (List.mem_filter.mp beyond).2
  simpa [← Table.contains_iff] using outside

/-! ## Expanded fields -/

/-- Expanded fields are a part of the fields that were to be expanded, in order. -/
theorem ExpandsAll.heads_sublist {site : Site} {entries : List (Option String × Field)}
    {before after : Progress} {selections : List Selection}
    (expanded : ExpandsAll schema config site entries before selections after) :
    (selections.filterMap Selection.head?).Sublist
      (entries.map fun entry => (entry.1, entry.2.name)) := by
  match expanded with
  | .nil => exact .slnil
  | .cons first others =>
    have tail := others.heads_sublist
    cases first with
    | leftOut => exact tail.cons _
    | shown => exact tail.cons_cons _

/-- Every expanded field is one of those that were to be expanded. -/
theorem ExpandsAll.exists_field {site : Site} {entries : List (Option String × Field)}
    {before after : Progress} {selections : List Selection}
    (expanded : ExpandsAll schema config site entries before selections after) :
    ∀ selection ∈ selections, ∃ entry ∈ entries, ∃ arguments below,
      selection = .field entry.1 entry.2.name arguments below := by
  match expanded with
  | .nil => simp
  | .cons first others =>
    intro selection member
    rcases List.mem_append.mp member with here | later
    · cases first with
      | leftOut => cases here
      | shown =>
        rw [Option.toList_some, List.mem_singleton] at here
        exact ⟨_, List.mem_cons_self .., _, _, here⟩
    · obtain ⟨entry, listed, known⟩ := others.exists_field selection later
      exact ⟨entry, List.mem_cons_of_mem _ listed, known⟩

/-- A field without fields of its own is expanded wherever it stands. -/
theorem ExpandsAll.mem_of_isComposite_eq_false {site : Site}
    {entries : List (Option String × Field)} {before after : Progress}
    {selections : List Selection}
    (expanded : ExpandsAll schema config site entries before selections after) :
    ∀ entry ∈ entries, ∀ type, schema.type? entry.2.type.name = some type →
      type.isComposite = false →
      ∃ arguments below, .field entry.1 entry.2.name arguments below ∈ selections := by
  match expanded with
  | .nil => simp
  | .cons first others =>
    intro entry member type found simple
    rcases List.mem_cons.mp member with rfl | later
    · cases first with
      | leftOut same composite =>
        cases found.symm.trans same
        rw [composite] at simple
        cases simple
      | shown => exact ⟨_, _, List.mem_append_left _ (List.mem_singleton_self _)⟩
    · obtain ⟨arguments, below, listed⟩ :=
        others.mem_of_isComposite_eq_false entry later type found simple
      exact ⟨arguments, below, List.mem_append_right _ listed⟩

/-! ## Expanded fragments -/

/-- A fragment is left out exactly when nothing stands in it. -/
theorem Expansion.mem_fragment?_iff {type : String} {selections : List Selection}
    {selection : Selection} :
    selection ∈ (fragment? type selections).toList ↔
      selections ≠ [] ∧ selection = .fragment type selections := by
  rw [fragment?]
  split <;> simp_all

/-- Every expanded fragment holds the expanded fields of one that was to be expanded. -/
theorem ExpandsBranches.exists_branch {site : Site} {branches : List Branch}
    {before after : Progress} {fragments : List Selection}
    (expanded : ExpandsBranches schema config site branches before fragments after) :
    ∀ selection ∈ fragments, ∃ branch ∈ branches, ∃ selections early late,
      selection = .fragment branch.type selections ∧
        ExpandsAll schema config site branch.fields early selections late := by
  match expanded with
  | .nil => simp
  | .cons first others =>
    intro selection member
    rcases List.mem_append.mp member with here | later
    · have same := (mem_fragment?_iff.mp here).2
      exact ⟨_, List.mem_cons_self .., _, _, _, same, first⟩
    · obtain ⟨branch, listed, known⟩ := others.exists_branch selection later
      exact ⟨branch, List.mem_cons_of_mem _ listed, known⟩

/-- Every fragment that was to be expanded is, unless nothing in it was. -/
theorem ExpandsBranches.exists_fragment {site : Site} {branches : List Branch}
    {before after : Progress} {fragments : List Selection}
    (expanded : ExpandsBranches schema config site branches before fragments after) :
    ∀ branch ∈ branches, ∃ selections early late,
      ExpandsAll schema config site branch.fields early selections late ∧
        (selections ≠ [] → .fragment branch.type selections ∈ fragments) := by
  match expanded with
  | .nil => simp
  | .cons first others =>
    intro branch member
    rcases List.mem_cons.mp member with rfl | later
    · refine ⟨_, _, _, first, fun occupied => List.mem_append_left _ ?_⟩
      exact mem_fragment?_iff.mpr ⟨occupied, rfl⟩
    · obtain ⟨selections, early, late, known, shown⟩ := others.exists_fragment branch later
      refine ⟨selections, early, late, known, fun occupied => ?_⟩
      exact List.mem_append_right _ (shown occupied)

/-! ## Fields whose type is an interface -/

/-- What stands below a node whose type is an interface: its own fields, the name of the type at
hand, and the fragments for the types that the interface may stand for. -/
structure Node.Unfolded (schema : Schema) (config : Config) (interface : FieldedType)
    (node : Node) (own fragments : List Selection) : Prop where
  below : node.below = own ++ .typename :: fragments
  own : ∃ site before after, ExpandsAll schema config site
    ((ownFields config (.interface interface)).map fun inner => (none, inner)) before own after
  fragments : ∃ site before after, ExpandsBranches schema config site
    ((schema.possibleTypes interface.name).map
      (implementorBranch config interface (schema.possibleTypes interface.name)))
    before fragments after

theorem Node.IsExpanded.unfolded {node : Node} (known : node.IsExpanded schema config)
    {field : Field} (found : schema.fieldOf? node.holder node.name = some field)
    {interface : FieldedType} (typed : schema.type? field.type.name = some (.interface interface)) :
    ∃ own fragments, node.Unfolded schema config interface own fragments := by
  obtain ⟨same, site, before, after, foundSame, _, _, expanded⟩ := known
  cases found.symm.trans foundSame
  generalize shown : some (Selection.field node.label node.name node.arguments node.below) = result
    at expanded
  cases expanded with
  | leftOut => cases shown
  | shown typedSame _ ownExpanded _ branched expanded =>
    cases typed.symm.trans typedSame
    cases branched
    rw [Option.some.injEq, Selection.field.injEq] at shown
    exact ⟨_, _, shown.2.2.2, ⟨_, _, _, ownExpanded⟩, ⟨_, _, _, expanded⟩⟩

/-- The fragments below such a node are those behind its own fields. -/
theorem Node.Unfolded.mem_fragments {interface : FieldedType} {node : Node}
    {own fragments : List Selection}
    (unfolded : node.Unfolded schema config interface own fragments) {type : String}
    {selections : List Selection} :
    .fragment type selections ∈ node.below ↔ .fragment type selections ∈ fragments := by
  obtain ⟨site, before, after, ownExpanded⟩ := unfolded.own
  rw [unfolded.below, List.mem_append, List.mem_cons]
  constructor
  · rintro (inside | ⟨⟨⟩⟩ | later)
    · obtain ⟨_, _, _, _, ⟨⟩⟩ := ownExpanded.exists_field _ inside
    · exact later
  · intro later
    exact .inr (.inr later)

/-! ## Fields in fragments -/

/-- A field that stands directly in a fragment: the type of the fragment, and the field's alias and
name. -/
structure Inside where
  type : String
  label : Option String
  name : String
deriving DecidableEq, Repr

/-- The name that a field answers by: its alias, or else its own. -/
def Inside.response (inside : Inside) : String := inside.label.getD inside.name

/-- The fields that stand directly in a fragment. -/
def Selection.inside : Selection → List Inside
  | fragment type selections =>
    (selections.filterMap head?).map fun head => ⟨type, head.1, head.2⟩
  | _ => []

/-- The fields that stand directly in the fragments below a node. -/
def Node.inside (node : Node) : List Inside := node.below.flatMap Selection.inside

theorem Node.mem_inside_iff {node : Node} {inside : Inside} :
    inside ∈ node.inside ↔ ∃ selections arguments below,
      .fragment inside.type selections ∈ node.below ∧
        .field inside.label inside.name arguments below ∈ selections := by
  constructor
  · intro member
    obtain ⟨fragment, known, listed⟩ := List.mem_flatMap.mp member
    cases fragment with
    | fragment type selections =>
      obtain ⟨head, named, rfl⟩ := List.mem_map.mp listed
      obtain ⟨selection, held, same⟩ := List.mem_filterMap.mp named
      cases selection with
      | field label name arguments below =>
        cases same
        exact ⟨selections, arguments, below, known, held⟩
      | _ => cases same
    | _ => cases listed
  · rintro ⟨selections, arguments, below, known, held⟩
    apply List.mem_flatMap.mpr
    refine ⟨_, known, List.mem_map.mpr ⟨(inside.label, inside.name), ?_, rfl⟩⟩
    exact List.mem_filterMap.mpr ⟨_, held, rfl⟩

section Interface

variable {interface : FieldedType} {node : Node} {own fragments : List Selection}

/-- A field in a fragment below such a node is one that its type has beyond the interface, with the
alias that it should have, if any. -/
theorem Node.Unfolded.of_mem_inside
    (unfolded : node.Unfolded schema config interface own fragments)
    (wellFormed : schema.WellFormed) {inside : Inside} (member : inside ∈ node.inside) :
    ∃ holder ∈ schema.possibleTypes interface.name, ∃ field ∈ interface.fieldsBeyond holder,
      config.includes field = true ∧
      inside = ⟨holder.name,
        interface.label? (schema.possibleTypes interface.name) holder field, field.name⟩ ∧
      schema.fieldOf? inside.type inside.name = some field := by
  obtain ⟨selections, arguments, below, fragment, listed⟩ := mem_inside_iff.mp member
  obtain ⟨site, before, after, expanded⟩ := unfolded.fragments
  obtain ⟨branch, known, _, _, _, same, fields⟩ :=
    expanded.exists_branch _ (unfolded.mem_fragments.mp fragment)
  rw [Selection.fragment.injEq] at same
  obtain ⟨holder, possible, rfl⟩ := List.mem_map.mp known
  obtain ⟨entry, entered, _, _, shown⟩ := fields.exists_field _ (same.2 ▸ listed)
  rw [Selection.field.injEq] at shown
  obtain ⟨field, included, rfl⟩ := List.mem_map.mp entered
  obtain ⟨beyond, included⟩ := List.mem_filter.mp included
  have whole : inside = ⟨holder.name,
      interface.label? (schema.possibleTypes interface.name) holder field, field.name⟩ := by
    cases inside
    rw [Inside.mk.injEq]
    exact ⟨same.1, shown.1, shown.2.1⟩
  have held := Schema.object_mem_of_mem_possibleTypes possible
  have found : schema.type? holder.name = some (.object holder) :=
    wellFormed.types.types.keyed.get?_eq_some_iff.mpr ⟨held, rfl⟩
  refine ⟨holder, possible, field, beyond, included, whole, ?_⟩
  rw [whole]
  exact wellFormed.fieldOf?_of_mem found rfl (List.mem_filter.mp beyond).1

/-- The fields in one fragment below such a node have different names. -/
theorem Node.Unfolded.nodup_names (unfolded : node.Unfolded schema config interface own fragments)
    (wellFormed : schema.WellFormed) {type : String} {selections : List Selection}
    (fragment : .fragment type selections ∈ node.below) :
    ((selections.filterMap Selection.head?).map Prod.snd).Nodup := by
  obtain ⟨site, before, after, expanded⟩ := unfolded.fragments
  obtain ⟨branch, member, _, _, _, ⟨⟩, fields⟩ :=
    expanded.exists_branch _ (unfolded.mem_fragments.mp fragment)
  have known : branches? schema config (.interface interface) = some
      ((schema.possibleTypes interface.name).map
        (implementorBranch config interface (schema.possibleTypes interface.name))) :=
    rfl
  have names := wellFormed.nodup_branch_fields known branch member
  have part := fields.heads_sublist.map Prod.snd
  rw [List.map_map] at part
  exact names.sublist part

end Interface

/-! ## A schema with two interfaces -/

/-- The source of a schema with two interfaces, of which one has a deprecated field that its
implementors do not deprecate. Their other fields conflict, and one of them has the name of an
alias. -/
def pairSource : String :=
  "type Query { n: N m: M } interface N { k: ID } interface M { k: ID @deprecated } " ++
  "type A implements N { k: ID x: Int x_A: ID } type B implements N & M { k: ID x: String } " ++
  "type C implements M { k: ID x: Int }"

/-- A field of a type of that schema. -/
def pairField (holder name type : String) (column : Nat) : Field :=
  ⟨sampleAt column, none, none, name, .empty, holder, .named true ⟨type, sampleAt column⟩⟩

/-- A type of that schema. -/
def pairType (name : String) (column : Nat) (interfaces : List String) (fields : List Field) :
    FieldedType where
  location := sampleAt column
  description := none
  fields := .ofList (fields.map fun field => (field.name, field))
  interfaces := interfaces.map fun interface => ⟨interface, sampleAt column⟩
  name := name

/-- The root type of that schema. -/
def pairQuery : FieldedType :=
  pairType "Query" 1 [] [pairField "Query" "n" "N" 14, pairField "Query" "m" "M" 19]

/-- The interface of that schema without a deprecated field. -/
def pairInterface : FieldedType := pairType "N" 26 [] [pairField "N" "k" "ID" 40]

/-- The interface of that schema with a deprecated field. -/
def pairDeprecating : FieldedType :=
  pairType "M" 48 []
    [{ pairField "M" "k" "ID" 62 with deprecation := some "No longer supported" }]

/-- The object types of that schema that implement its interfaces. -/
def pairObjects : List FieldedType :=
  [pairType "A" 82 ["N"]
      [pairField "A" "k" "ID" 104, pairField "A" "x" "Int" 110, pairField "A" "x_A" "ID" 117],
    pairType "B" 127 ["N", "M"] [pairField "B" "k" "ID" 153, pairField "B" "x" "String" 159],
    pairType "C" 171 ["M"] [pairField "C" "k" "ID" 193, pairField "C" "x" "Int" 199]]

/-- That schema. -/
def pairSchema : Schema where
  query := some ⟨"Query", sampleAt 1⟩
  mutation := none
  subscription := none
  types := TypeDef.builtIns.insertAll
    (("Query", .object pairQuery) :: ("N", .interface pairInterface) ::
      ("M", .interface pairDeprecating) :: pairObjects.map fun type => (type.name, .object type))

theorem load_pairSource :
    SchemaBuilder.empty.load none pairSource = ([], .ok { types := pairSchema.types }) := by
  refine (SchemaBuilder.load_of_toList (toList_append_of_toList
    (toList_append_of_toList String.toList_ofList String.toList_ofList)
    String.toList_ofList)).trans ?_
  cbv

theorem pairSchema_checked : pairSchema.Checked := by
  refine ⟨{ types := pairSchema.types }, .load .empty load_pairSource, rfl, ?_⟩
  cbv

/-- What is generated for a field of the root type of that schema. -/
def pairGeneration (field : Field) : Generation Operation :=
  Generation.operation pairSchema {} .query pairQuery field

theorem pairSchema_rooted : pairSchema.root? .query = some pairQuery := by decide

theorem pairGeneration_returns {field : Field} (declared : field ∈ pairQuery.fields.values) :
    ∃ operation after, (pairGeneration field).Returns #[] operation after := by
  have never : (pairGeneration field).Faultless :=
    Generation.faultless_operation pairSchema_checked.closed
      (Schema.offers_of_root? pairSchema_rooted declared)
  exact never.returns #[]

/-- The document of a field of that root type has the first node that evaluation finds. -/
theorem exists_node_of_eval {field : Field} (declared : field ∈ pairQuery.fields.values)
    {operation : Operation} {after : Array Event}
    (returned : (pairGeneration field).Returns #[] operation after) {α : Type} {look : Node → α}
    {value : α}
    (evaluated : ((pairGeneration field).run.run #[]).1.toOption.bind (fun operation =>
      (operation.document.nodes pairSchema "Query").head?.map fun node =>
        (node.holder, node.name, look node)) = some ("Query", field.name, value)) :
    ∃ node ∈ operation.document.nodes pairSchema "Query",
      pairSchema.fieldOf? node.holder node.name = some field ∧ look node = value :=
  pairSchema_checked.built.wellFormed.exists_node_of_eval pairSchema_rooted declared returned
    evaluated

end SchemaUnfolding
