import SchemaUnfolding.Proofs.Interfaces.Fragments

/-!
# Leaves of the types that an interface may stand for

A field that an interface defines itself is left out of the fragments, because it is selected beside
them; but there the interface's own record of the field decides whether it is included. So a leaf of
a type is selected exactly when the interface does not define it, or includes it too.
-/

namespace SchemaUnfolding

open Expansion

/-- The type of a field has no fields. -/
def Schema.IsLeafField (schema : Schema) (field : Field) : Prop :=
  ∃ type, schema.type? field.type.name = some type ∧ type.isLeaf = true

/-- Below a node a field is selected for a type, beside the fragments or in a fragment for the
type. -/
def Node.Selects (node : Node) (type name : String) : Prop :=
  name ∈ node.below.filterMap Selection.fieldName? ∨
    ∃ label, ⟨type, label, name⟩ ∈ node.inside

theorem TypeDef.isComposite_eq_false_of_isLeaf {type : TypeDef} (leaf : type.isLeaf = true) :
    type.isComposite = false := by
  cases type <;> simp_all [isLeaf, isComposite]

section Leaves

variable {schema : Schema} {config : Config} {interface : FieldedType} {node : Node}
  {own fragments : List Selection}

/-- A field stands beside the fragments below such a node only if the interface has and includes a
field of its name. -/
theorem Node.Unfolded.of_mem_fieldNames
    (unfolded : node.Unfolded schema config interface own fragments) {name : String}
    (member : name ∈ node.below.filterMap Selection.fieldName?) :
    ∃ field ∈ interface.fields.values, field.name = name ∧ config.includes field = true := by
  obtain ⟨selection, listed, named⟩ := List.mem_filterMap.mp member
  rw [unfolded.below, List.mem_append, List.mem_cons] at listed
  obtain ⟨_, _, _, ownExpanded⟩ := unfolded.own
  obtain ⟨_, _, _, expanded⟩ := unfolded.fragments
  rcases listed with beside | rfl | later
  · obtain ⟨entry, entered, _, _, rfl⟩ := ownExpanded.exists_field selection beside
    obtain ⟨field, shown, rfl⟩ := List.mem_map.mp entered
    cases named
    obtain ⟨fields, ⟨⟩, declared, included⟩ := mem_ownFields_iff.mp shown
    exact ⟨field, declared, rfl, included⟩
  · cases named
  · obtain ⟨_, _, _, _, _, rfl, _⟩ := expanded.exists_branch selection later
    cases named

/-- An included leaf of the interface stands beside the fragments. -/
theorem Node.Unfolded.mem_fieldNames
    (unfolded : node.Unfolded schema config interface own fragments) {field : Field}
    (declared : field ∈ interface.fields.values) (included : config.includes field = true)
    (leaf : schema.IsLeafField field) :
    field.name ∈ node.below.filterMap Selection.fieldName? := by
  obtain ⟨type, found, simple⟩ := leaf
  obtain ⟨_, _, _, ownExpanded⟩ := unfolded.own
  have entered : ((none : Option String), field) ∈
      (ownFields config (.interface interface)).map fun inner => (none, inner) :=
    List.mem_map.mpr ⟨field, mem_ownFields_iff.mpr ⟨_, rfl, declared, included⟩, rfl⟩
  obtain ⟨arguments, below, shown⟩ := ownExpanded.mem_of_isComposite_eq_false _ entered type found
    (TypeDef.isComposite_eq_false_of_isLeaf simple)
  have listed : .field none field.name arguments below ∈ node.below := by
    rw [unfolded.below]
    exact List.mem_append_left _ shown
  exact List.mem_filterMap.mpr ⟨_, listed, rfl⟩

/-- An included leaf that a type has beyond the interface stands in the fragment for the type. -/
theorem Node.Unfolded.mem_inside
    (unfolded : node.Unfolded schema config interface own fragments) {type : FieldedType}
    (possible : type ∈ schema.possibleTypes interface.name) {field : Field}
    (declared : field ∈ type.fields.values) (beyond : field.name ∉ interface.fields.names)
    (included : config.includes field = true) (leaf : schema.IsLeafField field) :
    ∃ label, ⟨type.name, label, field.name⟩ ∈ node.inside := by
  obtain ⟨target, found, simple⟩ := leaf
  obtain ⟨_, _, _, expanded⟩ := unfolded.fragments
  obtain ⟨selections, _, _, fields, shown⟩ :=
    expanded.exists_fragment _ (List.mem_map.mpr ⟨type, possible, rfl⟩)
  have entered : (interface.label? (schema.possibleTypes interface.name) type field, field) ∈
      (implementorBranch config interface (schema.possibleTypes interface.name) type).fields :=
    mem_implementorBranch_iff.mpr ⟨rfl, declared, beyond, included⟩
  obtain ⟨arguments, below, listed⟩ := fields.mem_of_isComposite_eq_false _ entered target found
    (TypeDef.isComposite_eq_false_of_isLeaf simple)
  have fragment := shown (List.ne_nil_of_mem listed)
  exact ⟨_, mem_inside_iff.mpr
    ⟨selections, arguments, below, unfolded.mem_fragments.mpr fragment, listed⟩⟩

/-- A leaf of a type is selected exactly when the interface includes its own field of that name, if
it has one and that is a leaf as well. -/
theorem Node.Unfolded.selects_iff
    (unfolded : node.Unfolded schema config interface own fragments)
    (wellFormed : schema.WellFormed) (held : .interface interface ∈ schema.types.values)
    {type : FieldedType} (possible : type ∈ schema.possibleTypes interface.name) {field : Field}
    (declared : field ∈ type.fields.values) (included : config.includes field = true)
    (leaf : schema.IsLeafField field)
    (ownLeaf : ∀ other ∈ interface.fields.get? field.name, schema.IsLeafField other) :
    node.Selects type.name field.name ↔
      ∀ other ∈ interface.fields.get? field.name, config.includes other = true := by
  have keyed := (wellFormed.fields_holds held rfl).keyed
  constructor
  · rintro (beside | ⟨label, inside⟩) other found
    · obtain ⟨own, listed, named, ownIncluded⟩ := unfolded.of_mem_fieldNames beside
      have same : interface.fields.get? field.name = some own :=
        keyed.get?_eq_some_iff.mpr ⟨listed, named⟩
      cases same.symm.trans found
      exact ownIncluded
    · obtain ⟨holder, _, inner, beyond, _, same, _⟩ := unfolded.of_mem_inside wellFormed inside
      rw [Inside.mk.injEq] at same
      have outside := FieldedType.not_mem_names_of_mem_fieldsBeyond beyond
      rw [← same.2.2] at outside
      rw [Option.mem_def, Table.get?_eq_some_iff] at found
      exact absurd (Table.mem_names_iff.mpr ⟨other, found⟩) outside
  · intro ownIncluded
    cases found : interface.fields.get? field.name with
    | none =>
      rw [Table.get?_eq_none_iff] at found
      exact .inr (unfolded.mem_inside possible declared found included leaf)
    | some other =>
      obtain ⟨listed, named⟩ := keyed.get?_eq_some_iff.mp found
      rw [← named]
      exact .inl (unfolded.mem_fieldNames listed (ownIncluded other found) (ownLeaf other found))

end Leaves

/-! ## Documents -/

/-- In the document of a root field of a checked schema, an included leaf of a type that an
interface may stand for is selected below a field of the interface exactly when the interface
includes its own field of that name, if it has one and that is a leaf as well. -/
theorem Schema.Checked.leaf_selected_iff {schema : Schema} (checked : schema.Checked)
    (config : Config) {kind : OperationKind} {root : FieldedType}
    (rooted : schema.root? kind = some root) {field : Field}
    (declared : field ∈ root.fields.values) (before : Array Event) :
    ∃ operation after,
      (Generation.operation schema config kind root field).Returns before operation after ∧
      ∀ node ∈ operation.document.nodes schema root.name, ∀ {shown : Field}
        {interface type : FieldedType} {leaf : Field},
        schema.fieldOf? node.holder node.name = some shown →
        schema.type? shown.type.name = some (.interface interface) →
        type ∈ schema.possibleTypes interface.name → leaf ∈ type.fields.values →
        config.includes leaf = true → schema.IsLeafField leaf →
        (∀ own ∈ interface.fields.get? leaf.name, schema.IsLeafField own) →
        (node.Selects type.name leaf.name ↔
          ∀ own ∈ interface.fields.get? leaf.name, config.includes own = true) := by
  have wellFormed := checked.built.wellFormed
  have never : (Generation.operation schema config kind root field).Faultless :=
    Generation.faultless_operation checked.closed (Schema.offers_of_root? rooted declared)
  obtain ⟨operation, after, returned⟩ := never.returns before
  refine ⟨operation, after, returned, ?_⟩
  intro node member shown interface type leaf found typed possible inside included simple ownSimple
  have expanded := wellFormed.nodes_expanded rooted declared returned node member
  obtain ⟨own, fragments, unfolded⟩ := expanded.unfolded found typed
  exact unfolded.selects_iff wellFormed (Schema.mem_values_of_type? typed) possible inside included
    simple ownSimple

/-- Below a field of the schema with two interfaces a leaf of a type is not selected, although it is
included: the interface deprecates its own field of that name. -/
theorem pairSchema_leaf_lost :
    pairSchema.Checked ∧ ∃ operation after,
      (pairGeneration (pairField "Query" "m" "M" 19)).Returns #[] operation after ∧
      ∃ node ∈ operation.document.nodes pairSchema "Query",
        pairSchema.fieldOf? node.holder node.name = some (pairField "Query" "m" "M" 19) ∧
        pairSchema.type? "M" = some (.interface pairDeprecating) ∧
        ∃ type ∈ pairSchema.possibleTypes "M", pairField "B" "k" "ID" 153 ∈ type.fields.values ∧
          type.name = "B" ∧
          ({} : Config).includes (pairField "B" "k" "ID" 153) = true ∧
          pairSchema.IsLeafField (pairField "B" "k" "ID" 153) ∧ ¬ node.Selects "B" "k" := by
  have declared : pairField "Query" "m" "M" 19 ∈ pairQuery.fields.values := by decide
  let answers : List Inside := [⟨"B", some "x_B", "x"⟩, ⟨"C", some "x_C", "x"⟩]
  have evaluated : ((pairGeneration (pairField "Query" "m" "M" 19)).run.run #[]).1.toOption.bind
      (fun operation => (operation.document.nodes pairSchema "Query").head?.map fun node =>
        (node.holder, node.name, node.below.filterMap Selection.fieldName?, node.inside)) =
      some ("Query", "m", [], answers) := by
    decide
  obtain ⟨operation, after, returned⟩ := pairGeneration_returns declared
  obtain ⟨node, member, found, shape⟩ := exists_node_of_eval declared returned evaluated
  obtain ⟨beside, inside⟩ := Prod.mk.inj shape
  have possible : ∃ type ∈ pairSchema.possibleTypes "M",
      pairField "B" "k" "ID" 153 ∈ type.fields.values ∧ type.name = "B" := by
    decide
  obtain ⟨type, implements, has, named⟩ := possible
  refine ⟨pairSchema_checked, operation, after, returned, node, member, found, by decide,
    type, implements, has, named, rfl, ⟨.id, by decide, rfl⟩, ?_⟩
  rintro (own | ⟨label, fragment⟩)
  · rw [beside] at own
    cases own
  · simp [inside, answers] at fragment

/-- Below the other field of that root type the same leaf is selected, because that interface
includes it. -/
theorem pairSchema_leaf_selected :
    ∃ operation after,
      (pairGeneration (pairField "Query" "n" "N" 14)).Returns #[] operation after ∧
      ∃ node ∈ operation.document.nodes pairSchema "Query", node.Selects "B" "k" := by
  have declared : pairField "Query" "n" "N" 14 ∈ pairQuery.fields.values := by decide
  have evaluated : ((pairGeneration (pairField "Query" "n" "N" 14)).run.run #[]).1.toOption.bind
      (fun operation => (operation.document.nodes pairSchema "Query").head?.map fun node =>
        (node.holder, node.name, node.label)) = some ("Query", "n", none) := by
    decide
  obtain ⟨operation, after, returned, selects⟩ :=
    pairSchema_checked.leaf_selected_iff {} pairSchema_rooted declared #[]
  obtain ⟨node, member, found, -⟩ := exists_node_of_eval declared returned evaluated
  obtain ⟨type, implements, has, named⟩ : ∃ type ∈ pairSchema.possibleTypes "N",
      pairField "B" "k" "ID" 153 ∈ type.fields.values ∧ type.name = "B" := by
    decide
  have own : pairInterface.fields.get? "k" = some (pairField "N" "k" "ID" 40) := by decide
  have typed : pairSchema.type? "N" = some (.interface pairInterface) := by decide
  refine ⟨operation, after, returned, node, member, ?_⟩
  rw [← named]
  apply (selects node member found typed implements has rfl ⟨.id, by decide, rfl⟩ ?_).mpr
  · intro other same
    cases own.symm.trans same
    rfl
  · intro other same
    cases own.symm.trans same
    exact ⟨.id, by decide, rfl⟩

end SchemaUnfolding
