import SchemaUnfolding.Proofs.Edges.Accounting
import SchemaUnfolding.Proofs.Interfaces.Standing

/-!
# Depths below a field whose type is an interface

Fields in fragments stand one level below the interface's own fields, and two levels are forgiven
below a fragment. Where the interface is met outside fragments, its fields in fragments are allowed
whenever its own fields are. Below a fragment the own fields are forgiven two levels as well, and
then the fields in the fragments are cut one level earlier.
-/

namespace SchemaUnfolding

open Expansion

/-! ## Sites -/

/-- The depth limit allows a field with fields of its own at a site. -/
def Site.IsAllowed (config : Config) (site : Site) : Prop :=
  site.countedDepth ≤ config.depthLimit

instance (config : Config) (site : Site) : Decidable (site.IsAllowed config) :=
  inferInstanceAs (Decidable (_ ≤ _))

/-- Where the own fields below a site are allowed, the fields in fragments are, unless the site is
in a fragment itself and the own fields are the deepest that are allowed. -/
theorem Site.isAllowed_inFragmentBelow_iff {config : Config} (site : Site) (field : String)
    (own : (site.below field).IsAllowed config) :
    (site.inFragmentBelow field).IsAllowed config ↔
      ¬ (site.inFragment = true ∧ site.depth = config.depthLimit + 1) := by
  simp only [IsAllowed, countedDepth, below, inFragmentBelow, if_true] at own ⊢
  -- Outside fragments an own field counts one level more than a field in the fragments, and inside
  -- one level less.
  cases inFragment : site.inFragment with
  | true =>
    simp only [inFragment, if_true, true_and] at own ⊢
    omega
  | false =>
    simp only [inFragment, Bool.false_eq_true, if_false, false_and, not_false_iff, iff_true]
      at own ⊢
    omega

namespace Node

/-- The site of the own fields of the type of a node. -/
def ownSite (node : Node) : Site := ⟨node.name, node.depth + 1, node.inFragment⟩

/-- The site of the fields in the fragments directly below a node. -/
def fragmentSite (node : Node) : Site := ⟨node.name, node.depth + 2, true⟩

/-- Below a node whose type is an interface an own field of the interface is selected that has
fields of its own. -/
def SelectsOwnComposite (schema : Schema) (interface : FieldedType) (node : Node) : Prop :=
  ∃ own ∈ interface.fields.values, schema.IsCompositeField own ∧
    own.name ∈ node.below.filterMap Selection.fieldName?

/-- What stands in the fragments below a node is the included fields that the possible types of an
interface have beyond it and that are not left out with some edges remembered. -/
def SelectsBeyond (schema : Schema) (config : Config) (interface : FieldedType) (edges : Edges)
    (node : Node) : Prop :=
  ∀ inside, inside ∈ node.inside ↔
    ∃ type ∈ schema.possibleTypes interface.name, ∃ inner ∈ interface.fieldsBeyond type,
      config.includes inner = true ∧
      inside = ⟨type.name, interface.label? (schema.possibleTypes interface.name) type inner,
        inner.name⟩ ∧
      inner.StandsAt schema config edges node.fragmentSite

end Node

section Depths

variable {schema : Schema} {config : Config} {node : Node} {interface : FieldedType}

/-- A field with fields of its own is not left out when its edge may be expanded and the depth limit
allows it. -/
theorem Field.standsAt_iff {edges : Edges} {site : Site} {field : Field}
    (composite : schema.IsCompositeField field) :
    field.StandsAt schema config edges site ↔
      (config.repeatEdges = true ∨
        edges.contains (Edges.key site.container field.name) = false) ∧
        site.IsAllowed config := by
  rw [StandsAt, imp_iff_right composite, omission?_eq_none_iff]
  rfl

theorem Schema.WellFormed.fieldOf?_of_mem_fieldsBeyond (wellFormed : schema.WellFormed)
    {type : FieldedType} {name : String} (possible : type ∈ schema.possibleTypes name)
    {inner : Field} (beyond : inner ∈ interface.fieldsBeyond type) :
    schema.fieldOf? type.name inner.name = some inner := by
  have found : schema.type? type.name = some (.object type) :=
    wellFormed.types.types.keyed.get?_eq_some_iff.mpr
      ⟨Schema.object_mem_of_mem_possibleTypes possible, rfl⟩
  exact wellFormed.fieldOf?_of_mem found rfl (List.mem_filter.mp beyond).1

/-- Below a node whose type is an interface, own fields were not left out at their site, and in the
fragments the fields stand that were not left out there, with edges remembered that still are. -/
theorem Node.IsExpandedBy.selectsBeyond {last : Progress}
    (known : node.IsExpandedBy schema config last) {field : Field}
    (found : schema.fieldOf? node.holder node.name = some field)
    (typed : schema.type? field.type.name = some (.interface interface)) :
    (∀ name ∈ node.below.filterMap Selection.fieldName?, ∃ own ∈ interface.fields.values,
      own.name = name ∧ ∃ edges, own.StandsAt schema config edges node.ownSite) ∧
    ∃ edges : Edges, (∀ key, edges.contains key = true → last.edges.contains key = true) ∧
      node.SelectsBeyond schema config interface edges := by
  obtain ⟨same, site, before, after, foundSame, depth, inFragment, expanded, kept⟩ := known
  cases found.symm.trans foundSame
  generalize shown : some (Selection.field node.label node.name node.arguments node.below) = result
    at expanded
  cases expanded with
  | leftOut => cases shown
  | @shown _ _ _ _ middle _ _ own fragments _ scope _ typedSame _ ownExpanded _ branched expanded =>
    cases typed.symm.trans typedSame
    cases branched
    rw [Option.some.injEq, Selection.field.injEq] at shown
    obtain ⟨_, named, _, below⟩ := shown
    have ownSite : site.below field.name = node.ownSite := by
      rw [Site.below, Node.ownSite, depth, inFragment, named]
    have fragmentSite : site.inFragmentBelow field.name = node.fragmentSite := by
      rw [Site.inFragmentBelow, Node.fragmentSite, depth, named]
    rw [ownSite] at ownExpanded
    rw [fragmentSite] at expanded
    have names : node.below.filterMap Selection.fieldName? =
        own.filterMap Selection.fieldName? := by
      rw [below, List.filterMap_append, List.filterMap_append, expanded.filterMap_fieldName?]
      exact List.append_nil _
    have insides : node.inside = fragments.flatMap Selection.inside := by
      rw [Node.inside, below, List.flatMap_append, List.flatMap_append, ownExpanded.flatMap_inside]
      rfl
    constructor
    · intro name member
      rw [names] at member
      obtain ⟨entry, listed, same, stands⟩ := ownExpanded.exists_standsAt member
      obtain ⟨inner, shown, rfl⟩ := List.mem_map.mp listed
      obtain ⟨_, ⟨⟩, declared, _⟩ := mem_ownFields_iff.mp shown
      exact ⟨inner, declared, same, stands⟩
    · refine ⟨(middle.binding scope).edges, (expanded.grows.trans kept).edges, ?_⟩
      intro inside
      rw [insides, expanded.mem_inside_iff rfl]
      constructor
      · rintro ⟨_, listed, entry, entered, rfl, stands⟩
        obtain ⟨type, possible, rfl⟩ := List.mem_map.mp listed
        obtain ⟨inner, member, rfl⟩ := List.mem_map.mp entered
        obtain ⟨beyond, included⟩ := List.mem_filter.mp member
        exact ⟨type, possible, inner, beyond, included, rfl, stands⟩
      · rintro ⟨type, possible, inner, beyond, included, rfl, stands⟩
        exact ⟨_, List.mem_map_of_mem possible, _,
          List.mem_map_of_mem (List.mem_filter.mpr ⟨beyond, included⟩), rfl, stands⟩

/-- A field that a type has beyond the interface stands in its fragment exactly when it was not left
out. -/
theorem Node.SelectsBeyond.exists_label_iff {edges : Edges}
    (selects : node.SelectsBeyond schema config interface edges) (wellFormed : schema.WellFormed)
    {type : FieldedType} (possible : type ∈ schema.possibleTypes interface.name) {inner : Field}
    (beyond : inner ∈ interface.fieldsBeyond type) (included : config.includes inner = true) :
    (∃ label, ⟨type.name, label, inner.name⟩ ∈ node.inside) ↔
      inner.StandsAt schema config edges node.fragmentSite := by
  constructor
  · rintro ⟨label, inside⟩
    obtain ⟨other, otherPossible, field, otherBeyond, _, same, stands⟩ := (selects _).mp inside
    rw [Inside.mk.injEq] at same
    have found := wellFormed.fieldOf?_of_mem_fieldsBeyond possible beyond
    have otherFound := wellFormed.fieldOf?_of_mem_fieldsBeyond otherPossible otherBeyond
    rw [same.1, same.2.2] at found
    cases found.symm.trans otherFound
    exact stands
  · intro stands
    exact ⟨_, (selects _).mpr ⟨type, possible, inner, beyond, included, rfl, stands⟩⟩

/-- Where an own field with fields of its own is selected, the depth limit allows the own fields. -/
theorem Node.SelectsOwnComposite.isAllowed (wellFormed : schema.WellFormed)
    (held : .interface interface ∈ schema.types.values)
    (selects : node.SelectsOwnComposite schema interface)
    (stand : ∀ name ∈ node.below.filterMap Selection.fieldName?,
      ∃ own ∈ interface.fields.values, own.name = name ∧
        ∃ edges, own.StandsAt schema config edges node.ownSite) :
    node.ownSite.IsAllowed config := by
  obtain ⟨own, declared, composite, selected⟩ := selects
  obtain ⟨other, otherDeclared, named, edges, stands⟩ := stand _ selected
  have keyed := (wellFormed.fields_holds held rfl).keyed
  have found := keyed.get?_eq_some_iff.mpr ⟨declared, rfl⟩
  cases found.symm.trans (keyed.get?_eq_some_iff.mpr ⟨otherDeclared, named⟩)
  exact ((Field.standsAt_iff composite).mp stands).2

end Depths

/-! ## Documents -/

/-- Whatever was loaded: where a document selects an own field of an interface that has fields of
its own, the depth limit allows the fields in the fragments beside it, unless the interface is met
in a fragment itself and its own fields are the deepest that are allowed. A field with fields of its
own stands in its fragment exactly when it is allowed there and its edge may be expanded. -/
theorem Schema.Built.fragment_fields_allowed_iff {schema : Schema} (built : schema.Built)
    {config : Config} {kind : OperationKind} {root : FieldedType} {field : Field}
    (rooted : schema.root? kind = some root) (declared : field ∈ root.fields.values)
    {before after : Array Event} {operation : Operation}
    (returned : (Generation.operation schema config kind root field).Returns before operation
      after) {node : Node} (member : node ∈ operation.document.nodes schema root.name)
    {shown : Field} (found : schema.fieldOf? node.holder node.name = some shown)
    {interface : FieldedType} (typed : schema.type? shown.type.name = some (.interface interface))
    (selects : node.SelectsOwnComposite schema interface) :
    node.ownSite.IsAllowed config ∧
    (node.fragmentSite.IsAllowed config ↔
      ¬ (node.inFragment = true ∧ node.depth = config.depthLimit + 1)) ∧
    ∃ edges : Edges,
      (∀ key, edges.contains key = true →
        key ∈ Edge.keysOutside (operation.document.edges schema root.name)) ∧
      ∀ type ∈ schema.possibleTypes interface.name, ∀ inner ∈ interface.fieldsBeyond type,
        config.includes inner = true → schema.IsCompositeField inner →
        ((∃ label, ⟨type.name, label, inner.name⟩ ∈ node.inside) ↔
          (config.repeatEdges = true ∨
            edges.contains (Edges.key node.name inner.name) = false) ∧
            node.fragmentSite.IsAllowed config) := by
  have wellFormed := built.wellFormed
  obtain ⟨selection, progress, expanded, rfl, _⟩ := Generation.returns_operation_iff.mp returned
  have resolved := wellFormed.type?_of_root? rooted
  have findable := wellFormed.fieldOf?_of_mem resolved rfl declared
  have known : node.IsExpandedBy schema config progress :=
    expanded.nodes wellFormed findable node member
  obtain ⟨stand, edges, kept, beyondSelected⟩ := known.selectsBeyond found typed
  have allowed := selects.isAllowed wellFormed (Schema.mem_values_of_type? typed) stand
  have cut := Site.isAllowed_inFragmentBelow_iff ⟨node.holder, node.depth, node.inFragment⟩
    node.name allowed
  refine ⟨allowed, cut, edges, ?_, ?_⟩
  · intro key remembered
    -- Nothing is remembered at the start of a document.
    have adds := expanded.adds wellFormed findable
    exact ((adds.remembered key).mp (kept key remembered)).resolve_left
      (by simp [Edges.contains, Edges.empty])
  · intro type possible inner beyond included composite
    rw [beyondSelected.exists_label_iff wellFormed possible beyond included,
      Field.standsAt_iff composite]
    rfl

/-! ## An interface in a fragment -/

/-- The source of a schema where a member of a union has a field whose type is an interface. -/
def nestedSource : String :=
  "type Query { u: U } union U = A type A { m: M } interface M { own: X } " ++
  "type B implements M { own: X other: X } type X { x: Int }"

/-- The field of the root type of that schema. -/
def nestedRoot : Field := pairField "Query" "u" "U" 14

/-- The root type of that schema. -/
def nestedQuery : FieldedType := pairType "Query" 1 [] [nestedRoot]

/-- The field of that schema whose type is the interface. -/
def nestedField : Field := pairField "A" "m" "M" 42

/-- The interface of that schema. -/
def nestedInterface : FieldedType := pairType "M" 49 [] [pairField "M" "own" "X" 63]

/-- The field that a type of that schema has beyond the interface. -/
def nestedBeyond : Field := pairField "B" "other" "X" 101

/-- The type of that schema that implements the interface. -/
def nestedImplementor : FieldedType :=
  pairType "B" 72 ["M"] [pairField "B" "own" "X" 94, nestedBeyond]

/-- That schema. -/
def nestedSchema : Schema where
  query := some ⟨"Query", sampleAt 1⟩
  mutation := none
  subscription := none
  types := TypeDef.builtIns.insertAll
    [("Query", .object nestedQuery),
      ("U", .union ⟨sampleAt 21, none, "U", .ofList [("A", ⟨"A", sampleAt 21⟩)]⟩),
      ("A", .object (pairType "A" 33 [] [nestedField])),
      ("M", .interface nestedInterface), ("B", .object nestedImplementor),
      ("X", .object (pairType "X" 112 [] [pairField "X" "x" "Int" 121]))]

theorem load_nestedSource :
    SchemaBuilder.empty.load none nestedSource = ([], .ok { types := nestedSchema.types }) := by
  refine (SchemaBuilder.load_of_toList
    (toList_append_of_toList String.toList_ofList String.toList_ofList)).trans ?_
  cbv

theorem nestedSchema_checked : nestedSchema.Checked := by
  refine ⟨{ types := nestedSchema.types }, .load .empty load_nestedSource, rfl, ?_⟩
  cbv

theorem nestedSchema_rooted : nestedSchema.root? .query = some nestedQuery := by decide

theorem nestedSchema_typed :
    nestedSchema.fieldOf? "A" "m" = some nestedField ∧
      nestedSchema.type? nestedField.type.name = some (.interface nestedInterface) ∧
      nestedImplementor ∈ nestedSchema.possibleTypes nestedInterface.name ∧
      nestedBeyond ∈ nestedInterface.fieldsBeyond nestedImplementor := by
  decide

theorem nestedSchema_isCompositeField (field : Field) (typed : field.type.name = "X") :
    nestedSchema.IsCompositeField field :=
  ⟨.object (pairType "X" 112 [] [pairField "X" "x" "Int" 121]),
    by rw [typed]; decide, rfl⟩

/-- What is generated for the root field of that schema up to a depth. -/
def nestedGeneration (limit : Nat) : Generation Operation :=
  Generation.operation nestedSchema { depthLimit := limit, repeatEdges := true } .query nestedQuery
    nestedRoot

/-- The document has the node that evaluation finds for the field whose type is the interface. -/
theorem exists_nested_node (limit : Nat) (inside : List Inside)
    (evaluated : ((nestedGeneration limit).run.run #[]).1.toOption.map (fun operation =>
      ((operation.document.nodes nestedSchema "Query").filter (·.name == "m")).map fun node =>
        ((node.holder, node.depth, node.inFragment), node.below.filterMap Selection.fieldName?,
          node.inside)) = some [(("A", 3, true), ["own"], inside)]) :
    ∃ operation after, (nestedGeneration limit).Returns #[] operation after ∧
      ∃ node ∈ operation.document.nodes nestedSchema "Query",
        node.holder = "A" ∧ node.name = "m" ∧ node.depth = 3 ∧ node.inFragment = true ∧
          node.SelectsOwnComposite nestedSchema nestedInterface ∧ node.inside = inside := by
  have never : (nestedGeneration limit).Faultless :=
    Generation.faultless_operation nestedSchema_checked.closed
      (Schema.offers_of_root? nestedSchema_rooted (by decide))
  obtain ⟨operation, after, returned⟩ := never.returns #[]
  have ran : (nestedGeneration limit).run.run #[] = (.ok operation, after) := returned
  rw [ran] at evaluated
  obtain ⟨node, filtered, same⟩ := List.map_eq_singleton_iff.mp (Option.some.inj evaluated)
  obtain ⟨member, named⟩ := List.mem_filter.mp (filtered ▸ List.mem_singleton_self node)
  simp only [Prod.mk.injEq] at same
  obtain ⟨⟨holder, depth, below⟩, own, same⟩ := same
  have selects : node.SelectsOwnComposite nestedSchema nestedInterface := by
    refine ⟨pairField "M" "own" "X" 63, by decide,
      nestedSchema_isCompositeField _ rfl, ?_⟩
    rw [own]
    exact List.mem_singleton_self _
  exact ⟨operation, after, returned, node, member, holder, eq_of_beq named, depth, below, selects,
    same⟩

/-- At a limit of three levels the field in the fragment is allowed like the own field, and stands
there. -/
theorem nestedSchema_allowed :
    ∃ operation after, (nestedGeneration 3).Returns #[] operation after ∧
      ∃ node ∈ operation.document.nodes nestedSchema "Query",
        node.inFragment = true ∧ node.SelectsOwnComposite nestedSchema nestedInterface ∧
        node.fragmentSite.IsAllowed { depthLimit := 3, repeatEdges := true } ∧
        ∃ label, ⟨"B", label, "other"⟩ ∈ node.inside := by
  obtain ⟨operation, after, returned, node, member, holder, named, depth, below, selects, _⟩ :=
    exists_nested_node 3 [⟨"B", none, "other"⟩] (by decide)
  have found : nestedSchema.fieldOf? node.holder node.name = some nestedField := by
    rw [holder, named]
    exact nestedSchema_typed.1
  obtain ⟨typed, possible, beyond⟩ := nestedSchema_typed.2
  obtain ⟨_, cut, edges, _, stands⟩ :=
    nestedSchema_checked.built.fragment_fields_allowed_iff nestedSchema_rooted (by decide)
      returned member found typed selects
  have allowed := cut.mpr (by simp [depth])
  exact ⟨operation, after, returned, node, member, below, selects, allowed,
    (stands _ possible _ beyond rfl (nestedSchema_isCompositeField _ rfl)).mpr
      ⟨.inl rfl, allowed⟩⟩

/-- At a limit of two levels the own field is selected below the node, and the field in the fragment
is left out because of its depth. -/
theorem nestedSchema_cut_earlier :
    nestedSchema.Checked ∧ nestedSchema.IsCompositeField nestedBeyond ∧
    ∃ operation after, (nestedGeneration 2).Returns #[] operation after ∧
      .limitExceeded "B" "other" 3 2 ∈ after ∧
      ∃ node ∈ operation.document.nodes nestedSchema "Query",
        nestedSchema.fieldOf? node.holder node.name = some nestedField ∧
        node.SelectsOwnComposite nestedSchema nestedInterface ∧
        node.ownSite.IsAllowed { depthLimit := 2, repeatEdges := true } ∧
        ¬ node.fragmentSite.IsAllowed { depthLimit := 2, repeatEdges := true } ∧
        ∀ label, ⟨"B", label, "other"⟩ ∉ node.inside := by
  obtain ⟨operation, after, returned, node, member, holder, named, depth, below, selects, inside⟩ :=
    exists_nested_node 2 [] (by decide)
  have ran : (nestedGeneration 2).run.run #[] = (.ok operation, after) := returned
  have reported : .limitExceeded "B" "other" 3 2 ∈ ((nestedGeneration 2).run.run #[]).2 := by
    decide +kernel
  rw [ran] at reported
  have found : nestedSchema.fieldOf? node.holder node.name = some nestedField := by
    rw [holder, named]
    exact nestedSchema_typed.1
  refine ⟨nestedSchema_checked, nestedSchema_isCompositeField _ rfl, operation, after, returned,
    reported, node, member, found, selects, ?_, ?_, by simp [inside]⟩
  · simp [Site.IsAllowed, Site.countedDepth, Node.ownSite, depth, below]
  · simp [Site.IsAllowed, Site.countedDepth, Node.fragmentSite, depth]

end SchemaUnfolding
