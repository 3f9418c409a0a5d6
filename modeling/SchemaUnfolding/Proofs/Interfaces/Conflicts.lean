import SchemaUnfolding.Proofs.Arguments.Exact
import SchemaUnfolding.Proofs.Interfaces.Aliases

/-!
# Conflicts between the types that an interface may stand for

A conflict about a name is found by comparing all types of the fields of that name with the first of
them. Because equivalence is an equivalence, this finds a conflict exactly when any two of them
differ, in whatever order they come. So the aliased fields in fragments are those about which the
types of the fragments disagree.
-/

namespace SchemaUnfolding

open Expansion

namespace FieldedType

/-! ## Finding conflicts -/

/-- There is a conflict about a name exactly when two fields of the name beyond an interface have
types that are not equivalent. -/
theorem isConflicting_iff_exists {interface : FieldedType} {possible : List FieldedType}
    {name : String} :
    interface.isConflicting possible name = true ↔
      ∃ field ∈ possible.flatMap interface.fieldsBeyond, field.name = name ∧
        ∃ other ∈ possible.flatMap interface.fieldsBeyond, other.name = name ∧
          field.type.equivalent other.type = false := by
  constructor
  · intro conflicting
    have listed : ∀ type ∈ ((possible.flatMap interface.fieldsBeyond).filter
        (·.name == name)).map (·.type),
        ∃ field ∈ possible.flatMap interface.fieldsBeyond, field.name = name ∧
          field.type = type := by
      intro type member
      obtain ⟨field, kept, rfl⟩ := List.mem_map.mp member
      obtain ⟨beyond, named⟩ := List.mem_filter.mp kept
      exact ⟨field, beyond, by simpa using named, rfl⟩
    rw [isConflicting] at conflicting
    split at conflicting
    · cases conflicting
    · rename_i first rest types
      rw [types] at listed
      obtain ⟨type, later, different⟩ := List.any_eq_true.mp conflicting
      obtain ⟨field, beyond, named, rfl⟩ := listed type (List.mem_cons_of_mem _ later)
      obtain ⟨other, otherBeyond, otherNamed, rfl⟩ := listed first (List.mem_cons_self ..)
      exact ⟨field, beyond, named, other, otherBeyond, otherNamed, by simpa using different⟩
  · rintro ⟨field, beyond, named, other, otherBeyond, otherNamed, different⟩
    by_contra agree
    rw [Bool.not_eq_true] at agree
    have equivalent :=
      equivalent_of_isConflicting_eq_false agree beyond named otherBeyond otherNamed
    rw [different] at equivalent
    cases equivalent

/-- The order of the types does not matter for conflicts. -/
theorem isConflicting_perm (interface : FieldedType) {possible others : List FieldedType}
    (perm : possible.Perm others) (name : String) :
    interface.isConflicting possible name = interface.isConflicting others name := by
  rw [Bool.eq_iff_iff, isConflicting_iff_exists, isConflicting_iff_exists]
  simp only [List.mem_flatMap, perm.mem_iff]

/-! ## Disagreement -/

/-- Two of some types define fields of a name with types that differ: in the number of levels, in
the nullability of one, or in the name. -/
def Disagree (possible : List FieldedType) (name : String) : Prop :=
  ∃ first ∈ possible, ∃ second ∈ possible,
    ∃ field ∈ first.fields.get? name, ∃ other ∈ second.fields.get? name,
      field.type.nullability ≠ other.type.nullability ∨ field.type.name ≠ other.type.name

/-- The fields of a name beyond an interface are those of the types, unless the interface defines
the name. -/
theorem mem_flatMap_fieldsBeyond_iff {interface : FieldedType} {possible : List FieldedType}
    (keyed : ∀ type ∈ possible, type.fields.Keyed Field.name) {name : String} {field : Field} :
    field ∈ possible.flatMap interface.fieldsBeyond ∧ field.name = name ↔
      name ∉ interface.fields.names ∧ ∃ type ∈ possible, field ∈ type.fields.get? name := by
  constructor
  · rintro ⟨member, rfl⟩
    obtain ⟨type, listed, beyond⟩ := List.mem_flatMap.mp member
    refine ⟨not_mem_names_of_mem_fieldsBeyond beyond, type, listed, ?_⟩
    exact (keyed type listed).get?_eq_some_iff.mpr ⟨(List.mem_filter.mp beyond).1, rfl⟩
  · rintro ⟨outside, type, listed, found⟩
    obtain ⟨declared, rfl⟩ := (keyed type listed).get?_eq_some_iff.mp found
    refine ⟨List.mem_flatMap.mpr ⟨type, listed, List.mem_filter.mpr ⟨declared, ?_⟩⟩, rfl⟩
    simpa [← Table.contains_iff] using outside

/-- There is a conflict about a name exactly when an interface does not define it and the types
disagree about it. -/
theorem isConflicting_iff_disagree {interface : FieldedType} {possible : List FieldedType}
    (keyed : ∀ type ∈ possible, type.fields.Keyed Field.name) {name : String} :
    interface.isConflicting possible name = true ↔
      name ∉ interface.fields.names ∧ Disagree possible name := by
  have beyond := @mem_flatMap_fieldsBeyond_iff interface possible keyed name
  have differ : ∀ {field other : Field}, field.type.equivalent other.type = false ↔
      field.type.nullability ≠ other.type.nullability ∨ field.type.name ≠ other.type.name := by
    intro field other
    rw [← Bool.not_eq_true, TypeRef.equivalent_iff_levels, not_and_or]
  rw [isConflicting_iff_exists]
  constructor
  · rintro ⟨field, member, named, other, otherMember, otherNamed, different⟩
    obtain ⟨outside, first, listed, found⟩ := beyond.mp ⟨member, named⟩
    obtain ⟨_, second, otherListed, otherFound⟩ := beyond.mp ⟨otherMember, otherNamed⟩
    exact ⟨outside, first, listed, second, otherListed, field, found, other, otherFound,
      differ.mp different⟩
  · rintro ⟨outside, first, listed, second, otherListed, field, found, other, otherFound, different⟩
    obtain ⟨member, named⟩ := beyond.mpr ⟨outside, first, listed, found⟩
    obtain ⟨otherMember, otherNamed⟩ := beyond.mpr ⟨outside, second, otherListed, otherFound⟩
    exact ⟨field, member, named, other, otherMember, otherNamed, differ.mpr different⟩

end FieldedType

/-! ## Aliases -/

theorem Schema.WellFormed.keyed_of_mem_possibleTypes {schema : Schema}
    (wellFormed : schema.WellFormed) {interface : String} :
    ∀ type ∈ schema.possibleTypes interface, type.fields.Keyed Field.name := by
  intro type possible
  have held := Schema.object_mem_of_mem_possibleTypes possible
  exact (wellFormed.fields_holds held rfl).keyed

/-- A field that stands in a fragment below a node goes by an alias, made of its name and that of
its type, exactly when the interface does not define it and the types that the interface may stand
for disagree about it. There are no other aliases. -/
def Node.AliasesDisagreeing (schema : Schema) (interface : FieldedType) (node : Node) : Prop :=
  ∀ inside ∈ node.inside,
    (inside.label = some (inside.name ++ "_" ++ inside.type) ↔
      inside.name ∉ interface.fields.names ∧
        FieldedType.Disagree (schema.possibleTypes interface.name) inside.name) ∧
    (inside.label = some (inside.name ++ "_" ++ inside.type) ∨ inside.label = none)

section Aliases

variable {schema : Schema} {config : Config}

theorem Node.IsExpanded.aliasesDisagreeing {node : Node} (expanded : node.IsExpanded schema config)
    (wellFormed : schema.WellFormed) {shown : Field}
    (found : schema.fieldOf? node.holder node.name = some shown) {interface : FieldedType}
    (typed : schema.type? shown.type.name = some (.interface interface)) :
    node.AliasesDisagreeing schema interface := by
  obtain ⟨own, fragments, unfolded⟩ := expanded.unfolded found typed
  intro inside member
  obtain ⟨holder, _, field, _, _, rfl, _⟩ := unfolded.of_mem_inside wellFormed member
  have conflicting :=
    @FieldedType.isConflicting_iff_disagree interface (schema.possibleTypes interface.name)
      wellFormed.keyed_of_mem_possibleTypes field.name
  rw [← conflicting, FieldedType.label?]
  split
  · rename_i aliased
    exact ⟨iff_of_true rfl aliased, .inl rfl⟩
  · rename_i plain
    exact ⟨iff_of_false (by simp) plain, .inr rfl⟩

/-- The nodes of what an expansion by name returns are expanded. -/
theorem Schema.WellFormed.nodes_expandNamed (wellFormed : schema.WellFormed) {site : Site}
    {type : TypeDef} {name : String} {before after : Progress} {result : Option Selection}
    (known : type ∈ schema.types.values)
    (returned : (expandNamed schema config site type name).Returns before result after) :
    ∀ node ∈ Selection.nodesOfAll schema type.name site.depth site.inFragment result.toList,
      node.IsExpanded schema config := by
  obtain ⟨field, found, expanded⟩ := field_of_returns_expandNamed returned
  have resolved : schema.type? type.name = some type :=
    wellFormed.types.types.keyed.get?_eq_some_iff.mpr ⟨known, rfl⟩
  have findable : schema.fieldOf? type.name field.name = some field := by
    rw [Schema.fieldOf?, resolved, Option.bind_some]
    exact wellFormed.findable known found
  have nodes := expanded.nodes wellFormed findable
  exact fun node member => (nodes node member).isExpanded

end Aliases

/-- Whatever was loaded, wherever a field is expanded and in every document: below a field whose
type is an interface, the fields in the fragments that go by an alias are those that the interface
does not define and about which the types that it may stand for disagree. In which order these types
come does not matter. -/
theorem Schema.Built.aliased_iff_disagree {schema : Schema} (built : schema.Built) :
    (∀ {config : Config} {site : Site} {type : TypeDef} {name : String} {before after : Progress}
      {result : Option Selection}, type ∈ schema.types.values →
      (expandNamed schema config site type name).Returns before result after →
      ∀ node ∈ Selection.nodesOfAll schema type.name site.depth site.inFragment result.toList,
      ∀ {shown : Field} {interface : FieldedType},
        schema.fieldOf? node.holder node.name = some shown →
        schema.type? shown.type.name = some (.interface interface) →
        node.AliasesDisagreeing schema interface) ∧
    (∀ {config : Config} {kind : OperationKind} {root : FieldedType} {field : Field}
      {before after : Array Event} {operation : Operation},
      schema.root? kind = some root → field ∈ root.fields.values →
      (Generation.operation schema config kind root field).Returns before operation after →
      ∀ node ∈ operation.document.nodes schema root.name,
      ∀ {shown : Field} {interface : FieldedType},
        schema.fieldOf? node.holder node.name = some shown →
        schema.type? shown.type.name = some (.interface interface) →
        node.AliasesDisagreeing schema interface) ∧
    (∀ (interface : FieldedType) {possible : List FieldedType},
      possible.Perm (schema.possibleTypes interface.name) → ∀ name,
      interface.isConflicting possible name =
        interface.isConflicting (schema.possibleTypes interface.name) name) := by
  have wellFormed := built.wellFormed
  refine ⟨?_, ?_, fun interface _ perm => interface.isConflicting_perm perm⟩
  · intro config site type name before after result known returned node member shown interface
      found typed
    have expanded := wellFormed.nodes_expandNamed known returned node member
    exact expanded.aliasesDisagreeing wellFormed found typed
  · intro config kind root field before after operation rooted declared returned node member shown
      interface found typed
    have expanded := wellFormed.nodes_expanded rooted declared returned node member
    exact expanded.aliasesDisagreeing wellFormed found typed

/-- In the schema with two interfaces the types disagree about the field that is aliased in a
fragment, and not about the one that has the name of an alias. -/
theorem pairSchema_aliased :
    pairSchema.Built ∧ ∃ operation after,
      (pairGeneration (pairField "Query" "n" "N" 14)).Returns #[] operation after ∧
      ∃ node ∈ operation.document.nodes pairSchema "Query",
        (⟨"A", some "x_A", "x"⟩ : Inside) ∈ node.inside ∧
        (⟨"A", none, "x_A"⟩ : Inside) ∈ node.inside ∧
        FieldedType.Disagree (pairSchema.possibleTypes "N") "x" ∧
        ¬ FieldedType.Disagree (pairSchema.possibleTypes "N") "x_A" := by
  have declared : pairField "Query" "n" "N" 14 ∈ pairQuery.fields.values := by decide
  let answers : List Inside :=
    [⟨"A", some "x_A", "x"⟩, ⟨"A", none, "x_A"⟩, ⟨"B", some "x_B", "x"⟩]
  have evaluated : ((pairGeneration (pairField "Query" "n" "N" 14)).run.run #[]).1.toOption.bind
      (fun operation => (operation.document.nodes pairSchema "Query").head?.map fun node =>
        (node.holder, node.name, node.inside)) = some ("Query", "n", answers) := by
    decide
  obtain ⟨operation, after, returned⟩ := pairGeneration_returns declared
  obtain ⟨node, member, found, inside⟩ := exists_node_of_eval declared returned evaluated
  have typed : pairSchema.type? "N" = some (.interface pairInterface) := by decide
  have exact := pairSchema_checked.built.aliased_iff_disagree.2.1 pairSchema_rooted declared
    returned node member found typed
  have aliased : (⟨"A", some "x_A", "x"⟩ : Inside) ∈ node.inside := by simp [inside, answers]
  have plain : (⟨"A", none, "x_A"⟩ : Inside) ∈ node.inside := by simp [inside, answers]
  refine ⟨pairSchema_checked.built, operation, after, returned, node, member, aliased, plain,
    ((exact _ aliased).1.mp rfl).2, ?_⟩
  intro disagree
  have outside : "x_A" ∉ pairInterface.fields.names := by decide
  cases (exact _ plain).1.mpr ⟨outside, disagree⟩

end SchemaUnfolding
