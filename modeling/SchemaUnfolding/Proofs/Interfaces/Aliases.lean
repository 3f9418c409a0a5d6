import SchemaUnfolding.Proofs.Interfaces.Fragments
import SchemaUnfolding.Proofs.Schema.References

/-!
# Aliases in fragments

Fields of one name in several fragments below a field can be merged when their types agree. Where
the types differ each field goes by an alias, which is made of its own name and that of its type. An
alias is not compared with the names that are there, so it may be one of them; nothing else can go
wrong.
-/

namespace SchemaUnfolding

open Expansion

/-! ## Fragments that can be merged -/

namespace Node

/-- The fragments below a node whose type is an interface can be merged: fields that answer by one
name are fields of one name with equivalent types, no two in one fragment do, and none answers by
the name of a field of the interface. -/
structure IsMergeable (schema : Schema) (interface : FieldedType) (node : Node) : Prop where
  agreeing : ∀ first ∈ node.inside, ∀ second ∈ node.inside, first.response = second.response →
    first.name = second.name ∧
      ∃ field other, schema.fieldOf? first.type first.name = some field ∧
        schema.fieldOf? second.type second.name = some other ∧
        field.type.equivalent other.type = true
  distinct : ∀ fragment ∈ node.below, (fragment.inside.map Inside.response).Nodup
  beyond : ∀ inside ∈ node.inside, inside.response ∉ interface.fields.names

/-- No alias in the fragments below a node is the name of a field of the interface, or what a field
of another name answers by. -/
def AliasesFree (interface : FieldedType) (node : Node) : Prop :=
  ∀ first ∈ node.inside, first.label.isSome = true →
    first.response ∉ interface.fields.names ∧
      ∀ second ∈ node.inside, second.response = first.response → second.name = first.name

instance (interface : FieldedType) (node : Node) : Decidable (node.AliasesFree interface) :=
  inferInstanceAs (Decidable (∀ first ∈ node.inside, first.label.isSome = true →
    first.response ∉ interface.fields.names ∧
      ∀ second ∈ node.inside, second.response = first.response → second.name = first.name))

end Node

/-! ## Conflicts -/

/-- Where there is no conflict about a name, all fields of the name beyond an interface have
equivalent types. -/
theorem FieldedType.equivalent_of_isConflicting_eq_false {interface : FieldedType}
    {possible : List FieldedType} {name : String}
    (agree : interface.isConflicting possible name = false) {field other : Field}
    (member : field ∈ possible.flatMap interface.fieldsBeyond) (named : field.name = name)
    (otherMember : other ∈ possible.flatMap interface.fieldsBeyond)
    (otherNamed : other.name = name) :
    field.type.equivalent other.type = true := by
  have written : ∃ expr, ∀ type ∈ ((possible.flatMap interface.fieldsBeyond).filter
      (·.name == name)).map (·.type), type.expr = expr := by
    rw [isConflicting] at agree
    split at agree
    · rename_i none
      rw [none]
      exact ⟨.named "", by simp⟩
    · rename_i first rest some
      rw [some]
      refine ⟨first.expr, ?_⟩
      intro type member
      rcases List.mem_cons.mp member with rfl | later
      · rfl
      · have equivalent := List.any_eq_false.mp agree type later
        exact TypeRef.equivalent_iff.mp (by simpa using equivalent)
  obtain ⟨expr, same⟩ := written
  have listed : ∀ {inner : Field}, inner ∈ possible.flatMap interface.fieldsBeyond →
      inner.name = name → inner.type.expr = expr := by
    intro inner member named
    apply same
    exact List.mem_map_of_mem (List.mem_filter.mpr ⟨member, by simpa using named⟩)
  rw [TypeRef.equivalent_iff, listed member named, listed otherMember otherNamed]

/-- An alias tells the type of its field. -/
theorem name_eq_of_label_eq {name type other : String}
    (same : name ++ "_" ++ type = name ++ "_" ++ other) : type = other := by
  have characters := congrArg String.toList same
  simp only [String.toList_append, List.append_cancel_left_eq] at characters
  exact String.toList_inj.mp characters

section Merging

variable {schema : Schema} {config : Config} {interface : FieldedType} {node : Node}
  {own fragments : List Selection}

/-- Fields that answer by one name are fields of one name, when aliases are free. -/
theorem Node.AliasesFree.name_eq (free : node.AliasesFree interface) {first second : Inside}
    (member : first ∈ node.inside) (otherMember : second ∈ node.inside)
    (same : first.response = second.response) : first.name = second.name := by
  cases label : first.label with
  | some aliased =>
    exact ((free first member (by simp [label])).2 second otherMember same.symm).symm
  | none =>
    cases otherLabel : second.label with
    | some aliased => exact (free second otherMember (by simp [otherLabel])).2 first member same
    | none => simpa [Inside.response, label, otherLabel] using same

/-- Two fields of one name that answer by one name have equivalent types. -/
theorem Node.Unfolded.equivalent (unfolded : node.Unfolded schema config interface own fragments)
    (wellFormed : schema.WellFormed) {first second : Inside} (member : first ∈ node.inside)
    (otherMember : second ∈ node.inside) (same : first.response = second.response)
    (named : first.name = second.name) :
    ∃ field other, schema.fieldOf? first.type first.name = some field ∧
      schema.fieldOf? second.type second.name = some other ∧
      field.type.equivalent other.type = true := by
  obtain ⟨holder, possible, field, beyond, _, rfl, found⟩ :=
    unfolded.of_mem_inside wellFormed member
  obtain ⟨otherHolder, otherPossible, other, otherBeyond, _, rfl, otherFound⟩ :=
    unfolded.of_mem_inside wellFormed otherMember
  refine ⟨field, other, found, otherFound, ?_⟩
  dsimp only at named found otherFound
  simp only [Inside.response, FieldedType.label?, ← named] at same
  cases conflicting : interface.isConflicting (schema.possibleTypes interface.name) field.name with
  | false =>
    exact FieldedType.equivalent_of_isConflicting_eq_false conflicting
      (List.mem_flatMap.mpr ⟨holder, possible, beyond⟩) rfl
      (List.mem_flatMap.mpr ⟨otherHolder, otherPossible, otherBeyond⟩) named.symm
  | true =>
    simp only [conflicting, if_true, Option.getD_some] at same
    rw [name_eq_of_label_eq same, named, otherFound, Option.some.injEq] at found
    rw [found, TypeRef.equivalent_iff]

/-- The fragments below a node whose type is an interface can be merged exactly when aliases are
free. -/
theorem Node.Unfolded.isMergeable_iff
    (unfolded : node.Unfolded schema config interface own fragments)
    (wellFormed : schema.WellFormed) :
    node.IsMergeable schema interface ↔ node.AliasesFree interface := by
  constructor
  · intro mergeable first member _
    refine ⟨mergeable.beyond first member, ?_⟩
    intro second otherMember same
    exact (mergeable.agreeing second otherMember first member same).1
  · intro free
    constructor
    · intro first member second otherMember same
      have named := free.name_eq member otherMember same
      exact ⟨named, unfolded.equivalent wellFormed member otherMember same named⟩
    · intro fragment known
      cases fragment with
      | fragment type selections =>
        have names := unfolded.nodup_names wellFormed known
        rw [Selection.inside, List.map_map]
        apply List.Nodup.map_on _ (List.Nodup.of_map _ names)
        intro head listed other otherListed same
        apply List.inj_on_of_nodup_map names listed otherListed
        exact free.name_eq
          (List.mem_flatMap.mpr ⟨_, known, List.mem_map.mpr ⟨head, listed, rfl⟩⟩)
          (List.mem_flatMap.mpr ⟨_, known, List.mem_map.mpr ⟨other, otherListed, rfl⟩⟩) same
      | _ => exact List.nodup_nil
    · intro inside member
      cases label : inside.label with
      | some aliased => exact (free inside member (by simp [label])).1
      | none =>
        obtain ⟨holder, _, field, beyond, _, rfl, _⟩ := unfolded.of_mem_inside wellFormed member
        rw [Inside.response, label]
        exact FieldedType.not_mem_names_of_mem_fieldsBeyond beyond

end Merging

/-! ## Documents -/

/-- Whatever was loaded: below a field of a document whose type is an interface, the fragments can
be merged exactly when no alias in them is the name of a field of the interface, or what a field of
another name answers by. -/
theorem Schema.Built.mergeable_iff_aliasesFree {schema : Schema} (built : schema.Built)
    {config : Config} {kind : OperationKind} {root : FieldedType} {field : Field}
    (rooted : schema.root? kind = some root) (declared : field ∈ root.fields.values)
    {before after : Array Event} {operation : Operation}
    (returned : (Generation.operation schema config kind root field).Returns before operation
      after) {node : Node} (member : node ∈ operation.document.nodes schema root.name)
    {shown : Field} (found : schema.fieldOf? node.holder node.name = some shown)
    {interface : FieldedType} (typed : schema.type? shown.type.name = some (.interface interface)) :
    node.IsMergeable schema interface ↔ node.AliasesFree interface := by
  have wellFormed := built.wellFormed
  have expanded := wellFormed.nodes_expanded rooted declared returned node member
  obtain ⟨own, fragments, unfolded⟩ := expanded.unfolded found typed
  exact unfolded.isMergeable_iff wellFormed

/-- Below a field of the schema with two interfaces two fields of one fragment answer by the same
name: one by its alias, the other by its own. -/
theorem pairSchema_not_mergeable :
    pairSchema.Built ∧ ∃ operation after,
      (pairGeneration (pairField "Query" "n" "N" 14)).Returns #[] operation after ∧
      ∃ node ∈ operation.document.nodes pairSchema "Query",
        pairSchema.fieldOf? node.holder node.name = some (pairField "Query" "n" "N" 14) ∧
        pairSchema.type? "N" = some (.interface pairInterface) ∧
        ¬ node.IsMergeable pairSchema pairInterface := by
  have declared : pairField "Query" "n" "N" 14 ∈ pairQuery.fields.values := by decide
  let answers : List Inside :=
    [⟨"A", some "x_A", "x"⟩, ⟨"A", none, "x_A"⟩, ⟨"B", some "x_B", "x"⟩]
  have evaluated : ((pairGeneration (pairField "Query" "n" "N" 14)).run.run #[]).1.toOption.bind
      (fun operation => (operation.document.nodes pairSchema "Query").head?.map fun node =>
        (node.holder, node.name, node.inside)) = some ("Query", "n", answers) := by
    decide
  obtain ⟨operation, after, returned⟩ := pairGeneration_returns declared
  obtain ⟨node, member, found, inside⟩ := exists_node_of_eval declared returned evaluated
  refine ⟨pairSchema_checked.built, operation, after, returned, node, member, found,
    by decide, ?_⟩
  intro mergeable
  have agreed := mergeable.agreeing ⟨"A", some "x_A", "x"⟩ (by simp [inside, answers])
    ⟨"A", none, "x_A"⟩ (by simp [inside, answers]) rfl
  exact absurd agreed.1 (by decide)

/-- Below the other field of that root type the aliases are free, so the fragments can be merged. -/
theorem pairSchema_mergeable :
    ∃ operation after,
      (pairGeneration (pairField "Query" "m" "M" 19)).Returns #[] operation after ∧
      ∃ node ∈ operation.document.nodes pairSchema "Query",
        node.inside = [⟨"B", some "x_B", "x"⟩, ⟨"C", some "x_C", "x"⟩] ∧
        node.IsMergeable pairSchema pairDeprecating := by
  have declared : pairField "Query" "m" "M" 19 ∈ pairQuery.fields.values := by decide
  let answers : List Inside := [⟨"B", some "x_B", "x"⟩, ⟨"C", some "x_C", "x"⟩]
  have evaluated : ((pairGeneration (pairField "Query" "m" "M" 19)).run.run #[]).1.toOption.bind
      (fun operation => (operation.document.nodes pairSchema "Query").head?.map fun node =>
        (node.holder, node.name, node.inside)) = some ("Query", "m", answers) := by
    decide
  obtain ⟨operation, after, returned⟩ := pairGeneration_returns declared
  obtain ⟨node, member, found, inside⟩ := exists_node_of_eval declared returned evaluated
  have free : node.AliasesFree pairDeprecating := by
    rw [Node.AliasesFree, inside]
    decide
  exact ⟨operation, after, returned, node, member, inside,
    (pairSchema_checked.built.mergeable_iff_aliasesFree pairSchema_rooted declared returned member
      found (by decide)).mpr free⟩

end SchemaUnfolding
