import SchemaUnfolding.Proofs.Interfaces.Standing

/-!
# Fragments for the members of a union

Which fields stand in the fragments below a field whose type is a union: the included fields of the
members that are not left out. None of them has an alias.
-/

namespace SchemaUnfolding

open Expansion

variable {schema : Schema} {config : Config}

/-! ## Fields whose type is a union -/

/-- What stands in the fragments below a node is the included fields of the members of a union that
are not left out at a site with some edges remembered, all without aliases. -/
def Node.SelectsMembers (schema : Schema) (config : Config) (union : UnionType) (edges : Edges)
    (site : Site) (node : Node) : Prop :=
  ∀ inside, inside ∈ node.inside ↔
    inside.label = none ∧ inside.type ∈ union.members.names ∧
      ∃ field ∈ schema.fieldsOf inside.type, field.name = inside.name ∧
        config.includes field = true ∧ field.StandsAt schema config edges site

/-- In the fragments below a node whose type is a union the members are selected. -/
theorem Node.IsExpanded.exists_selectsMembers {node : Node} (known : node.IsExpanded schema config)
    {field : Field} (found : schema.fieldOf? node.holder node.name = some field) {union : UnionType}
    (typed : schema.type? field.type.name = some (.union union)) :
    ∃ edges site, node.SelectsMembers schema config union edges site := by
  obtain ⟨same, site, before, after, foundSame, _, _, expanded⟩ := known
  cases found.symm.trans foundSame
  generalize shown : some (Selection.field node.label node.name node.arguments node.below) = result
    at expanded
  cases expanded with
  | leftOut => cases shown
  | @shown _ _ _ _ middle _ _ _ _ _ scope _ typedSame _ ownExpanded _ branched expanded =>
    cases typed.symm.trans typedSame
    rw [Option.some.injEq, Selection.field.injEq] at shown
    have own := (expandsAll_nil_iff.mp ownExpanded).1
    have typenames : (TypeDef.union union).typenames.flatMap Selection.inside = [] := by
      rw [TypeDef.typenames]
      split <;> rfl
    refine ⟨(middle.binding scope).edges, site.inFragmentBelow field.name, ?_⟩
    rintro ⟨type, label, name⟩
    rw [Node.inside, shown.2.2.2, own, List.nil_append, List.flatMap_append, typenames,
      List.nil_append, expanded.mem_inside_iff rfl, memberBranches?_eq_some branched]
    constructor
    · rintro ⟨_, listed, entry, entered, ⟨⟩, stands⟩
      obtain ⟨member, inMembers, rfl⟩ := List.mem_map.mp listed
      obtain ⟨unlabelled, declared, included⟩ := mem_memberBranch_iff.mp entered
      exact ⟨unlabelled, inMembers, entry.2, declared, rfl, included, stands⟩
    · rintro ⟨rfl, inMembers, inner, declared, rfl, included, stands⟩
      exact ⟨memberBranch schema config type, List.mem_map_of_mem inMembers, (none, inner),
        mem_memberBranch_iff.mpr ⟨rfl, declared, included⟩, rfl, stands⟩

end SchemaUnfolding
