import SchemaUnfolding.Proofs.Interfaces.Fragments

/-!
# Fields that are not left out

A field without fields of its own is never left out. Whether another one is depends on its name, its
site and the edges that are remembered. Inside fragments no edge is remembered, so there the edges
that were remembered in front of the first fragment decide for all of them.
-/

namespace SchemaUnfolding

open Expansion

variable {schema : Schema} {config : Config}

/-- The type of a field is a composite, so the field may be left out. -/
def Schema.IsCompositeField (schema : Schema) (field : Field) : Prop :=
  ∃ type, schema.type? field.type.name = some type ∧ type.isComposite = true

/-- With these edges remembered a field is not left out at a site. -/
def Field.StandsAt (schema : Schema) (config : Config) (edges : Edges) (site : Site)
    (field : Field) : Prop :=
  schema.IsCompositeField field → omission? config edges site field = none

/-- Only the name of a field matters for whether it is left out. -/
theorem Expansion.omission?_eq_none_congr {edges : Edges} {site : Site} {field other : Field}
    (named : field.name = other.name) :
    omission? config edges site field = none ↔ omission? config edges site other = none := by
  rw [omission?_eq_none_iff, omission?_eq_none_iff, named]

/-- A field is expanded into a selection exactly when it is not left out. -/
theorem Expands.isSome_iff {label : Option String} {site : Site} {field : Field}
    {before after : Progress} {result : Option Selection}
    (expanded : Expands schema config label site field before result after) :
    result.isSome = true ↔ field.StandsAt schema config before.edges site := by
  cases expanded with
  | leftOut found composite omitted =>
    refine iff_of_false Bool.false_ne_true fun stands => ?_
    cases omitted.symm.trans (stands ⟨_, found, composite⟩)
  | shown found admitted =>
    refine iff_of_true rfl ?_
    rintro ⟨type, same, composite⟩
    cases found.symm.trans same
    exact admitted composite

/-- A field that was selected among others was not left out with the edges remembered then. -/
theorem ExpandsAll.exists_standsAt {site : Site} {entries : List (Option String × Field)}
    {before after : Progress} {selections : List Selection}
    (expanded : ExpandsAll schema config site entries before selections after) {name : String}
    (member : name ∈ selections.filterMap Selection.fieldName?) :
    ∃ entry ∈ entries, entry.2.name = name ∧
      ∃ edges, entry.2.StandsAt schema config edges site := by
  match expanded with
  | .nil => simp at member
  | .cons first others =>
    rw [List.filterMap_append, List.mem_append] at member
    rcases member with here | later
    · have shown := first.isSome_iff
      cases first with
      | leftOut => simp at here
      | shown =>
        obtain rfl : name = _ := by simpa [Selection.fieldName?] using here
        exact ⟨_, List.mem_cons_self .., rfl, _, shown.mp rfl⟩
    · obtain ⟨entry, listed, known⟩ := others.exists_standsAt later
      exact ⟨entry, List.mem_cons_of_mem _ listed, known⟩

/-- Among expanded fields nothing stands in a fragment. -/
theorem ExpandsAll.flatMap_inside {site : Site} {entries : List (Option String × Field)}
    {before after : Progress} {selections : List Selection}
    (expanded : ExpandsAll schema config site entries before selections after) :
    selections.flatMap Selection.inside = [] := by
  rw [List.flatMap_eq_nil_iff]
  intro selection member
  obtain ⟨_, _, _, _, rfl⟩ := expanded.exists_field selection member
  rfl

/-! ## Fragments -/

/-- Among expanded fragments there is no field. -/
theorem ExpandsBranches.filterMap_fieldName? {site : Site} {branches : List Branch}
    {before after : Progress} {fragments : List Selection}
    (expanded : ExpandsBranches schema config site branches before fragments after) :
    fragments.filterMap Selection.fieldName? = [] := by
  rw [List.filterMap_eq_nil_iff]
  intro selection member
  obtain ⟨_, _, _, _, _, rfl, _⟩ := expanded.exists_branch selection member
  rfl

/-- In a fragment the fields of exactly those entries stand that are not left out with the edges
remembered in front of it. -/
theorem ExpandsAll.mem_heads_iff {site : Site} {entries : List (Option String × Field)}
    {before after : Progress} {selections : List Selection}
    (expanded : ExpandsAll schema config site entries before selections after)
    (below : site.inFragment = true) (head : Option String × String) :
    head ∈ selections.filterMap Selection.head? ↔
      ∃ entry ∈ entries, head = (entry.1, entry.2.name) ∧
        entry.2.StandsAt schema config before.edges site := by
  match expanded with
  | .nil => simp
  | .cons first others =>
    have shown := first.isSome_iff
    have tail := others.mem_heads_iff below head
    rw [first.edges_eq below] at tail
    rw [List.filterMap_append, List.mem_append, tail, List.exists_mem_cons_iff, ← shown]
    cases first with
    | leftOut => simp
    | shown => simp [Selection.head?]

/-- A fragment that is left out because it is empty has no fields either. -/
theorem Expansion.flatMap_inside_fragment? (type : String) (selections : List Selection) :
    (fragment? type selections).toList.flatMap Selection.inside =
      (selections.filterMap Selection.head?).map fun head => ⟨type, head.1, head.2⟩ := by
  rw [fragment?]
  cases selections with
  | nil => rfl
  | cons first rest => exact List.append_nil _

/-- The same for several fragments: nothing that stands in one of them matters for the next. -/
theorem ExpandsBranches.mem_inside_iff {site : Site} {branches : List Branch}
    {before after : Progress} {fragments : List Selection}
    (expanded : ExpandsBranches schema config site branches before fragments after)
    (below : site.inFragment = true) (inside : Inside) :
    inside ∈ fragments.flatMap Selection.inside ↔
      ∃ branch ∈ branches, ∃ entry ∈ branch.fields,
        inside = ⟨branch.type, entry.1, entry.2.name⟩ ∧
          entry.2.StandsAt schema config before.edges site := by
  match expanded with
  | .nil => simp
  | .cons first others =>
    have tail := others.mem_inside_iff below inside
    rw [first.edges_eq below] at tail
    rw [List.flatMap_append, List.mem_append, tail, List.exists_mem_cons_iff,
      flatMap_inside_fragment?, List.mem_map]
    refine or_congr_left ?_
    constructor
    · rintro ⟨head, member, rfl⟩
      obtain ⟨entry, listed, rfl, stands⟩ := (first.mem_heads_iff below head).mp member
      exact ⟨entry, listed, rfl, stands⟩
    · rintro ⟨entry, listed, rfl, stands⟩
      exact ⟨_, (first.mem_heads_iff below _).mpr ⟨entry, listed, rfl, stands⟩, rfl⟩

end SchemaUnfolding
