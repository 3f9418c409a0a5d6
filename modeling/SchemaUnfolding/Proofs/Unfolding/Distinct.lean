import SchemaUnfolding.Proofs.Unfolding.Branches

/-!
# No path twice

In a well-formed schema the fields that an expansion follows from one place have different names,
and the fragments there are for different types. So no document selects a path twice, whether edges
may be repeated or not.
-/

namespace SchemaUnfolding

open Expansion

variable {schema : Schema} {config : Config}

/-! ## Names at one place -/

theorem Schema.WellFormed.fields_holds (wellFormed : schema.WellFormed) {type : TypeDef}
    (known : type ∈ schema.types.values) {fields : Table Field}
    (declares : type.fields? = some fields) :
    fields.Holds Field.name (Field.WellFormed type.name) := by
  have held := wellFormed.types.types.values type known
  cases type with
  | object type | interface type =>
    cases declares
    exact held.fields
  | _ => cases declares

theorem Schema.WellFormed.nodup_fieldsOf (wellFormed : schema.WellFormed) (name : String) :
    ((schema.fieldsOf name).map Field.name).Nodup := by
  rw [Schema.fieldsOf]
  cases known : (schema.type? name).bind TypeDef.fields? with
  | none => exact List.nodup_nil
  | some fields =>
    rcases Option.bind_eq_some_iff.mp known with ⟨type, found, declares⟩
    have held := Schema.mem_values_of_type? found
    exact (wellFormed.fields_holds held declares).keyed.nodup_map_values

theorem Schema.WellFormed.nodup_ownFields (wellFormed : schema.WellFormed) {type : TypeDef}
    (known : type ∈ schema.types.values) (config : Config) :
    (((ownFields config type).map fun inner => ((none : Option String), inner)).map
      (·.2.name)).Nodup := by
  rw [List.map_map]
  rw [ownFields]
  cases declares : type.fields? with
  | none => exact List.nodup_nil
  | some fields =>
    have all := (wellFormed.fields_holds known declares).keyed.nodup_map_values
    exact all.sublist (List.filter_sublist.map Field.name)

/-- The types that an interface may stand for have different names. -/
theorem Schema.WellFormed.nodup_possibleTypes (wellFormed : schema.WellFormed)
    (interface : String) : ((schema.possibleTypes interface).map FieldedType.name).Nodup := by
  have named : ∀ types : List TypeDef, ((types.filterMap TypeDef.object?).map
      FieldedType.name).Sublist (types.map TypeDef.name) := by
    intro types
    induction types with
    | nil => exact .slnil
    | cons type rest ih =>
      cases type with
      | object type => exact ih.cons_cons _
      | _ => exact ih.cons _
  have all := wellFormed.types.types.keyed.nodup_map_values
  exact (all.sublist (named _)).sublist (List.filter_sublist.map FieldedType.name)

/-- The fragments below a field are for different types. -/
theorem Schema.WellFormed.nodup_branches (wellFormed : schema.WellFormed) {type : TypeDef}
    {branches : List Branch} (known : branches? schema config type = some branches) :
    (branches.map Branch.type).Nodup := by
  cases type with
  | interface interface =>
    cases known
    rw [List.map_map]
    exact wellFormed.nodup_possibleTypes interface.name
  | union union =>
    rw [memberBranches?_eq_some known, List.map_map]
    exact (List.map_id union.members.names).symm ▸ union.members.nodup
  | _ =>
    cases known
    exact List.nodup_nil

/-- The fields in one fragment have different names. -/
theorem Schema.WellFormed.nodup_branch_fields (wellFormed : schema.WellFormed) {type : TypeDef}
    {branches : List Branch} (known : branches? schema config type = some branches) :
    ∀ branch ∈ branches, (branch.fields.map (·.2.name)).Nodup := by
  intro branch member
  cases type with
  | interface interface =>
    cases known
    rcases List.mem_map.mp member with ⟨type, possible, rfl⟩
    have all := (wellFormed.fields_holds (Schema.object_mem_of_mem_possibleTypes possible)
      rfl).keyed.nodup_map_values
    rw [implementorBranch, List.map_map]
    exact all.sublist ((List.filter_sublist.trans List.filter_sublist).map Field.name)
  | union union =>
    rw [memberBranches?_eq_some known] at member
    rcases List.mem_map.mp member with ⟨name, _, rfl⟩
    rw [memberBranch, List.map_map]
    exact (wellFormed.nodup_fieldsOf name).sublist (List.filter_sublist.map Field.name)
  | _ =>
    cases known
    cases member

/-! ## Where paths start -/

namespace Selection

/-- The paths of a field start with it. -/
theorem head?_path_of_mem_spots {condition label : Option String} {name : String}
    {arguments : List (String × String)} {selections : List Selection} {spot : Spot}
    (member : spot ∈ (field label name arguments selections).spots condition) :
    spot.path.head? = some ⟨condition, name⟩ := by
  rcases mem_spots_field_iff.mp member with rfl | ⟨inner, _, rfl⟩ <;> rfl

end Selection

theorem Selection.nodup_paths_field {condition label : Option String} {name : String}
    {arguments : List (String × String)} {selections : List Selection}
    (inside : ((Selection.spotsOfAll none selections).map Spot.path).Nodup)
    (below : ∀ spot ∈ Selection.spotsOfAll none selections, spot.path.head?.isSome = true) :
    (((Selection.field label name arguments selections).spots condition).map Spot.path).Nodup := by
  have longer : ((Selection.spotsOfAll none selections).map (Spot.under ⟨condition, name⟩)).map
      Spot.path = ((Selection.spotsOfAll none selections).map Spot.path).map
        (List.cons ⟨condition, name⟩) := by
    rw [List.map_map, List.map_map]
    rfl
  rw [Selection.spots, List.map_cons, longer, List.nodup_cons]
  constructor
  · intro repeated
    rcases List.mem_map.mp repeated with ⟨path, member, same⟩
    rcases List.mem_map.mp member with ⟨spot, known, rfl⟩
    have started := below spot known
    rw [(List.cons.inj same).2] at started
    cases started
  · exact inside.map (List.cons_injective)

theorem Expands.head?_path {label condition : Option String} {site : Site} {field : Field}
    {before after : Progress} {result : Option Selection}
    (expanded : Expands schema config label site field before result after) {spot : Spot}
    (member : spot ∈ Selection.spotsOfAll condition result.toList) :
    spot.path.head? = some ⟨condition, field.name⟩ := by
  cases expanded with
  | leftOut => simp at member
  | shown =>
    rw [Option.toList_some, Selection.spotsOfAll_cons, Selection.spotsOfAll_nil,
      List.append_nil] at member
    exact Selection.head?_path_of_mem_spots member

theorem ExpandsAll.head?_path {condition : Option String} {site : Site}
    {entries : List (Option String × Field)} {before after : Progress}
    {selections : List Selection}
    (expanded : ExpandsAll schema config site entries before selections after) {spot : Spot}
    (member : spot ∈ Selection.spotsOfAll condition selections) :
    ∃ name ∈ entries.map (·.2.name), spot.path.head? = some ⟨condition, name⟩ := by
  induction entries generalizing before selections with
  | nil =>
    rw [(expandsAll_nil_iff.mp expanded).1] at member
    simp at member
  | cons entry rest ih =>
    rcases expanded with _ | ⟨first, others⟩
    rw [Selection.spotsOfAll_append, List.mem_append] at member
    rw [List.map_cons]
    rcases member with here | later
    · exact ⟨_, List.mem_cons_self .., first.head?_path here⟩
    · rcases ih others later with ⟨name, known, starts⟩
      exact ⟨name, List.mem_cons_of_mem _ known, starts⟩

theorem ExpandsBranches.head?_path {site : Site} {branches : List Branch}
    {before after : Progress} {fragments : List Selection}
    (expanded : ExpandsBranches schema config site branches before fragments after) {spot : Spot}
    (member : spot ∈ Selection.spotsOfAll none fragments) :
    ∃ type ∈ branches.map Branch.type, ∃ name, spot.path.head? = some ⟨some type, name⟩ := by
  induction branches generalizing before fragments with
  | nil =>
    rw [(expandsBranches_nil_iff.mp expanded).1] at member
    simp at member
  | cons branch rest ih =>
    rcases expanded with _ | ⟨first, others⟩
    rw [Selection.spotsOfAll_append, Selection.spotsOfAll_fragment?, List.mem_append] at member
    rw [List.map_cons]
    rcases member with here | later
    · rcases first.head?_path here with ⟨name, _, starts⟩
      exact ⟨_, List.mem_cons_self .., name, starts⟩
    · rcases ih others later with ⟨type, known, starts⟩
      exact ⟨type, List.mem_cons_of_mem _ known, starts⟩

/-! ## No path twice -/

/-- The paths of two lists of spots are all different when each list has no path twice and no path
of the one starts like a path of the other. -/
theorem Spot.nodup_paths_append {first second : List Spot} (firstNodup : (first.map path).Nodup)
    (secondNodup : (second.map path).Nodup)
    (apart : ∀ spot ∈ first, ∀ other ∈ second, spot.path.head? ≠ other.path.head?) :
    ((first ++ second).map path).Nodup := by
  rw [List.map_append, List.nodup_append]
  refine ⟨firstNodup, secondNodup, ?_⟩
  intro path here other there same
  rcases List.mem_map.mp here with ⟨spot, member, rfl⟩
  rcases List.mem_map.mp there with ⟨later, known, rfl⟩
  exact apart spot member later known (congrArg List.head? same)

mutual

theorem Expands.nodup_paths {label : Option String} {site : Site} {field : Field}
    {before after : Progress} {result : Option Selection}
    (expanded : Expands schema config label site field before result after)
    (wellFormed : schema.WellFormed) (condition : Option String) :
    ((Selection.spotsOfAll condition result.toList).map Spot.path).Nodup := by
  match expanded with
  | .leftOut _ _ _ => simp
  | .shown found _ ownExpanded _ known expanded =>
    rename_i middle type own fragments arguments scope branches _ _
    have ownNodup := ownExpanded.nodup_paths wellFormed
      (wellFormed.nodup_ownFields (Schema.mem_values_of_type? found) config) none
    have branchesNodup := expanded.nodup_paths wellFormed (wellFormed.nodup_branches known)
      (wellFormed.nodup_branch_fields known)
    have split : Selection.spotsOfAll none (own ++ (type.typenames ++ fragments)) =
        Selection.spotsOfAll none own ++ Selection.spotsOfAll none fragments := by
      rw [Selection.spotsOfAll_append, Selection.spotsOfAll_append,
        Selection.spotsOfAll_typenames, List.nil_append]
    rw [Option.toList_some, Selection.spotsOfAll_cons, Selection.spotsOfAll_nil, List.append_nil]
    apply Selection.nodup_paths_field
    · rw [split]
      apply Spot.nodup_paths_append ownNodup branchesNodup
      intro spot here other there same
      rcases ownExpanded.head?_path here with ⟨_, _, begins⟩
      rcases expanded.head?_path there with ⟨_, _, _, starts⟩
      rw [begins, starts] at same
      cases same
    · intro spot member
      rw [split, List.mem_append] at member
      rcases member with here | there
      · rcases ownExpanded.head?_path here with ⟨_, _, begins⟩
        rw [begins]
        rfl
      · rcases expanded.head?_path there with ⟨_, _, _, starts⟩
        rw [starts]
        rfl

theorem ExpandsAll.nodup_paths {site : Site} {entries : List (Option String × Field)}
    {before after : Progress} {selections : List Selection}
    (expanded : ExpandsAll schema config site entries before selections after)
    (wellFormed : schema.WellFormed) (distinct : (entries.map (·.2.name)).Nodup)
    (condition : Option String) :
    ((Selection.spotsOfAll condition selections).map Spot.path).Nodup := by
  match expanded with
  | .nil => simp
  | .cons first others =>
    rw [List.map_cons, List.nodup_cons] at distinct
    rw [Selection.spotsOfAll_append]
    apply Spot.nodup_paths_append (first.nodup_paths wellFormed condition)
      (others.nodup_paths wellFormed distinct.2 condition)
    intro spot here other there same
    rcases others.head?_path there with ⟨name, known, starts⟩
    rw [first.head?_path here, starts, Option.some.injEq, Step.mk.injEq] at same
    exact distinct.1 (same.2 ▸ known)

theorem ExpandsBranches.nodup_paths {site : Site} {branches : List Branch}
    {before after : Progress} {fragments : List Selection}
    (expanded : ExpandsBranches schema config site branches before fragments after)
    (wellFormed : schema.WellFormed) (distinct : (branches.map Branch.type).Nodup)
    (fields : ∀ branch ∈ branches, (branch.fields.map (·.2.name)).Nodup) :
    ((Selection.spotsOfAll none fragments).map Spot.path).Nodup := by
  match expanded with
  | .nil => simp
  | .cons first others =>
    rw [List.map_cons, List.nodup_cons] at distinct
    rw [Selection.spotsOfAll_append, Selection.spotsOfAll_fragment?]
    apply Spot.nodup_paths_append
      (first.nodup_paths wellFormed (fields _ (List.mem_cons_self ..)) _)
      (others.nodup_paths wellFormed distinct.2 fun branch member =>
        fields branch (List.mem_cons_of_mem _ member))
    intro spot here other there same
    rcases first.head?_path here with ⟨_, _, begins⟩
    rcases others.head?_path there with ⟨type, known, name, starts⟩
    rw [begins, starts, Option.some.injEq, Step.mk.injEq, Option.some.injEq] at same
    exact distinct.1 (same.1 ▸ known)

end

end SchemaUnfolding
