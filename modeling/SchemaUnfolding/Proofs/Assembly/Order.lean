import SchemaUnfolding.Proofs.Assembly.Contents

/-!
# The order inside a type

A type has first the members of its definition, then those of the extensions that were loaded after
it, and last those of the extensions that were loaded before it and had to wait. This is the order
of loading exactly when one of the two kinds of extension brings nothing.
-/

namespace SchemaUnfolding

/-- The names of what a type holds: of its fields, values or members, in order. -/
def TypeDef.memberNames : TypeDef → List String
  | object type | interface type => type.fields.names
  | union type => type.members.names
  | enum type => type.values.names
  | input type => type.fields.names
  | _ => []

/-- The names of what parts hold, part by part. -/
def Part.namesOf (parts : List Part) : List String := parts.flatMap Part.memberNames

/-- A type that has gathered parts that fit together has their members in the order of the parts. -/
theorem Part.Compatible.memberNames_gather {definition : Part} {parts : List Part}
    (compatible : Compatible definition parts) :
    (TypeDef.gather definition parts).memberNames = Part.namesOf parts := by
  have kinds := compatible.kinds
  rcases definition with ⟨home, position, description, name, directives, body⟩
  cases body with
  | scalar =>
    exact (compatible.flatMap_eq_nil fun part same =>
      Sdl.TypeBody.memberNames_eq_nil same).symm
  | object =>
    exact compatible.names_column fun part member => map_fst_fields (.inl (kinds part member))
  | interface =>
    exact compatible.names_column fun part member => map_fst_fields (.inr (kinds part member))
  | union => exact compatible.names_column fun part member => map_fst_members (kinds part member)
  | enum => exact compatible.names_column fun part member => map_fst_values (kinds part member)
  | input =>
    exact compatible.names_column fun part member => map_fst_inputFields (kinds part member)

namespace Script

variable {before after : Script} {file : Option String} {decl : Sdl.TypeDecl}

/-- The extensions before the first definition of a type are its earlier ones. -/
theorem earlier_of_split (undefined : decl.name ∉ before.definitions.map Part.name) :
    earlier decl.name (before ++ (file, .type decl) :: after) = before.extensionsOf decl.name := by
  have first : earlier decl.name ((file, .type decl) :: after) = [] := by
    simp [earlier, defines, extensionsOf, extensions]
  rw [earlier_append_of_undefined undefined, first, List.append_nil]

theorem later_of_split (undefined : decl.name ∉ before.definitions.map Part.name) :
    later decl.name (before ++ (file, .type decl) :: after) = after.extensionsOf decl.name := by
  have first : later decl.name ((file, .type decl) :: after) = after.extensionsOf decl.name := by
    simp [later, defines, extensionsOf, extensions]
  rw [later_append_of_undefined undefined, first]

end Script

/-- Two lists can be exchanged without a change to their concatenation, which has no duplicates,
exactly when one of them is empty. -/
theorem append_comm_iff_of_nodup {α : Type} {first second : List α}
    (nodup : (first ++ second).Nodup) :
    first ++ second = second ++ first ↔ first = [] ∨ second = [] := by
  constructor
  · intro same
    rcases first with _ | ⟨head, rest⟩
    · exact .inl rfl
    · rcases second with _ | ⟨other, later⟩
      · exact .inr rfl
      · rw [List.cons_append, List.cons_append, List.cons.injEq] at same
        exact (List.disjoint_of_nodup_append nodup (List.mem_cons_self ..)
          (same.1 ▸ List.mem_cons_self ..)).elim
  · rintro (rfl | rfl) <;> simp

namespace SchemaBuilder

variable {before after : Script} {builder : SchemaBuilder} {schema : Schema}
  {file : Option String} {decl : Sdl.TypeDecl}

/-- The members of a definition come first, then those of the extensions loaded after it, and then
those of the extensions loaded before it. They are in the order of loading exactly when the
extensions on one side of the definition bring no members. -/
theorem LoadedFrom.members_in_order
    (loaded : LoadedFrom (before ++ (file, .type decl) :: after) builder)
    (built : builder.build = .ok schema) :
    let early := Part.namesOf (before.extensionsOf decl.name)
    let late := Part.namesOf (after.extensionsOf decl.name)
    ∃ type, schema.type? decl.name = some type ∧
      type.memberNames = decl.body.memberNames ++ (late ++ early) ∧
      (type.memberNames = decl.body.memberNames ++ (early ++ late) ↔ early = [] ∨ late = []) := by
  intro early late
  rcases (Entered.of_loadedFrom loaded).of_build built with ⟨acceptable, assembled⟩
  have known : (file, decl) ∈ Script.definitions (before ++ (file, .type decl) :: after) := by
    simp [Script.definitions]
  have undefined : decl.name ∉ before.definitions.map Part.name := fun member =>
    acceptable.undefined_before (List.mem_append_right _ member)
  have compatible := assembled.compatible _ known
  have found := assembled.found _ known
  -- The definition is the first of its name, so it cuts the extensions where it cuts the script.
  dsimp only [Part.name] at compatible found
  rw [Script.earlier_of_split undefined, Script.later_of_split undefined] at compatible found
  have names : (TypeDef.gather (file, decl) ((file, decl) :: (after.extensionsOf decl.name ++
      before.extensionsOf decl.name))).memberNames = decl.body.memberNames ++ (late ++ early) := by
    rw [compatible.memberNames_gather]
    simp [Part.namesOf, Part.memberNames, early, late]
  have distinct : (late ++ early).Nodup := by
    have members := compatible.members
    rw [List.flatMap_cons, List.flatMap_append] at members
    exact members.of_append_right
  refine ⟨_, found, names, ?_⟩
  rw [names, List.append_cancel_left_eq, append_comm_iff_of_nodup distinct, or_comm]

end SchemaBuilder

/-- The field of the file that was loaded last comes before the field of the file that was loaded
first. -/
theorem scatteredSchema_members_in_order :
    SchemaBuilder.LoadedFrom scatteredScript scatteredBuilder ∧
      scatteredBuilder.build = .ok scatteredSchema ∧
      ∃ type, scatteredSchema.type? "Query" = some type ∧ type.memberNames = ["a", "c", "b"] ∧
        type.memberNames ≠ ["a", "b", "c"] := by
  have loaded : SchemaBuilder.LoadedFrom
      ([(some "early.graphql", .extension (scatteredPart 8 "b" 21))] ++
        (some "base.graphql", .type (scatteredPart 1 "a" 14)) ::
          [(some "late.graphql", .extension (scatteredPart 8 "c" 21))]) scatteredBuilder :=
    loadedFrom_scatteredScript
  rcases loaded.members_in_order build_scatteredBuilder with ⟨type, found, names, ordered⟩
  refine ⟨loaded, build_scatteredBuilder, type, found, names, fun same => ?_⟩
  rcases ordered.mp same with none | none <;> cases none

/-- A built schema need not have the members of a type in the order of loading. -/
theorem scatteredSchema_not_in_order :
    ¬ ∀ script builder schema definition type,
      SchemaBuilder.LoadedFrom script builder → builder.build = .ok schema →
      definition ∈ script.definitions → schema.type? definition.2.name = some type →
      type.memberNames = definition.2.body.memberNames ++
        Part.namesOf (script.extensionsOf definition.2.name) := by
  intro ordered
  have defined : (some "base.graphql", scatteredPart 1 "a" 14) ∈ scatteredScript.definitions :=
    List.mem_singleton.mpr rfl
  have found : scatteredSchema.type? "Query" = some (scatteredQuery
      [scatteredField "base.graphql" "a" 14, scatteredField "late.graphql" "c" 21,
        scatteredField "early.graphql" "b" 21]) := by
    decide
  have names := ordered _ _ _ _ _ loadedFrom_scatteredScript build_scatteredBuilder defined found
  exact absurd names (by decide)

end SchemaUnfolding
