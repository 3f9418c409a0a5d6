import SchemaUnfolding.Proofs.Assembly.Roots
import SchemaUnfolding.Proofs.Assembly.Types

/-!
# Entered scripts

A builder that a script was entered into holds the root types that the script chooses and the types
that it defines. It has applied the extensions that stand later than their definition and keeps the
earlier ones waiting.
-/

namespace SchemaUnfolding

namespace SchemaBuilder

/-- What a builder holds after a script was entered. -/
structure Entered (script : Script) (builder : SchemaBuilder) : Prop where
  types : Assembled script.definitions (script.later ·) builder.types
  pending : ∀ name, (builder.pending.filter fun part : Part => part.name = name) =
    script.earlier name
  chosen : Chosen script.picks builder
  distinct : (script.picks.map fun choice => choice.2.name).Nodup

namespace Entered

variable {script rest : Script} {builder next : SchemaBuilder} {file : Option String}

theorem nil : Entered [] .empty where
  types := Assembled.builtIns_only _
  pending _ := rfl
  chosen := chosen_empty
  distinct := List.nodup_nil

/-- Whether the rules are taken for granted does not matter. -/
theorem assuming (entered : Entered script builder) (assumeValid : Bool) :
    Entered script { builder with assumeValid } where
  types := entered.types
  pending := entered.pending
  chosen := ⟨entered.chosen.kinds, fun operation root => by
    rw [← entered.chosen.chosen operation root]
    cases operation <;> rfl⟩
  distinct := entered.distinct

/-- A builder has a type of a name exactly when it comes with every schema or was defined. -/
theorem mem_names_iff (entered : Entered script builder) {name : String} :
    name ∈ builder.types.names ↔
      name ∈ TypeDef.builtIns.names ∨ name ∈ script.definitions.map Part.name := by
  rw [entered.types.names, List.mem_append]

/-! ## One more entry -/

/-- An entry that is no extension moves no extension. -/
theorem pending_concat {definition : Sdl.Definition} (entered : Entered script builder)
    (extensionless : Script.extensions [(file, definition)] = [])
    (kept : next.pending = builder.pending) (name : String) :
    (next.pending.filter fun part : Part => part.name = name) =
      Script.earlier name (script ++ [(file, definition)]) := by
  rw [Script.earlier_append_of_extensionless (by rw [Script.extensionsOf, extensionless]; rfl),
    kept]
  exact entered.pending name

/-- An entry that neither defines nor extends a type leaves types and waiting extensions alone. -/
theorem concat_of_sameTypes {definition : Sdl.Definition} (entered : Entered script builder)
    (undefining : Script.definitions [(file, definition)] = [])
    (extensionless : Script.extensions [(file, definition)] = [])
    (same : SameTypes builder next)
    (chosen : Chosen (script.picks ++ Script.picks [(file, definition)]) next)
    (distinct : ((script.picks ++ Script.picks [(file, definition)]).map
      fun choice => choice.2.name).Nodup) :
    Entered (script ++ [(file, definition)]) next where
  types := by
    rw [Script.definitions_append, undefining, List.append_nil, same.types]
    apply entered.types.congr
    intro part _
    refine (Script.later_append_of_extensionless ?_).symm
    rw [Script.extensionsOf, extensionless]
    rfl
  pending := entered.pending_concat extensionless same.pending
  chosen := Script.picks_append ▸ chosen
  distinct := Script.picks_append ▸ distinct

theorem of_enterBlock {block : Sdl.SchemaBlock} (entered : Entered script builder)
    (added : builder.enterBlock file block = .ok next) :
    Entered (script ++ [(file, .schema block)]) next := by
  have picks : Script.picks [(file, .schema block)] = Script.picksOf file block :=
    List.append_nil _
  rcases entered.chosen.of_enterBlock added with ⟨chosen, distinct⟩
  rw [← picks] at chosen distinct
  exact entered.concat_of_sameTypes rfl rfl (sameTypes_of_enterBlock added) chosen distinct

theorem of_define {decl : Sdl.TypeDecl} (entered : Entered script builder)
    (added : builder.define file decl = .ok next) :
    Entered (script ++ [(file, .type decl)]) next := by
  have definitions : Script.definitions (script ++ [(file, .type decl)]) =
      script.definitions ++ [(file, decl)] := by simp [Script.definitions]
  have picks : Script.picks (script ++ [(file, .type decl)]) = script.picks := by
    simp [Script.picks]
  rcases (define_eq_ok_iff (file, decl)).mp added with
    ⟨compatible, unreserved, fresh, rfl⟩
  have undefined : Part.name (file, decl) ∉ script.definitions.map Part.name := fun known =>
    fresh (entered.mem_names_iff.mpr (.inr known))
  constructor
  · rw [definitions]
    apply (entered.types.define (Script.later_of_undefined undefined) compatible unreserved
      fresh).congr
    intro definition _
    exact (Script.later_append_of_extensionless rfl).symm
  · exact entered.pending_concat rfl rfl
  · rw [picks]
    exact ⟨entered.chosen.kinds, entered.chosen.chosen⟩
  · rw [picks]
    exact entered.distinct

/-- An extension extends no type of another name. -/
theorem extensionsOf_single {decl : Sdl.TypeDecl} {name : String} (other : decl.name ≠ name) :
    Script.extensionsOf name [(file, .extension decl)] = [] := by
  simp [Script.extensionsOf, Script.extensions, Part.name, other]

/-- An extension that was applied to its type is a later one. -/
theorem concat_of_extendIn {decl : Sdl.TypeDecl} {types : Table TypeDef}
    (entered : Entered script builder)
    (extended : extendIn builder.types file decl = .ok types) :
    Entered (script ++ [(file, .extension decl)]) { builder with types } := by
  have definitions : Script.definitions (script ++ [(file, .extension decl)]) =
      script.definitions := by simp [Script.definitions]
  have picks : Script.picks (script ++ [(file, .extension decl)]) = script.picks := by
    simp [Script.picks]
  have defined : decl.name ∈ script.definitions.map Part.name := List.mem_map.mpr
    (entered.types.exists_definition_of_extendIn (file, decl) extended)
  constructor
  · rw [definitions]
    apply (entered.types.of_extendIn (file, decl) extended).congr
    intro definition known
    rw [Script.later_append_of_defined (List.mem_map_of_mem known)]
    rfl
  · intro name
    rw [entered.pending name]
    by_cases same : decl.name = name
    · exact (Script.earlier_append_of_defined (same ▸ defined)).symm
    · exact (Script.earlier_append_of_extensionless (extensionsOf_single same)).symm
  · rw [picks]
    exact ⟨entered.chosen.kinds, entered.chosen.chosen⟩
  · rw [picks]
    exact entered.distinct

/-- An extension of a type that is not there yet waits as an earlier one. -/
theorem concat_of_undefined {decl : Sdl.TypeDecl} (entered : Entered script builder)
    (undefined : decl.name ∉ script.definitions.map Part.name) :
    Entered (script ++ [(file, .extension decl)])
      { builder with pending := builder.pending ++ [(file, decl)] } := by
  have definitions : Script.definitions (script ++ [(file, .extension decl)]) =
      script.definitions := by simp [Script.definitions]
  have picks : Script.picks (script ++ [(file, .extension decl)]) = script.picks := by
    simp [Script.picks]
  constructor
  · rw [definitions]
    apply entered.types.congr
    intro definition known
    have other : decl.name ≠ definition.name := fun same =>
      undefined (same ▸ List.mem_map_of_mem known)
    exact (Script.later_append_of_extensionless (extensionsOf_single other)).symm
  -- What waits changes under the one name only, and there it was all earlier so far.
  · intro name
    rw [List.filter_append, entered.pending name]
    by_cases same : decl.name = name
    · rw [Script.earlier_append_of_undefined (same ▸ undefined),
        Script.earlier_of_undefined (same ▸ undefined)]
      rfl
    · rw [Script.earlier_append_of_extensionless (extensionsOf_single same)]
      simp [Part.name, same]
  · rw [picks]
    exact ⟨entered.chosen.kinds, entered.chosen.chosen⟩
  · rw [picks]
    exact entered.distinct

theorem of_extend {decl : Sdl.TypeDecl} (entered : Entered script builder)
    (added : builder.extend file decl = .ok next) :
    Entered (script ++ [(file, .extension decl)]) next := by
  rw [SchemaBuilder.extend] at added
  split at added
  · rcases map_eq_ok_iff.mp added with ⟨types, extended, rfl⟩
    exact entered.concat_of_extendIn extended
  · rename_i absent
    cases added
    exact entered.concat_of_undefined fun known =>
      absent (Table.contains_iff.mpr (entered.mem_names_iff.mpr (.inr known)))

theorem of_add {definition : Sdl.Definition} (entered : Entered script builder)
    (added : builder.add file definition = .ok next) :
    Entered (script ++ [(file, definition)]) next := by
  cases definition with
  | schema block => exact entered.of_enterBlock added
  | type decl => exact entered.of_define added
  | extension decl => exact entered.of_extend added
  | directive name =>
    cases added
    have picks : Script.picks [(file, .directive name)] = [] := rfl
    apply entered.concat_of_sameTypes rfl rfl (.refl builder)
    · rw [picks, List.append_nil]
      exact entered.chosen
    · rw [picks, List.append_nil]
      exact entered.distinct

/-- Entering the rest of a script after its beginning is entering the whole. -/
theorem of_enter (entered : Entered script builder) (succeeded : builder.enter rest = .ok next) :
    Entered (script ++ rest) next := by
  induction rest generalizing script builder with
  | nil =>
    cases succeeded
    rwa [List.append_nil]
  | cons entry rest ih =>
    rw [enter, List.foldlM_cons, bind_eq_ok_iff] at succeeded
    rcases succeeded with ⟨middle, added, others⟩
    have whole := ih (entered.of_add added) others
    rwa [List.append_assoc] at whole

/-- Whatever was loaded, the builder holds what the script of it makes. -/
theorem of_loadedFrom (loaded : LoadedFrom script builder) : Entered script builder := by
  induction loaded with
  | empty => exact nil
  | assuming assumeValid _ ih => exact ih.assuming assumeValid
  | load _ parsed succeeded ih => exact ih.of_enter (enter_of_load parsed succeeded)

end Entered

end SchemaBuilder

end SchemaUnfolding
