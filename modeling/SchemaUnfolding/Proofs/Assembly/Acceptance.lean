import SchemaUnfolding.Proofs.Assembly.Entered

/-!
# Acceptable scripts

A script is acceptable when its definitions, extensions and choices of root types fit together. The
order of its entries plays no part in that. An acceptable script can be entered, and its waiting
extensions can be applied; nothing else can, and then each type has gathered all of its extensions:
the later ones first.
-/

namespace SchemaUnfolding

/-- A script that can be entered and have all of its extensions applied. The order of its entries
plays no part in this. -/
structure Script.Acceptable (script : Script) : Prop where
  names : (TypeDef.builtIns.names ++ script.definitions.map Part.name).Nodup
  unreserved : ∀ definition ∈ script.definitions, isReserved definition.name = false
  defined : ∀ part ∈ script.extensions, part.name ∈ script.definitions.map Part.name
  compatible : ∀ definition ∈ script.definitions,
    Part.Compatible definition (definition :: script.extensionsOf definition.name)
  kinds : (script.picks.map Prod.fst).Nodup
  roots : (script.picks.map fun choice => choice.2.name).Nodup

namespace Script

variable {script other : Script}

theorem mem_extensionsOf_iff {part : Part} {name : String} :
    part ∈ script.extensionsOf name ↔ part ∈ script.extensions ∧ part.name = name := by
  simp [extensionsOf]

theorem extensionsOf_perm (same : script.Perm other) (name : String) :
    (script.extensionsOf name).Perm (other.extensionsOf name) :=
  (same.filterMap _).filter _

theorem Acceptable.perm (same : script.Perm other) (acceptable : script.Acceptable) :
    other.Acceptable := by
  have definitions : script.definitions.Perm other.definitions := same.filterMap _
  have extensions : script.extensions.Perm other.extensions := same.filterMap _
  have picks : script.picks.Perm other.picks := same.flatMap_right _
  constructor
  · exact ((definitions.map _).append_left _).nodup_iff.mp acceptable.names
  · exact fun part member => acceptable.unreserved part (definitions.mem_iff.mpr member)
  · intro part member
    exact (definitions.map _).mem_iff.mp (acceptable.defined part (extensions.mem_iff.mpr member))
  · intro part member
    exact (acceptable.compatible part (definitions.mem_iff.mpr member)).perm
      ((extensionsOf_perm same _).cons _)
  · exact (picks.map _).nodup_iff.mp acceptable.kinds
  · exact (picks.map _).nodup_iff.mp acceptable.roots

/-- The name of a definition belongs to no type that every schema has. -/
theorem Acceptable.not_builtIn {name : String} (acceptable : script.Acceptable)
    (known : name ∈ script.definitions.map Part.name) : name ∉ TypeDef.builtIns.names :=
  fun builtIn => List.disjoint_of_nodup_append acceptable.names builtIn known

/-- No type is defined a second time. -/
theorem Acceptable.undefined_before {before after : Script} {file : Option String}
    {decl : Sdl.TypeDecl} (acceptable : Acceptable (before ++ (file, .type decl) :: after)) :
    decl.name ∉ TypeDef.builtIns.names ++ before.definitions.map Part.name := by
  have definitions : Script.definitions (before ++ (file, .type decl) :: after) =
      before.definitions ++ (file, decl) :: after.definitions := by simp [Script.definitions]
  have names := acceptable.names
  rw [definitions, List.map_append, List.map_cons, ← List.append_assoc] at names
  exact fun known => List.disjoint_of_nodup_append names known (List.mem_cons_self ..)

end Script

namespace SchemaBuilder.Entered

variable {script rest : Script} {builder : SchemaBuilder} {file : Option String}

/-! ## Entering an acceptable script -/

theorem exists_enterBlock {block : Sdl.SchemaBlock} (entered : Entered script builder)
    (acceptable : Script.Acceptable (script ++ (file, .schema block) :: rest)) :
    ∃ next, builder.enterBlock file block = .ok next := by
  have picks : Script.picks (script ++ (file, .schema block) :: rest) =
      script.picks ++ Script.picksOf file block ++ rest.picks := by simp [Script.picks]
  apply entered.chosen.exists_enterBlock
  · have kinds := picks ▸ acceptable.kinds
    rw [List.map_append] at kinds
    exact kinds.of_append_left
  · have roots := picks ▸ acceptable.roots
    rw [List.map_append] at roots
    exact roots.of_append_left

theorem exists_define {decl : Sdl.TypeDecl} (entered : Entered script builder)
    (acceptable : Script.Acceptable (script ++ (file, .type decl) :: rest)) :
    ∃ next, builder.define file decl = .ok next := by
  have member : (file, decl) ∈ Script.definitions (script ++ (file, .type decl) :: rest) := by
    simp [Script.definitions]
  have compatible := (acceptable.compatible _ member).of_sublist
    ((List.nil_sublist _).cons_cons (file, decl))
  have fresh : Part.name (file, decl) ∉ builder.types.names := by
    rw [entered.types.names]
    exact acceptable.undefined_before
  exact ⟨_, (define_eq_ok_iff (file, decl)).mpr
    ⟨compatible, acceptable.unreserved _ member, fresh, rfl⟩⟩

theorem exists_extend {decl : Sdl.TypeDecl} (entered : Entered script builder)
    (acceptable : Script.Acceptable (script ++ (file, .extension decl) :: rest)) :
    ∃ next, builder.extend file decl = .ok next := by
  rw [SchemaBuilder.extend]
  split
  · rename_i present
    have member : (file, decl) ∈ Script.extensions (script ++ (file, .extension decl) :: rest) := by
      simp [Script.extensions]
    have extensionsOf : Script.extensionsOf decl.name (script ++ (file, .extension decl) :: rest) =
        script.extensionsOf decl.name ++ (file, decl) :: rest.extensionsOf decl.name := by
      simp [Script.extensionsOf, Script.extensions, Part.name]
    rcases entered.mem_names_iff.mp (Table.contains_iff.mp present) with builtIn | defined
    -- An extension of a type that every schema has would have no definition to go with.
    · exact absurd builtIn (acceptable.not_builtIn (acceptable.defined _ member))
    · rcases List.mem_map.mp defined with ⟨definition, known, named⟩
      have whole := acceptable.compatible definition
        (Script.definitions_append ▸ List.mem_append_left _ known)
      have some : (script.later decl.name ++ [(file, decl)]).Sublist
          (Script.extensionsOf decl.name (script ++ (file, .extension decl) :: rest)) := by
        rw [extensionsOf]
        exact (Script.later_sublist ..).append
          (List.singleton_sublist.mpr (List.mem_cons_self ..))
      have fits := whole.of_sublist ((named ▸ some).cons_cons definition)
      have extended := (entered.types.extendIn_eq_ok_iff (file, decl) known named.symm).mpr
        ⟨fits, rfl⟩
      exact ⟨_, map_eq_ok_iff.mpr ⟨_, extended, rfl⟩⟩
  · exact ⟨_, rfl⟩

/-- The rest of an acceptable script can be entered after its beginning. -/
theorem exists_enter (entered : Entered script builder)
    (acceptable : Script.Acceptable (script ++ rest)) :
    ∃ next, builder.enter rest = .ok next := by
  induction rest generalizing script builder with
  | nil => exact ⟨builder, rfl⟩
  | cons entry rest ih =>
    rcases entry with ⟨file, definition⟩
    have added : ∃ next, builder.add file definition = .ok next := by
      cases definition with
      | schema block => exact entered.exists_enterBlock acceptable
      | type decl => exact entered.exists_define acceptable
      | extension decl => exact entered.exists_extend acceptable
      | directive name => exact ⟨builder, rfl⟩
    rcases added with ⟨middle, added⟩
    have others : Script.Acceptable (script ++ [(file, definition)] ++ rest) := by
      rwa [List.append_assoc]
    rcases ih (entered.of_add added) others with ⟨next, succeeded⟩
    refine ⟨next, ?_⟩
    rw [enter, List.foldlM_cons, bind_eq_ok_iff]
    exact ⟨middle, added, succeeded⟩

/-! ## Applying the waiting extensions -/

/-- When the waiting extensions can be applied, each type has gathered all of its extensions, and
the script was acceptable. -/
theorem of_apply {types : Table TypeDef} (entered : Entered script builder)
    (applied : builder.pending.foldlM (fun types (file, decl) => extendIn types file decl)
      builder.types = .ok types) :
    script.Acceptable ∧ Assembled script.definitions
      (fun name => script.later name ++ script.earlier name) types := by
  rcases entered.types.of_foldlM_extendIn applied with ⟨defined, assembled⟩
  have gathered : Assembled script.definitions
      (fun name => script.later name ++ script.earlier name) types := by
    apply assembled.congr
    intro definition _
    rw [entered.pending definition.name]
  refine ⟨⟨gathered.nodup, gathered.unreserved, ?_, ?_, entered.chosen.kinds, entered.distinct⟩,
    gathered⟩
  -- An extension of a type that was never defined is still waiting, and could not be applied.
  · intro part member
    by_contra undefined
    have waiting : part ∈ script.earlier part.name := by
      rw [Script.earlier_of_undefined undefined]
      exact Script.mem_extensionsOf_iff.mpr ⟨member, rfl⟩
    rw [← entered.pending part.name] at waiting
    rcases defined part (List.mem_filter.mp waiting).1 with ⟨definition, known, named⟩
    exact undefined (List.mem_map.mpr ⟨definition, known, named⟩)
  · intro definition known
    apply (gathered.compatible definition known).perm
    rw [← Script.earlier_append_later]
    exact List.perm_append_comm.cons _

/-- The waiting extensions of an acceptable script can be applied. -/
theorem exists_apply (entered : Entered script builder) (acceptable : script.Acceptable) :
    ∃ types, builder.pending.foldlM (fun types (file, decl) => extendIn types file decl)
      builder.types = .ok types := by
  apply entered.types.exists_foldlM_extendIn
  · intro part waiting
    have early : part ∈ script.earlier part.name := by
      rw [← entered.pending part.name]
      exact List.mem_filter.mpr ⟨waiting, by simp⟩
    have extension : part ∈ script.extensionsOf part.name := by
      rw [← Script.earlier_append_later]
      exact List.mem_append_left _ early
    exact List.mem_map.mp (acceptable.defined part (Script.mem_extensionsOf_iff.mp extension).1)
  · intro definition known
    rw [entered.pending definition.name]
    apply (acceptable.compatible definition known).perm
    rw [← Script.earlier_append_later]
    exact List.perm_append_comm.cons _

/-- Building applies the extensions that waited after those that did not. -/
theorem of_build {schema : Schema} (entered : Entered script builder)
    (built : builder.build = .ok schema) :
    script.Acceptable ∧ Assembled script.definitions
      (fun name => script.later name ++ script.earlier name) schema.types :=
  entered.of_apply (parts_of_build built).1

end SchemaBuilder.Entered

end SchemaUnfolding
