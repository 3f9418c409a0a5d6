import SchemaUnfolding.Proofs.Assembly.Gathering
import SchemaUnfolding.Proofs.Schema.WellFormed

/-!
# Assembled types

The types of a builder are those that every schema has, followed by one type for each definition, in
order, which has gathered the definition and some extensions of it. A definition enters exactly when
its name is free, and an extension exactly when it fits to the type that it extends.
-/

namespace SchemaUnfolding

/-- A table with the types of definitions, each of which has gathered the extensions of its name. -/
structure Assembled (definitions : List Part) (extended : String → List Part)
    (types : Table TypeDef) : Prop where
  names : types.names = TypeDef.builtIns.names ++ definitions.map Part.name
  builtIns : ∀ entry ∈ TypeDef.builtIns.entries, types.get? entry.1 = some entry.2
  unreserved : ∀ definition ∈ definitions, isReserved definition.name = false
  compatible : ∀ definition ∈ definitions,
    Part.Compatible definition (definition :: extended definition.name)
  found : ∀ definition ∈ definitions,
    types.get? definition.name = some (.gather definition (definition :: extended definition.name))

/-- A definition enters when it fits to itself and its name is free and not taken. -/
theorem SchemaBuilder.define_eq_ok_iff (part : Part) {builder next : SchemaBuilder} :
    builder.define part.1 part.2 = .ok next ↔
      Part.Compatible part [part] ∧ isReserved part.name = false ∧
        part.name ∉ builder.types.names ∧
        next = { builder with types := builder.types.insert part.name (.gather part [part]) } := by
  rw [SchemaBuilder.define, bind_eq_ok_iff]
  constructor
  · rintro ⟨type, made, rest⟩
    rcases TypeDef.ofDecl_eq_ok_iff.mp made with ⟨compatible, rfl⟩
    dsimp only at rest
    split at rest
    · cases rest
    · rename_i unreserved
      split at rest
      · cases rest
      · rename_i missing
        cases rest
        exact ⟨compatible, Bool.eq_false_of_not_eq_true unreserved,
          Table.get?_eq_none_iff.mp missing, rfl⟩
  · rintro ⟨compatible, unreserved, fresh, rfl⟩
    refine ⟨_, TypeDef.ofDecl_eq_ok_iff.mpr ⟨compatible, rfl⟩, ?_⟩
    have missing := Table.get?_eq_none_iff.mpr fresh
    unfold Part.name at unreserved missing
    simp only [unreserved, missing]
    rfl

namespace Assembled

variable {definitions : List Part} {extended : String → List Part} {types result : Table TypeDef}
  {part definition : Part}

theorem builtIns_only (extended : String → List Part) :
    Assembled [] extended TypeDef.builtIns where
  names := by simp
  builtIns _ member := Table.get?_eq_some_iff.mpr member
  unreserved := by simp
  compatible := by simp
  found := by simp

/-- What is gathered under other names than those of the definitions does not matter. -/
theorem congr {others : String → List Part} (assembled : Assembled definitions extended types)
    (same : ∀ definition ∈ definitions, extended definition.name = others definition.name) :
    Assembled definitions others types where
  names := assembled.names
  builtIns := assembled.builtIns
  unreserved := assembled.unreserved
  compatible definition member := same definition member ▸ assembled.compatible definition member
  found definition member := same definition member ▸ assembled.found definition member

theorem nodup (assembled : Assembled definitions extended types) :
    (TypeDef.builtIns.names ++ definitions.map Part.name).Nodup :=
  assembled.names ▸ types.nodup

/-- A definition has no name of a type that every schema has. -/
theorem not_builtIn (assembled : Assembled definitions extended types)
    (known : definition ∈ definitions) : definition.name ∉ TypeDef.builtIns.names :=
  fun builtIn => List.disjoint_of_nodup_append assembled.nodup builtIn (List.mem_map_of_mem known)

/-- Two definitions of one name are one. -/
theorem eq_of_name_eq {other : Part} (assembled : Assembled definitions extended types)
    (known : definition ∈ definitions) (known' : other ∈ definitions)
    (same : definition.name = other.name) : definition = other :=
  List.inj_on_of_nodup_map assembled.nodup.of_append_right known known' same

/-- A type that is looked up comes with every schema or from a definition. -/
theorem mem_names_iff (assembled : Assembled definitions extended types) {name : String} :
    name ∈ types.names ↔
      name ∈ TypeDef.builtIns.names ∨ ∃ definition ∈ definitions, definition.name = name := by
  rw [assembled.names, List.mem_append, List.mem_map]

/-! ## Entering a definition -/

theorem define (assembled : Assembled definitions extended types)
    (unextended : extended part.name = []) (compatible : Part.Compatible part [part])
    (unreserved : isReserved part.name = false) (fresh : part.name ∉ types.names) :
    Assembled (definitions ++ [part]) extended (types.insert part.name (.gather part [part])) where
  names := by
    rw [Table.names_insert_of_not_mem fresh, assembled.names]
    simp
  builtIns entry member := by
    have builtIn : entry.1 ∈ TypeDef.builtIns.names := List.mem_map_of_mem member
    have other : entry.1 ≠ part.name := by
      intro same
      exact fresh (assembled.mem_names_iff.mpr (.inl (same ▸ builtIn)))
    rw [Table.get?_insert, if_neg other, assembled.builtIns entry member]
  unreserved := by
    rw [List.forall_mem_append, List.forall_mem_singleton]
    exact ⟨assembled.unreserved, unreserved⟩
  compatible := by
    rw [List.forall_mem_append, List.forall_mem_singleton, unextended]
    exact ⟨assembled.compatible, compatible⟩
  found := by
    rw [List.forall_mem_append, List.forall_mem_singleton]
    constructor
    · intro definition known
      have other : definition.name ≠ part.name := by
        intro same
        exact fresh (assembled.mem_names_iff.mpr (.inr ⟨definition, known, same⟩))
      rw [Table.get?_insert, if_neg other, assembled.found definition known]
    · rw [Table.get?_insert, if_pos rfl, unextended]

/-! ## Entering an extension -/

/-- An extension of the type of a definition is entered exactly when it fits. -/
theorem extendIn_eq_ok_iff (assembled : Assembled definitions extended types) (part : Part)
    (known : definition ∈ definitions) (named : part.name = definition.name) :
    SchemaBuilder.extendIn types part.1 part.2 = .ok result ↔
      Part.Compatible definition (definition :: extended definition.name ++ [part]) ∧
        result = types.insert definition.name
          (.gather definition (definition :: extended definition.name ++ [part])) := by
  have found := assembled.found definition known
  rw [← named] at found ⊢
  rw [SchemaBuilder.extendIn, show types.get? part.2.name = _ from found]
  exact map_eq_ok_iff_of fun _ =>
    TypeDef.extend_gather_iff (named ▸ assembled.compatible definition known)

/-- Only the type of a definition can be extended. -/
theorem exists_definition_of_extendIn (assembled : Assembled definitions extended types)
    (part : Part) (entered : SchemaBuilder.extendIn types part.1 part.2 = .ok result) :
    ∃ definition ∈ definitions, definition.name = part.name := by
  rw [SchemaBuilder.extendIn] at entered
  split at entered
  · rename_i type held
    rcases map_eq_ok_iff.mp entered with ⟨larger, grown, _⟩
    rcases assembled.mem_names_iff.mp (Table.mem_names_of_get? held) with builtIn | defined
    · rcases List.mem_map.mp builtIn with ⟨entry, member, named⟩
      have same : types.get? part.2.name = some entry.2 :=
        named ▸ assembled.builtIns entry member
      rw [held, Option.some.injEq] at same
      subst same
      exact absurd grown (TypeDef.not_extend_builtIn member)
    · exact defined
  · cases entered

/-- Extending the type of a definition leaves the table assembled. -/
theorem insert (assembled : Assembled definitions extended types)
    (known : definition ∈ definitions) (named : part.name = definition.name)
    (compatible : Part.Compatible definition (definition :: extended definition.name ++ [part])) :
    Assembled definitions (fun name => extended name ++ [part].filter fun part => part.name = name)
      (types.insert definition.name
        (.gather definition (definition :: extended definition.name ++ [part]))) where
  names := by
    rw [Table.names_insert_of_mem (assembled.mem_names_iff.mpr (.inr ⟨_, known, rfl⟩)),
      assembled.names]
  builtIns entry member := by
    have other : entry.1 ≠ definition.name := by
      intro same
      exact assembled.not_builtIn known (same ▸ List.mem_map_of_mem member)
    rw [Table.get?_insert, if_neg other, assembled.builtIns entry member]
  unreserved := assembled.unreserved
  compatible other member := by
    by_cases same : part.name = other.name
    · cases assembled.eq_of_name_eq known member (named.symm.trans same)
      simpa [same] using compatible
    · simpa [same] using assembled.compatible other member
  found other member := by
    by_cases same : part.name = other.name
    · cases assembled.eq_of_name_eq known member (named.symm.trans same)
      simp [Table.get?_insert, same]
    · have apart : other.name ≠ definition.name := fun equal => same (named.trans equal.symm)
      rw [Table.get?_insert, if_neg apart, assembled.found other member]
      simp [same]

theorem of_extendIn (assembled : Assembled definitions extended types) (part : Part)
    (entered : SchemaBuilder.extendIn types part.1 part.2 = .ok result) :
    Assembled definitions (fun name => extended name ++ [part].filter fun part => part.name = name)
      result := by
  rcases assembled.exists_definition_of_extendIn part entered with ⟨definition, known, named⟩
  rcases (assembled.extendIn_eq_ok_iff part known named.symm).mp entered with ⟨compatible, rfl⟩
  exact assembled.insert known named.symm compatible

/-! ## Entering many extensions -/

variable {waiting : List Part}

/-- Extensions that were entered one after the other extend types of definitions, and each of these
has gathered those of its name. -/
theorem of_foldlM_extendIn (assembled : Assembled definitions extended types)
    (entered : waiting.foldlM (fun types (file, decl) => SchemaBuilder.extendIn types file decl)
      types = .ok result) :
    (∀ part ∈ waiting, ∃ definition ∈ definitions, definition.name = part.name) ∧
      Assembled definitions
        (fun name => extended name ++ waiting.filter fun part => part.name = name) result := by
  induction waiting generalizing types extended with
  | nil =>
    cases entered
    exact ⟨by simp, assembled.congr (by simp)⟩
  | cons part rest ih =>
    rw [List.foldlM_cons, bind_eq_ok_iff] at entered
    rcases entered with ⟨middle, first, others⟩
    rcases ih (assembled.of_extendIn part first) others with ⟨defined, later⟩
    constructor
    · exact List.forall_mem_cons.mpr ⟨assembled.exists_definition_of_extendIn part first, defined⟩
    · apply later.congr
      intro definition _
      rw [List.append_assoc, ← List.filter_append, List.singleton_append]

/-- Extensions of definitions that fit can all be entered. -/
theorem exists_foldlM_extendIn (assembled : Assembled definitions extended types)
    (defined : ∀ part ∈ waiting, ∃ definition ∈ definitions, definition.name = part.name)
    (compatible : ∀ definition ∈ definitions, Part.Compatible definition
      (definition :: extended definition.name ++
        waiting.filter fun part => part.name = definition.name)) :
    ∃ result, waiting.foldlM (fun types (file, decl) => SchemaBuilder.extendIn types file decl)
      types = .ok result := by
  induction waiting generalizing types extended with
  | nil => exact ⟨types, rfl⟩
  | cons part rest ih =>
    rcases List.forall_mem_cons.mp defined with ⟨⟨definition, known, named⟩, others⟩
    have fits : Part.Compatible definition (definition :: extended definition.name ++ [part]) := by
      apply (compatible definition known).of_sublist
      rw [List.filter_cons_of_pos (by simpa using named.symm)]
      exact (List.singleton_sublist.mpr (List.mem_cons_self ..)).append_left _
    have first := (assembled.extendIn_eq_ok_iff part known named.symm).mpr ⟨fits, rfl⟩
    have rest := ih (assembled.of_extendIn part first) others fun other member => by
      simpa [← List.filter_append] using compatible other member
    rcases rest with ⟨result, entered⟩
    refine ⟨result, ?_⟩
    rw [List.foldlM_cons, bind_eq_ok_iff]
    exact ⟨_, first, entered⟩

/-! ## The entries of an assembled table -/

/-- The entries are those that every schema has, and then one for each definition in order. -/
theorem entries (assembled : Assembled definitions extended types) :
    types.entries = TypeDef.builtIns.entries ++ definitions.map fun definition =>
      (definition.name, .gather definition (definition :: extended definition.name)) := by
  apply Table.entries_eq_of_get?
  · rw [assembled.names, List.map_append, List.map_map]
    rfl
  · exact List.forall_mem_append.mpr
      ⟨assembled.builtIns, List.forall_mem_map.mpr assembled.found⟩

end Assembled

end SchemaUnfolding
