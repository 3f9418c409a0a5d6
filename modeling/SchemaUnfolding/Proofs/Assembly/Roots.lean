import SchemaUnfolding.Proofs.Assembly.Script

/-!
# Chosen root types

A builder holds exactly the root types that the schema blocks of a script choose. A block is entered
exactly when it chooses no kind a second time and no two kinds then have a root type of one name.
-/

namespace SchemaUnfolding.SchemaBuilder

open Script (pick picksOf)

/-! ## What a block leaves alone -/

/-- Two builders differ in their chosen root types at most. -/
structure SameTypes (builder next : SchemaBuilder) : Prop where
  assumeValid : next.assumeValid = builder.assumeValid
  types : next.types = builder.types
  pending : next.pending = builder.pending

theorem SameTypes.refl (builder : SchemaBuilder) : SameTypes builder builder :=
  ⟨rfl, rfl, rfl⟩

theorem SameTypes.trans {first second third : SchemaBuilder} (early : SameTypes first second)
    (late : SameTypes second third) : SameTypes first third :=
  ⟨late.assumeValid.trans early.assumeValid, late.types.trans early.types,
    late.pending.trans early.pending⟩

theorem sameTypes_setChosen (builder : SchemaBuilder) (root : NamedRef)
    (operation : OperationKind) : SameTypes builder (builder.setChosen root operation) := by
  cases operation <;> exact ⟨rfl, rfl, rfl⟩

theorem chosen_setChosen (builder : SchemaBuilder) (root : NamedRef)
    (operation other : OperationKind) :
    (builder.setChosen root operation).chosen other =
      if other = operation then some root else builder.chosen other := by
  cases operation <;> cases other <;> rfl

/-! ## Choosing -/

/-- A builder holds the root types of a list of choices, which chooses no kind twice. -/
structure Chosen (picks : List (OperationKind × NamedRef)) (builder : SchemaBuilder) : Prop where
  kinds : (picks.map Prod.fst).Nodup
  chosen : ∀ operation root, builder.chosen operation = some root ↔ (operation, root) ∈ picks

theorem chosen_empty : Chosen [] .empty where
  kinds := List.nodup_nil
  chosen operation root := by
    cases operation <;> simp [SchemaBuilder.chosen, empty]

variable {picks : List (OperationKind × NamedRef)} {builder next : SchemaBuilder}
  {location : Location} {operation : OperationKind} {root : Option String}

theorem sameTypes_of_choose (succeeded : builder.choose location operation root = .ok next) :
    SameTypes builder next := by
  unfold choose at succeeded
  split at succeeded
  · cases succeeded
    exact .refl builder
  · split at succeeded
    · cases succeeded
    · cases succeeded
      exact sameTypes_setChosen ..

theorem Chosen.of_choose (chosen : Chosen picks builder)
    (succeeded : builder.choose location operation root = .ok next) :
    Chosen (picks ++ pick location operation root) next := by
  unfold choose at succeeded
  split at succeeded
  · cases succeeded
    rwa [pick, List.append_nil]
  · rename_i name
    split at succeeded
    · cases succeeded
    · rename_i unchosen
      cases succeeded
      have fresh : operation ∉ picks.map Prod.fst := by
        intro known
        rcases List.mem_map.mp known with ⟨⟨_, other⟩, member, rfl⟩
        simp [(chosen.chosen _ other).mpr member] at unchosen
      constructor
      · rw [pick, List.map_append]
        simpa using chosen.kinds.concat fresh
      · intro kind other
        rw [chosen_setChosen, pick, List.mem_append, List.mem_singleton, Prod.mk.injEq,
          ← chosen.chosen]
        by_cases same : kind = operation
        · subst same
          simp [unchosen, eq_comm]
        · simp [same]

theorem Chosen.exists_choose (chosen : Chosen picks builder)
    (distinct : ((picks ++ pick location operation root).map Prod.fst).Nodup) :
    ∃ next, builder.choose location operation root = .ok next := by
  cases root with
  | none => exact ⟨builder, rfl⟩
  | some name =>
    rw [choose]
    split
    · rename_i known found
      have member : (operation, known) ∈ picks := (chosen.chosen operation known).mp found
      rw [pick, List.map_append] at distinct
      exact (List.disjoint_of_nodup_append distinct (List.mem_map_of_mem member)
        (List.mem_cons_self ..)).elim
    · exact ⟨_, rfl⟩

/-! ## Root types of one name -/

/-- No two kinds of operation have chosen root types of one name. -/
def Distinct (builder : SchemaBuilder) : Prop :=
  ∀ first second, first ≠ second → ∀ root ∈ builder.chosen first,
    ∀ other ∈ builder.chosen second, root.name ≠ other.name

theorem sharing_eq_none_iff {first second : OperationKind} :
    builder.sharing first second = none ↔ ∀ root ∈ builder.chosen first,
      ∀ other ∈ builder.chosen second, root.name ≠ other.name := by
  rw [sharing]
  split
  · rename_i root other found found'
    simp [found, found']
  · rename_i missing
    simp only [Option.mem_def, true_iff]
    intro root found other found'
    exact (missing root other found found').elim

theorem distinct_iff :
    builder.Distinct ↔
      [(OperationKind.query, OperationKind.mutation), (.query, .subscription),
        (.mutation, .subscription)].findSome?
          (fun (first, second) => builder.sharing first second) = none := by
  rw [List.findSome?_eq_none_iff]
  simp only [List.forall_mem_cons, sharing_eq_none_iff]
  constructor
  · intro distinct
    exact ⟨distinct _ _ (by decide), distinct _ _ (by decide), distinct _ _ (by decide), by simp⟩
  · rintro ⟨queryMutation, querySubscription, mutationSubscription, _⟩
    intro first second different root known other found same
    cases first <;> cases second
    · exact different rfl
    · exact queryMutation root known other found same
    · exact querySubscription root known other found same
    · exact queryMutation other found root known same.symm
    · exact different rfl
    · exact mutationSubscription root known other found same
    · exact querySubscription other found root known same.symm
    · exact mutationSubscription other found root known same.symm
    · exact different rfl

/-- The choices that a builder holds have different names exactly when no two kinds share one. -/
theorem Chosen.distinct_iff_nodup (chosen : Chosen picks builder) :
    builder.Distinct ↔ (picks.map fun choice => choice.2.name).Nodup := by
  constructor
  · intro distinct
    apply List.Nodup.map_on _ chosen.kinds.of_map
    rintro ⟨first, root⟩ known ⟨second, other⟩ found same
    by_cases equal : first = second
    · exact List.inj_on_of_nodup_map chosen.kinds known found equal
    · exact absurd same (distinct first second equal root ((chosen.chosen _ _).mpr known) other
        ((chosen.chosen _ _).mpr found))
  · intro nodup first second different root known other found same
    have member := (chosen.chosen first root).mp known
    have member' := (chosen.chosen second other).mp found
    exact different (congrArg Prod.fst (List.inj_on_of_nodup_map nodup member member' same))

/-! ## Entering a block -/

variable {file : Option String} {block : Sdl.SchemaBlock}

theorem enterBlock_eq_ok_iff :
    builder.enterBlock file block = .ok next ↔
      ∃ first, builder.choose (.source file block.position) .query block.query = .ok first ∧
        ∃ second, first.choose (.source file block.position) .mutation block.mutation =
          .ok second ∧
          second.choose (.source file block.position) .subscription block.subscription =
            .ok next ∧ next.Distinct := by
  constructor
  · intro entered
    rcases bind_eq_ok_iff.mp entered with ⟨first, queryChosen, rest⟩
    rcases bind_eq_ok_iff.mp rest with ⟨second, mutationChosen, rest⟩
    rcases bind_eq_ok_iff.mp rest with ⟨third, subscriptionChosen, rest⟩
    dsimp only at rest
    split at rest
    · cases rest
    · rename_i unshared
      cases rest
      exact ⟨first, queryChosen, second, mutationChosen, subscriptionChosen,
        distinct_iff.mpr unshared⟩
  · rintro ⟨first, queryChosen, second, mutationChosen, subscriptionChosen, distinct⟩
    refine bind_eq_ok_iff.mpr ⟨first, queryChosen, bind_eq_ok_iff.mpr ⟨second, mutationChosen,
      bind_eq_ok_iff.mpr ⟨next, subscriptionChosen, ?_⟩⟩⟩
    dsimp only
    rw [distinct_iff.mp distinct]

theorem sameTypes_of_enterBlock (entered : builder.enterBlock file block = .ok next) :
    SameTypes builder next := by
  rcases enterBlock_eq_ok_iff.mp entered with
    ⟨first, queryChosen, second, mutationChosen, subscriptionChosen, _⟩
  exact ((sameTypes_of_choose queryChosen).trans (sameTypes_of_choose mutationChosen)).trans
    (sameTypes_of_choose subscriptionChosen)

/-- A block that was entered has added its choices, no two of which have one kind or one name. -/
theorem Chosen.of_enterBlock (chosen : Chosen picks builder)
    (entered : builder.enterBlock file block = .ok next) :
    Chosen (picks ++ picksOf file block) next ∧
      ((picks ++ picksOf file block).map fun choice => choice.2.name).Nodup := by
  rcases enterBlock_eq_ok_iff.mp entered with
    ⟨first, queryChosen, second, mutationChosen, subscriptionChosen, distinct⟩
  have chosen := ((chosen.of_choose queryChosen).of_choose mutationChosen).of_choose
    subscriptionChosen
  rw [picksOf, ← List.append_assoc, ← List.append_assoc]
  exact ⟨chosen, chosen.distinct_iff_nodup.mp distinct⟩

/-- A block can be entered when its choices have no kind and no name a second time. -/
theorem Chosen.exists_enterBlock (chosen : Chosen picks builder)
    (kinds : ((picks ++ picksOf file block).map Prod.fst).Nodup)
    (names : ((picks ++ picksOf file block).map fun choice => choice.2.name).Nodup) :
    ∃ next, builder.enterBlock file block = .ok next := by
  rw [picksOf, ← List.append_assoc, ← List.append_assoc] at kinds names
  have kindsTwo := kinds.sublist ((List.sublist_append_left ..).map _)
  have kindsOne := kindsTwo.sublist ((List.sublist_append_left ..).map _)
  rcases chosen.exists_choose kindsOne with ⟨first, queryChosen⟩
  have chosen := chosen.of_choose queryChosen
  rcases chosen.exists_choose kindsTwo with ⟨second, mutationChosen⟩
  have chosen := chosen.of_choose mutationChosen
  rcases chosen.exists_choose kinds with ⟨third, subscriptionChosen⟩
  have chosen := chosen.of_choose subscriptionChosen
  exact ⟨third, enterBlock_eq_ok_iff.mpr ⟨first, queryChosen, second, mutationChosen,
    subscriptionChosen, chosen.distinct_iff_nodup.mpr names⟩⟩

/-! ## Root types of a schema -/

theorem Chosen.chosen_eq_none_iff (chosen : Chosen picks builder) :
    builder.chosen operation = none ↔ ∀ root, (operation, root) ∉ picks := by
  rw [Option.eq_none_iff_forall_not_mem]
  exact forall_congr' fun root => not_congr (chosen.chosen operation root)

/-- A root type is a chosen one, or an object type with the default name where none was chosen. -/
theorem root_eq_some_iff {types : Table TypeDef} {root : NamedRef} :
    builder.root types operation = some root ↔
      builder.chosen operation = some root ∨
        builder.chosen operation = none ∧
          ∃ object, types.get? operation.defaultRoot = some (.object object) ∧
            root = ⟨operation.defaultRoot, object.location⟩ := by
  rw [SchemaBuilder.root]
  split
  · rename_i known chosen
    simp [chosen]
  · rename_i unchosen
    simp only [unchosen, reduceCtorEq, false_or, true_and]
    split
    · rename_i object found
      simp [found, eq_comm]
    · rename_i missing
      constructor
      · rintro ⟨⟩
      · rintro ⟨object, found, _⟩
        exact absurd found (missing object)

end SchemaUnfolding.SchemaBuilder
