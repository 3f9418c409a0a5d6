import SchemaUnfolding.Operation.Generation
import SchemaUnfolding.Proofs.Expansion.Derivation

/-!
# What the generation of an operation returns

The operation of a root field holds what the expansion of the field left behind when it started from
nothing. The events of the expansion are passed on and a few are added.
-/

namespace SchemaUnfolding

open ExceptT

/-- The document of a root field, given what its expansion left behind. -/
def Document.ofExpansion (root : FieldedType) (field : Field) (selection : Option Selection)
    (progress : Progress) : Document where
  keyword := operationKeyword root.name
  name := field.name
  declarations := progress.scope.declarations
  selection := selection

namespace Generation

variable {schema : Schema} {config : Config} {kind : OperationKind} {root : FieldedType}
  {field : Field} {before after : Array Event}

/-- The events that follow those of the expansion of a root field. -/
def closingEvents (kind : OperationKind) (root : FieldedType) (field : Field)
    (progress : Progress) : List Event :=
  keywordEvents root.name ++
    [.generated kind field.name progress.scope.declarations.length progress.edges.size]

theorem not_edgeRepeated_of_mem_closingEvents {progress : Progress} {type name key : String}
    {depth : Nat} :
    Event.edgeRepeated type name depth key ∉ closingEvents kind root field progress := by
  rw [closingEvents, keywordEvents]
  split <;> simp

theorem run_operation (schema : Schema) (config : Config) (kind : OperationKind)
    (root : FieldedType) (field : Field) (before : Array Event) :
    (operation schema config kind root field).run.run before =
      match (Expansion.expand schema config (.root root.name) field).run.run {} with
      | (.error fault, progress) => (.error fault, before ++ progress.events)
      | (.ok selection, progress) =>
        (.ok ⟨kind, field.name, .ofExpansion root field selection progress⟩,
          before ++ progress.events ++ (closingEvents kind root field progress).toArray) := by
  have passedOn : ∀ reported (events : Array Event),
      (report reported).run.run events = (.ok (), events ++ reported.toArray) := by
    intro reported events
    rw [← List.foldl_push_eq_append']
    rfl
  rw [operation]
  rcases (Expansion.expand schema config (.root root.name) field).run.run {} with
    ⟨fault | selection, progress⟩
  · rw [run_run_bind, passedOn]
    rfl
  · have gathered : before ++ progress.events ++ (closingEvents kind root field progress).toArray =
        before ++ progress.events.toList.toArray ++ (keywordEvents root.name).toArray ++
          [Event.generated kind field.name progress.scope.declarations.length
            progress.edges.size].toArray := by
      simp [closingEvents]
    simp only [run_run_bind, passedOn, gathered]
    rfl

/-- An operation is generated exactly when the expansion of its root field returns. -/
theorem returns_operation_iff {result : Operation} :
    (operation schema config kind root field).Returns before result after ↔
      ∃ selection progress,
        Expands schema config none (.root root.name) field {} selection progress ∧
        result = ⟨kind, field.name, .ofExpansion root field selection progress⟩ ∧
        after = before ++ progress.events ++ (closingEvents kind root field progress).toArray := by
  simp only [← Expansion.returns_expand_iff]
  unfold Returns
  rw [run_operation]
  rcases (Expansion.expand schema config (.root root.name) field).run.run {} with
    ⟨fault | selection, progress⟩
  · constructor
    · rintro ⟨⟩
    · rintro ⟨_, _, ⟨⟩, _⟩
  · constructor
    · rintro ⟨⟩
      exact ⟨selection, progress, rfl, rfl, rfl⟩
    · rintro ⟨_, _, ⟨⟩, rfl, rfl⟩
      rfl

/-- What is answered to a request for the operation of the root field of a name. -/
theorem returns_named_iff {name : String} {answer : Except RequestError Operation} :
    (named schema config kind name).Returns before answer after ↔
      match schema.root? kind with
      | none => answer = .error (.missingRoot kind) ∧ after = before
      | some root =>
        match root.fields.get? name with
        | none => answer = .error (.undefinedField kind root.name name) ∧ after = before
        | some field =>
          ∃ result, answer = .ok result ∧
            (operation schema config kind root field).Returns before result after := by
  rw [named]
  cases schema.root? kind with
  | none => exact returns_pure_iff
  | some root =>
    dsimp only
    cases root.fields.get? name with
    | none => exact returns_pure_iff
    | some field =>
      rw [returns_bind_iff]
      constructor
      · rintro ⟨result, _, returned, finished⟩
        rcases returns_pure_iff.mp finished with ⟨rfl, rfl⟩
        exact ⟨result, rfl, returned⟩
      · rintro ⟨result, rfl, returned⟩
        exact ⟨result, after, returned, returns_pure_iff.mpr ⟨rfl, rfl⟩⟩

end Generation

end SchemaUnfolding
