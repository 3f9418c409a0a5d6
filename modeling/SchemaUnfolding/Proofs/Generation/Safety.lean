import SchemaUnfolding.Operation.Publication
import SchemaUnfolding.Proofs.Expansion.Safety
import SchemaUnfolding.Proofs.Generation.Operations

/-!
# Generation from checked schemas

A schema that was built with its rules checked gives operations for each configuration: nothing that
generates or publishes them meets a fault. A request for an operation is refused only for a root
type or a root field that is not there, and a publication ends early only when its sink refuses a
write.
-/

namespace SchemaUnfolding

open ExceptT

theorem Schema.offers_of_root? {schema : Schema} {kind : OperationKind} {root : FieldedType}
    {field : Field} (known : schema.root? kind = some root)
    (declared : field ∈ root.fields.values) : schema.Offers field :=
  ⟨_, Schema.object_mem_of_root? known, _, rfl, declared⟩

/-! ## Generation -/

namespace Generation

variable {schema : Schema} {config : Config} {kind : OperationKind} {root : FieldedType}

/-- A computation meets no fault. -/
abbrev Faultless {α : Type} (computation : Generation α) : Prop :=
  computation.FailsOnly fun _ => False

theorem faultless_report (reported : List Event) : (report reported).Faultless :=
  failsOnly_modify _

theorem faultless_operation (closed : schema.Closed) {field : Field}
    (offered : schema.Offers field) : (operation schema config kind root field).Faultless := by
  intro before fault after failed
  have never : (Expansion.expand schema config (.root root.name) field).Faultless :=
    Expansion.faultless_expand closed offered _
  rcases never.returns {} with ⟨selection, progress, returned⟩
  rw [Returns] at returned
  rw [run_operation, returned] at failed
  cases failed

theorem faultless_operations (closed : schema.Closed) {fields : List Field}
    (offered : ∀ field ∈ fields, schema.Offers field) :
    (operations schema config kind root fields).Faultless := by
  induction fields with
  | nil => exact failsOnly_pure _
  | cons field rest ih =>
    apply FailsOnly.bind (faultless_operation closed (offered field (List.mem_cons_self ..)))
    intro _ _ _ _
    apply FailsOnly.bind (ih fun other member => offered other (List.mem_cons_of_mem _ member))
    intro _ _ _ _
    exact failsOnly_pure _

theorem faultless_ofKind (closed : schema.Closed) (kind : OperationKind) :
    (ofKind schema config kind).Faultless := by
  rw [ofKind]
  split
  · apply FailsOnly.bind (faultless_report _)
    intro _ _ _ _
    exact failsOnly_pure _
  · rename_i root known
    apply FailsOnly.bind (faultless_operations closed fun field member =>
      Schema.offers_of_root? known (List.mem_filter.mp member).1)
    intro _ _ _ _
    exact failsOnly_pure _

theorem faultless_ofKinds (closed : schema.Closed) (kinds : List OperationKind) :
    (ofKinds schema config kinds).Faultless := by
  induction kinds with
  | nil => exact failsOnly_pure _
  | cons kind rest ih =>
    apply FailsOnly.bind (faultless_ofKind closed kind)
    intro _ _ _ _
    apply FailsOnly.bind ih
    intro _ _ _ _
    exact failsOnly_pure _

theorem faultless_named (closed : schema.Closed) (kind : OperationKind) (name : String) :
    (named schema config kind name).Faultless := by
  rw [named]
  split
  · exact failsOnly_pure _
  · rename_i root known
    split
    · exact failsOnly_pure _
    · rename_i field found
      apply FailsOnly.bind (faultless_operation closed
        (Schema.offers_of_root? known (Table.mem_values_of_get? found)))
      intro _ _ _ _
      exact failsOnly_pure _

end Generation

/-! ## Publication -/

/-- A write was refused. -/
def PublicationError.IsRefusal : PublicationError → Prop
  | fault _ => False
  | refused .. => True

namespace Publication

variable {σ : Type} {sink : Sink σ} {schema : Schema} {config : Config}

theorem failsOnly_ofGeneration {α : Type} {generation : Generation α}
    (faultless : generation.Faultless) :
    (ofGeneration generation : Publication σ α).FailsOnly PublicationError.IsRefusal := by
  refine FailsOnly.bind failsOnly_get fun _ before _ _ => ?_
  rcases before with ⟨state, events⟩
  rcases faultless.returns events with ⟨value, later, returned⟩
  rw [Returns] at returned
  simp only [returned]
  exact FailsOnly.bind (failsOnly_set _) fun _ _ _ _ => failsOnly_pure _

theorem failsOnly_deliver (write : Write) :
    (deliver sink write).FailsOnly PublicationError.IsRefusal := by
  refine FailsOnly.bind failsOnly_get fun _ before _ _ => ?_
  rcases before with ⟨state, events⟩
  refine FailsOnly.bind (failsOnly_set _) fun _ _ _ _ => ?_
  split
  · exact failsOnly_throw trivial
  · exact failsOnly_pure _

theorem failsOnly_deliverAll (writes : List Write) :
    (deliverAll sink writes).FailsOnly PublicationError.IsRefusal := by
  induction writes with
  | nil => exact failsOnly_pure _
  | cons write rest ih =>
    apply FailsOnly.bind (failsOnly_deliver write)
    intro _ _ _ _
    exact ih

theorem failsOnly_ofKinds (closed : schema.Closed) (kinds : List OperationKind) :
    (ofKinds sink schema config kinds).FailsOnly PublicationError.IsRefusal := by
  induction kinds with
  | nil => exact failsOnly_pure _
  | cons kind rest ih =>
    apply FailsOnly.bind (failsOnly_ofGeneration (Generation.faultless_ofKind closed kind))
    rintro _ (_ | operations) _ _
    · apply FailsOnly.bind ih
      rintro _ ⟨report, indexed⟩ _ _
      exact failsOnly_pure _
    · apply FailsOnly.bind (failsOnly_deliverAll _)
      intro _ _ _ _
      apply FailsOnly.bind ih
      rintro _ ⟨report, indexed⟩ _ _
      exact failsOnly_pure _

theorem failsOnly_all (closed : schema.Closed) :
    (all sink schema config).FailsOnly PublicationError.IsRefusal := by
  apply FailsOnly.bind (failsOnly_ofKinds closed _)
  rintro _ ⟨report, indexed⟩ _ _
  apply FailsOnly.bind (failsOnly_deliver _)
  intro _ _ _ _
  exact failsOnly_pure _

end Publication

/-! ## Checked schemas -/

/-- Checked rules are enough for generation: all operations are generated, a request is answered
with the operation of its root field or with the root type or the root field that is missing, and
what ends a publication early is a refusal by its sink. -/
theorem Schema.Checked.generation_faultless {schema : Schema} (checked : schema.Checked)
    (config : Config) :
    (∀ before, ∃ report after, (Generation.all schema config).Returns before report after) ∧
      (∀ kind name before, ∃ answer after,
        (Generation.named schema config kind name).Returns before answer after ∧
          match schema.root? kind with
          | none => answer = .error (.missingRoot kind)
          | some root =>
            match root.fields.get? name with
            | none => answer = .error (.undefinedField kind root.name name)
            | some _ => ∃ document, answer = .ok ⟨kind, name, document⟩) ∧
      ∀ (σ : Type) (sink : Sink σ) before error after,
        (Publication.all sink schema config).run.run before = (.error error, after) →
          ∃ write reason, error = .refused write reason := by
  have closed := checked.closed
  refine ⟨?_, ?_, ?_⟩
  · intro before
    exact (Generation.faultless_ofKinds closed _).returns before
  · intro kind name before
    rcases (Generation.faultless_named closed kind name).returns before with
      ⟨answer, after, returned⟩
    refine ⟨answer, after, returned, ?_⟩
    rw [Generation.returns_named_iff] at returned
    cases known : schema.root? kind with
    | none =>
      rw [known] at returned
      exact returned.1
    | some root =>
      simp only [known] at returned ⊢
      cases found : root.fields.get? name with
      | none =>
        rw [found] at returned
        exact returned.1
      | some field =>
        simp only [found] at returned ⊢
        rcases returned with ⟨operation, rfl, generated⟩
        rcases Generation.returns_operation_iff.mp generated with ⟨_, _, _, rfl, _⟩
        have named : field.name = name := (checked.built.wellFormed.of_root? known).fields.keyed _
          (Table.get?_eq_some_iff.mp found)
        rw [named]
        exact ⟨_, rfl⟩
  · intro σ sink before error after failed
    have refusal := Publication.failsOnly_all closed before error after failed
    cases error with
    | fault cause => exact refusal.elim
    | refused write reason => exact ⟨write, reason, rfl⟩

/-- The small schema answers a request for its root field with an operation, and one for another
field with a refusal. -/
theorem sampleSchema_generation_faultless :
    sampleSchema.Checked ∧
      (∃ document after, (Generation.named sampleSchema {} .query "n").Returns #[]
        (.ok ⟨.query, "n", document⟩) after) ∧
      ∃ after, (Generation.named sampleSchema {} .query "k").Returns #[]
        (.error (.undefinedField .query "Query" "k")) after := by
  have rootKnown : sampleSchema.root? .query = some sampleQuery := by decide
  have declared : sampleQuery.fields.get? "n" = some (sampleField "Query" 14 16) := by
    decide
  have missing : sampleQuery.fields.get? "k" = none := by decide
  rcases sampleSchema_checked.generation_faultless {} with ⟨_, answered, _⟩
  refine ⟨sampleSchema_checked, ?_, ?_⟩
  · rcases answered .query "n" #[] with ⟨answer, after, returned, known⟩
    simp only [rootKnown, declared] at known
    rcases known with ⟨document, rfl⟩
    exact ⟨document, after, returned⟩
  · rcases answered .query "k" #[] with ⟨answer, after, returned, known⟩
    simp only [rootKnown, missing] at known
    subst known
    exact ⟨after, returned⟩

end SchemaUnfolding
