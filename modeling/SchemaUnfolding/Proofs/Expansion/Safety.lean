import SchemaUnfolding.Proofs.Expansion.Returning
import SchemaUnfolding.Proofs.Schema.Closed

/-!
# Expansions of closed schemas

In a closed schema the expansion of a field that some type has meets no fault, whatever its site and
the progress so far: the fields that it comes to are again fields of types, so the names it follows
lead to types of the right kind.
-/

namespace SchemaUnfolding

open ExceptT

/-- Some type of a schema has a field. -/
def Schema.Offers (schema : Schema) (field : Field) : Prop :=
  ∃ type ∈ schema.types.values, ∃ fields ∈ type.fields?, field ∈ fields.values

namespace Schema

variable {schema : Schema}

theorem offers_of_mem_ownFields {config : Config} {type : TypeDef} {field : Field}
    (known : type ∈ schema.types.values) (own : field ∈ Expansion.ownFields config type) :
    schema.Offers field := by
  rw [Expansion.ownFields] at own
  cases declared : type.fields? with
  | none =>
    rw [declared] at own
    cases own
  | some fields =>
    rw [declared] at own
    exact ⟨type, known, fields, declared, (List.mem_filter.mp own).1⟩

theorem offers_of_mem_fieldsBeyond {interface type : FieldedType} {field : Field}
    (known : .object type ∈ schema.types.values) (beyond : field ∈ interface.fieldsBeyond type) :
    schema.Offers field :=
  ⟨_, known, _, rfl, (List.mem_filter.mp beyond).1⟩

end Schema

namespace Expansion

variable {schema : Schema} {config : Config} {expand : Expander}

/-- A computation meets no fault. -/
abbrev Faultless {α : Type} (computation : Expansion α) : Prop :=
  computation.FailsOnly fun _ => False

/-- Fields of a schema are expanded without a fault, wherever they stand. -/
def Safe (schema : Schema) (expand : Expander) : Prop :=
  ∀ label site field, schema.Offers field → (expand label site field).Faultless

/-! ## The building blocks -/

theorem faultless_enter (site : Site) (field : Field) : (enter config site field).Faultless := by
  intro before error after failed
  rw [run_enter] at failed
  split at failed <;> cases failed

theorem faultless_bindArguments (field : Field) : (bindArguments field).Faultless := by
  rintro _ _ _ ⟨⟩

theorem faultless_target (closed : schema.Closed) {field : Field} (offered : schema.Offers field) :
    (target schema field).Faultless := by
  rcases offered with ⟨type, member, fields, known, declared⟩
  rcases closed.fields type member fields known field declared with ⟨target, found, _⟩
  rw [Expansion.target]
  rw [found]
  exact failsOnly_pure _

theorem faultless_memberFields (closed : schema.Closed) {union : UnionType} {member : String}
    (known : .union union ∈ schema.types.values) (listed : member ∈ union.members.names) :
    (memberFields schema union.name member).Faultless := by
  rcases closed.members union known member listed with ⟨object, found⟩
  rw [memberFields]
  rw [found]
  exact failsOnly_pure _

/-! ## Fields and fragments -/

theorem faultless_collect {expand : Field → Expansion (Option Selection)} {fields : List Field}
    (safe : ∀ field ∈ fields, (expand field).Faultless) : (collect expand fields).Faultless := by
  induction fields with
  | nil => exact failsOnly_pure _
  | cons field rest ih =>
    apply FailsOnly.bind (safe field (List.mem_cons_self ..))
    intro _ _ _ _
    apply FailsOnly.bind (ih fun other member => safe other (List.mem_cons_of_mem _ member))
    intro _ _ _ _
    exact failsOnly_pure _

theorem faultless_interfaceFragments (safe : Safe schema expand) {site : Site} {field : Field}
    {interface : FieldedType} {possible types : List FieldedType}
    (known : ∀ type ∈ types, .object type ∈ schema.types.values) :
    (interfaceFragments config expand site field interface possible types).Faultless := by
  induction types with
  | nil => exact failsOnly_pure _
  | cons type rest ih =>
    have beyond : ∀ inner ∈ (interface.fieldsBeyond type).filter config.includes,
        schema.Offers inner := fun inner member =>
      Schema.offers_of_mem_fieldsBeyond (known type (List.mem_cons_self ..))
        (List.mem_filter.mp member).1
    apply FailsOnly.bind (faultless_collect fun inner member => safe _ _ _ (beyond inner member))
    intro _ _ _ _
    apply FailsOnly.bind (ih fun other member => known other (List.mem_cons_of_mem _ member))
    intro _ _ _ _
    exact failsOnly_pure _

theorem faultless_unionFragments (closed : schema.Closed) (safe : Safe schema expand) {site : Site}
    {field : Field} {union : UnionType} {members : List String}
    (known : .union union ∈ schema.types.values)
    (listed : ∀ member ∈ members, member ∈ union.members.names) :
    (unionFragments schema config expand site field union.name members).Faultless := by
  induction members with
  | nil => exact failsOnly_pure _
  | cons member rest ih =>
    have first := listed member (List.mem_cons_self ..)
    apply FailsOnly.bind (faultless_memberFields closed known first)
    intro before fields after returned
    rcases Option.bind_eq_some_iff.mp (returns_memberFields_iff.mp returned).1 with
      ⟨type, found, declared⟩
    have offered : ∀ inner ∈ fields.values.filter config.includes, schema.Offers inner :=
      fun inner member =>
        ⟨type, Schema.mem_values_of_type? found, fields, declared, (List.mem_filter.mp member).1⟩
    apply FailsOnly.bind (faultless_collect fun inner member => safe _ _ _ (offered inner member))
    intro _ _ _ _
    apply FailsOnly.bind (ih fun other member => listed other (List.mem_cons_of_mem _ member))
    intro _ _ _ _
    exact failsOnly_pure _

theorem faultless_polymorphic (closed : schema.Closed) (safe : Safe schema expand) {site : Site}
    {field : Field} {type : TypeDef} (known : type ∈ schema.types.values) :
    (polymorphic schema config expand site field type).Faultless := by
  cases type with
  | interface interface =>
    apply FailsOnly.bind (faultless_interfaceFragments safe fun _ possible =>
      Schema.object_mem_of_mem_possibleTypes possible)
    intro _ _ _ _
    exact failsOnly_pure _
  | union union =>
    simp only [polymorphic]
    split
    · exact failsOnly_pure _
    · apply FailsOnly.bind (faultless_unionFragments closed safe known fun _ member => member)
      intro _ _ _ _
      exact failsOnly_pure _
  | _ => exact failsOnly_pure _

/-! ## Expansion -/

/-- One round of expansion is safe when the expansion of the fields below is. -/
theorem Safe.expandBy (closed : schema.Closed) (below : Safe schema expand) :
    Safe schema (expandBy schema config expand) := by
  intro label site field offered
  apply FailsOnly.bind (faultless_target closed offered)
  intro before type after resolved
  have known : type ∈ schema.types.values :=
    Schema.mem_values_of_type? (returns_target_iff.mp resolved).1
  have finished : ∀ admitted : Bool, (if !admitted then pure none
      else do
        let own ← collect (expand none (site.below field.name)) (ownFields config type)
        let arguments ← bindArguments field
        let fragments ← polymorphic schema config expand site field type
        return some (.field label field.name arguments (own ++ fragments)) :
        Expansion (Option Selection)).Faultless := by
    intro admitted
    cases admitted with
    | false => exact failsOnly_pure _
    | true =>
      apply FailsOnly.bind (faultless_collect fun inner member =>
        below _ _ _ (Schema.offers_of_mem_ownFields known member))
      intro _ _ _ _
      apply FailsOnly.bind (faultless_bindArguments field)
      intro _ _ _ _
      apply FailsOnly.bind (faultless_polymorphic closed below known)
      intro _ _ _ _
      exact failsOnly_pure _
  dsimp only
  split
  · exact FailsOnly.bind (faultless_enter site field) fun _ admitted _ _ => finished admitted
  · exact FailsOnly.bind (failsOnly_pure true) fun _ admitted _ _ => finished admitted

theorem safe_expandWithin (closed : schema.Closed) (levels : Nat) :
    Safe schema (expandWithin schema config levels) := by
  induction levels with
  | zero => exact Safe.expandBy closed fun _ _ _ _ => failsOnly_pure _
  | succ levels ih => exact Safe.expandBy closed ih

/-- The expansion of a field of a closed schema meets no fault. -/
theorem faultless_expand (closed : schema.Closed) {field : Field} (offered : schema.Offers field)
    (site : Site) : (Expansion.expand schema config site field).Faultless :=
  safe_expandWithin closed _ _ _ _ offered

end Expansion

end SchemaUnfolding
