import SchemaUnfolding.Proofs.Arguments.Exact
import SchemaUnfolding.Proofs.Executable.Printed
import SchemaUnfolding.Proofs.Layout.Documents

/-!
# Documents are operations

An expansion leaves no fragment empty and shows no reserved field, so what is generated for a root
field is an operation by the rules of the grammar, and reading it by these rules gives back just the
name, the declarations and the selection that it was printed from.
-/

namespace SchemaUnfolding

open Expansion
open Executable (AreReadable IsOperation IsReadable Prints)
open Sdl (IsName)

/-! ## Readable selections -/

namespace Executable

@[simp]
theorem areReadable_nil : AreReadable [] := by
  rw [AreReadable]
  trivial

@[simp]
theorem areReadable_append_iff {first second : List Selection} :
    AreReadable (first ++ second) ↔ AreReadable first ∧ AreReadable second := by
  induction first with
  | nil => simp
  | cons selection rest ih => simp [AreReadable, ih, and_assoc]

theorem areReadable_typenames (type : TypeDef) : AreReadable type.typenames := by
  rw [TypeDef.typenames]
  split
  · simp [AreReadable, IsReadable]
  · simp

theorem areReadable_fragment? {type : String} {selections : List Selection}
    (readable : AreReadable selections) : AreReadable (fragment? type selections).toList := by
  rw [fragment?]
  cases selections with
  | nil => simp
  | cons first rest => simpa [AreReadable, IsReadable] using readable

end Executable

section Readable

variable {schema : Schema} {config : Config}

mutual

/-- The expansion of a field is readable. -/
theorem Expands.readable {label : Option String} {site : Site} {field : Field}
    {before after : Progress} {result : Option Selection}
    (expanded : Expands schema config label site field before result after)
    (wellFormed : schema.WellFormed) (offered : schema.Offers field) :
    AreReadable result.toList := by
  match expanded with
  | .leftOut _ _ _ => simp
  | .shown found _ ownExpanded _ known expanded =>
    have resolved := Schema.mem_values_of_type? found
    have own := ownExpanded.readable wellFormed (Schema.offers_of_ownFields resolved config)
    have fragments := expanded.readable wellFormed (Schema.offers_of_branches? known)
    have unreserved : field.name ≠ "__typename" := by
      intro same
      obtain ⟨_, fieldWellFormed⟩ := wellFormed.field_wellFormed offered
      have free := fieldWellFormed.name.unreserved
      rw [same] at free
      revert free
      decide +kernel
    simp [AreReadable, IsReadable, unreserved, own, fragments, Executable.areReadable_typenames]

/-- The expansion of fields is readable. -/
theorem ExpandsAll.readable {site : Site} {entries : List (Option String × Field)}
    {before after : Progress} {selections : List Selection}
    (expanded : ExpandsAll schema config site entries before selections after)
    (wellFormed : schema.WellFormed) (offered : ∀ entry ∈ entries, schema.Offers entry.2) :
    AreReadable selections := by
  match expanded with
  | .nil => simp
  | .cons first others =>
    have head := first.readable wellFormed (offered _ (List.mem_cons_self ..))
    have tail := others.readable wellFormed
      fun entry member => offered entry (List.mem_cons_of_mem _ member)
    exact Executable.areReadable_append_iff.mpr ⟨head, tail⟩

/-- The expansion of fragments is readable, because an empty one vanishes. -/
theorem ExpandsBranches.readable {site : Site} {branches : List Branch} {before after : Progress}
    {fragments : List Selection}
    (expanded : ExpandsBranches schema config site branches before fragments after)
    (wellFormed : schema.WellFormed)
    (offered : ∀ branch ∈ branches, ∀ entry ∈ branch.fields, schema.Offers entry.2) :
    AreReadable fragments := by
  match expanded with
  | .nil => simp
  | .cons first others =>
    have head := first.readable wellFormed (offered _ (List.mem_cons_self ..))
    have tail := others.readable wellFormed
      fun branch member => offered branch (List.mem_cons_of_mem _ member)
    exact Executable.areReadable_append_iff.mpr ⟨Executable.areReadable_fragment? head, tail⟩

end

end Readable

/-! ## Exactness -/

theorem OperationKind.isSome_named? {root : String} {kind : OperationKind}
    (worded : Text.contains (Text.lowerAscii root) kind.keyword = true) :
    (named? root).isSome = true := by
  rw [named?, List.find?_isSome]
  exact ⟨kind, by cases kind <;> decide, worded⟩

end SchemaUnfolding
