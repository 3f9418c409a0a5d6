import Mathlib.Data.List.Perm.Subperm
import SchemaUnfolding.Operation.Variables
import SchemaUnfolding.Proofs.Sdl.Names
import SchemaUnfolding.Proofs.Table

/-!
# Binding variables

A variable is always new: one of the numbers that are tried after a name is free, because there are
more of them than variables. So binding the parameters of a field adds one variable for each of them
in order, and changes no variable that was there.
-/

namespace SchemaUnfolding

open Sdl (IsName isNameRest)

namespace Variables

/-! ## Numbers -/

theorem numbered_injective {name : String} {first second : Nat}
    (same : numbered name first = numbered name second) : first = second := by
  have digits : Nat.toDigits 10 first = Nat.toDigits 10 second := by
    simpa [numbered, ← String.toList_inj, Nat.toString_eq_ofList_toDigits] using same
  calc
    first = Nat.ofDigitChars 10 (Nat.toDigits 10 first) 0 := Nat.ofDigitChars_ten_toDigits.symm
    _ = second := by rw [digits, Nat.ofDigitChars_ten_toDigits]

/-- When the number found is taken, so are all that were tried. -/
theorem mem_names_of_freeNumber {bound : Table Parameter} {name : String} {steps start : Nat}
    (taken : numbered name (freeNumber bound name steps start) ∈ bound.names) :
    ∀ offset ≤ steps, numbered name (start + offset) ∈ bound.names := by
  induction steps generalizing start with
  | zero =>
    intro offset within
    rw [Nat.le_zero.mp within]
    exact taken
  | succ steps ih =>
    rw [freeNumber] at taken
    split at taken
    · rename_i occupied
      intro offset within
      cases offset with
      | zero => exact Table.contains_iff.mp occupied
      | succ offset =>
        have later := ih taken offset (Nat.le_of_succ_le_succ within)
        rwa [Nat.add_right_comm] at later
    · rename_i free
      exact absurd (Table.contains_iff.mpr taken) free

/-- The number found after as many steps as there are variables is free. -/
theorem freeNumber_not_mem (bound : Table Parameter) (name : String) (start : Nat) :
    numbered name (freeNumber bound name bound.size start) ∉ bound.names := by
  intro taken
  have tried := mem_names_of_freeNumber taken
  let candidates := (List.range (bound.size + 1)).map fun offset => numbered name (start + offset)
  have distinct : candidates.Nodup := by
    apply List.nodup_range.map
    intro first second same
    exact Nat.add_left_cancel (numbered_injective same)
  have inside : candidates ⊆ bound.names := by
    intro candidate member
    rcases List.mem_map.mp member with ⟨offset, small, rfl⟩
    exact tried offset (Nat.le_of_lt_succ (List.mem_range.mp small))
  have counted := (List.subperm_of_subset distinct inside).length_le
  simp only [candidates, List.length_map, List.length_range, Table.names, Table.size] at counted
  omega

/-! ## Names of variables -/

theorem bound_allocate (scope : Variables) (name : String) :
    (scope.allocate name).2.bound = scope.bound := by
  rw [allocate]
  split <;> rfl

theorem allocate_not_mem (scope : Variables) (name : String) :
    (scope.allocate name).1 ∉ scope.bound.names := by
  rw [allocate]
  split
  · exact freeNumber_not_mem scope.bound name _
  · rename_i unused
    intro member
    simp [Table.contains_iff.mpr member] at unused

/-- A name with a number after it is a name. -/
theorem isName_numbered {name : String} (isName : IsName name) (number : Nat) :
    IsName (numbered name number) := by
  apply isName.append
  intro c member
  rw [Nat.toString_eq_ofList_toDigits, String.toList_ofList] at member
  have digit : c.isDigit = true := Nat.isDigit_of_mem_toDigits (by decide) (by decide) member
  simp [isNameRest, Char.isAlphanum, digit]

theorem isName_allocate (scope : Variables) {name : String} (isName : IsName name) :
    IsName (scope.allocate name).1 := by
  rw [allocate]
  split
  · exact isName_numbered isName _
  · exact isName

/-! ## Growing -/

/-- Variables were added at the end, and the variable of each parameter with a name has a name. -/
structure Grows (before after : Variables) (added : List (String × Parameter)) : Prop where
  entries : after.bound.entries = before.bound.entries ++ added
  names : ∀ entry ∈ added, IsName entry.2.name → IsName entry.1

theorem Grows.refl (scope : Variables) : scope.Grows scope [] where
  entries := (List.append_nil _).symm
  names := by simp

theorem Grows.trans {before middle after : Variables} {first second : List (String × Parameter)}
    (early : before.Grows middle first) (late : middle.Grows after second) :
    before.Grows after (first ++ second) where
  entries := by rw [late.entries, early.entries, List.append_assoc]
  names := by
    intro entry member
    rcases List.mem_append.mp member with here | there
    · exact early.names entry here
    · exact late.names entry there

/-- An argument that passes the variable of a parameter. -/
def argument (entry : String × Parameter) : String × String := (entry.2.name, entry.1)

theorem grows_bind (scope : Variables) (parameter : Parameter) :
    scope.Grows (scope.bind parameter).2 [((scope.bind parameter).1, parameter)] where
  entries := by
    have inserted : (scope.bind parameter).2.bound =
        scope.bound.insert (scope.bind parameter).1 parameter := by
      rw [← bound_allocate scope parameter.name]
      rfl
    rw [inserted]
    exact Table.entries_insert_of_not_mem (scope.allocate_not_mem parameter.name)
  names := by
    intro entry member
    rw [List.mem_singleton.mp member]
    exact scope.isName_allocate

/-- Binding parameters adds one variable for each of them in order, and passes them all. -/
theorem grows_of_bindAll {scope next : Variables} {parameters : List Parameter}
    {arguments : List (String × String)}
    (bound : scope.bindAll parameters = (arguments, next)) :
    ∃ added, scope.Grows next added ∧ added.map Prod.snd = parameters ∧
      arguments = added.map argument := by
  induction parameters generalizing scope arguments with
  | nil =>
    cases bound
    exact ⟨[], .refl _, rfl, rfl⟩
  | cons parameter rest ih =>
    rw [bindAll] at bound
    dsimp only at bound
    rw [Prod.mk.injEq] at bound
    rcases bound with ⟨rfl, rfl⟩
    obtain ⟨added, grown, same, passed⟩ := @ih (scope.bind parameter).2 _ rfl
    refine ⟨((scope.bind parameter).1, parameter) :: added, ?_, ?_, ?_⟩
    · exact (scope.grows_bind parameter).trans grown
    · rw [List.map_cons, same]
    · rw [List.map_cons, ← passed]
      rfl

end Variables

end SchemaUnfolding
