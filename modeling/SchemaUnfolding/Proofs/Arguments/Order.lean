import SchemaUnfolding.Proofs.Arguments.Binding
import SchemaUnfolding.Proofs.Expansion.Derivation
import SchemaUnfolding.Proofs.Unfolding.Distinct

/-!
# The order of arguments

The arguments in a selection have two orders: the one in which they are printed and the one in which
their variables are bound. In the latter a field comes after its own fields and before its
fragments. An expansion adds the variables of the arguments that it returns, in the order of
binding, and no others, whatever it left out on the way.
-/

namespace SchemaUnfolding

open Expansion

/-! ## Two orders -/

namespace Selection

mutual

/-- The arguments in a selection, parameter and variable, in the order of printing. -/
def arguments : Selection → List (String × String)
  | typename => []
  | field _ _ arguments selections => arguments ++ argumentsOfAll selections
  | fragment _ selections => argumentsOfAll selections

/-- The arguments in several selections, one after the other. -/
def argumentsOfAll : List Selection → List (String × String)
  | [] => []
  | selection :: rest => selection.arguments ++ argumentsOfAll rest

end

/-- Whether a selection is a fragment. -/
def isFragment : Selection → Bool
  | fragment _ _ => true
  | _ => false

mutual

/-- The arguments in a selection in the order of binding: first those below a field but in no
fragment there, then those of the field, then those in its fragments. -/
def bindings : Selection → List (String × String)
  | typename => []
  | field _ _ arguments selections =>
    bindingsOf false selections ++ arguments ++ bindingsOf true selections
  | fragment _ selections => bindingsOf false selections ++ bindingsOf true selections

/-- The arguments in those of several selections that are fragments, or that are none. -/
def bindingsOf (fragments : Bool) : List Selection → List (String × String)
  | [] => []
  | selection :: rest =>
    (if selection.isFragment = fragments then selection.bindings else []) ++
      bindingsOf fragments rest

end

@[simp]
theorem bindingsOf_nil (fragments : Bool) : bindingsOf fragments [] = [] := by
  rw [bindingsOf]

@[simp]
theorem bindingsOf_append (fragments : Bool) (first second : List Selection) :
    bindingsOf fragments (first ++ second) =
      bindingsOf fragments first ++ bindingsOf fragments second := by
  induction first with
  | nil => simp
  | cons selection rest ih => simp [bindingsOf, ih]

mutual

/-- The two orders are orders of the same arguments. -/
theorem bindings_perm (selection : Selection) : selection.bindings.Perm selection.arguments := by
  match selection with
  | typename => simp [bindings, arguments]
  | field label name passed selections =>
    rw [bindings, arguments, List.append_assoc]
    have below := bindingsOf_perm selections
    exact (List.perm_append_comm_assoc ..).trans (below.append_left _)
  | fragment type selections =>
    rw [bindings, arguments]
    exact bindingsOf_perm selections

theorem bindingsOf_perm (selections : List Selection) :
    (bindingsOf false selections ++ bindingsOf true selections).Perm
      (argumentsOfAll selections) := by
  match selections with
  | [] => simp [argumentsOfAll]
  | selection :: rest =>
    rw [bindingsOf, bindingsOf, argumentsOfAll]
    have first := bindings_perm selection
    have others := bindingsOf_perm rest
    cases selection.isFragment with
    | false =>
      simp only [if_true, Bool.false_eq_true, if_false, List.nil_append, List.append_assoc]
      exact first.append others
    | true =>
      simp only [if_true, Bool.true_eq_false, if_false, List.nil_append]
      exact (List.perm_append_comm_assoc ..).trans (first.append others)

end

end Selection

/-! ## What an expansion binds -/

theorem Schema.WellFormed.field_wellFormed {schema : Schema} (wellFormed : schema.WellFormed)
    {field : Field} (offered : schema.Offers field) :
    ∃ holder, field.WellFormed holder := by
  obtain ⟨type, known, fields, declares, declared⟩ := offered
  exact ⟨type.name, (wellFormed.fields_holds known declares).values field declared⟩

theorem Selection.bindingsOf_typenames (fragments : Bool) (type : TypeDef) :
    Selection.bindingsOf fragments type.typenames = [] := by
  rw [TypeDef.typenames]
  split
  · simp [Selection.bindingsOf, Selection.bindings]
  · simp

theorem Selection.bindingsOf_fragment? (type : String) (selections : List Selection) :
    Selection.bindingsOf false (fragment? type selections).toList = [] ∧
      Selection.bindingsOf true (fragment? type selections).toList =
        Selection.bindingsOf false selections ++ Selection.bindingsOf true selections := by
  rw [fragment?]
  cases selections with
  | nil => simp
  | cons first rest => simp [Selection.bindingsOf, Selection.bindings, Selection.isFragment]

/-- Variables were added for the well-formed parameters that some arguments pass, in the order of
the arguments. -/
structure Variables.Binds (before after : Variables) (arguments : List (String × String))
    (added : List (String × Parameter)) : Prop where
  grows : before.Grows after added
  passed : arguments = added.map Variables.argument
  wellFormed : ∀ entry ∈ added, entry.2.WellFormed

theorem Variables.Binds.refl (scope : Variables) : scope.Binds scope [] [] where
  grows := .refl scope
  passed := rfl
  wellFormed := by simp

theorem Variables.Binds.trans {before middle after : Variables}
    {first second : List (String × String)} {early late : List (String × Parameter)}
    (binds : before.Binds middle first early) (others : middle.Binds after second late) :
    before.Binds after (first ++ second) (early ++ late) where
  grows := binds.grows.trans others.grows
  passed := by rw [binds.passed, others.passed, List.map_append]
  wellFormed := by
    intro entry member
    rcases List.mem_append.mp member with here | there
    · exact binds.wellFormed entry here
    · exact others.wellFormed entry there

/-- Binding the parameters of a well-formed field. -/
theorem Variables.binds_of_bindAll {scope next : Variables} {field : Field} {holder : String}
    {arguments : List (String × String)} (wellFormed : field.WellFormed holder)
    (bound : scope.bindAll field.parameters.values = (arguments, next)) :
    ∃ added, scope.Binds next arguments added ∧ added.map Prod.snd = field.parameters.values := by
  obtain ⟨added, grown, same, passed⟩ := grows_of_bindAll bound
  refine ⟨added, ⟨grown, passed, ?_⟩, same⟩
  intro entry member
  have declared : entry.2 ∈ field.parameters.values := by
    rw [← same]
    exact List.mem_map.mpr ⟨entry, member, rfl⟩
  exact wellFormed.parameters.values _ declared

variable {schema : Schema} {config : Config}

mutual

/-- The expansion of a field binds the arguments that it returns, in the order of binding. -/
theorem Expands.binds {label : Option String} {site : Site} {field : Field}
    {before after : Progress} {result : Option Selection}
    (expanded : Expands schema config label site field before result after)
    (wellFormed : schema.WellFormed) (offered : schema.Offers field) :
    Selection.bindingsOf true result.toList = [] ∧
      ∃ added, before.scope.Binds after.scope (Selection.bindingsOf false result.toList) added := by
  match expanded with
  | .leftOut _ _ _ =>
    refine ⟨by simp, [], ?_⟩
    simpa using Variables.Binds.refl before.scope
  | .shown found _ ownExpanded bound known expanded =>
    have resolved := Schema.mem_values_of_type? found
    obtain ⟨holder, fieldWellFormed⟩ := wellFormed.field_wellFormed offered
    obtain ⟨noneOwn, own, ownBinds⟩ := ownExpanded.binds wellFormed
      (Schema.offers_of_ownFields resolved config)
    obtain ⟨passed, passedBinds, _⟩ := Variables.binds_of_bindAll fieldWellFormed bound
    obtain ⟨noneBelow, below, branchesBind⟩ := expanded.binds wellFormed
      (Schema.offers_of_branches? known)
    refine ⟨by simp [Selection.bindingsOf, Selection.isFragment], own ++ passed ++ below, ?_⟩
    have whole := (ownBinds.trans passedBinds).trans branchesBind
    simpa [Selection.bindingsOf, Selection.bindings, Selection.isFragment,
      Selection.bindingsOf_typenames, noneOwn, noneBelow] using whole

/-- The expansion of fields binds the arguments that it returns, in the order of binding. -/
theorem ExpandsAll.binds {site : Site} {entries : List (Option String × Field)}
    {before after : Progress} {selections : List Selection}
    (expanded : ExpandsAll schema config site entries before selections after)
    (wellFormed : schema.WellFormed) (offered : ∀ entry ∈ entries, schema.Offers entry.2) :
    Selection.bindingsOf true selections = [] ∧
      ∃ added, before.scope.Binds after.scope (Selection.bindingsOf false selections) added := by
  match expanded with
  | .nil =>
    refine ⟨by simp, [], ?_⟩
    simpa using Variables.Binds.refl before.scope
  | .cons first others =>
    obtain ⟨noneHere, here, firstBinds⟩ := first.binds wellFormed
      (offered _ (List.mem_cons_self ..))
    obtain ⟨noneThere, there, othersBind⟩ := others.binds wellFormed
      fun entry member => offered entry (List.mem_cons_of_mem _ member)
    refine ⟨by simp [noneHere, noneThere], here ++ there, ?_⟩
    rw [Selection.bindingsOf_append]
    exact firstBinds.trans othersBind

/-- The expansion of fragments binds the arguments that it returns, in the order of binding. -/
theorem ExpandsBranches.binds {site : Site} {branches : List Branch} {before after : Progress}
    {fragments : List Selection}
    (expanded : ExpandsBranches schema config site branches before fragments after)
    (wellFormed : schema.WellFormed)
    (offered : ∀ branch ∈ branches, ∀ entry ∈ branch.fields, schema.Offers entry.2) :
    Selection.bindingsOf false fragments = [] ∧
      ∃ added, before.scope.Binds after.scope (Selection.bindingsOf true fragments) added := by
  match expanded with
  | .nil =>
    refine ⟨by simp, [], ?_⟩
    simpa using Variables.Binds.refl before.scope
  | .cons first others =>
    obtain ⟨noneHere, here, firstBinds⟩ := first.binds wellFormed
      (offered _ (List.mem_cons_self ..))
    obtain ⟨noneThere, there, othersBind⟩ := others.binds wellFormed
      fun branch member => offered branch (List.mem_cons_of_mem _ member)
    simp only [Selection.bindingsOf_append, Selection.bindingsOf_fragment?, noneHere, noneThere,
      List.append_nil, true_and]
    exact ⟨here ++ there, firstBinds.trans othersBind⟩

end

end SchemaUnfolding
