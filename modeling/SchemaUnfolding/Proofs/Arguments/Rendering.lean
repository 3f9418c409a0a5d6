import Mathlib.Data.List.Forall2
import SchemaUnfolding.Proofs.Arguments.Order
import SchemaUnfolding.Proofs.Unfolding.Fields

/-!
# What a selection renders

Each field in a selection that an expansion returns renders a field of the type at hand, and passes
all of its parameters in the order of their declarations, each by the variable that is bound to just
this parameter. All names in the selection are names of the language.
-/

namespace SchemaUnfolding

open Expansion
open Sdl (IsName)

/-- Arguments pass all parameters of a field in order, each by the variable that is bound to it. -/
def Field.Passes (field : Field) (bound : Table Parameter) (arguments : List (String × String)) :
    Prop :=
  List.Forall₂ (fun parameter argument =>
    argument.1 = parameter.name ∧ bound.get? argument.2 = some parameter)
    field.parameters.values arguments

namespace Selection

mutual

/-- A selection renders a field that is found by its name, or fields of the type of a fragment, with
all their arguments, and so do the selections in it. -/
def Renders (schema : Schema) (bound : Table Parameter) (find : String → Option Field) :
    Selection → Prop
  | typename => True
  | field _ name arguments selections =>
    ∃ rendered, find name = some rendered ∧ rendered.Passes bound arguments ∧
      RendersAll schema bound (schema.fieldOf? rendered.type.name) selections
  | fragment type selections => RendersAll schema bound (schema.fieldOf? type) selections

/-- Each of several selections renders what it should. -/
def RendersAll (schema : Schema) (bound : Table Parameter) (find : String → Option Field) :
    List Selection → Prop
  | [] => True
  | selection :: rest => selection.Renders schema bound find ∧ RendersAll schema bound find rest

end

mutual

/-- All names in a selection are names of the language. -/
def Named : Selection → Prop
  | typename => True
  | field label name arguments selections =>
    (∀ other ∈ label, IsName other) ∧ IsName name ∧
      (∀ argument ∈ arguments, IsName argument.1 ∧ IsName argument.2) ∧ NamedAll selections
  | fragment type selections => IsName type ∧ NamedAll selections

/-- All names in several selections are names of the language. -/
def NamedAll : List Selection → Prop
  | [] => True
  | selection :: rest => selection.Named ∧ NamedAll rest

end

variable {schema : Schema} {bound : Table Parameter} {find : String → Option Field}

@[simp]
theorem rendersAll_nil : RendersAll schema bound find [] := by
  rw [RendersAll]
  trivial

@[simp]
theorem rendersAll_append_iff {first second : List Selection} :
    RendersAll schema bound find (first ++ second) ↔
      RendersAll schema bound find first ∧ RendersAll schema bound find second := by
  induction first with
  | nil => simp
  | cons selection rest ih => simp [RendersAll, ih, and_assoc]

@[simp]
theorem namedAll_nil : NamedAll [] := by
  rw [NamedAll]
  trivial

@[simp]
theorem namedAll_append_iff {first second : List Selection} :
    NamedAll (first ++ second) ↔ NamedAll first ∧ NamedAll second := by
  induction first with
  | nil => simp
  | cons selection rest ih => simp [NamedAll, ih, and_assoc]

theorem rendersAll_typenames (type : TypeDef) : RendersAll schema bound find type.typenames := by
  rw [TypeDef.typenames]
  split
  · simp [RendersAll, Renders]
  · simp

theorem namedAll_typenames (type : TypeDef) : NamedAll type.typenames := by
  rw [TypeDef.typenames]
  split
  · simp [NamedAll, Named]
  · simp

theorem rendersAll_fragment? {type : String} {selections : List Selection}
    (rendered : RendersAll schema bound (schema.fieldOf? type) selections) :
    RendersAll schema bound find (fragment? type selections).toList := by
  rw [fragment?]
  cases selections with
  | nil => simp
  | cons first rest => simpa [RendersAll, Renders] using rendered

theorem namedAll_fragment? {type : String} {selections : List Selection} (isName : IsName type)
    (named : NamedAll selections) : NamedAll (fragment? type selections).toList := by
  rw [fragment?]
  cases selections with
  | nil => simp
  | cons first rest => simpa [NamedAll, Named] using ⟨isName, named⟩

end Selection

/-! ## Passing -/

/-- All entries of the one are entries of the other. -/
theorem Variables.Grows.mem_entries {before after : Variables} {added : List (String × Parameter)}
    (grows : before.Grows after added) {entry : String × Parameter}
    (member : entry ∈ before.bound.entries) : entry ∈ after.bound.entries := by
  rw [grows.entries]
  exact List.mem_append_left _ member

/-- A field passes the parameters that were bound for it, whatever else a table holds. -/
theorem Field.passes_of_bindAll {scope next : Variables} {field : Field}
    {arguments : List (String × String)} {bound : Table Parameter}
    (bindings : scope.bindAll field.parameters.values = (arguments, next))
    (kept : ∀ entry ∈ next.bound.entries, entry ∈ bound.entries) :
    field.Passes bound arguments := by
  obtain ⟨added, grown, same, rfl⟩ := Variables.grows_of_bindAll bindings
  rw [Field.Passes]
  rw [← same, List.forall₂_map_left_iff, List.forall₂_map_right_iff, List.forall₂_same]
  intro entry member
  refine ⟨rfl, Table.get?_eq_some_iff.mpr (kept entry ?_)⟩
  rw [grown.entries]
  exact List.mem_append_right _ member

/-! ## Naming -/

section Naming

variable {schema : Schema} {config : Config} (wellFormed : schema.WellFormed)
include wellFormed

/-- Fragments are for types with names, and their labels are names. -/
theorem Schema.WellFormed.named_branches? {type : TypeDef} {branches : List Branch}
    (known : branches? schema config type = some branches)
    (resolved : type ∈ schema.types.values) :
    ∀ branch ∈ branches, IsName branch.type ∧
      ∀ entry ∈ branch.fields, ∀ label ∈ entry.1, IsName label := by
  intro branch member
  cases type with
  | interface interface =>
    cases known
    obtain ⟨type, possible, rfl⟩ := List.mem_map.mp member
    have held := Schema.object_mem_of_mem_possibleTypes possible
    have isName := (wellFormed.types.name_of_mem held).isName
    refine ⟨isName, ?_⟩
    rintro ⟨label, field⟩ listed other member
    obtain ⟨rfl, declared, _⟩ := mem_implementorBranch_iff.mp listed
    have fieldName := ((wellFormed.fields_holds held rfl).values field declared).name.isName
    rw [FieldedType.label?] at member
    split at member
    · cases member
      apply IsName.append _ fun c inside => isName.isNameRest_of_mem inside
      apply fieldName.append
      intro c inside
      have underscore : c = '_' := by simpa using inside
      rw [underscore]
      rfl
    · cases member
  | union union =>
    rw [memberBranches?_eq_some known] at member
    obtain ⟨name, inside, rfl⟩ := List.mem_map.mp member
    obtain ⟨ref, entered⟩ := Table.mem_names_iff.mp inside
    have held : union.members.Holds NamedRef.name fun member => IsName member.name :=
      wellFormed.types.types.values _ resolved
    have named : ref.name = name := held.keyed _ entered
    refine ⟨named ▸ held.values ref (Table.mem_values_iff.mpr ⟨name, entered⟩), ?_⟩
    rintro ⟨label, field⟩ listed other member
    rw [(mem_memberBranch_iff.mp listed).1] at member
    cases member
  | _ =>
    cases known
    cases member

end Naming

/-! ## Rendering -/

/-- The arguments that were bound for a well-formed field consist of names. -/
theorem Variables.Binds.named {before after : Variables} {arguments : List (String × String)}
    {added : List (String × Parameter)} (binds : before.Binds after arguments added) :
    ∀ argument ∈ arguments, IsName argument.1 ∧ IsName argument.2 := by
  rw [binds.passed]
  intro argument member
  obtain ⟨entry, known, rfl⟩ := List.mem_map.mp member
  have parameterName := (binds.wellFormed entry known).name.isName
  exact ⟨parameterName, binds.grows.names entry known parameterName⟩

variable {schema : Schema} {config : Config} {bound : Table Parameter}

mutual

/-- The expansion of a field renders it, in names. -/
theorem Expands.renders {label : Option String} {site : Site} {field : Field}
    {before after : Progress} {result : Option Selection}
    (expanded : Expands schema config label site field before result after)
    (wellFormed : schema.WellFormed) (offered : schema.Offers field)
    (labelled : ∀ other ∈ label, IsName other) {find : String → Option Field}
    (findable : find field.name = some field)
    (kept : ∀ entry ∈ after.scope.bound.entries, entry ∈ bound.entries) :
    Selection.RendersAll schema bound find result.toList ∧
      Selection.NamedAll result.toList := by
  match expanded with
  | .leftOut _ _ _ => simp
  | .shown found _ ownExpanded passed known expanded =>
    have resolved := Schema.mem_values_of_type? found
    obtain ⟨holder, fieldWellFormed⟩ := wellFormed.field_wellFormed offered
    obtain ⟨entries, entriesBind, _⟩ := Variables.binds_of_bindAll fieldWellFormed passed
    obtain ⟨_, below, branchesBind⟩ := expanded.binds wellFormed
      (Schema.offers_of_branches? known)
    have keptBelow := fun entry member => kept entry (branchesBind.grows.mem_entries member)
    have keptOwn := fun entry member => keptBelow entry (entriesBind.grows.mem_entries member)
    have own := ownExpanded.renders wellFormed (Schema.offers_of_ownFields resolved config)
      (by simp) (wellFormed.fieldOf?_of_mem_ownFields found) keptOwn
    have fragments := expanded.renders wellFormed (Schema.offers_of_branches? known)
      (wellFormed.named_branches? known resolved) (wellFormed.fieldOf?_of_branches? known) kept
      (schema.fieldOf? field.type.name)
    constructor
    · simp only [Option.toList_some, Selection.RendersAll, Selection.Renders,
        Selection.rendersAll_append_iff]
      have passes := Field.passes_of_bindAll passed keptBelow
      exact ⟨⟨field, findable, passes, own.1, Selection.rendersAll_typenames _, fragments.1⟩,
        trivial⟩
    · simp only [Option.toList_some, Selection.NamedAll, Selection.Named,
        Selection.namedAll_append_iff]
      exact ⟨⟨labelled, fieldWellFormed.name.isName, entriesBind.named, own.2,
        Selection.namedAll_typenames _, fragments.2⟩, trivial⟩

/-- The expansion of fields renders them, in names. -/
theorem ExpandsAll.renders {site : Site} {entries : List (Option String × Field)}
    {before after : Progress} {selections : List Selection}
    (expanded : ExpandsAll schema config site entries before selections after)
    (wellFormed : schema.WellFormed) (offered : ∀ entry ∈ entries, schema.Offers entry.2)
    (labelled : ∀ entry ∈ entries, ∀ label ∈ entry.1, IsName label)
    {find : String → Option Field}
    (findable : ∀ entry ∈ entries, find entry.2.name = some entry.2)
    (kept : ∀ entry ∈ after.scope.bound.entries, entry ∈ bound.entries) :
    Selection.RendersAll schema bound find selections ∧ Selection.NamedAll selections := by
  match expanded with
  | .nil => simp
  | .cons first others =>
    have offeredThere := fun entry member => offered entry (List.mem_cons_of_mem _ member)
    obtain ⟨_, there, othersBind⟩ := others.binds wellFormed offeredThere
    have head := first.renders wellFormed (offered _ (List.mem_cons_self ..))
      (labelled _ (List.mem_cons_self ..)) (findable _ (List.mem_cons_self ..))
      fun entry member => kept entry (othersBind.grows.mem_entries member)
    have tail := others.renders wellFormed offeredThere
      (fun entry member => labelled entry (List.mem_cons_of_mem _ member))
      (fun entry member => findable entry (List.mem_cons_of_mem _ member)) kept
    rw [Selection.rendersAll_append_iff, Selection.namedAll_append_iff]
    exact ⟨⟨head.1, tail.1⟩, head.2, tail.2⟩

/-- The expansion of fragments renders the fields in them, in names. -/
theorem ExpandsBranches.renders {site : Site} {branches : List Branch} {before after : Progress}
    {fragments : List Selection}
    (expanded : ExpandsBranches schema config site branches before fragments after)
    (wellFormed : schema.WellFormed)
    (offered : ∀ branch ∈ branches, ∀ entry ∈ branch.fields, schema.Offers entry.2)
    (named : ∀ branch ∈ branches, IsName branch.type ∧
      ∀ entry ∈ branch.fields, ∀ label ∈ entry.1, IsName label)
    (findable : ∀ branch ∈ branches, ∀ entry ∈ branch.fields,
      schema.fieldOf? branch.type entry.2.name = some entry.2)
    (kept : ∀ entry ∈ after.scope.bound.entries, entry ∈ bound.entries)
    (find : String → Option Field) :
    Selection.RendersAll schema bound find fragments ∧ Selection.NamedAll fragments := by
  match expanded with
  | .nil => simp
  | .cons first others =>
    have offeredThere := fun branch member => offered branch (List.mem_cons_of_mem _ member)
    obtain ⟨_, there, othersBind⟩ := others.binds wellFormed offeredThere
    have namedHere := named _ (List.mem_cons_self ..)
    have head := first.renders wellFormed (offered _ (List.mem_cons_self ..)) namedHere.2
      (findable _ (List.mem_cons_self ..))
      fun entry member => kept entry (othersBind.grows.mem_entries member)
    have tail := others.renders wellFormed offeredThere
      (fun branch member => named branch (List.mem_cons_of_mem _ member))
      (fun branch member => findable branch (List.mem_cons_of_mem _ member)) kept find
    rw [Selection.rendersAll_append_iff, Selection.namedAll_append_iff]
    exact ⟨⟨Selection.rendersAll_fragment? head.1, tail.1⟩,
      Selection.namedAll_fragment? namedHere.1 head.2, tail.2⟩

end

end SchemaUnfolding
