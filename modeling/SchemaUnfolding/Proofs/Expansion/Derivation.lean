import SchemaUnfolding.Proofs.Expansion.Returning

/-!
# Derivations of expansions

An expansion that ends without a fault is described by rules: a field is left out or shown, fields
are expanded one after the other, and so are the fragments of a field. The rules speak of no number
of levels. Interfaces and unions share them, because both only say which fields stand in which
fragment.

The rules and the function `Expansion.expandWithin` agree whenever the function has as many levels
as the depth limit leaves below the site. Later proofs go by induction on derivations.
-/

namespace SchemaUnfolding

/-- A fragment before its fields are expanded: a type, and the fields with their aliases. -/
structure Branch where
  type : String
  fields : List (Option String × Field)

namespace Expansion

/-- The fragment for one of the types that an interface may stand for. -/
def implementorBranch (config : Config) (interface : FieldedType) (possible : List FieldedType)
    (type : FieldedType) : Branch :=
  { type := type.name
    fields := ((interface.fieldsBeyond type).filter config.includes).map fun field =>
      (interface.label? possible type field, field) }

/-- The fragments for the members of a union, if fields can be selected on all of them. -/
def memberBranches? (schema : Schema) (config : Config) : List String → Option (List Branch)
  | [] => some []
  | member :: rest => do
    let fields ← (schema.type? member).bind TypeDef.fields?
    let branches ← memberBranches? schema config rest
    return ⟨member, (fields.values.filter config.includes).map fun field => (none, field)⟩ ::
      branches

/-- The fragments below a field of a type. -/
def branches? (schema : Schema) (config : Config) : TypeDef → Option (List Branch)
  | .interface interface =>
    let possible := schema.possibleTypes interface.name
    some (possible.map (implementorBranch config interface possible))
  | .union union => memberBranches? schema config union.members.names
  | _ => some []

end Expansion

/-- Whether a field of a type may stand for several types. -/
def TypeDef.isPolymorphic : TypeDef → Bool
  | .interface _ => true
  | .union type => !type.members.isEmpty
  | _ => false

/-- What stands in front of the fragments below a field of a type. -/
def TypeDef.typenames (type : TypeDef) : List Selection :=
  if type.isPolymorphic then [.typename] else []

open Expansion ExceptT

/-! ## Rules -/

mutual

/-- A field is expanded at a site: it is left out, or shown with what is selected below it. -/
inductive Expands (schema : Schema) (config : Config) :
    Option String → Site → Field → Progress → Option Selection → Progress → Prop
  | leftOut {label : Option String} {site : Site} {field : Field} {before : Progress}
      {type : TypeDef} {event : Event} :
      schema.type? field.type.name = some type →
      type.isComposite = true →
      omission? config before.edges site field = some event →
      Expands schema config label site field before none (before.noting event)
  | shown {label : Option String} {site : Site} {field : Field} {before middle after : Progress}
      {type : TypeDef} {own fragments : List Selection} {arguments : List (String × String)}
      {scope : Variables} {branches : List Branch} :
      schema.type? field.type.name = some type →
      (type.isComposite = true → omission? config before.edges site field = none) →
      ExpandsAll schema config (site.below field.name)
        ((ownFields config type).map fun inner => (none, inner))
        (before.admitting site field type) own middle →
      middle.scope.bindAll field.parameters.values = (arguments, scope) →
      branches? schema config type = some branches →
      ExpandsBranches schema config (site.inFragmentBelow field.name) branches
        (middle.binding scope) fragments after →
      Expands schema config label site field before
        (some (.field label field.name arguments (own ++ (type.typenames ++ fragments)))) after

/-- Fields with their aliases are expanded at a site one after the other. -/
inductive ExpandsAll (schema : Schema) (config : Config) :
    Site → List (Option String × Field) → Progress → List Selection → Progress → Prop
  | nil {site : Site} {progress : Progress} : ExpandsAll schema config site [] progress [] progress
  | cons {site : Site} {label : Option String} {field : Field} {rest : List (Option String × Field)}
      {before middle after : Progress} {result : Option Selection} {selections : List Selection} :
      Expands schema config label site field before result middle →
      ExpandsAll schema config site rest middle selections after →
      ExpandsAll schema config site ((label, field) :: rest) before
        (result.toList ++ selections) after

/-- Fragments are expanded one after the other, their fields at a site; an empty one vanishes. -/
inductive ExpandsBranches (schema : Schema) (config : Config) :
    Site → List Branch → Progress → List Selection → Progress → Prop
  | nil {site : Site} {progress : Progress} :
      ExpandsBranches schema config site [] progress [] progress
  | cons {site : Site} {branch : Branch} {rest : List Branch} {before middle after : Progress}
      {selections fragments : List Selection} :
      ExpandsAll schema config site branch.fields before selections middle →
      ExpandsBranches schema config site rest middle fragments after →
      ExpandsBranches schema config site (branch :: rest) before
        ((fragment? branch.type selections).toList ++ fragments) after

end

namespace Expansion

variable {schema : Schema} {config : Config}

/-! ## Inversion -/

@[simp]
theorem expandsAll_nil_iff {site : Site} {before after : Progress} {selections : List Selection} :
    ExpandsAll schema config site [] before selections after ↔
      selections = [] ∧ after = before := by
  constructor
  · rintro ⟨⟩
    exact ⟨rfl, rfl⟩
  · rintro ⟨rfl, rfl⟩
    exact .nil

@[simp]
theorem expandsBranches_nil_iff {site : Site} {before after : Progress}
    {fragments : List Selection} :
    ExpandsBranches schema config site [] before fragments after ↔
      fragments = [] ∧ after = before := by
  constructor
  · rintro ⟨⟩
    exact ⟨rfl, rfl⟩
  · rintro ⟨rfl, rfl⟩
    exact .nil

/-! ## Types that are no composites -/

theorem ownFields_of_isComposite_eq_false {type : TypeDef} (simple : type.isComposite = false) :
    ownFields config type = [] := by
  cases type <;> simp_all [TypeDef.isComposite, TypeDef.isLeaf, ownFields, TypeDef.fields?]

theorem branches?_of_isComposite_eq_false {type : TypeDef} (simple : type.isComposite = false) :
    branches? schema config type = some [] := by
  cases type with
  | union type =>
    have empty : type.members.names = [] := by
      simpa [TypeDef.isComposite, Table.isEmpty, Table.names] using simple
    simp [branches?, empty, memberBranches?]
  | _ => simp_all [TypeDef.isComposite, TypeDef.isLeaf, branches?]

/-! ## Agreement -/

/-- How fields are expanded agrees with the rules at a site. -/
def AgreesAt (schema : Schema) (config : Config) (expand : Expander) (site : Site) : Prop :=
  ∀ label field before result after,
    (expand label site field).Returns before result after ↔
      Expands schema config label site field before result after

section Agreement

variable {expand : Expander} {site : Site} {before after : Progress}

theorem returns_collect_iff (agrees : AgreesAt schema config expand site)
    (label : Field → Option String) {fields : List Field} {selections : List Selection} :
    (collect (fun inner => expand (label inner) site inner) fields).Returns before selections
        after ↔
      ExpandsAll schema config site (fields.map fun inner => (label inner, inner)) before
        selections after := by
  induction fields generalizing before selections with
  | nil =>
    rw [collect, returns_pure_iff, List.map_nil, expandsAll_nil_iff]
  | cons field rest ih =>
    simp only [collect, returns_bind_iff, returns_pure_iff]
    constructor
    · rintro ⟨result, middle, first, others, _, rest, rfl, rfl⟩
      exact .cons ((agrees ..).mp first) (ih.mp rest)
    · rintro (_ | ⟨first, rest⟩)
      exact ⟨_, _, (agrees ..).mpr first, _, _, ih.mpr rest, rfl, rfl⟩

theorem returns_interfaceFragments_iff {reached : Site} {field : Field} {interface : FieldedType}
    {possible types : List FieldedType} {fragments : List Selection}
    (agrees : AgreesAt schema config expand (reached.inFragmentBelow field.name)) :
    (interfaceFragments config expand reached field interface possible types).Returns before
        fragments after ↔
      ExpandsBranches schema config (reached.inFragmentBelow field.name)
        (types.map (implementorBranch config interface possible)) before fragments after := by
  induction types generalizing before fragments with
  | nil =>
    rw [interfaceFragments, returns_pure_iff, List.map_nil, expandsBranches_nil_iff]
  | cons type rest ih =>
    simp only [interfaceFragments, returns_bind_iff, returns_pure_iff,
      returns_collect_iff agrees (interface.label? possible type)]
    constructor
    · rintro ⟨selections, middle, first, others, _, rest, rfl, rfl⟩
      exact .cons first (ih.mp rest)
    · rintro (_ | ⟨first, rest⟩)
      exact ⟨_, _, first, _, _, ih.mpr rest, rfl, rfl⟩

theorem returns_unionFragments_iff {reached : Site} {field : Field} {union : String}
    {members : List String} {fragments : List Selection}
    (agrees : AgreesAt schema config expand (reached.inFragmentBelow field.name)) :
    (unionFragments schema config expand reached field union members).Returns before
        fragments after ↔
      ∃ branches, memberBranches? schema config members = some branches ∧
        ExpandsBranches schema config (reached.inFragmentBelow field.name) branches before
          fragments after := by
  induction members generalizing before fragments with
  | nil =>
    simp [unionFragments, memberBranches?]
  | cons member rest ih =>
    simp only [unionFragments, returns_bind_iff, returns_pure_iff, returns_memberFields_iff,
      returns_collect_iff agrees (fun _ => none)]
    constructor
    · rintro ⟨fields, _, ⟨found, rfl⟩, selections, middle, first, others, _, rest, rfl, rfl⟩
      rcases ih.mp rest with ⟨branches, known, others⟩
      refine ⟨⟨member, _⟩ :: branches, ?_, .cons first others⟩
      simp [memberBranches?, found, known]
    · rintro ⟨branches, known, expanded⟩
      simp only [memberBranches?, Option.bind_eq_bind, Option.pure_def,
        Option.bind_eq_some_iff, Option.some.injEq] at known
      rcases known with ⟨fields, found, others, known, rfl⟩
      rcases expanded with _ | ⟨first, rest⟩
      exact ⟨fields, _, ⟨Option.bind_eq_some_iff.mpr found, rfl⟩, _, _, first, _, _,
        ih.mpr ⟨others, known, rest⟩, rfl, rfl⟩

/-- A type that adds nothing below its fields agrees with having no fragments. -/
theorem returns_polymorphic_of_unbranched {reached : Site} {field : Field} {type : TypeDef}
    {selections : List Selection}
    (nothing : polymorphic schema config expand reached field type = pure [])
    (unbranched : branches? schema config type = some []) (single : type.typenames = []) :
    (polymorphic schema config expand reached field type).Returns before selections after ↔
      ∃ branches fragments, branches? schema config type = some branches ∧
        ExpandsBranches schema config (reached.inFragmentBelow field.name) branches before
          fragments after ∧
        selections = type.typenames ++ fragments := by
  rw [nothing, unbranched, single, returns_pure_iff]
  constructor
  · rintro ⟨rfl, rfl⟩
    exact ⟨[], [], rfl, .nil, rfl⟩
  · rintro ⟨_, _, ⟨⟩, ⟨⟩, rfl⟩
    exact ⟨rfl, rfl⟩

theorem returns_polymorphic_of_isComposite_eq_false {reached : Site} {field : Field}
    {type : TypeDef} {selections : List Selection} (simple : type.isComposite = false) :
    (polymorphic schema config expand reached field type).Returns before selections after ↔
      ∃ branches fragments, branches? schema config type = some branches ∧
        ExpandsBranches schema config (reached.inFragmentBelow field.name) branches before
          fragments after ∧
        selections = type.typenames ++ fragments := by
  refine returns_polymorphic_of_unbranched ?_ (branches?_of_isComposite_eq_false simple) ?_ <;>
    cases type <;>
    simp_all [TypeDef.isComposite, TypeDef.isLeaf, TypeDef.typenames, TypeDef.isPolymorphic,
      polymorphic]

theorem returns_polymorphic_iff {reached : Site} {field : Field} {type : TypeDef}
    {selections : List Selection}
    (agrees : AgreesAt schema config expand (reached.inFragmentBelow field.name)) :
    (polymorphic schema config expand reached field type).Returns before selections after ↔
      ∃ branches fragments, branches? schema config type = some branches ∧
        ExpandsBranches schema config (reached.inFragmentBelow field.name) branches before
          fragments after ∧
        selections = type.typenames ++ fragments := by
  cases type with
  | interface interface =>
    simp only [polymorphic, returns_bind_iff, returns_pure_iff,
      returns_interfaceFragments_iff agrees]
    constructor
    · rintro ⟨fragments, _, expanded, rfl, rfl⟩
      exact ⟨_, fragments, rfl, expanded, rfl⟩
    · rintro ⟨_, fragments, ⟨⟩, expanded, rfl⟩
      exact ⟨fragments, _, expanded, rfl, rfl⟩
  | union union =>
    cases nobody : union.members.isEmpty with
    | true =>
      exact returns_polymorphic_of_isComposite_eq_false (by simp [TypeDef.isComposite, nobody])
    | false =>
      have marked : (TypeDef.union union).typenames = [.typename] := by
        simp [TypeDef.typenames, TypeDef.isPolymorphic, nobody]
      simp only [polymorphic, nobody, returns_bind_iff, returns_pure_iff, marked, branches?,
        returns_unionFragments_iff agrees, Bool.false_eq_true, if_false]
      constructor
      · rintro ⟨fragments, _, ⟨branches, known, expanded⟩, rfl, rfl⟩
        exact ⟨branches, fragments, known, expanded, rfl⟩
      · rintro ⟨branches, fragments, known, expanded, rfl⟩
        exact ⟨fragments, _, ⟨branches, known, expanded⟩, rfl, rfl⟩
  | _ => exact returns_polymorphic_of_unbranched rfl rfl rfl

/-- What is selected below an admitted field agrees with the rules when the fields below do. A type
that is no composite has none. -/
theorem returns_selections_iff {reached : Site} {field : Field} {type : TypeDef} {α : Type}
    {finish : List Selection → List (String × String) → List Selection → α} {result : α}
    (agrees : type.isComposite = true →
      AgreesAt schema config expand (reached.below field.name) ∧
        AgreesAt schema config expand (reached.inFragmentBelow field.name)) :
    (do
      let own ← collect (expand none (reached.below field.name)) (ownFields config type)
      let arguments ← bindArguments field
      let fragments ← polymorphic schema config expand reached field type
      return finish own arguments fragments : Expansion α).Returns before result after ↔
      ∃ own middle arguments scope branches fragments,
        ExpandsAll schema config (reached.below field.name)
          ((ownFields config type).map fun inner => (none, inner)) before own middle ∧
        middle.scope.bindAll field.parameters.values = (arguments, scope) ∧
        branches? schema config type = some branches ∧
        ExpandsBranches schema config (reached.inFragmentBelow field.name) branches
          (middle.binding scope) fragments after ∧
        result = finish own arguments (type.typenames ++ fragments) := by
  have ownAgrees : ∀ own middle,
      (collect (expand none (reached.below field.name)) (ownFields config type)).Returns before own
          middle ↔
        ExpandsAll schema config (reached.below field.name)
          ((ownFields config type).map fun inner => (none, inner)) before own middle := by
    intro own middle
    cases composite : type.isComposite with
    | true => exact returns_collect_iff (agrees composite).1 fun _ => none
    | false => simp [ownFields_of_isComposite_eq_false composite, collect]
  have branchesAgree : ∀ middle selections last,
      (polymorphic schema config expand reached field type).Returns middle selections last ↔
        ∃ branches fragments, branches? schema config type = some branches ∧
          ExpandsBranches schema config (reached.inFragmentBelow field.name) branches middle
            fragments last ∧
          selections = type.typenames ++ fragments := by
    intro middle selections last
    cases composite : type.isComposite with
    | true => exact returns_polymorphic_iff (agrees composite).2
    | false => exact returns_polymorphic_of_isComposite_eq_false composite
  simp only [returns_bind_iff, returns_pure_iff, ownAgrees, branchesAgree,
    returns_bindArguments_iff]
  constructor
  · rintro ⟨own, middle, ownExpanded, arguments, _, ⟨scope, bound, rfl⟩, _, _,
      ⟨branches, fragments, known, expanded, rfl⟩, rfl, rfl⟩
    exact ⟨own, middle, arguments, scope, branches, fragments, ownExpanded, bound, known, expanded,
      rfl⟩
  · rintro ⟨own, middle, arguments, scope, branches, fragments, ownExpanded, bound, known, expanded,
      rfl⟩
    exact ⟨own, middle, ownExpanded, arguments, _, ⟨scope, bound, rfl⟩, _, _,
      ⟨branches, fragments, known, expanded, rfl⟩, rfl, rfl⟩

/-- An admitted field of a type is shown exactly as the rules say. -/
theorem returns_shown_iff {label : Option String} {field : Field} {type : TypeDef}
    {result : Option Selection} (found : schema.type? field.type.name = some type)
    (admitted : type.isComposite = true → omission? config before.edges site field = none)
    (agrees : site.countedDepth ≤ config.depthLimit →
      AgreesAt schema config expand (site.below field.name) ∧
        AgreesAt schema config expand (site.inFragmentBelow field.name)) :
    (do
      let own ← collect (expand none (site.below field.name)) (ownFields config type)
      let arguments ← bindArguments field
      let fragments ← polymorphic schema config expand site field type
      return some (.field label field.name arguments (own ++ fragments)) :
        Expansion (Option Selection)).Returns (before.admitting site field type) result after ↔
      Expands schema config label site field before result after := by
  rw [returns_selections_iff fun composite =>
    agrees (omission?_eq_none_iff.mp (admitted composite)).2]
  constructor
  · rintro ⟨own, middle, arguments, scope, branches, fragments, ownExpanded, bound, known, expanded,
      rfl⟩
    exact .shown found admitted ownExpanded bound known expanded
  · rintro (⟨same, composite, omitted⟩ | ⟨same, _, ownExpanded, bound, known, expanded⟩)
    · cases found.symm.trans same
      cases omitted.symm.trans (admitted composite)
    · cases found.symm.trans same
      exact ⟨_, _, _, _, _, _, ownExpanded, bound, known, expanded, rfl⟩

/-- A field that is omitted is left out and nothing else. -/
theorem expands_iff_of_omitted {label : Option String} {field : Field} {type : TypeDef}
    {event : Event} {result : Option Selection}
    (found : schema.type? field.type.name = some type) (composite : type.isComposite = true)
    (omitted : omission? config before.edges site field = some event) :
    Expands schema config label site field before result after ↔
      result = none ∧ after = before.noting event := by
  constructor
  · rintro (⟨_, _, same⟩ | ⟨same, admitted, _, _, _, _⟩)
    · cases omitted.symm.trans same
      exact ⟨rfl, rfl⟩
    · cases found.symm.trans same
      cases omitted.symm.trans (admitted composite)
  · rintro ⟨rfl, rfl⟩
    exact .leftOut found composite omitted

/-- One round of expansion agrees with the rules when it does so for the fields below. Those are
reached only if the field was admitted. -/
theorem returns_expandBy_iff {label : Option String} {field : Field} {result : Option Selection}
    (agrees : site.countedDepth ≤ config.depthLimit →
      AgreesAt schema config expand (site.below field.name) ∧
        AgreesAt schema config expand (site.inFragmentBelow field.name)) :
    (expandBy schema config expand label site field).Returns before result after ↔
      Expands schema config label site field before result after := by
  cases found : schema.type? field.type.name with
  | none =>
    simp only [expandBy, returns_bind_iff, returns_target_iff, found]
    constructor
    · rintro ⟨_, _, ⟨⟨⟩, _⟩, _⟩
    · rintro (⟨same, _⟩ | ⟨same, _⟩) <;> cases found.symm.trans same
  | some type =>
    simp only [expandBy, returns_bind_iff, returns_target_iff, found, Option.some.injEq, and_assoc,
      exists_and_left, exists_eq_left, exists_eq_left']
    cases composite : type.isComposite with
    | false =>
      rw [← returns_shown_iff found (by simp [composite]) agrees,
        Progress.admitting_of_isComposite_eq_false _ _ _ composite]
      simp only [Bool.false_eq_true, if_false, pure_bind, Bool.not_true]
    | true =>
      simp only [if_true, returns_bind_iff, returns_enter_iff]
      cases omitted : omission? config before.edges site field with
      | some event =>
        rw [expands_iff_of_omitted found composite omitted]
        constructor
        · rintro ⟨_, _, ⟨rfl, rfl⟩, returned⟩
          exact returns_pure_iff.mp returned
        · rintro ⟨rfl, rfl⟩
          exact ⟨_, _, ⟨rfl, rfl⟩, returns_pure_iff.mpr ⟨rfl, rfl⟩⟩
      | none =>
        rw [← returns_shown_iff found (fun _ => omitted) agrees,
          Progress.admitting_of_isComposite _ _ _ composite]
        constructor
        · rintro ⟨_, _, ⟨rfl, rfl⟩, returned⟩
          exact returned
        · intro returned
          exact ⟨_, _, ⟨rfl, rfl⟩, returned⟩

end Agreement

/-- With as many levels as the depth limit leaves below the site, expansion agrees with the
rules. -/
theorem agreesAt_expandWithin {levels : Nat} {site : Site}
    (enough : config.depthLimit + 3 ≤ site.depth + levels) :
    AgreesAt schema config (expandWithin schema config levels) site := by
  induction levels generalizing site with
  | zero =>
    intro label field before result after
    apply returns_expandBy_iff
    intro allowed
    apply absurd allowed
    simp only [Site.countedDepth]
    split <;> omega
  | succ levels ih =>
    intro label field before result after
    apply returns_expandBy_iff
    intro _
    constructor
    · apply ih
      simp only [Site.below]
      omega
    · apply ih
      simp only [Site.inFragmentBelow]
      omega

/-- Expanding a field at a site agrees with the rules. -/
theorem returns_expand_iff {site : Site} {field : Field} {before after : Progress}
    {result : Option Selection} :
    (expand schema config site field).Returns before result after ↔
      Expands schema config none site field before result after :=
  agreesAt_expandWithin (by simp only [levelsBelow]; omega) ..

end Expansion

end SchemaUnfolding
