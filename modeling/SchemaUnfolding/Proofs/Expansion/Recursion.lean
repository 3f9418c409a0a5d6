import SchemaUnfolding.Proofs.Expansion.Derivation

/-!
# Expansion as a recursion

How a field is expanded is determined by how the fields below it are, and those are reached only
from a site that the depth limit admits. No sequence of such sites goes on forever, whatever the
schema, so there is exactly one way to expand fields that follows the rules, and it is the one that
the number of levels was made for.
-/

namespace SchemaUnfolding

open Expansion ExceptT

/-- From a site that the depth limit admits an expansion leads to the sites below. -/
inductive Site.LeadsTo (config : Config) (site : Site) : Site → Prop
  | below (name : String) :
      site.countedDepth ≤ config.depthLimit → LeadsTo config site (site.below name)
  | inFragmentBelow (name : String) :
      site.countedDepth ≤ config.depthLimit → LeadsTo config site (site.inFragmentBelow name)

namespace Expansion

variable {schema : Schema} {config : Config}

/-- An admitted site is at most two levels deeper than the limit, and those it leads to are deeper
than it. -/
theorem levelsBelow_lt {site inner : Site} (leads : site.LeadsTo config inner) :
    levelsBelow config inner < levelsBelow config site := by
  have admitted : site.countedDepth ≤ config.depthLimit := by cases leads <;> assumption
  have shallow : site.depth ≤ config.depthLimit + 2 := by
    rw [Site.countedDepth] at admitted
    split at admitted <;> omega
  cases leads <;> simp only [levelsBelow, Site.below, Site.inFragmentBelow] <;> omega

theorem wellFounded_leadsTo (config : Config) :
    WellFounded fun inner outer : Site => outer.LeadsTo config inner :=
  Subrelation.wf levelsBelow_lt (measure (levelsBelow config)).wf

/-- Two ways of expanding fields are the same at a site. -/
def SameAt (first second : Expander) (site : Site) : Prop :=
  ∀ label, first label site = second label site

section Congruence

variable {first second : Expander} {site : Site} {field : Field}

theorem interfaceFragments_congr (same : SameAt first second (site.inFragmentBelow field.name))
    (interface : FieldedType) (possible types : List FieldedType) :
    interfaceFragments config first site field interface possible types =
      interfaceFragments config second site field interface possible types := by
  induction types with
  | nil => rfl
  | cons type rest ih => simp only [interfaceFragments, same _, ih]

theorem unionFragments_congr (same : SameAt first second (site.inFragmentBelow field.name))
    (union : String) (members : List String) :
    unionFragments schema config first site field union members =
      unionFragments schema config second site field union members := by
  induction members with
  | nil => rfl
  | cons member rest ih => simp only [unionFragments, same _, ih]

theorem polymorphic_congr (same : SameAt first second (site.inFragmentBelow field.name))
    (type : TypeDef) :
    polymorphic schema config first site field type =
      polymorphic schema config second site field type := by
  cases type with
  | interface interface => simp only [polymorphic, interfaceFragments_congr same]
  | union union => simp only [polymorphic, unionFragments_congr same]
  | _ => rfl

/-- Below a field of a type that is no composite nothing is expanded. -/
theorem polymorphic_of_isComposite_eq_false {type : TypeDef} (simple : type.isComposite = false)
    (expand : Expander) : polymorphic schema config expand site field type = pure [] := by
  cases type <;>
    simp_all [TypeDef.isComposite, TypeDef.isLeaf, polymorphic]

/-- What runs after a field was admitted runs at sites that the limit admits only. -/
theorem enter_bind_congr {α : Type} {go other : Bool → Expansion α}
    (refused : go false = other false)
    (allowed : site.countedDepth ≤ config.depthLimit → go true = other true) :
    enter config site field >>= go = enter config site field >>= other := by
  have each : ∀ before, (enter config site field >>= go).run.run before =
      (enter config site field >>= other).run.run before := by
    intro before
    rw [run_run_bind, run_run_bind, run_enter]
    cases omitted : omission? config before.edges site field with
    | some event => simp only [refused]
    | none => simp only [allowed (omission?_eq_none_iff.mp omitted).2]
  exact funext each

/-- How a field is expanded is determined by how fields are at the sites that its own leads to. -/
theorem expandBy_congr (same : ∀ inner, site.LeadsTo config inner → SameAt first second inner) :
    SameAt (expandBy schema config first) (expandBy schema config second) site := by
  intro label
  funext field
  simp only [expandBy]
  apply bind_congr
  intro type
  cases composite : type.isComposite with
  | false =>
    simp only [ownFields_of_isComposite_eq_false composite, collect,
      polymorphic_of_isComposite_eq_false composite, Bool.false_eq_true, if_false]
  | true =>
    simp only [if_true]
    apply enter_bind_congr
    · simp only [Bool.not_false, if_true]
    · intro allowed
      have own := same _ (.below field.name allowed) none
      have fragments := same _ (.inFragmentBelow field.name allowed)
      simp only [own, polymorphic_congr fragments]

end Congruence

/-! ## The number of levels -/

/-- With enough levels for a site, their number does not matter. -/
theorem expandWithin_sameAt {levels others : Nat} {site : Site}
    (enough : levelsBelow config site ≤ levels) (enoughOthers : levelsBelow config site ≤ others) :
    SameAt (expandWithin schema config levels) (expandWithin schema config others) site := by
  induction levels generalizing others site with
  | zero =>
    have ends : ∀ inner, ¬ site.LeadsTo config inner := by
      intro inner leads
      have less := levelsBelow_lt leads
      omega
    cases others <;> exact expandBy_congr fun inner leads => absurd leads (ends inner)
  | succ levels ih =>
    cases others with
    | zero =>
      apply expandBy_congr
      intro inner leads
      have less := levelsBelow_lt leads
      omega
    | succ others =>
      apply expandBy_congr
      intro inner leads
      have less := levelsBelow_lt leads
      exact ih (by omega) (by omega)

/-- How fields are expanded at every site. -/
def expander (schema : Schema) (config : Config) : Expander := fun label site =>
  expandWithin schema config (levelsBelow config site) label site

theorem expander_eq : expander schema config = expandBy schema config (expander schema config) := by
  funext label site
  have more : SameAt (expandWithin schema config (levelsBelow config site))
      (expandWithin schema config (levelsBelow config site + 1)) site :=
    expandWithin_sameAt (Nat.le_refl _) (Nat.le_succ _)
  have round : SameAt
      (expandBy schema config (expandWithin schema config (levelsBelow config site)))
      (expandBy schema config (expander schema config)) site := by
    apply expandBy_congr
    intro inner leads label
    exact expandWithin_sameAt (Nat.le_of_lt (levelsBelow_lt leads)) (Nat.le_refl _) label
  exact (more label).trans (round label)

/-- Expansion is a recursion on sites that ends, so its rule has exactly one solution. -/
structure IsRecursion (schema : Schema) (config : Config) (solution : Expander) : Prop where
  wellFounded : WellFounded fun inner outer : Site => outer.LeadsTo config inner
  calls : ∀ {first second : Expander} {site : Site},
    (∀ inner, site.LeadsTo config inner → SameAt first second inner) →
    SameAt (expandBy schema config first) (expandBy schema config second) site
  solves : expandBy schema config solution = solution
  unique : ∀ other : Expander, expandBy schema config other = other → other = solution

theorem isRecursion (schema : Schema) (config : Config) :
    IsRecursion schema config (expander schema config) where
  wellFounded := wellFounded_leadsTo config
  calls := expandBy_congr
  solves := expander_eq.symm
  unique := by
    intro other solves
    have same : ∀ site, SameAt other (expander schema config) site := by
      intro site
      induction site using (wellFounded_leadsTo config).induction with
      | _ site ih =>
        rw [← solves, expander_eq]
        exact expandBy_congr ih
    funext label site
    exact same site label

end Expansion

end SchemaUnfolding
