import SchemaUnfolding.Operation.Document
import SchemaUnfolding.Operation.Expansion

/-!
# Pruned selections

A selection is pruned from another when whole selections below it are deleted: what is left has the
same aliases, stands under the same type conditions and is in the same order. Its arguments are for
the same parameters, but may pass other variables, because variables are named in the order in which
they are bound.

The trails of a selection are the paths of the fields that it selects, each with its alias and the
type of the fragment that it stands in. Pruning deletes trails and changes none.
-/

namespace SchemaUnfolding

namespace Selection

/-! ## Pruning -/

mutual

/-- A selection is what is left of another one when selections below it are deleted. -/
inductive PrunedFrom : Selection → Selection → Prop
  | typename : PrunedFrom .typename .typename
  | field {label : Option String} {name : String} {arguments others : List (String × String)}
      {part whole : List Selection} :
      arguments.map Prod.fst = others.map Prod.fst → AllPrunedFrom part whole →
      PrunedFrom (.field label name arguments part) (.field label name others whole)
  | fragment {type : String} {part whole : List Selection} :
      AllPrunedFrom part whole → PrunedFrom (.fragment type part) (.fragment type whole)

/-- Selections are what is left of others, in order, when some are deleted and the rest is
pruned. -/
inductive AllPrunedFrom : List Selection → List Selection → Prop
  | nil : AllPrunedFrom [] []
  | delete {selection : Selection} {part whole : List Selection} :
      AllPrunedFrom part whole → AllPrunedFrom part (selection :: whole)
  | keep {left selection : Selection} {part whole : List Selection} :
      PrunedFrom left selection → AllPrunedFrom part whole →
      AllPrunedFrom (left :: part) (selection :: whole)

end

theorem AllPrunedFrom.of_nil (whole : List Selection) : AllPrunedFrom [] whole := by
  induction whole with
  | nil => exact .nil
  | cons selection rest ih => exact .delete ih

theorem AllPrunedFrom.append {part whole part' whole' : List Selection}
    (first : AllPrunedFrom part whole) (second : AllPrunedFrom part' whole') :
    AllPrunedFrom (part ++ part') (whole ++ whole') := by
  match first with
  | .nil => exact second
  | .delete rest => exact .delete (rest.append second)
  | .keep head rest => exact .keep head (rest.append second)

/-- Nothing is left of nothing. -/
theorem AllPrunedFrom.eq_nil {part : List Selection} (pruned : AllPrunedFrom part []) :
    part = [] := by
  cases pruned
  rfl

/-- A single selection that is left of a single one is pruned from it. -/
theorem AllPrunedFrom.prunedFrom {left selection : Selection}
    (pruned : AllPrunedFrom [left] [selection]) : left.PrunedFrom selection := by
  cases pruned with
  | delete rest => cases rest
  | keep head _ => exact head

/-- A fragment is deleted when nothing is left in it. -/
theorem AllPrunedFrom.fragment? {part whole : List Selection} (type : String)
    (pruned : AllPrunedFrom part whole) :
    AllPrunedFrom (Expansion.fragment? type part).toList
      (Expansion.fragment? type whole).toList := by
  cases part with
  | nil => exact .of_nil _
  | cons left rest =>
    cases whole with
    | nil => cases pruned.eq_nil
    | cons selection others => exact .keep (.fragment pruned) .nil

/-! ## Trails -/

/-- A turn of a trail: a field, with its alias and with the type of the fragment that it stands in,
if it has one and does. -/
structure Turn where
  condition : Option String
  label : Option String
  field : String
deriving DecidableEq, Repr

mutual

/-- The trails of a selection that stands in a fragment for a type, or in none. -/
def trails (condition : Option String) : Selection → List (List Turn)
  | typename => []
  | field label name _ selections =>
    [⟨condition, label, name⟩] ::
      (trailsOfAll none selections).map (List.cons ⟨condition, label, name⟩)
  | fragment type selections => trailsOfAll (some type) selections

/-- The trails of several selections, one after the other. -/
def trailsOfAll (condition : Option String) : List Selection → List (List Turn)
  | [] => []
  | selection :: rest => selection.trails condition ++ trailsOfAll condition rest

end

theorem trailsOfAll_cons (condition : Option String) (selection : Selection)
    (rest : List Selection) :
    trailsOfAll condition (selection :: rest) =
      selection.trails condition ++ trailsOfAll condition rest := by
  rw [trailsOfAll]

mutual

/-- Pruning deletes trails; those that are left keep their order. -/
theorem PrunedFrom.trails_sublist {part whole : Selection} (pruned : part.PrunedFrom whole)
    (condition : Option String) : (part.trails condition).Sublist (whole.trails condition) := by
  match pruned with
  | .typename => exact .refl _
  | .field _ below =>
    rw [trails, trails]
    exact ((below.trails_sublist none).map _).cons_cons _
  | .fragment inside =>
    rw [trails, trails]
    exact inside.trails_sublist _

theorem AllPrunedFrom.trails_sublist {part whole : List Selection}
    (pruned : AllPrunedFrom part whole) (condition : Option String) :
    (trailsOfAll condition part).Sublist (trailsOfAll condition whole) := by
  match pruned with
  | .nil => exact .refl _
  | .delete rest =>
    rw [trailsOfAll_cons]
    exact (rest.trails_sublist condition).trans (List.sublist_append_right _ _)
  | .keep head rest =>
    rw [trailsOfAll_cons, trailsOfAll_cons]
    exact (head.trails_sublist condition).append (rest.trails_sublist condition)

end

end Selection

/-! ## Documents -/

/-- The trails of a document. -/
def Document.trails (document : Document) : List (List Selection.Turn) :=
  Selection.trailsOfAll none document.selection.toList

/-- A document is pruned from another one: it has the same keyword and name, and both select
nothing, or the selection of the one is pruned from that of the other. -/
structure Document.PrunedFrom (part whole : Document) : Prop where
  keyword : part.keyword = whole.keyword
  name : part.name = whole.name
  selection : Option.Rel Selection.PrunedFrom part.selection whole.selection

end SchemaUnfolding
