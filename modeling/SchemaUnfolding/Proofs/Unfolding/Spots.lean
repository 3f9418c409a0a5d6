import SchemaUnfolding.Operation.Document
import SchemaUnfolding.Operation.Expansion

/-!
# Spots in documents

A spot is where a document selects a field: the path of fields that leads there, each with the type
of the fragment it stands in, and an outline of what is selected below. The spots of a document are
listed in the order in which their lines are printed. Labels and arguments are left aside.
-/

namespace SchemaUnfolding

/-- A step of a path: a field, and the type of the fragment that it stands in, if it does. -/
structure Step where
  condition : Option String
  field : String
deriving DecidableEq, Repr

/-- What one of the selections below a field is. -/
inductive Sibling
  | typename
  | field (name : String)
  | fragment (type : String) (fields : List String)
deriving DecidableEq, Repr

/-- The name of the field that one of the selections below a field is. -/
def Sibling.fieldName? : Sibling → Option String
  | field name => some name
  | _ => none

/-- Where a field is selected, with the selections below it in order. -/
structure Spot where
  path : List Step
  below : List Sibling
deriving DecidableEq, Repr

/-- A spot seen from one step further up. -/
def Spot.under (step : Step) (spot : Spot) : Spot :=
  { spot with path := step :: spot.path }

namespace Selection

/-- The name of the field that a selection selects. -/
def fieldName? : Selection → Option String
  | field _ name _ _ => some name
  | _ => none

/-- What a selection is. -/
def sibling : Selection → Sibling
  | typename => .typename
  | field _ name _ _ => .field name
  | fragment type selections => .fragment type (selections.filterMap fieldName?)

mutual

/-- The spots of a selection that stands in a fragment for a type, or in none. -/
def spots (condition : Option String) : Selection → List Spot
  | typename => []
  | field _ name _ selections =>
    ⟨[⟨condition, name⟩], selections.map sibling⟩ ::
      (spotsOfAll none selections).map (Spot.under ⟨condition, name⟩)
  | fragment type selections => spotsOfAll (some type) selections

/-- The spots of several selections, one after the other. -/
def spotsOfAll (condition : Option String) : List Selection → List Spot
  | [] => []
  | selection :: rest => selection.spots condition ++ spotsOfAll condition rest

end

@[simp]
theorem spotsOfAll_nil (condition : Option String) : spotsOfAll condition [] = [] := by
  rw [spotsOfAll]

@[simp]
theorem spotsOfAll_cons (condition : Option String) (selection : Selection)
    (rest : List Selection) :
    spotsOfAll condition (selection :: rest) =
      selection.spots condition ++ spotsOfAll condition rest := by
  rw [spotsOfAll]

@[simp]
theorem spotsOfAll_append (condition : Option String) (first second : List Selection) :
    spotsOfAll condition (first ++ second) =
      spotsOfAll condition first ++ spotsOfAll condition second := by
  induction first with
  | nil => simp
  | cons selection rest ih => simp [ih]

theorem mem_spots_field_iff {condition label : Option String} {name : String}
    {arguments : List (String × String)} {selections : List Selection} {spot : Spot} :
    spot ∈ (field label name arguments selections).spots condition ↔
      spot = ⟨[⟨condition, name⟩], selections.map sibling⟩ ∨
        ∃ inner ∈ spotsOfAll none selections, spot = inner.under ⟨condition, name⟩ := by
  simp [spots, eq_comm]

/-- A fragment that would be empty is as good as none. -/
theorem spotsOfAll_fragment? (condition : Option String) (type : String)
    (selections : List Selection) :
    spotsOfAll condition (Expansion.fragment? type selections).toList =
      spotsOfAll (some type) selections := by
  rw [Expansion.fragment?]
  cases selections with
  | nil => simp
  | cons first rest => simp [spots]

end Selection

/-- The spots of a document. -/
def Document.spots (document : Document) : List Spot :=
  Selection.spotsOfAll none document.selection.toList

end SchemaUnfolding
