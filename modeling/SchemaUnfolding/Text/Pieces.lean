/-!
# Pieces between separators

A text is cut at each separator. The pieces, with a separator between each two of them, are the text
again.
-/

namespace SchemaUnfolding.Text

/-- The pieces of a list of characters between separators: one more than there are separators. -/
def splitChars (separator : Char) : List Char → List (List Char)
  | [] => [[]]
  | c :: rest =>
    match splitChars separator rest with
    | [] => [[c]]
    | piece :: pieces => if c = separator then [] :: piece :: pieces else (c :: piece) :: pieces

theorem splitChars_ne_nil (separator : Char) (cs : List Char) : splitChars separator cs ≠ [] := by
  cases cs with
  | nil => simp [splitChars]
  | cons c rest =>
    unfold splitChars
    split
    · simp
    · split <;> simp

/-- The pieces with separators between them are the whole. -/
theorem intercalate_splitChars (separator : Char) (cs : List Char) :
    [separator].intercalate (splitChars separator cs) = cs := by
  induction cs with
  | nil => rfl
  | cons c rest ih =>
    unfold splitChars
    split
    · rename_i none
      exact absurd none (splitChars_ne_nil separator rest)
    · rename_i piece pieces known
      rw [known] at ih
      split
      · rename_i same
        subst same
        simp [List.intercalate] at ih ⊢
        exact ih
      · cases pieces <;> simp_all [List.intercalate]

/-- The pieces of a text between separators. -/
def split (separator : Char) (text : String) : List String :=
  (splitChars separator text.toList).map String.ofList

end SchemaUnfolding.Text
