import SchemaUnfolding.Files.Path

/-!
# Paths of names below a path

A name without slashes that is put below a path is one more step along that path: the path starts
where it started, and nothing but its last name is new.
-/

namespace SchemaUnfolding

/-! ## Pieces -/

namespace Text

variable {separator : Char} {cs piece : List Char}

theorem splitChars_of_not_mem (flat : separator ∉ cs) : splitChars separator cs = [cs] := by
  induction cs with
  | nil => rfl
  | cons c rest ih =>
    rcases not_or.mp (mt List.mem_cons.mpr flat) with ⟨different, flat⟩
    rw [splitChars, ih flat]
    exact if_neg (Ne.symm different)

/-- What is written behind a list goes into its last piece, up to a separator. -/
theorem splitChars_append_of_not_mem (cs : List Char) (flat : separator ∉ piece) :
    ∃ front last, splitChars separator cs = front ++ [last] ∧
      splitChars separator (cs ++ piece) = front ++ [last ++ piece] := by
  induction cs with
  | nil => exact ⟨[], [], rfl, splitChars_of_not_mem flat⟩
  | cons c rest ih =>
    rcases ih with ⟨front, last, split, longer⟩
    rw [List.cons_append, splitChars, splitChars, split, longer]
    rcases front with _ | ⟨first, front⟩
    · by_cases same : c = separator
      · exact ⟨[[]], last, by simp [same], by simp [same]⟩
      · exact ⟨[], c :: last, by simp [same], by simp [same]⟩
    · by_cases same : c = separator
      · exact ⟨[] :: first :: front, last, by simp [same], by simp [same]⟩
      · exact ⟨(c :: first) :: front, last, by simp [same], by simp [same]⟩

/-- A piece behind a separator is one more piece. -/
theorem splitChars_append_separator (cs : List Char) (flat : separator ∉ piece) :
    splitChars separator (cs ++ separator :: piece) = splitChars separator cs ++ [piece] := by
  induction cs with
  | nil => simp [splitChars, splitChars_of_not_mem flat]
  | cons c rest ih =>
    rw [List.cons_append, splitChars, splitChars, ih]
    rcases pieces : splitChars separator rest with _ | ⟨first, others⟩
    · exact absurd pieces (splitChars_ne_nil separator rest)
    · by_cases same : c = separator
      · simp [same]
      · simp [same]

/-- The pieces of a text with a separator between each two are the text. -/
theorem intercalate_split (separator : Char) (text : String) :
    [separator].intercalate ((split separator text).map String.toList) = text.toList := by
  rw [split, List.map_map]
  simpa [Function.comp_def] using intercalate_splitChars separator text.toList

end Text

namespace Path

variable {path name : String}

/-- The last piece of a path is filled up with a name below the path when it is empty; else the name
is a piece of its own. -/
theorem split_join (filled : path ≠ "") (flat : '/' ∉ name.toList) :
    ∃ front last, Text.split '/' path = front ++ [last] ∧
      Text.split '/' (join path name) =
        if last = "" then front ++ [name] else front ++ [last, name] := by
  rcases Text.splitChars_append_of_not_mem path.toList flat with ⟨front, last, split, longer⟩
  have pieces : Text.split '/' path = front.map String.ofList ++ [String.ofList last] := by
    rw [Text.split, split, List.map_append, List.map_singleton]
  have ends : endsInSlash path = (String.ofList last == "") := by
    simp [endsInSlash, pieces, filled]
  refine ⟨front.map String.ofList, String.ofList last, pieces, ?_⟩
  by_cases empty : String.ofList last = ""
  · have joined : join path name = path ++ name := by simp [join, ends, empty]
    have nothing : last = [] := by simpa using congrArg String.toList empty
    rw [if_pos empty, joined, Text.split, String.toList_append, longer, nothing]
    simp
  · have joined : join path name = path ++ "/" ++ name := by simp [join, ends, empty, filled]
    have chars : (path ++ "/" ++ name).toList = path.toList ++ '/' :: name.toList := by simp
    rw [if_neg empty, joined, Text.split, chars, Text.splitChars_append_separator _ flat, split]
    simp

/-- The last name on the path of a name below a path is that name. -/
theorem names_join (filled : path ≠ "") (flat : '/' ∉ name.toList) (named : name ≠ "") :
    names (join path name) = names path ++ [name] := by
  rcases split_join filled flat with ⟨front, last, pieces, joined⟩
  rw [names, names, pieces, joined]
  by_cases empty : last = ""
  · simp [empty, named]
  · simp [empty, named]

theorem endsInSlash_join (filled : path ≠ "") (flat : '/' ∉ name.toList) (named : name ≠ "") :
    endsInSlash (join path name) = false := by
  rcases split_join filled flat with ⟨front, last, _, joined⟩
  rw [endsInSlash, joined]
  by_cases empty : last = ""
  · simp [empty, named]
  · simp [empty, named]

/-- The steps to a name below a path are those along the names of the path, and one to the name. -/
theorem steps_join (filled : path ≠ "") (flat : '/' ∉ name.toList) (named : name ≠ "") :
    steps (join path name) = names path ++ [name] := by
  simp [steps, names_join filled flat named, endsInSlash_join filled flat named]

theorem join_ne_empty (filled : path ≠ "") : join path name ≠ "" := by
  rw [join]
  split <;> simp [String.append_eq_empty_iff, filled]

theorem isAbsolute_join (filled : path ≠ "") (flat : '/' ∉ name.toList) :
    isAbsolute (join path name) = isAbsolute path := by
  rcases split_join filled flat with ⟨front, last, pieces, joined⟩
  have sameStart : (Text.split '/' (join path name)).head? = (Text.split '/' path).head? := by
    rw [pieces, joined]
    rcases front with _ | ⟨first, front⟩
    · have lastFilled : last ≠ "" := by
        rintro rfl
        have nothing := Text.intercalate_split '/' path
        rw [pieces] at nothing
        exact filled (String.toList_eq_nil_iff.mp nothing.symm)
      simp [lastFilled]
    · split <;> rfl
  rw [isAbsolute, isAbsolute, sameStart]
  simp [filled, join_ne_empty filled]

end Path

end SchemaUnfolding
