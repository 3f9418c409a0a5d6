import SchemaUnfolding.Proofs.Arguments.Printed
import SchemaUnfolding.Proofs.Executable.Brackets
import SchemaUnfolding.Proofs.Layout.Braces
import SchemaUnfolding.Proofs.Schema.References
import SchemaUnfolding.Proofs.Sdl.Spelling

/-!
# Printed operations

What is printed for a type, a declaration, an argument or a selection spells tokens that are read as
just this. Documents are printed line by line, so they are read as the operations they stand for.
-/

namespace SchemaUnfolding.Executable

open Sdl (EndsName IsName Spells SpellsBefore Token TypeExpr)

/-! ## Texts for values -/

/-- A text spells tokens that are read as a value. -/
def Prints {α : Type} (item : List Token → α → Prop) (text : List Char) (value : α) : Prop :=
  ∃ tokens, SpellsBefore EndsName text tokens ∧ item tokens value

theorem endsName_cons {c : Char} (outside : Sdl.isNameRest c = false) (rest : List Char) :
    EndsName (c :: rest) := by
  rintro _ ⟨⟩
  exact outside

/-- A character that is a token may follow a name. -/
theorem SpellsBefore.concat {text : List Char} {tokens : List Token} {c : Char} {token : Token}
    (spelled : SpellsBefore EndsName text tokens) (single : Sdl.single? c = some token)
    (outside : Sdl.isNameRest c = false) :
    SpellsBefore EndsName (text ++ [c]) (tokens ++ [token]) :=
  spelled.append (Sdl.spells_single single).weaken fun rest _ => endsName_cons outside rest

/-- Items between commas are a sequence. -/
theorem Prints.intercalate {α β : Type} {item : List Token → β → Prop} {write : α → List Char}
    {value : α → β} {values : List α}
    (each : ∀ other ∈ values, Prints item (write other) (value other))
    (occupied : values ≠ []) :
    Prints (Sequence item) (", ".toList.intercalate (values.map write)) (values.map value) := by
  induction values with
  | nil => exact absurd rfl occupied
  | cons first rest ih =>
    obtain ⟨here, spelled, known⟩ := each first (List.mem_cons_self ..)
    cases rest with
    | nil => exact ⟨here, by simpa using spelled, .last known⟩
    | cons next others =>
      obtain ⟨there, later, sequence⟩ :=
        ih (fun other member => each other (List.mem_cons_of_mem _ member)) (by simp)
      have separator : Spells ", ".toList [] := Sdl.spells_comma.append Sdl.spells_space
      have whole := spelled.append (separator.append later) fun rest _ => endsName_cons rfl _
      exact ⟨here ++ there, by simpa using whole, .more known sequence⟩

/-- Items between commas in round brackets, or nothing instead of no items, are a list. -/
theorem Prints.brackets {α β : Type} {item : List Token → β → Prop} {write : α → List Char}
    {value : α → β} {values : List α}
    (each : ∀ other ∈ values, Prints item (write other) (value other)) {text : String}
    (joined : text.toList = ", ".toList.intercalate (values.map write)) :
    Prints (Listed item) (if values.isEmpty then "" else "(" ++ text ++ ")").toList
      (values.map value) := by
  cases values with
  | nil => exact ⟨[], Sdl.spells_nil, .absent⟩
  | cons first rest =>
    obtain ⟨tokens, spelled, sequence⟩ := intercalate each (by simp)
    rw [← joined] at spelled
    have inside : SpellsBefore EndsName (text.toList ++ [')']) _ :=
      SpellsBefore.concat spelled rfl rfl
    have opening : Spells ['('] [.opening .round] := Sdl.spells_single rfl
    exact ⟨_, by simpa using opening.append inside, .present sequence⟩

/-! ## Declarations and arguments -/

/-- A mark makes a nullable type a type. -/
theorem Prints.mark {text : List Char} {type : TypeExpr} (prints : Prints IsNullable text type)
    (nullable : Bool) :
    Prints IsType (text ++ (TypeRef.mark nullable).toList) (TypeRef.marked nullable type) := by
  obtain ⟨tokens, spelled, known⟩ := prints
  cases nullable with
  | true => exact ⟨tokens, by simpa [TypeRef.mark] using spelled, .nullable known⟩
  | false => exact ⟨_, SpellsBefore.concat spelled rfl rfl, .nonNull known⟩

theorem prints_type {type : TypeRef} (named : IsName type.name) :
    Prints IsType type.text.toList type.expr := by
  induction type with
  | named nullable target =>
    have prints : Prints IsNullable target.name.toList (.named target.name) :=
      ⟨_, Sdl.spells_name named, .named _⟩
    rw [TypeRef.text, String.toList_append]
    exact prints.mark nullable
  | list nullable item location ih =>
    obtain ⟨tokens, spelled, known⟩ := ih named
    have inside : SpellsBefore EndsName (item.text.toList ++ [']']) _ :=
      SpellsBefore.concat spelled rfl rfl
    have opening : Spells ['['] [.opening .square] := Sdl.spells_single rfl
    have prints : Prints IsNullable ("[" ++ item.text ++ "]").toList (.list item.expr) :=
      ⟨_, by simpa using opening.append inside, .list known⟩
    rw [TypeRef.text, String.toList_append]
    exact prints.mark nullable

/-- A name, a colon and a blank. -/
theorem spells_label {name : String} (isName : IsName name) :
    Spells (name ++ ": ").toList [.name name, .mark .colon] := by
  have colon : Spells [':'] [.mark .colon] := Sdl.spells_single rfl
  have after : Spells ": ".toList [.mark .colon] := colon.append Sdl.spells_space
  rw [String.toList_append]
  exact (Sdl.spells_name isName).append after fun rest _ => endsName_cons rfl _

theorem prints_argument {argument : String × String} (named : IsName argument.1)
    (variableNamed : IsName argument.2) :
    Prints IsArgument (argument.1 ++ ": $" ++ argument.2).toList argument := by
  have dollar : Spells ['$'] [.mark .dollar] := Sdl.spells_single rfl
  have whole := (spells_label named).append (dollar.append (Sdl.spells_name variableNamed))
  exact ⟨_, by simpa using whole, .pass argument.1 argument.2⟩

/-- A list in brackets may follow a name. -/
theorem endsName_brackets {text : String} {absent : Bool} {rest : List Char}
    (ends : EndsName rest) :
    EndsName ((if absent then "" else "(" ++ text ++ ")").toList ++ rest) := by
  cases absent with
  | true => exact ends
  | false => simpa using endsName_cons rfl _

theorem prints_arguments {arguments : List (String × String)}
    (named : ∀ argument ∈ arguments, IsName argument.1 ∧ IsName argument.2) :
    Prints (Listed IsArgument)
      (if arguments.isEmpty then "" else "(" ++ argumentsText arguments ++ ")").toList
      arguments := by
  have joined := String.toList_intercalate (s := ", ")
    (l := arguments.map fun argument => argument.1 ++ ": $" ++ argument.2)
  rw [List.map_map] at joined
  have prints := Prints.brackets (fun argument member =>
    prints_argument (named argument member).1 (named argument member).2) joined
  rwa [List.map_id'] at prints

/-- Lines spell tokens one after the other. -/
inductive SpellsLines : List Line → List Token → Prop
  | nil : SpellsLines [] []
  | cons {nesting : Nat} {text : String} {lines : List Line} {here later : List Token} :
      SpellsBefore EndsName text.toList here → SpellsLines lines later →
      SpellsLines (⟨nesting, text⟩ :: lines) (here ++ later)

namespace SpellsLines

theorem append {first second : List Line} {early late : List Token}
    (spelled : SpellsLines first early) (next : SpellsLines second late) :
    SpellsLines (first ++ second) (early ++ late) := by
  induction spelled with
  | nil => exact next
  | cons here _ ih =>
    rw [List.cons_append, List.append_assoc]
    exact .cons here ih

/-- The text of lines spells what the lines do. -/
theorem spells {lines : List Line} {tokens : List Token} (spelled : SpellsLines lines tokens) :
    SpellsBefore EndsName (textOfLines lines) tokens := by
  induction spelled with
  | nil => exact Sdl.spells_nil
  | @cons nesting text lines here later first rest ih =>
    have line : SpellsBefore EndsName (Line.chars ⟨nesting, text⟩) here := by
      rw [Line.chars_mk]
      exact (Sdl.spells_replicate _).append first
    cases lines with
    | nil =>
      cases rest
      simpa [textOfLines, Line.chars] using line
    | cons next others =>
      rw [textOfLines_cons_cons]
      exact line.append (Sdl.spells_feed.append ih) fun rest _ => endsName_cons rfl _

theorem closing (nesting : Nat) : SpellsLines [⟨nesting, "\x7d"⟩] [.closing .curly] := by
  have brace : SpellsBefore EndsName "\x7d".toList [.closing .curly] :=
    (Sdl.spells_single rfl).weaken
  exact .cons brace .nil

/-- Lines between braces. -/
theorem braces {lines : List Line} {text : String} {head tokens : List Token} (nesting : Nat)
    (spelled : SpellsBefore EndsName text.toList head) (inside : SpellsLines lines tokens) :
    SpellsLines (⟨nesting, text ++ "\x7b"⟩ :: lines ++ [⟨nesting, "\x7d"⟩])
      (head ++ .opening .curly :: (tokens ++ [.closing .curly])) := by
  have opening : SpellsBefore EndsName (text ++ "\x7b").toList (head ++ [.opening .curly]) := by
    rw [String.toList_append]
    exact SpellsBefore.concat spelled rfl rfl
  have whole : SpellsLines (⟨nesting, text ++ "\x7b"⟩ :: (lines ++ [⟨nesting, "\x7d"⟩])) _ :=
    .cons opening (inside.append (closing nesting))
  simpa using whole

end SpellsLines

/-! ## Selections -/

/-- What stands before the selections of a field spells the field. -/
theorem spells_fieldHead {label : Option String} {name : String}
    {arguments : List (String × String)} (labelled : ∀ other ∈ label, IsName other)
    (named : IsName name)
    (passed : ∀ argument ∈ arguments, IsName argument.1 ∧ IsName argument.2) :
    ∃ front back, IsAlias front label ∧ Listed IsArgument back arguments ∧
      SpellsBefore EndsName (Selection.fieldHead label name arguments).toList
        (front ++ .name name :: back) := by
  obtain ⟨back, spelled, listed⟩ := prints_arguments passed
  have body := (Sdl.spells_name named).append spelled fun rest ends => endsName_brackets ends
  rw [Selection.fieldHead, String.append_assoc, String.toList_append, String.toList_append]
  cases label with
  | none => exact ⟨[], back, .absent, listed, body⟩
  | some other =>
    exact ⟨_, back, .present other, listed, (spells_label (labelled other rfl)).append body⟩

/-- What stands before the selections of a fragment spells the condition on the type. -/
theorem spells_condition {type : String} (isName : IsName type) :
    SpellsBefore EndsName ("... on " ++ type ++ " ").toList
      [.mark .ellipsis, .name "on", .name type] := by
  have word : SpellsBefore EndsName "on".toList [.name "on"] := Sdl.spells_name (by decide)
  have blank : SpellsBefore EndsName [' '] [] := Sdl.spells_space.weaken
  have named := (Sdl.spells_name isName).append blank fun rest _ => endsName_cons rfl rest
  have condition := word.append (Sdl.spells_space.append named) fun rest _ => endsName_cons rfl _
  have whole := Sdl.spells_ellipsis.append (Sdl.spells_space.append condition)
  simpa using whole

mutual

/-- No fragment in a selection is empty, and no field goes by the name for the type at hand. -/
def IsReadable : Selection → Prop
  | .typename => True
  | .field _ name _ selections => name ≠ "__typename" ∧ AreReadable selections
  | .fragment _ selections => selections ≠ [] ∧ AreReadable selections

/-- No fragment in selections is empty, and no field goes by the name for the type at hand. -/
def AreReadable : List Selection → Prop
  | [] => True
  | selection :: rest => IsReadable selection ∧ AreReadable rest

end

theorem fieldOrTypename_of_ne {label : Option String} {name : String}
    {arguments : List (String × String)} {selections : List Selection}
    (other : name ≠ "__typename") :
    fieldOrTypename label name arguments selections = .field label name arguments selections := by
  rw [fieldOrTypename, if_neg fun same => other same.1]

mutual

/-- The lines of a selection spell tokens that are read as the selection. -/
theorem prints_selection (selection : Selection) (named : selection.Named)
    (readable : IsReadable selection) (nesting : Nat) :
    ∃ tokens, SpellsLines (selection.lines nesting) tokens ∧ IsSelection tokens selection := by
  match selection with
  | .typename =>
    have spelled : SpellsBefore EndsName "__typename".toList [.name "__typename"] :=
      Sdl.spells_name (by decide)
    rw [Selection.lines]
    exact ⟨_, .cons spelled .nil, .leaf .absent .absent⟩
  | .field label name arguments [] =>
    rw [Selection.Named] at named
    rw [IsReadable] at readable
    rw [Selection.lines]
    obtain ⟨front, back, aliased, listed, spelled⟩ :=
      spells_fieldHead named.1 named.2.1 named.2.2.1
    have known : IsSelection _ (fieldOrTypename label name arguments []) := .leaf aliased listed
    rw [fieldOrTypename_of_ne readable.1] at known
    exact ⟨_, .cons spelled .nil, by simpa using known⟩
  | .field label name arguments (first :: rest) =>
    rw [Selection.Named] at named
    rw [IsReadable] at readable
    rw [Selection.lines]
    obtain ⟨front, back, aliased, listed, spelled⟩ :=
      spells_fieldHead named.1 named.2.1 named.2.2.1
    obtain ⟨tokens, inside, sequence⟩ :=
      prints_selections (first :: rest) (by simp) named.2.2.2 readable.2 (nesting + 1)
    have known : IsSelection _ (fieldOrTypename label name arguments (first :: rest)) :=
      .branch aliased listed sequence
    rw [fieldOrTypename_of_ne readable.1] at known
    exact ⟨_, inside.braces nesting spelled, by simpa using known⟩
  | .fragment type selections =>
    rw [Selection.Named] at named
    rw [IsReadable] at readable
    rw [Selection.lines]
    obtain ⟨tokens, inside, sequence⟩ :=
      prints_selections selections readable.1 named.2 readable.2 (nesting + 1)
    have written : "... on " ++ type ++ " \x7b" = "... on " ++ type ++ " " ++ "\x7b" := by
      simp [String.append_assoc]
    rw [written]
    exact ⟨_, inside.braces nesting (spells_condition named.1), .fragment type sequence⟩

/-- The lines of selections spell tokens that are read as the selections. -/
theorem prints_selections (selections : List Selection) (occupied : selections ≠ [])
    (named : Selection.NamedAll selections) (readable : AreReadable selections) (nesting : Nat) :
    ∃ tokens, SpellsLines (Selection.linesOfAll nesting selections) tokens ∧
      Sequence IsSelection tokens selections := by
  match selections with
  | [] => exact absurd rfl occupied
  | [only] =>
    rw [Selection.NamedAll] at named
    rw [AreReadable] at readable
    obtain ⟨here, spelled, known⟩ := prints_selection only named.1 readable.1 nesting
    refine ⟨here, ?_, .last known⟩
    simpa [Selection.linesOfAll] using spelled
  | first :: second :: others =>
    rw [Selection.NamedAll] at named
    rw [AreReadable] at readable
    obtain ⟨here, early, known⟩ := prints_selection first named.1 readable.1 nesting
    obtain ⟨there, late, sequence⟩ :=
      prints_selections (second :: others) (by simp) named.2 readable.2 nesting
    rw [Selection.linesOfAll]
    exact ⟨here ++ there, early.append late, .more known sequence⟩

end

/-! ## Documents -/

end SchemaUnfolding.Executable
