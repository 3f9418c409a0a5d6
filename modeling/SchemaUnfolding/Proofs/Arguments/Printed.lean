import SchemaUnfolding.Operation.Document
import SchemaUnfolding.Proofs.Arguments.Reading
import SchemaUnfolding.Proofs.Arguments.Rendering

/-!
# Printed arguments and declarations

The text of a selection in which all names are names of the language reads as the arguments in the
selection, in the order of printing. The text of declarations reads as these declarations, and a
document's text as both.
-/

namespace SchemaUnfolding

open Sdl (IsName isNameRest)

/-! ## Items of lists -/

/-- No name holds a character that cannot stand inside one. -/
theorem Sdl.IsName.not_mem {name : String} (isName : IsName name) {c : Char}
    (outside : isNameRest c = false) : c ∉ name.toList := by
  intro member
  rw [isName.isNameRest_of_mem member] at outside
  cases outside

theorem dollars_argument {argument : String × String} (named : IsName argument.1)
    (variableNamed : IsName argument.2) (before rest : List Char) :
    dollars before ((argument.1 ++ ": $" ++ argument.2).toList ++ rest) =
      (' ' :: ':' :: (argument.1.toList.reverse ++ before), argument.2.toList ++ rest) ::
        dollars ((argument.1 ++ ": $" ++ argument.2).toList.reverse ++ before) rest := by
  have separated : (argument.1 ++ ": $" ++ argument.2).toList ++ rest =
      argument.1.toList ++ (':' :: ' ' :: '$' :: (argument.2.toList ++ rest)) := by
    simp
  rw [separated, dollars_append_of_not_mem (named.not_mem rfl), dollars, if_neg (by decide),
    dollars, if_neg (by decide), dollars, if_pos rfl,
    dollars_append_of_not_mem (variableNamed.not_mem rfl)]
  simp

theorem nameAt_append {name : String} (isName : IsName name) {rest : List Char}
    (stop : ∀ c ∈ rest.head?, isNameRest c = false) : nameAt (name.toList ++ rest) = name := by
  rw [nameAt]
  rw [takeWhile_append_of_stop (fun c member => isName.isNameRest_of_mem member) stop,
    String.ofList_toList]

/-- An argument is read as what it passes. -/
theorem readsListed_argument {argument : String × String} (named : IsName argument.1)
    (variableNamed : IsName argument.2) :
    ReadsListed argumentAt (argument.1 ++ ": $" ++ argument.2).toList [argument] := by
  intro before rest opens closes
  have parameter : (argument.1.toList.reverse ++ before).takeWhile isNameRest =
      argument.1.toList.reverse :=
    takeWhile_append_of_stop (fun c member => named.isNameRest_of_mem (List.mem_reverse.mp member))
      opens.isNameRest_eq_false
  rw [dollars_argument named variableNamed, List.map_cons, List.singleton_append, argumentAt,
    parameter, List.reverse_reverse, String.ofList_toList,
    nameAt_append variableNamed closes.isNameRest_eq_false]

/-- The text of a type holds nothing but names, brackets and marks. -/
theorem TypeRef.mem_text {type : TypeRef} (named : IsName type.name) {c : Char}
    (member : c ∈ type.text.toList) :
    isNameRest c = true ∨ c = '[' ∨ c = ']' ∨ c = '!' := by
  have marked : ∀ nullable, c ∈ (mark nullable).toList → c = '!' := by
    intro nullable inside
    cases nullable with
    | false => exact List.mem_singleton.mp inside
    | true => cases inside
  induction type with
  | named nullable target =>
    rw [text, String.toList_append, List.mem_append] at member
    rcases member with inside | mark
    · exact .inl (IsName.isNameRest_of_mem named inside)
    · exact .inr (.inr (.inr (marked nullable mark)))
  | list nullable item location ih =>
    simp only [text, String.toList_append, List.mem_append] at member
    rcases member with ((opening | inside) | closing) | mark
    · exact .inr (.inl (List.mem_singleton.mp opening))
    · exact ih named inside
    · exact .inr (.inr (.inl (List.mem_singleton.mp closing)))
    · exact .inr (.inr (.inr (marked nullable mark)))

theorem TypeRef.not_mem_text {type : TypeRef} (named : IsName type.name) {c : Char}
    (outside : isNameRest c = false) (others : c ∉ ['[', ']', '!']) : c ∉ type.text.toList := by
  intro member
  rcases mem_text named member with inside | rest
  · rw [inside] at outside
    cases outside
  · exact others (by simpa using rest)

/-- A declaration is read as its variable and the text of its type. -/
theorem readsListed_declaration {declaration : String × TypeRef} (named : IsName declaration.1)
    (typeNamed : IsName declaration.2.name) :
    ReadsListed declarationAt ("$" ++ declaration.1 ++ ": " ++ declaration.2.text).toList
      [(declaration.1, declaration.2.text)] := by
  intro before rest _ closes
  let typed := ':' :: ' ' :: (declaration.2.text.toList ++ rest)
  have separated : ("$" ++ declaration.1 ++ ": " ++ declaration.2.text).toList ++ rest =
      '$' :: (declaration.1.toList ++ typed) := by
    simp [typed]
  have colon : ∀ c ∈ typed.head?, isNameRest c = false := by
    rintro c ⟨⟩
    rfl
  have afterName : (declaration.1.toList ++ typed).dropWhile isNameRest = typed :=
    dropWhile_append_of_stop (fun c member => named.isNameRest_of_mem member) colon
  have type : (declaration.2.text.toList ++ rest).takeWhile (!endsDeclaration ·) =
      declaration.2.text.toList := by
    apply takeWhile_append_of_stop
    · intro c member
      rw [Bool.not_eq_true', Bool.eq_false_iff]
      intro ends
      rcases endsDeclaration_iff.mp ends with rfl | rfl
      all_goals exact TypeRef.not_mem_text typeNamed rfl (by decide) member
    · intro c first
      rw [closes c first]
      rfl
  have around : declarationAt (before, declaration.1.toList ++ typed) =
      (declaration.1, declaration.2.text) := by
    rw [declarationAt]
    simp only [afterName, typed]
    rw [nameAt_append named colon, type, String.ofList_toList]
  rw [separated, dollars, if_pos rfl, List.map_cons, around,
    dollars_append_of_not_mem (named.not_mem rfl), dollars, if_neg (by decide),
    dollars, if_neg (by decide),
    dollars_append_of_not_mem (TypeRef.not_mem_text typeNamed rfl (by decide))]
  simp

theorem readsListed_arguments {arguments : List (String × String)}
    (named : ∀ argument ∈ arguments, IsName argument.1 ∧ IsName argument.2) :
    ReadsListed argumentAt (argumentsText arguments).toList arguments := by
  have each := fun argument member =>
    readsListed_argument (named argument member).1 (named argument member).2
  rw [argumentsText, String.toList_intercalate, List.map_map]
  have listed := ReadsListed.intercalate each
  rwa [List.map_id'] at listed

theorem readsListed_declarations {declarations : List (String × TypeRef)}
    (named : ∀ declaration ∈ declarations, IsName declaration.1 ∧ IsName declaration.2.name) :
    ReadsListed declarationAt (declarationsText declarations).toList
      (declarations.map fun declaration => (declaration.1, declaration.2.text)) := by
  rw [declarationsText, String.toList_intercalate, List.map_map]
  exact .intercalate fun declaration member =>
    readsListed_declaration (named declaration member).1 (named declaration member).2

/-! ## Lines -/

/-- What stands before the selections of a field is read as the arguments of the field. -/
theorem Selection.reads_fieldHead {label : Option String} {name : String}
    {arguments : List (String × String)} (labelled : ∀ other ∈ label, IsName other)
    (named : IsName name)
    (passed : ∀ argument ∈ arguments, IsName argument.1 ∧ IsName argument.2) :
    Reads argumentAt (fieldHead label name arguments).toList arguments := by
  have front : '$' ∉ (label.elim "" (· ++ ": ")).toList := by
    cases label with
    | none => decide
    | some other =>
      have silent := (labelled other rfl).not_mem (c := '$') rfl
      simpa using silent
  have middle : Reads argumentAt name.toList [] := .of_not_mem (named.not_mem rfl)
  have back := (readsListed_arguments passed).reads_brackets arguments.isEmpty rfl
  rw [fieldHead, String.toList_append, String.toList_append]
  exact ((Reads.of_not_mem front).append middle).append back

/-- Lines are read one after the other. -/
inductive ReadsLines : List Line → List (String × String) → Prop
  | nil : ReadsLines [] []
  | cons {line : Line} {lines : List Line} {here later : List (String × String)} :
      Reads argumentAt line.text.toList here → ReadsLines lines later →
      ReadsLines (line :: lines) (here ++ later)

theorem Reads.cons_line {text : String} {here later : List (String × String)} {lines : List Line}
    (reads : Reads argumentAt text.toList here) (rest : ReadsLines lines later) (nesting : Nat) :
    ReadsLines (⟨nesting, text⟩ :: lines) (here ++ later) :=
  .cons reads rest

namespace ReadsLines

theorem of_not_mem {line : Line} (silent : '$' ∉ line.text.toList) : ReadsLines [line] [] :=
  .cons (.of_not_mem silent) .nil

theorem append {first second : List Line} {items others : List (String × String)}
    (reads : ReadsLines first items) (next : ReadsLines second others) :
    ReadsLines (first ++ second) (items ++ others) := by
  induction reads with
  | nil => exact next
  | cons here _ ih =>
    rw [List.cons_append, List.append_assoc]
    exact .cons here ih

/-- The text of lines is read as the lines. -/
theorem reads {lines : List Line} {items : List (String × String)} (each : ReadsLines lines items) :
    Reads argumentAt ("\n".intercalate (lines.map Line.toString)).toList items := by
  have indented : ∀ {line : Line} {here : List (String × String)},
      Reads argumentAt line.text.toList here → Reads argumentAt line.toString.toList here := by
    intro line here reads
    have blank : '$' ∉ (Line.indentation line.nesting).toList := by
      simp [Line.indentation]
    rw [Line.toString, String.toList_append]
    exact (Reads.of_not_mem blank).append reads
  induction each with
  | nil => exact .of_not_mem (by simp)
  | @cons line lines here later reads rest ih =>
    cases lines with
    | nil =>
      cases rest
      simpa using indented reads
    | cons next lines =>
      have feed : Reads argumentAt "\n".toList [] := .of_not_mem (by decide)
      have whole := ((indented reads).append feed).append ih
      simpa using whole

end ReadsLines

namespace Selection

mutual

/-- The lines of a selection are read as the arguments in it. -/
theorem readsLines (selection : Selection) (named : selection.Named) (nesting : Nat) :
    ReadsLines (selection.lines nesting) selection.arguments := by
  match selection with
  | typename =>
    rw [lines, arguments]
    exact .of_not_mem (by simp)
  | field label name passed [] =>
    rw [Named] at named
    rw [lines, arguments, argumentsOfAll]
    exact .cons (reads_fieldHead named.1 named.2.1 named.2.2.1) .nil
  | field label name passed (first :: rest) =>
    rw [Named] at named
    rw [lines, arguments]
    have below := readsLines_all (first :: rest) named.2.2.2 (nesting + 1)
    have closing : ReadsLines [⟨nesting, "\x7d"⟩] [] := .of_not_mem (by simp)
    have brace : Reads argumentAt "\x7b".toList [] := .of_not_mem (by decide)
    have opening := (reads_fieldHead named.1 named.2.1 named.2.2.1).append brace
    rw [← String.toList_append] at opening
    simpa using opening.cons_line (below.append closing) nesting
  | fragment type selections =>
    rw [Named] at named
    rw [lines, arguments]
    have below := readsLines_all selections named.2 (nesting + 1)
    have closing : ReadsLines [⟨nesting, "\x7d"⟩] [] := .of_not_mem (by simp)
    have silent := named.1.not_mem (c := '$') rfl
    have opening : Reads argumentAt ("... on " ++ type ++ " \x7b").toList [] :=
      .of_not_mem (by simpa using silent)
    simpa using opening.cons_line (below.append closing) nesting

/-- The lines of selections are read as the arguments in them. -/
theorem readsLines_all (selections : List Selection) (named : NamedAll selections)
    (nesting : Nat) : ReadsLines (linesOfAll nesting selections) (argumentsOfAll selections) := by
  match selections with
  | [] =>
    rw [linesOfAll, argumentsOfAll]
    exact .nil
  | selection :: rest =>
    rw [NamedAll] at named
    rw [linesOfAll, argumentsOfAll]
    exact (readsLines selection named.1 nesting).append (readsLines_all rest named.2 nesting)

end

end Selection

/-- The text of a selection is read as the arguments in it. -/
theorem Selection.argumentsIn_text {selection : Selection} (named : selection.Named)
    (nesting : Nat) : argumentsIn (selection.text nesting).toList = selection.arguments :=
  (selection.readsLines named nesting).reads.map_dollars

/-! ## Documents -/

namespace Document

/-- All names in a document are names of the language. -/
structure Named (document : Document) : Prop where
  keyword : IsName document.keyword
  name : IsName document.name
  declarations : ∀ declaration ∈ document.declarations,
    IsName declaration.1 ∧ IsName declaration.2.name
  selection : ∀ selection ∈ document.selection, selection.Named

/-- What follows the header in the text of a document. -/
def bodyText (document : Document) : String :=
  let body := document.selection.elim [⟨0, ""⟩] (Selection.lines 1)
  "\n".intercalate ((⟨0, "\x7b"⟩ :: body ++ [⟨0, "\x7d"⟩] : List Line).map Line.toString)

theorem text_eq_append (document : Document) :
    document.text = document.header ++ document.bodyText := by
  rw [text, lines, bodyText]
  simp [Line.toString, Line.indentation]

variable {document : Document}

/-- The first line of a document up to its brace holds nothing but names, blanks, and the signs of
declarations. -/
theorem Named.not_mem_header (named : document.Named) {c : Char} (outside : isNameRest c = false)
    (others : c ∉ [' ', ',', ':', '$', '(', ')', '[', ']', '!']) : c ∉ document.header.toList := by
  simp only [List.mem_cons, List.not_mem_nil, or_false, not_or] at others
  obtain ⟨blank, comma, colon, dollar, opening, closing, marks⟩ := others
  have list : c ∉ (declarationsText document.declarations).toList := by
    rw [declarationsText, String.toList_intercalate, List.map_map]
    apply not_mem_intercalate (by simp [blank, comma])
    intro text member
    obtain ⟨declaration, listed, rfl⟩ := List.mem_map.mp member
    have variableNamed := (named.declarations declaration listed).1.not_mem outside
    have type : c ∉ declaration.2.text.toList :=
      TypeRef.not_mem_text (named.declarations declaration listed).2 outside (by simp [marks])
    simp [variableNamed, type, blank, colon, dollar]
  have keyword := named.keyword.not_mem outside
  have name := named.name.not_mem outside
  rw [header]
  split
  · simp [keyword, name, blank]
  · simp [keyword, name, list, blank, opening, closing]

theorem Named.reads_header (named : document.Named) :
    Reads declarationAt document.header.toList
      (document.declarations.map fun declaration => (declaration.1, declaration.2.text)) := by
  have keyword : Reads declarationAt document.keyword.toList [] :=
    .of_not_mem (named.keyword.not_mem rfl)
  have name : Reads declarationAt document.name.toList [] := .of_not_mem (named.name.not_mem rfl)
  have blank : Reads declarationAt " ".toList [] := .of_not_mem (by decide)
  have list := (readsListed_declarations named.declarations).reads_brackets
    document.declarations.isEmpty (by simp)
  rw [header, String.toList_append, String.toList_append, String.toList_append]
  exact ((keyword.append blank).append name).append list

theorem Named.argumentsIn_bodyText (named : document.Named) :
    argumentsIn document.bodyText.toList = Selection.argumentsOfAll document.selection.toList := by
  have opening : ReadsLines [⟨0, "\x7b"⟩] [] := .of_not_mem (by decide)
  have closing : ReadsLines [⟨0, "\x7d"⟩] [] := .of_not_mem (by decide)
  have body : ReadsLines (document.selection.elim [⟨0, ""⟩] (Selection.lines 1))
      (Selection.argumentsOfAll document.selection.toList) := by
    cases chosen : document.selection with
    | none => exact .of_not_mem (by decide)
    | some selection =>
      have inner := selection.readsLines (named.selection selection chosen) 1
      simpa [Selection.argumentsOfAll] using inner
  have whole := ((opening.append body).append closing).reads.map_dollars
  rwa [List.nil_append, List.append_nil] at whole

/-- The text of a document is read as its declarations, and the arguments in its selection. -/
theorem Named.reading (named : document.Named) :
    declarationsInDocument document.text =
        document.declarations.map (fun declaration => (declaration.1, declaration.2.text)) ∧
      argumentsInDocument document.text =
        Selection.argumentsOfAll document.selection.toList := by
  have inside : ∀ c ∈ document.header.toList, decide (c ≠ '\x7b') = true := by
    intro c member
    rw [decide_eq_true_iff]
    rintro rfl
    exact named.not_mem_header rfl (by decide) member
  have stop : ∀ c ∈ document.bodyText.toList.head?, decide (c ≠ '\x7b') = false := by
    simp [bodyText, Line.toString, Line.indentation]
  rw [declarationsInDocument, argumentsInDocument]
  rw [text_eq_append, String.toList_append, takeWhile_append_of_stop inside stop,
    dropWhile_append_of_stop inside stop]
  exact ⟨named.reads_header.map_dollars, named.argumentsIn_bodyText⟩

end Document

end SchemaUnfolding
