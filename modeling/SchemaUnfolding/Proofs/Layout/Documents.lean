import SchemaUnfolding.Proofs.Arguments.Printed
import SchemaUnfolding.Proofs.Layout.Braces

/-!
# The layout of documents

The lines of a selection open and close braces as the selection nests, and are indented by them. So
the text of a document has balanced braces, and is nested as deep as its selection is high.
-/

namespace SchemaUnfolding

open Sdl (IsName isNameRest isNameStart)

namespace Selection

mutual

/-- How many braces a selection puts around what stands innermost in it. -/
def height : Selection → Nat
  | typename => 0
  | field _ _ _ [] => 0
  | field _ _ _ (first :: rest) => heightOfAll (first :: rest) + 1
  | fragment _ selections => heightOfAll selections + 1

/-- The greatest height of several selections. -/
def heightOfAll : List Selection → Nat
  | [] => 0
  | selection :: rest => max selection.height (heightOfAll rest)

end

@[simp]
theorem heightOfAll_nil : heightOfAll [] = 0 := by
  rw [heightOfAll]

@[simp]
theorem heightOfAll_append (first second : List Selection) :
    heightOfAll (first ++ second) = max (heightOfAll first) (heightOfAll second) := by
  induction first with
  | nil => simp
  | cons selection rest ih => simp [heightOfAll, ih, Nat.max_assoc]

end Selection

/-! ## Plain texts -/

/-- No text that starts with a name starts with a blank. -/
theorem Sdl.IsName.head?_append_ne {name : String} (isName : IsName name) (rest : List Char) :
    (name.toList ++ rest).head? ≠ some ' ' := by
  obtain ⟨first, others, spelled, start, _⟩ := isName
  rw [spelled]
  rintro ⟨⟩
  cases start

theorem Selection.not_mem_fieldHead {label : Option String} {name : String}
    {arguments : List (String × String)} (labelled : ∀ other ∈ label, IsName other)
    (named : IsName name) (passed : ∀ argument ∈ arguments, IsName argument.1 ∧ IsName argument.2)
    {c : Char} (outside : isNameRest c = false) (others : c ∉ [' ', ',', ':', '$', '(', ')']) :
    c ∉ (fieldHead label name arguments).toList := by
  simp only [List.mem_cons, List.not_mem_nil, or_false, not_or] at others
  obtain ⟨blank, comma, colon, dollar, opening, closing⟩ := others
  have front : c ∉ (label.elim "" (· ++ ": ")).toList := by
    cases label with
    | none => simp
    | some other => simp [(labelled other rfl).not_mem outside, blank, colon]
  have list : c ∉ (argumentsText arguments).toList := by
    rw [argumentsText, String.toList_intercalate, List.map_map]
    apply not_mem_intercalate (by simp [blank, comma])
    intro text member
    obtain ⟨argument, listed, rfl⟩ := List.mem_map.mp member
    have parameter := (passed argument listed).1.not_mem outside
    have variableName := (passed argument listed).2.not_mem outside
    simp [parameter, variableName, blank, colon, dollar]
  rw [fieldHead]
  split
  · simp [front, named.not_mem outside]
  · simp [front, named.not_mem outside, list, opening, closing]

/-- What stands before the selections of a field is plain. -/
theorem Selection.plain_fieldHead {label : Option String} {name : String}
    {arguments : List (String × String)} (labelled : ∀ other ∈ label, IsName other)
    (named : IsName name)
    (passed : ∀ argument ∈ arguments, IsName argument.1 ∧ IsName argument.2) :
    Plain (fieldHead label name arguments).toList where
  silent := by
    rw [silent_iff]
    refine ⟨?_, ?_, ?_⟩ <;> exact not_mem_fieldHead labelled named passed (by decide) (by decide)
  start := by
    rw [fieldHead]
    cases label with
    | none => simpa using named.head?_append_ne _
    | some other =>
      simp only [Option.elim, String.toList_append, List.append_assoc]
      exact (labelled other rfl).head?_append_ne _

/-- The first line of a document is plain up to its brace. -/
theorem Document.Named.plain_header {document : Document} (named : document.Named) :
    Plain document.header.toList where
  silent := by
    rw [silent_iff]
    refine ⟨?_, ?_, ?_⟩ <;> exact named.not_mem_header (by decide) (by decide)
  start := by
    rw [Document.header]
    simp only [String.toList_append, List.append_assoc]
    exact named.keyword.head?_append_ne _

/-- What stands before the selections of a fragment is silent. -/
theorem silent_condition {type : String} (isName : IsName type) :
    Silent ("... on " ++ type ++ " ").toList := by
  have opening : '\x7b' ∉ type.toList := isName.not_mem (by decide)
  have closing : '\x7d' ∉ type.toList := isName.not_mem (by decide)
  have ending : '\n' ∉ type.toList := isName.not_mem (by decide)
  simp [silent_iff, opening, closing, ending]

/-! ## Selections -/

namespace Selection

variable {limit : Nat}

mutual

/-- The lines of a selection open and close its braces. -/
theorem laid (selection : Selection) (named : selection.Named) (nesting : Nat)
    (small : nesting + selection.height ≤ limit) :
    Laid limit nesting (selection.lines nesting) nesting := by
  match selection with
  | typename =>
    rw [lines]
    exact .plain ⟨by simp [Silent], by simp⟩ .nil
  | field label name passed [] =>
    rw [Named] at named
    rw [lines]
    exact .plain (plain_fieldHead named.1 named.2.1 named.2.2.1) .nil
  | field label name passed (first :: rest) =>
    rw [Named] at named
    rw [height] at small
    rw [lines]
    have below := laid_all (first :: rest) named.2.2.2 (nesting + 1) (by omega)
    have head := plain_fieldHead named.1 named.2.1 named.2.2.1
    exact .opening head (by omega) (below.append (.closing .nil))
  | fragment type selections =>
    rw [Named] at named
    rw [height] at small
    rw [lines]
    have below := laid_all selections named.2 (nesting + 1) (by omega)
    have written : "... on " ++ type ++ " \x7b" = "... on " ++ type ++ " " ++ "\x7b" := by
      simp [String.append_assoc]
    have head : Plain ("... on " ++ type ++ " ").toList :=
      ⟨silent_condition named.1, by simp⟩
    rw [written]
    exact .opening head (by omega) (below.append (.closing .nil))

/-- The lines of selections open and close their braces. -/
theorem laid_all (selections : List Selection) (named : NamedAll selections) (nesting : Nat)
    (small : nesting + heightOfAll selections ≤ limit) :
    Laid limit nesting (linesOfAll nesting selections) nesting := by
  match selections with
  | [] =>
    rw [linesOfAll]
    exact .nil
  | selection :: rest =>
    rw [NamedAll] at named
    rw [heightOfAll] at small
    rw [linesOfAll]
    exact (laid selection named.1 nesting (by omega)).append
      (laid_all rest named.2 nesting (by omega))

end

end Selection

/-! ## Documents -/

namespace Document

variable {document : Document}

/-- The lines of a document with a selection open and close its braces. -/
theorem Named.laid (named : document.Named) {selection : Selection}
    (shown : document.selection = some selection) :
    Laid (1 + selection.height) 0 document.lines 0 := by
  have body := selection.laid (named.selection selection shown) 1 (Nat.le_refl _)
  rw [lines, shown]
  exact .opening named.plain_header (by omega) (body.append (.closing .nil))

/-- The braces of a document are balanced, and nested as deep as its selection is high. -/
theorem Named.counts (named : document.Named) :
    bracesAfter 0 document.text.toList = some 0 ∧
      deepest 0 document.text.toList ≤ 1 + Selection.heightOfAll document.selection.toList := by
  cases shown : document.selection with
  | some selection =>
    obtain ⟨counted, deep⟩ := (named.laid shown).counts
    rw [toList_text]
    refine ⟨counted, ?_⟩
    simp only [Option.toList_some, Selection.heightOfAll]
    omega
  | none =>
    obtain ⟨counted, deep⟩ := named.plain_header.silent.counts 0
    have body : document.bodyText = "\x7b\n\n\x7d" := by
      rw [bodyText, shown]
      rfl
    rw [text_eq_append, body, String.toList_append, bracesAfter_append, deepest_append counted,
      counted, deep]
    decide

/-- The lines of a document with a selection are indented by the braces that are open there. -/
theorem Named.isIndented (named : document.Named) (shown : document.selection.isSome = true) :
    IsIndented document.text.toList := by
  obtain ⟨selection, known⟩ := Option.isSome_iff_exists.mp shown
  rw [toList_text]
  exact (named.laid known).isIndented (by simp [lines])

end Document

end SchemaUnfolding
