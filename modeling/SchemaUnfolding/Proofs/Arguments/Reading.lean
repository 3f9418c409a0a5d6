import SchemaUnfolding.Proofs.Sdl.Names

/-!
# Reading variables back

A dollar sign in a text stands in front of a variable. What stands before it tells the argument that
passes the variable, and what stands after it tells the variable and, in a declaration, its type.
Printed names hold no dollar sign, so reading a printed text gives back the arguments and the
declarations that were printed, and nothing else.
-/

namespace SchemaUnfolding

open Sdl (isNameRest)

/-! ## Dollar signs -/

/-- What stands around each dollar sign of a text: the characters before it, the last one first, and
the characters after it. Some characters are known to stand before the text. -/
def dollars (before : List Char) : List Char → List (List Char × List Char)
  | [] => []
  | c :: rest =>
    if c = '$' then (before, rest) :: dollars (c :: before) rest else dollars (c :: before) rest

/-- The name that a text starts with. -/
def nameAt (text : List Char) : String := String.ofList (text.takeWhile isNameRest)

/-- The argument around a dollar sign: the name before the colon, and the variable. -/
def argumentAt : List Char × List Char → String × String
  | (' ' :: ':' :: before, after) =>
    (String.ofList (before.takeWhile isNameRest).reverse, nameAt after)
  | (_, after) => ("", nameAt after)

/-- Whether a character ends a declaration in a list. -/
def endsDeclaration (c : Char) : Bool := c == ',' || c == ')'

theorem endsDeclaration_iff {c : Char} : endsDeclaration c = true ↔ c = ',' ∨ c = ')' := by
  simp [endsDeclaration]

/-- The declaration around a dollar sign: the variable, and the text of the type after the colon. -/
def declarationAt (around : List Char × List Char) : String × String :=
  match around.2.dropWhile isNameRest with
  | ':' :: ' ' :: type => (nameAt around.2, String.ofList (type.takeWhile (!endsDeclaration ·)))
  | _ => (nameAt around.2, "")

/-- The arguments in a text, parameter and variable. -/
def argumentsIn (text : List Char) : List (String × String) := (dollars [] text).map argumentAt

/-- The declarations in a text, variable and type. -/
def declarationsIn (text : List Char) : List (String × String) :=
  (dollars [] text).map declarationAt

/-- The arguments in a document: those behind its first brace. -/
def argumentsInDocument (text : String) : List (String × String) :=
  argumentsIn (text.toList.dropWhile (· ≠ '\x7b'))

/-- The declarations in a document: those before its first brace. -/
def declarationsInDocument (text : String) : List (String × String) :=
  declarationsIn (text.toList.takeWhile (· ≠ '\x7b'))

theorem dollars_append_of_not_mem {text : List Char} (silent : '$' ∉ text)
    (before rest : List Char) :
    dollars before (text ++ rest) = dollars (text.reverse ++ before) rest := by
  induction text generalizing before with
  | nil => rfl
  | cons c text ih =>
    rw [List.mem_cons, not_or] at silent
    rw [List.cons_append, dollars, if_neg (Ne.symm silent.1), ih silent.2, List.reverse_cons,
      List.append_assoc, List.singleton_append]

theorem not_mem_intercalate {separator : List Char} {texts : List (List Char)} {c : Char}
    (outside : c ∉ separator) (each : ∀ text ∈ texts, c ∉ text) :
    c ∉ separator.intercalate texts := by
  induction texts with
  | nil => simp
  | cons text rest ih =>
    have first := each text (List.mem_cons_self ..)
    have later := ih fun other member => each other (List.mem_cons_of_mem _ member)
    cases rest with
    | nil => simpa using first
    | cons next rest =>
      simp only [List.intercalate_cons_cons, List.mem_append, not_or]
      exact ⟨⟨first, outside⟩, later⟩

section TakeWhile

variable {p : Char → Bool} {text rest : List Char}

theorem takeWhile_append_of_stop (inside : ∀ c ∈ text, p c = true)
    (stop : ∀ c ∈ rest.head?, p c = false) : (text ++ rest).takeWhile p = text := by
  rw [List.takeWhile_append_of_pos inside]
  cases rest with
  | nil => simp
  | cons c rest => simp [stop c rfl]

theorem dropWhile_append_of_stop (inside : ∀ c ∈ text, p c = true)
    (stop : ∀ c ∈ rest.head?, p c = false) : (text ++ rest).dropWhile p = rest := by
  rw [List.dropWhile_append_of_pos inside]
  cases rest with
  | nil => simp
  | cons c rest => simp [stop c rfl]

end TakeWhile

/-! ## Texts that can be read alone -/

variable {α β : Type} {read : List Char × List Char → α}

/-- Reading a text gives some items wherever the text stands. -/
def Reads (read : List Char × List Char → α) (text : List Char) (items : List α) : Prop :=
  ∀ before rest, (dollars before (text ++ rest)).map read =
    items ++ (dollars (text.reverse ++ before) rest).map read

theorem Reads.of_not_mem {text : List Char} (silent : '$' ∉ text) : Reads read text [] := by
  intro before rest
  rw [dollars_append_of_not_mem silent, List.nil_append]

theorem Reads.append {first second : List Char} {items others : List α}
    (reads : Reads read first items) (next : Reads read second others) :
    Reads read (first ++ second) (items ++ others) := by
  intro before rest
  rw [List.append_assoc, reads, next, List.reverse_append, List.append_assoc, List.append_assoc]

theorem Reads.map_dollars {text : List Char} {items : List α} (reads : Reads read text items) :
    (dollars [] text).map read = items := by
  simpa [dollars] using reads [] []

/-! ## Lists in brackets -/

/-- A text may be followed by the next item of a list, or by its end. -/
def Closes (rest : List Char) : Prop := ∀ c ∈ rest.head?, endsDeclaration c = true

/-- A text may be preceded by a list's start or by the comma after an item. -/
def Opens (before : List Char) : Prop := ∀ c ∈ before.head?, c = '(' ∨ c = ' '

/-- Reading a text that stands in a list gives some items. -/
def ReadsListed (read : List Char × List Char → α) (text : List Char) (items : List α) : Prop :=
  ∀ before rest, Opens before → Closes rest →
    (dollars before (text ++ rest)).map read =
      items ++ (dollars (text.reverse ++ before) rest).map read

theorem Closes.isNameRest_eq_false {rest : List Char} (closes : Closes rest) :
    ∀ c ∈ rest.head?, isNameRest c = false := by
  intro c first
  rcases endsDeclaration_iff.mp (closes c first) with rfl | rfl <;> rfl

theorem Opens.isNameRest_eq_false {before : List Char} (opens : Opens before) :
    ∀ c ∈ before.head?, isNameRest c = false := by
  intro c last
  rcases opens c last with rfl | rfl <;> rfl

/-- Reading a list gives what its items give. -/
theorem ReadsListed.intercalate {write : β → List Char} {item : β → α} {list : List β}
    (each : ∀ entry ∈ list, ReadsListed read (write entry) [item entry]) :
    ReadsListed read (", ".toList.intercalate (list.map write)) (list.map item) := by
  induction list with
  | nil =>
    intro before rest _ _
    simp
  | cons entry others ih =>
    have first := each entry (List.mem_cons_self ..)
    cases others with
    | nil => simpa using first
    | cons next others =>
      have later := ih fun other member => each other (List.mem_cons_of_mem _ member)
      intro before rest opens closes
      have separator : '$' ∉ ", ".toList := by decide
      have here := first before
        (", ".toList ++ (", ".toList.intercalate ((next :: others).map write) ++ rest)) opens
        (by rintro c ⟨⟩; rfl)
      rw [dollars_append_of_not_mem separator,
        later _ rest (by rintro c ⟨⟩; exact .inr rfl) closes] at here
      simpa using here

/-- A list in brackets can be read alone. -/
theorem ReadsListed.reads {text : List Char} {items : List α}
    (listed : ReadsListed read text items) : Reads read ('(' :: text ++ [')']) items := by
  have opening : Reads read ['('] [] := .of_not_mem (by decide)
  have closing : Reads read [')'] [] := .of_not_mem (by decide)
  intro before rest
  have whole := listed ('(' :: before) (')' :: rest) (by rintro c ⟨⟩; exact .inl rfl)
    (by rintro c ⟨⟩; rfl)
  have front := opening before (text ++ (')' :: rest))
  have back := closing (text.reverse ++ '(' :: before) rest
  simp only [List.cons_append, List.nil_append, List.append_assoc, List.reverse_cons,
    List.reverse_append, List.reverse_nil] at front back whole ⊢
  rw [front, whole, back]

/-- So can a list whose brackets are left out when it is empty. -/
theorem ReadsListed.reads_brackets {text : String} {items : List α}
    (listed : ReadsListed read text.toList items) (empty : Bool) (same : empty = items.isEmpty) :
    Reads read (if empty then "" else "(" ++ text ++ ")").toList items := by
  subst same
  cases items with
  | nil => exact .of_not_mem (by simp)
  | cons item rest => simpa using listed.reads

theorem ReadsListed.map_dollars {text : List Char} {items : List α}
    (listed : ReadsListed read text items) : (dollars [] text).map read = items := by
  simpa [dollars] using listed [] [] (by rintro c ⟨⟩) (by rintro c ⟨⟩)

end SchemaUnfolding
