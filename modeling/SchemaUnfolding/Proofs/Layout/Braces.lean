import SchemaUnfolding.Operation.Document
import SchemaUnfolding.Proofs.Arguments.Reading

/-!
# Braces and lines of texts

How many braces are open behind a text, how many at most on the way, and whether the lines of a text
are indented by the braces that are open where they stand. These are read off the characters of a
text. Lines that open and close braces as a selection does have a text of which all this is known.
-/

namespace SchemaUnfolding

/-! ## Texts -/

/-- The number of open braces behind a character, if it closes none that was not opened. -/
def brace (count : Nat) (c : Char) : Option Nat :=
  if c = '\x7b' then some (count + 1)
  else if c = '\x7d' then (if count = 0 then none else some (count - 1))
  else some count

/-- The number of open braces behind a text, if it closes none that was not opened. -/
def bracesAfter : Nat → List Char → Option Nat
  | count, [] => some count
  | count, c :: rest => (brace count c).bind (bracesAfter · rest)

/-- The greatest number of braces that are open somewhere in a text. -/
def deepest : Nat → List Char → Nat
  | count, [] => count
  | count, c :: rest => max count ((brace count c).elim 0 (deepest · rest))

/-- The number of blanks that a line starts with. -/
def blanks (line : List Char) : Nat := (line.takeWhile (· = ' ')).length

/-- The nesting of a line where so many braces are open. The brace that a line closes at its start
does not count. -/
def nestingOf (count : Nat) (line : List Char) : Nat :=
  if (line.dropWhile (· = ' ')).head? = some '\x7d' then count - 1 else count

/-- Every line of a text is indented by four blanks for each level of its nesting. -/
def IsIndented (text : List Char) : Prop :=
  ∀ before line after, text.splitOn '\n' = before ++ line :: after →
    ∃ count, bracesAfter 0 before.flatten = some count ∧ blanks line = 4 * nestingOf count line

/-- A text holds no brace and no line feed. -/
def Silent (text : List Char) : Prop := ∀ c ∈ ['\x7b', '\x7d', '\n'], c ∉ text

theorem silent_iff {text : List Char} :
    Silent text ↔ '\x7b' ∉ text ∧ '\x7d' ∉ text ∧ '\n' ∉ text := by
  simp [Silent]

theorem bracesAfter_append (count : Nat) (first second : List Char) :
    bracesAfter count (first ++ second) =
      (bracesAfter count first).bind (bracesAfter · second) := by
  induction first generalizing count with
  | nil => rfl
  | cons c rest ih =>
    rw [List.cons_append, bracesAfter, bracesAfter, Option.bind_assoc]
    simp only [ih]

theorem deepest_append {count next : Nat} {first : List Char}
    (counted : bracesAfter count first = some next) (second : List Char) :
    deepest count (first ++ second) = max (deepest count first) (deepest next second) := by
  induction first generalizing count with
  | nil =>
    cases counted
    cases second <;> simp [deepest, -Nat.max_assoc]
  | cons c rest ih =>
    obtain ⟨later, here, counted⟩ := Option.bind_eq_some_iff.mp counted
    simp [deepest, here, ih counted, Nat.max_assoc]

theorem Silent.append {first second : List Char} (silent : Silent first) (next : Silent second) :
    Silent (first ++ second) := by
  intro c special member
  rcases List.mem_append.mp member with here | there
  · exact silent c special here
  · exact next c special there

theorem Silent.brace {text : List Char} (silent : Silent text) {c : Char} (member : c ∈ text)
    (count : Nat) : brace count c = some count := by
  have opening : c ≠ '\x7b' := by
    rintro rfl
    exact silent _ (by simp) member
  have closing : c ≠ '\x7d' := by
    rintro rfl
    exact silent _ (by simp) member
  rw [SchemaUnfolding.brace, if_neg opening, if_neg closing]

theorem Silent.head?_ne {text : List Char} (silent : Silent text) :
    text.head? ≠ some '\x7d' :=
  fun closing => silent _ (by simp) (List.mem_of_mem_head? closing)

/-- A text without braces changes no number of braces. -/
theorem Silent.counts {text : List Char} (silent : Silent text) (count : Nat) :
    bracesAfter count text = some count ∧ deepest count text = count := by
  induction text with
  | nil => exact ⟨rfl, rfl⟩
  | cons c rest ih =>
    have here := silent.brace (List.mem_cons_self ..) count
    obtain ⟨later, below⟩ := ih fun c special member =>
      silent c special (List.mem_cons_of_mem _ member)
    simp [bracesAfter, deepest, here, later, below]

/-! ## Lines -/

/-- The text of some lines. -/
def textOfLines (lines : List Line) : List Char :=
  ['\n'].intercalate (lines.map fun line => line.toString.toList)

theorem Document.toList_text (document : Document) :
    document.text.toList = textOfLines document.lines := by
  rw [text, String.toList_intercalate, List.map_map]
  rfl

/-- A text that holds no brace and no line feed and starts with no blank. -/
structure Plain (text : List Char) : Prop where
  silent : Silent text
  start : text.head? ≠ some ' '

/-- Lines that stand where so many braces are open, never more than a limit, and are indented
accordingly, and the number of braces that are open behind them. -/
inductive Laid (limit : Nat) : Nat → List Line → Nat → Prop
  | nil {count : Nat} : Laid limit count [] count
  | plain {count next : Nat} {text : String} {lines : List Line} :
      Plain text.toList → Laid limit count lines next →
      Laid limit count (⟨count, text⟩ :: lines) next
  | opening {count next : Nat} {text : String} {lines : List Line} :
      Plain text.toList → count + 1 ≤ limit → Laid limit (count + 1) lines next →
      Laid limit count (⟨count, text ++ "\x7b"⟩ :: lines) next
  | closing {count next : Nat} {lines : List Line} :
      Laid limit count lines next →
      Laid limit (count + 1) (⟨count, "\x7d"⟩ :: lines) next

variable {limit count next : Nat} {lines : List Line}

theorem Laid.append {last : Nat} {others : List Line} (laid : Laid limit count lines next)
    (later : Laid limit next others last) : Laid limit count (lines ++ others) last := by
  induction laid with
  | nil => exact later
  | plain plain _ ih => exact .plain plain (ih later)
  | opening plain small _ ih => exact .opening plain small (ih later)
  | closing _ ih => exact .closing (ih later)

theorem Laid.split {before after : List Line}
    (laid : Laid limit count (before ++ after) next) :
    ∃ middle, Laid limit count before middle ∧ Laid limit middle after next := by
  induction before generalizing count with
  | nil => exact ⟨count, .nil, laid⟩
  | cons line before ih =>
    cases laid with
    | plain plain later =>
      obtain ⟨middle, here, there⟩ := ih later
      exact ⟨middle, .plain plain here, there⟩
    | opening plain small later =>
      obtain ⟨middle, here, there⟩ := ih later
      exact ⟨middle, .opening plain small here, there⟩
    | closing later =>
      obtain ⟨middle, here, there⟩ := ih later
      exact ⟨middle, .closing here, there⟩

/-- A line of a text. -/
def Line.chars (line : Line) : List Char := line.toString.toList

theorem Line.chars_mk (nesting : Nat) (text : String) :
    Line.chars ⟨nesting, text⟩ = List.replicate (4 * nesting) ' ' ++ text.toList := by
  simp [Line.chars, Line.toString, Line.indentation]

theorem silent_replicate (count : Nat) : Silent (List.replicate count ' ') := by
  simp [Silent]

theorem blanks_replicate_append {text : List Char} (start : text.head? ≠ some ' ') (count : Nat) :
    blanks (List.replicate count ' ' ++ text) = count ∧
      (List.replicate count ' ' ++ text).dropWhile (· = ' ') = text := by
  have inside : ∀ c ∈ List.replicate count ' ', decide (c = ' ') = true := by simp
  have stop : ∀ c ∈ text.head?, decide (c = ' ') = false := by
    rintro c first
    rw [decide_eq_false_iff_not]
    rintro rfl
    exact start first
  rw [blanks, takeWhile_append_of_stop inside stop, dropWhile_append_of_stop inside stop,
    List.length_replicate]
  exact ⟨rfl, rfl⟩

/-- What a line does to the number of open braces, and how it is indented. -/
structure LineLaid (limit count : Nat) (line : List Char) (next : Nat) : Prop where
  counted : bracesAfter count line = some next
  deep : deepest count line ≤ max count limit
  single : '\n' ∉ line
  indented : blanks line = 4 * nestingOf count line

/-- A line is laid by its text alone, when its nesting fits. -/
theorem LineLaid.of_text {text : String} {nesting : Nat} (start : text.toList.head? ≠ some ' ')
    (fits : nesting = if text.toList.head? = some '\x7d' then count - 1 else count)
    (counted : bracesAfter count text.toList = some next)
    (deep : deepest count text.toList ≤ max count limit) (single : '\n' ∉ text.toList) :
    LineLaid limit count (Line.chars ⟨nesting, text⟩) next := by
  have blank := (silent_replicate (4 * nesting)).counts count
  obtain ⟨indented, dropped⟩ := blanks_replicate_append start (4 * nesting)
  rw [Line.chars_mk]
  constructor
  · rw [bracesAfter_append, blank.1]
    exact counted
  · rw [deepest_append blank.1, blank.2]
    exact Nat.max_le.mpr ⟨Nat.le_max_left .., deep⟩
  · simpa using single
  · rw [indented, nestingOf, dropped, ← fits]

/-- The first of some lines does what its form says. -/
theorem Laid.head {line : Line} (laid : Laid limit count (line :: lines) next) :
    ∃ middle, LineLaid limit count line.chars middle ∧ middle ≤ max count limit ∧
      Laid limit middle lines next := by
  cases laid with
  | @plain _ _ text _ plain later =>
    obtain ⟨counted, deep⟩ := plain.silent.counts count
    refine ⟨count, .of_text plain.start ?_ counted ?_ ?_, Nat.le_max_left .., later⟩
    · rw [if_neg plain.silent.head?_ne]
    · rw [deep]
      exact Nat.le_max_left ..
    · exact plain.silent _ (by simp)
  | @opening _ _ text _ plain small later =>
    obtain ⟨counted, deep⟩ := plain.silent.counts count
    have written : (text ++ "\x7b").toList = text.toList ++ ['\x7b'] := by simp
    have front : ∀ c, c ≠ '\x7b' → text.toList.head? ≠ some c →
        (text.toList ++ ['\x7b']).head? ≠ some c := by
      intro c other first
      rw [List.head?_append]
      cases known : text.toList.head? with
      | none => simpa using other.symm
      | some d => simpa [known] using first
    refine ⟨count + 1, .of_text ?_ ?_ ?_ ?_ ?_, by omega, later⟩
    · rw [written]
      exact front ' ' (by decide) plain.start
    · rw [written, if_neg (front '\x7d' (by decide) plain.silent.head?_ne)]
    · rw [written, bracesAfter_append, counted]
      rfl
    · rw [written, deepest_append counted, deep]
      simp [deepest, brace]
      omega
    · simpa using plain.silent '\n' (by simp)
  | closing later =>
    refine ⟨_, .of_text (by decide) rfl rfl ?_ (by decide), by omega, later⟩
    simp [deepest, brace]

/-! ## Texts of lines -/

theorem textOfLines_cons_cons (line other : Line) (rest : List Line) :
    textOfLines (line :: other :: rest) = line.chars ++ '\n' :: textOfLines (other :: rest) := by
  simp [textOfLines, Line.chars, List.intercalate_cons_cons]

theorem counts_feed (count : Nat) (text : List Char) :
    bracesAfter count ('\n' :: text) = bracesAfter count text ∧
      deepest count ('\n' :: text) = max count (deepest count text) :=
  ⟨rfl, rfl⟩

/-- The text of lines opens and closes the braces that the lines do. -/
theorem Laid.counts (laid : Laid limit count lines next) :
    bracesAfter count (textOfLines lines) = some next ∧
      deepest count (textOfLines lines) ≤ max count limit := by
  induction lines generalizing count with
  | nil =>
    cases laid
    exact ⟨rfl, Nat.le_max_left ..⟩
  | cons line rest ih =>
    obtain ⟨middle, here, small, later⟩ := laid.head
    obtain ⟨counted, deep⟩ := ih later
    cases rest with
    | nil =>
      cases later
      have alone : textOfLines [line] = line.chars := by simp [textOfLines, Line.chars]
      rw [alone]
      exact ⟨here.counted, here.deep⟩
    | cons other rest =>
      rw [textOfLines_cons_cons, bracesAfter_append, here.counted, deepest_append here.counted]
      have bound := here.deep
      simp only [Option.bind_some, counts_feed, counted, true_and]
      omega

theorem Laid.single {line : Line} (laid : Laid limit count lines next) (member : line ∈ lines) :
    '\n' ∉ line.chars := by
  obtain ⟨before, after, rfl⟩ := List.append_of_mem member
  obtain ⟨middle, _, later⟩ := laid.split
  obtain ⟨_, here, _⟩ := later.head
  exact here.single

/-- The braces that are open behind lines, whether or not line feeds stand between them. -/
theorem Laid.bracesAfter_flatten (laid : Laid limit count lines next) :
    bracesAfter count (lines.map Line.chars).flatten = some next := by
  induction lines generalizing count with
  | nil =>
    cases laid
    rfl
  | cons line rest ih =>
    obtain ⟨middle, here, _, later⟩ := laid.head
    rw [List.map_cons, List.flatten_cons, bracesAfter_append, here.counted]
    exact ih later

/-- The lines of the text are indented by the braces that are open there. -/
theorem Laid.isIndented (laid : Laid limit 0 lines next) (occupied : lines ≠ []) :
    IsIndented (textOfLines lines) := by
  have split : (textOfLines lines).splitOn '\n' = lines.map Line.chars := by
    apply List.splitOn_intercalate
    · intro text member
      obtain ⟨line, listed, rfl⟩ := List.mem_map.mp member
      exact laid.single listed
    · simpa using occupied
  intro before chars after parts
  rw [split, List.map_eq_append_iff] at parts
  obtain ⟨front, back, rfl, rfl, later⟩ := parts
  obtain ⟨line, rest, rfl, rfl, rfl⟩ := List.map_eq_cons_iff.mp later
  obtain ⟨count, early, late⟩ := laid.split
  obtain ⟨_, here, _⟩ := late.head
  exact ⟨count, early.bracesAfter_flatten, here.indented⟩

end SchemaUnfolding
