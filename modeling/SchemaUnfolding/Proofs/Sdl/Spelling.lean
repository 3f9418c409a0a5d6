import SchemaUnfolding.Proofs.Arguments.Reading

/-!
# Texts that spell tokens

What the lexer reads of a text does not depend on where the text stands, as long as what follows
does not prolong its last name. So the tokens of a printed document are put together from those of
its pieces.
-/

namespace SchemaUnfolding.Sdl

/-- What may follow a name: nothing that would prolong it. -/
def EndsName (rest : List Char) : Prop := ∀ c ∈ rest.head?, isNameRest c = false

/-- A text is read as tokens wherever it stands before a text of a kind. -/
def SpellsBefore (follows : List Char → Prop) (text : List Char) (tokens : List Token) : Prop :=
  ∀ (position : Position) (done : List (Position × Token)) (rest : List Char), follows rest →
    ∃ (next : Position) (located : List (Position × Token)),
    tokensFrom position done (text ++ rest) = tokensFrom next (located.reverse ++ done) rest ∧
      located.map Prod.snd = tokens

/-- A text is read as tokens wherever it stands. -/
abbrev Spells (text : List Char) (tokens : List Token) : Prop :=
  SpellsBefore (fun _ => True) text tokens

variable {follows between : List Char → Prop} {text : List Char} {found : List Token}

theorem spells_nil : SpellsBefore follows [] [] := by
  intro position done rest _
  exact ⟨position, [], rfl, rfl⟩

theorem SpellsBefore.append {first second : List Char} {early late : List Token}
    (spells : SpellsBefore between first early) (next : SpellsBefore follows second late)
    (fits : ∀ rest, follows rest → between (second ++ rest)) :
    SpellsBefore follows (first ++ second) (early ++ late) := by
  intro position done rest known
  obtain ⟨middle, front, readFront, rfl⟩ := spells position done (second ++ rest) (fits rest known)
  obtain ⟨last, back, readBack, rfl⟩ := next middle (front.reverse ++ done) rest known
  refine ⟨last, front ++ back, ?_, by simp⟩
  rw [List.append_assoc, readFront, readBack, List.reverse_append, List.append_assoc]

theorem Spells.append {first second : List Char} {early late : List Token}
    (spells : Spells first early) (next : SpellsBefore follows second late) :
    SpellsBefore follows (first ++ second) (early ++ late) :=
  SpellsBefore.append spells next fun _ _ => trivial

theorem SpellsBefore.weaken (spells : Spells text found) : SpellsBefore follows text found :=
  fun position done rest _ => spells position done rest trivial

/-- A text that spells tokens is read as them. -/
theorem SpellsBefore.tokens {text : String} (spells : SpellsBefore follows text.toList found)
    (ends : follows []) :
    ∃ located, Sdl.tokens text = .ok located ∧ located.map Prod.snd = found := by
  obtain ⟨next, located, read, rfl⟩ := spells .start [] [] ends
  refine ⟨located, ?_, rfl⟩
  rw [Sdl.tokens]
  rw [List.append_nil] at read
  rw [read, tokensFrom, List.append_nil, List.reverse_reverse]

/-- What one step reads from some characters, whatever follows, they spell. -/
theorem spells_of_step (token : Option Token) {c : Char} {more : List Char}
    (read : ∀ position rest, ∃ next shorter,
      step position c (more ++ rest) = .ok ⟨token, next, ⟨rest, shorter⟩⟩) :
    Spells (c :: more) token.toList := by
  intro position done rest _
  obtain ⟨next, shorter, stepped⟩ := read position rest
  refine ⟨next, (token.map fun token => (position, token)).toList, ?_, by cases token <;> rfl⟩
  rw [List.cons_append, tokensFrom]
  rw [stepped]
  cases token <;> rfl

theorem spells_space : Spells [' '] [] :=
  spells_of_step none fun position rest => ⟨position.advance 1, by simp, rfl⟩

theorem spells_comma : Spells [','] [] :=
  spells_of_step none fun position rest => ⟨position.advance 1, by simp, rfl⟩

theorem spells_feed : Spells ['\n'] [] :=
  spells_of_step none fun position rest => ⟨position.nextLine, by simp, rfl⟩

theorem spells_ellipsis : Spells ['.', '.', '.'] [.mark .ellipsis] :=
  spells_of_step (some (.mark .ellipsis)) fun position rest =>
    ⟨position.advance 3, by simp only [List.length_append, List.length_cons]; omega, rfl⟩

/-- A character that is a token by itself. -/
theorem spells_single {c : Char} {token : Token} (single : single? c = some token) :
    Spells [c] [token] := by
  apply spells_of_step (some token)
  intro position rest
  refine ⟨position.advance 1, by simp, ?_⟩
  unfold single? at single
  split at single <;> cases single <;> rfl

theorem spells_replicate (count : Nat) : Spells (List.replicate count ' ') [] := by
  induction count with
  | zero => exact spells_nil
  | succ count ih => exact spells_space.append ih

theorem step_name {position : Position} {c : Char} {cs : List Char} (start : isNameStart c = true) :
    step position c cs = .ok ⟨some (.name (String.ofList (c :: cs.takeWhile isNameRest))),
      position.advance (c :: cs.takeWhile isNameRest).length, .dropWhile isNameRest c cs⟩ := by
  have other : ∀ d, isNameStart d = false → c ≠ d := by
    rintro d stop rfl
    simp [start] at stop
  simp [step, start, other ' ' rfl, other ',' rfl, other '\t' rfl, other '\r' rfl,
    other '\ufeff' rfl, other '\n' rfl, other '#' rfl]

/-- A name spells itself where nothing prolongs it. -/
theorem spells_name {name : String} (isName : IsName name) :
    SpellsBefore EndsName name.toList [.name name] := by
  obtain ⟨first, others, spelled, start, inside⟩ := isName
  intro position done rest stop
  have taken : (others ++ rest).takeWhile isNameRest = others :=
    takeWhile_append_of_stop inside stop
  have dropped : (others ++ rest).dropWhile isNameRest = rest :=
    dropWhile_append_of_stop inside stop
  have whole : String.ofList (first :: others) = name := by rw [← spelled, String.ofList_toList]
  refine ⟨position.advance (first :: others).length, [(position, .name name)], ?_, rfl⟩
  rw [spelled, List.cons_append, tokensFrom, step_name start]
  simp only [taken, whole, Shorter.dropWhile, dropped]
  rfl

end SchemaUnfolding.Sdl
