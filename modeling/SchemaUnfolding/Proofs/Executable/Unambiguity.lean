import SchemaUnfolding.Proofs.Executable.Grammar

/-!
# Reading in one way

Tokens are read as at most one operation. What a list or a selection may start with tells it from
what may follow it, so the first of two readings that disagree would disagree about a single token.
The rules for selections use themselves inside lists, so the proof is by induction on the number of
tokens.
-/

namespace SchemaUnfolding.Executable

open Sdl (Token TypeExpr)

/-! ## Lists -/

/-- Some tokens start with one of a kind. -/
def StartsWith (starts : Token → Prop) (tokens : List Token) : Prop :=
  ∃ first ∈ tokens.head?, starts first

theorem StartsWith.append {starts : Token → Prop} {tokens : List Token}
    (starting : StartsWith starts tokens) (rest : List Token) :
    StartsWith starts (tokens ++ rest) := by
  obtain ⟨first, member, known⟩ := starting
  exact ⟨first, by simp [Option.mem_def.mp member], known⟩

/-- Fewer than so many tokens that are read as an item are read as no other, and no other number of
tokens is, where a text goes on in some way. -/
def Definite {α : Type} (item : List Token → α → Prop) (follows : List Token → Prop)
    (size : Nat) : Prop :=
  ∀ {tokens others rest remaining : List Token} {value other : α},
    tokens.length < size → item tokens value → item others other →
    tokens ++ rest = others ++ remaining → follows rest → follows remaining →
    value = other ∧ rest = remaining

section Lists

variable {α : Type} {item : List Token → α → Prop} {starts : Token → Prop} {close : Token}

theorem Sequence.startsWith (opens : ∀ {tokens value}, item tokens value → StartsWith starts tokens)
    {tokens : List Token} {values : List α} (sequence : Sequence item tokens values) :
    StartsWith starts tokens := by
  cases sequence with
  | last known => exact opens known
  | more known _ => exact (opens known).append _

/-- Where the bracket that closes a list stands, no item starts. -/
theorem Sequence.append_ne (opens : ∀ {tokens value}, item tokens value → StartsWith starts tokens)
    (apart : ¬ starts close) {tokens rest back : List Token} {values : List α}
    (sequence : Sequence item tokens values) (closes : rest.head? = some close) :
    rest ≠ tokens ++ back := by
  rintro rfl
  obtain ⟨first, member, known⟩ := (sequence.startsWith opens).append back
  rw [closes, Option.mem_some_iff] at member
  exact apart (member ▸ known)

/-- A list that a bracket closes is read in one way if its items are. -/
theorem Sequence.definite {size : Nat}
    (opens : ∀ {tokens value}, item tokens value → StartsWith starts tokens)
    (apart : ¬ starts close)
    (each : Definite item (StartsWith fun first => starts first ∨ first = close) size) :
    Definite (Sequence item) (fun rest => rest.head? = some close) size := by
  intro tokens others rest remaining values otherValues small sequence other same closes
    closesOther
  have ends : ∀ {rest : List Token}, rest.head? = some close →
      StartsWith (fun first => starts first ∨ first = close) rest :=
    fun closes => ⟨close, closes, .inr rfl⟩
  have goesOn : ∀ {tokens rest : List Token} {values : List α}, Sequence item tokens values →
      StartsWith (fun first => starts first ∨ first = close) (tokens ++ rest) := by
    intro tokens rest values sequence
    obtain ⟨first, member, known⟩ := (sequence.startsWith opens).append rest
    exact ⟨first, member, .inl known⟩
  induction sequence generalizing others otherValues with
  | last known =>
    cases other with
    | last otherKnown =>
      obtain ⟨rfl, rfl⟩ := each small known otherKnown same (ends closes) (ends closesOther)
      exact ⟨rfl, rfl⟩
    | more otherKnown more =>
      rw [List.append_assoc] at same
      obtain ⟨_, clash⟩ := each small known otherKnown same (ends closes) (goesOn more)
      exact absurd clash (more.append_ne opens apart closes)
  | more known more ih =>
    rw [List.length_append] at small
    rw [List.append_assoc] at same
    cases other with
    | last otherKnown =>
      obtain ⟨_, clash⟩ := each (by omega) known otherKnown same (goesOn more) (ends closesOther)
      exact absurd clash.symm (more.append_ne opens apart closesOther)
    | more otherKnown otherMore =>
      rw [List.append_assoc] at same
      obtain ⟨rfl, later⟩ := each (by omega) known otherKnown same (goesOn more) (goesOn otherMore)
      obtain ⟨rfl, rfl⟩ := ih (by omega) otherMore later
      exact ⟨rfl, rfl⟩

/-- A list in round brackets is read in one way if its items are, unless such a bracket follows. -/
theorem Listed.definite {size : Nat}
    (opens : ∀ {tokens value}, item tokens value → StartsWith starts tokens)
    (apart : ¬ starts (.closing .round))
    (each : Definite item (StartsWith fun first => starts first ∨ first = .closing .round) size) :
    Definite (Listed item) (fun rest => rest.head? ≠ some (.opening .round)) size := by
  intro tokens others rest remaining values otherValues small listed other same follows
    followsOther
  cases listed with
  | absent =>
    cases other with
    | absent => exact ⟨rfl, same⟩
    | present =>
      rw [List.nil_append, List.cons_append] at same
      exact absurd rfl (same ▸ follows)
  | present sequence =>
    cases other with
    | absent =>
      rw [List.nil_append, List.cons_append] at same
      exact absurd rfl (same ▸ followsOther)
    | present otherSequence =>
      simp only [List.cons_append, List.append_assoc, List.nil_append, List.cons.injEq,
        true_and] at same
      simp only [List.length_cons, List.length_append] at small
      obtain ⟨rfl, later⟩ := Sequence.definite opens apart each (by omega) sequence otherSequence
        same rfl rfl
      exact ⟨rfl, (List.cons.inj later).2⟩

end Lists

/-! ## Types -/

mutual

theorem IsNullable.unique {tokens others rest remaining : List Token} {type other : TypeExpr}
    (first : IsNullable tokens type) (second : IsNullable others other)
    (same : tokens ++ rest = others ++ remaining) : type = other ∧ rest = remaining := by
  match first with
  | .named name =>
    cases second with
    | named =>
      simpa using same
    | list => cases same
  | .list item =>
    cases second with
    | named => cases same
    | list otherItem =>
      simp only [List.cons_append, List.append_assoc, List.nil_append, List.cons.injEq,
        true_and] at same
      obtain ⟨rfl, later⟩ := item.unique otherItem same (by simp) (by simp)
      exact ⟨rfl, (List.cons.inj later).2⟩

theorem IsType.unique {tokens others rest remaining : List Token} {type other : TypeExpr}
    (first : IsType tokens type) (second : IsType others other)
    (same : tokens ++ rest = others ++ remaining)
    (follows : rest.head? ≠ some (.mark .exclamation))
    (followsOther : remaining.head? ≠ some (.mark .exclamation)) :
    type = other ∧ rest = remaining := by
  match first with
  | .nullable known =>
    cases second with
    | nullable otherKnown => exact known.unique otherKnown same
    | nonNull otherKnown =>
      rw [List.append_assoc] at same
      obtain ⟨_, rfl⟩ := known.unique otherKnown same
      exact absurd rfl follows
  | .nonNull known =>
    rw [List.append_assoc] at same
    cases second with
    | nullable otherKnown =>
      obtain ⟨_, rfl⟩ := known.unique otherKnown same
      exact absurd rfl followsOther
    | nonNull otherKnown =>
      rw [List.append_assoc] at same
      obtain ⟨rfl, later⟩ := known.unique otherKnown same
      exact ⟨rfl, (List.cons.inj later).2⟩

end

/-! ## Declarations and arguments -/

theorem IsDeclaration.startsWith {tokens : List Token} {declaration : String × TypeExpr}
    (known : IsDeclaration tokens declaration) : StartsWith (· = .mark .dollar) tokens := by
  cases known
  exact ⟨_, rfl, rfl⟩

theorem IsDeclaration.definite {size : Nat} :
    Definite IsDeclaration
      (StartsWith fun first => first = .mark .dollar ∨ first = .closing .round) size := by
  rintro tokens others rest remaining _ _ _ ⟨name, type⟩ ⟨other, otherType⟩ same ⟨_, next, known⟩
    ⟨_, otherNext, otherKnown⟩
  simp only [List.cons_append, List.cons.injEq, true_and, Token.name.injEq] at same
  obtain ⟨rfl, later⟩ := same
  obtain ⟨rfl, rfl⟩ := type.unique otherType later
    (by rcases known with rfl | rfl <;> simp [Option.mem_def.mp next])
    (by rcases otherKnown with rfl | rfl <;> simp [Option.mem_def.mp otherNext])
  exact ⟨rfl, rfl⟩

theorem IsArgument.startsWith {tokens : List Token} {argument : String × String}
    (known : IsArgument tokens argument) : StartsWith (∃ name, · = .name name) tokens := by
  cases known
  exact ⟨_, rfl, _, rfl⟩

theorem IsArgument.definite {follows : List Token → Prop} {size : Nat} :
    Definite IsArgument follows size := by
  rintro tokens others rest remaining _ _ _ ⟨parameter, name⟩ ⟨other, otherName⟩ same _ _
  simpa [and_assoc] using same

/-! ## Selections -/

/-- What a selection starts with. -/
def StartsSelection (token : Token) : Prop := (∃ name, token = .name name) ∨ token = .mark .ellipsis

theorem IsSelection.startsWith {tokens : List Token} {selection : Selection}
    (known : IsSelection tokens selection) : StartsWith StartsSelection tokens := by
  cases known with
  | leaf front | branch front =>
    cases front with
    | absent => exact ⟨_, rfl, .inl ⟨_, rfl⟩⟩
    | present => exact ⟨_, rfl, .inl ⟨_, rfl⟩⟩
  | fragment => exact ⟨_, rfl, .inr rfl⟩

/-- An alias and the name of a field are told apart, if no colon follows. -/
theorem IsAlias.unique {front others rest remaining : List Token} {label other : Option String}
    {name otherName : String} (first : IsAlias front label) (second : IsAlias others other)
    (same : front ++ .name name :: rest = others ++ .name otherName :: remaining)
    (follows : rest.head? ≠ some (.mark .colon))
    (followsOther : remaining.head? ≠ some (.mark .colon)) :
    label = other ∧ name = otherName ∧ rest = remaining := by
  cases first <;> cases second
  · simpa using same
  · simp only [List.nil_append, List.cons_append, List.cons.injEq] at same
    exact absurd (by simp [same.2]) follows
  · simp only [List.nil_append, List.cons_append, List.cons.injEq] at same
    exact absurd (by simp [← same.2]) followsOther
  · simpa using same

theorem Listed.head?_append_ne {α : Type} {item : List Token → α → Prop} {tokens rest : List Token}
    {values : List α} {token : Token} (listed : Listed item tokens values)
    (other : token ≠ .opening .round) (follows : rest.head? ≠ some token) :
    (tokens ++ rest).head? ≠ some token := by
  cases listed with
  | absent => exact follows
  | present => simpa using other.symm

/-- What follows a field in a text without its own selections. -/
def FollowsField (rest : List Token) : Prop :=
  rest.head? ≠ some (.mark .colon) ∧ rest.head? ≠ some (.opening .round)

theorem field_unique {front others back otherBack rest remaining : List Token}
    {label other : Option String} {name otherName : String}
    {arguments otherArguments : List (String × String)} (aliased : IsAlias front label)
    (otherAliased : IsAlias others other) (listed : Listed IsArgument back arguments)
    (otherListed : Listed IsArgument otherBack otherArguments)
    (same : front ++ .name name :: (back ++ rest) =
      others ++ .name otherName :: (otherBack ++ remaining))
    (follows : FollowsField rest) (followsOther : FollowsField remaining) :
    label = other ∧ name = otherName ∧ arguments = otherArguments ∧ rest = remaining := by
  obtain ⟨rfl, rfl, later⟩ := aliased.unique otherAliased same
    (listed.head?_append_ne (by simp) follows.1)
    (otherListed.head?_append_ne (by simp) followsOther.1)
  obtain ⟨rfl, rfl⟩ := Listed.definite IsArgument.startsWith (by simp) IsArgument.definite
    (Nat.lt_succ_self _) listed otherListed later follows.2 followsOther.2
  exact ⟨rfl, rfl, rfl, rfl⟩

theorem IsSelection.definite (size : Nat) :
    Definite IsSelection
      (StartsWith fun first => StartsSelection first ∨ first = .closing .curly) size := by
  induction size with
  | zero =>
    intro _ _ _ _ _ _ small
    exact absurd small (Nat.not_lt_zero _)
  | succ size ih =>
    have below : Definite (Sequence IsSelection) (fun rest => rest.head? = some (.closing .curly))
        size :=
      Sequence.definite IsSelection.startsWith (by simp [StartsSelection]) ih
    have field : ∀ {rest : List Token},
        StartsWith (fun first => StartsSelection first ∨ first = .closing .curly) rest →
        FollowsField rest ∧ rest.head? ≠ some (.opening .curly) := by
      rintro rest ⟨first, next, (⟨name, rfl⟩ | rfl) | rfl⟩ <;>
        simp [FollowsField, Option.mem_def.mp next]
    have braces : ∀ {rest : List Token}, FollowsField (.opening .curly :: rest) := by
      simp [FollowsField]
    intro tokens others rest remaining _ _ small first second same follows followsOther
    cases first with
    | leaf aliased listed =>
      cases second with
      | leaf otherAliased otherListed =>
        simp only [List.append_assoc, List.cons_append] at same
        obtain ⟨rfl, rfl, rfl, rfl⟩ := field_unique aliased otherAliased listed otherListed same
          (field follows).1 (field followsOther).1
        exact ⟨rfl, rfl⟩
      | branch otherAliased otherListed otherSequence =>
        simp only [List.append_assoc, List.cons_append] at same
        obtain ⟨_, _, _, rfl⟩ := field_unique aliased otherAliased listed otherListed same
          (field follows).1 braces
        exact absurd rfl (field follows).2
      | fragment type otherSequence =>
        cases aliased <;> simp at same
    | branch aliased listed sequence =>
      simp only [List.append_assoc, List.cons_append, List.nil_append] at same
      simp only [List.length_append, List.length_cons] at small
      cases second with
      | leaf otherAliased otherListed =>
        simp only [List.append_assoc, List.cons_append] at same
        obtain ⟨_, _, _, rfl⟩ := field_unique aliased otherAliased listed otherListed same
          braces (field followsOther).1
        exact absurd rfl (field followsOther).2
      | branch otherAliased otherListed otherSequence =>
        simp only [List.append_assoc, List.cons_append, List.nil_append] at same
        obtain ⟨rfl, rfl, rfl, later⟩ := field_unique aliased otherAliased listed otherListed same
          braces braces
        obtain ⟨rfl, closed⟩ := below (by omega) sequence otherSequence (List.cons.inj later).2
          rfl rfl
        exact ⟨rfl, (List.cons.inj closed).2⟩
      | fragment type otherSequence =>
        cases aliased <;> simp at same
    | fragment type sequence =>
      simp only [List.append_assoc, List.cons_append, List.nil_append] at same
      simp only [List.length_append, List.length_cons] at small
      cases second with
      | leaf otherAliased otherListed =>
        cases otherAliased <;> simp at same
      | branch otherAliased otherListed otherSequence =>
        cases otherAliased <;> simp at same
      | fragment otherType otherSequence =>
        simp only [List.append_assoc, List.cons_append, List.nil_append, List.cons.injEq,
          Token.name.injEq, true_and] at same
        obtain ⟨rfl, later⟩ := same
        obtain ⟨rfl, closed⟩ := below (by omega) sequence otherSequence later rfl rfl
        exact ⟨rfl, (List.cons.inj closed).2⟩

/-! ## Operations -/

theorem keyword_injective {kind other : OperationKind} (same : kind.keyword = other.keyword) :
    kind = other := by
  cases kind <;> cases other <;> simp_all [OperationKind.keyword]

/-- Tokens are read as one operation at most. -/
theorem IsOperation.unique {tokens : List Token} {operation other : Operation}
    (first : IsOperation tokens operation) (second : IsOperation tokens other) :
    operation = other := by
  cases first with
  | operation kind name listed sequence =>
    generalize whole : Token.name kind.keyword :: _ = tokens at second
    cases second with
    | operation otherKind otherName otherListed otherSequence =>
      simp only [List.cons.injEq, Token.name.injEq] at whole
      obtain ⟨sameKind, rfl, later⟩ := whole
      obtain rfl := keyword_injective sameKind
      obtain ⟨rfl, braces⟩ := Listed.definite IsDeclaration.startsWith (by simp)
        IsDeclaration.definite (Nat.lt_succ_self _) listed otherListed later (by simp) (by simp)
      obtain ⟨rfl, _⟩ := Sequence.definite IsSelection.startsWith (by simp [StartsSelection])
        (IsSelection.definite _) (Nat.lt_succ_self _) sequence otherSequence
        (List.cons.inj braces).2 rfl rfl
      rfl

end SchemaUnfolding.Executable
