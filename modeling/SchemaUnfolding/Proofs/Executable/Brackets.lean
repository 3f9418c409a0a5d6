import Mathlib.Data.List.Chain
import SchemaUnfolding.Proofs.Executable.Unambiguity

/-!
# Brackets that are not empty

In an operation no bracket is closed right after it was opened.
-/

namespace SchemaUnfolding.Executable

open Sdl (Token TypeExpr)

/-- Between neighbours no bracket is closed right after one was opened, and the tokens can stand
between others without making this so. -/
structure Filled (tokens : List Token) : Prop where
  chain : tokens.IsChain fun first second =>
    ∀ bracket other, first = .opening bracket → second ≠ .closing other
  front : ∀ first ∈ tokens.head?, ∀ bracket, first ≠ .closing bracket
  back : ∀ last ∈ tokens.getLast?, ∀ bracket, last ≠ .opening bracket

theorem Filled.append {first second : List Token} (filled : Filled first) (next : Filled second) :
    Filled (first ++ second) where
  chain := by
    apply filled.chain.append next.chain
    rintro token last other start bracket _ rfl
    exact absurd rfl (filled.back _ last bracket)
  front := by
    intro token member
    rw [List.head?_append, Option.mem_def, Option.or_eq_some_iff] at member
    rcases member with here | ⟨_, there⟩
    · exact filled.front token here
    · exact next.front token there
  back := by
    intro token member
    rw [List.getLast?_append, Option.mem_def, Option.or_eq_some_iff] at member
    rcases member with here | ⟨_, there⟩
    · exact next.back token here
    · exact filled.back token there

theorem Filled.nil : Filled [] where
  chain := .nil
  front := by simp
  back := by simp

/-- A token that is no bracket. -/
theorem Filled.single {token : Token} (opening : ∀ bracket, token ≠ .opening bracket)
    (closing : ∀ bracket, token ≠ .closing bracket) : Filled [token] where
  chain := .singleton _
  front := by simpa using closing
  back := by simpa using opening

theorem Filled.brackets {tokens : List Token} (filled : Filled tokens) (occupied : tokens ≠ [])
    (bracket : Sdl.Bracket) : Filled (.opening bracket :: (tokens ++ [.closing bracket])) where
  chain := by
    rw [List.isChain_cons]
    constructor
    · intro token start opened other _
      rw [List.head?_append_of_ne_nil _ occupied] at start
      exact filled.front token start other
    · apply filled.chain.append (.singleton _)
      rintro token last _ _ opened other rfl
      exact absurd rfl (filled.back _ last opened)
  front := by simp
  back := by
    rw [← List.cons_append, List.getLast?_concat]
    simp

/-- Items of fewer than so many tokens are filled. -/
def FilledBelow {α : Type} (item : List Token → α → Prop) (size : Nat) : Prop :=
  ∀ {tokens value}, tokens.length < size → item tokens value → Filled tokens

theorem Sequence.filled {α : Type} {item : List Token → α → Prop} {size : Nat}
    (each : FilledBelow item size) : FilledBelow (Sequence item) size := by
  intro tokens values small sequence
  induction sequence with
  | last known => exact each small known
  | more known _ ih =>
    rw [List.length_append] at small
    exact (each (by omega) known).append (ih (by omega))

theorem Sequence.ne_nil {α : Type} {item : List Token → α → Prop} {starts : Token → Prop}
    (opens : ∀ {tokens value}, item tokens value → StartsWith starts tokens)
    {tokens : List Token} {values : List α} (sequence : Sequence item tokens values) :
    tokens ≠ [] := by
  rintro rfl
  obtain ⟨_, ⟨⟩, _⟩ := sequence.startsWith opens

theorem Listed.filled {α : Type} {item : List Token → α → Prop} {starts : Token → Prop}
    (opens : ∀ {tokens value}, item tokens value → StartsWith starts tokens)
    (each : ∀ {tokens value}, item tokens value → Filled tokens) {tokens : List Token}
    {values : List α} (listed : Listed item tokens values) : Filled tokens := by
  cases listed with
  | absent => exact .nil
  | present sequence =>
    have inside := Sequence.filled (fun _ => each) (Nat.lt_succ_self _) sequence
    exact inside.brackets (sequence.ne_nil opens) .round

theorem Filled.cons_name {tokens : List Token} (name : String) (filled : Filled tokens) :
    Filled (.name name :: tokens) :=
  (Filled.single (by simp) (by simp)).append filled

theorem Filled.cons_mark {tokens : List Token} (mark : Sdl.Mark) (filled : Filled tokens) :
    Filled (.mark mark :: tokens) :=
  (Filled.single (by simp) (by simp)).append filled

mutual

theorem IsNullable.filled {tokens : List Token} {type : TypeExpr}
    (known : IsNullable tokens type) : Filled tokens ∧ tokens ≠ [] := by
  match known with
  | .named name => exact ⟨Filled.nil.cons_name name, by simp⟩
  | .list item => exact ⟨item.filled.1.brackets item.filled.2 .square, by simp⟩

theorem IsType.filled {tokens : List Token} {type : TypeExpr} (known : IsType tokens type) :
    Filled tokens ∧ tokens ≠ [] := by
  match known with
  | .nullable known => exact known.filled
  | .nonNull known => exact ⟨known.filled.1.append (Filled.nil.cons_mark _), by simp⟩

end

theorem IsDeclaration.filled {tokens : List Token} {declaration : String × TypeExpr}
    (known : IsDeclaration tokens declaration) : Filled tokens := by
  cases known with
  | declare name type => exact ((type.filled.1.cons_mark _).cons_name name).cons_mark _

theorem IsArgument.filled {tokens : List Token} {argument : String × String}
    (known : IsArgument tokens argument) : Filled tokens := by
  cases known with
  | pass parameter name => exact ((((Filled.nil.cons_name _).cons_mark _).cons_mark _).cons_name _)

theorem IsAlias.filled {tokens : List Token} {label : Option String}
    (known : IsAlias tokens label) : Filled tokens := by
  cases known with
  | absent => exact .nil
  | present label => exact (Filled.nil.cons_mark _).cons_name _

theorem IsSelection.filled (size : Nat) : FilledBelow IsSelection size := by
  induction size with
  | zero =>
    intro _ _ small
    exact absurd small (Nat.not_lt_zero _)
  | succ size ih =>
    intro tokens selection small known
    have braces : ∀ {tokens selections}, tokens.length < size →
        Sequence IsSelection tokens selections →
        Filled (.opening .curly :: (tokens ++ [.closing .curly])) :=
      fun small sequence => (Sequence.filled ih small sequence).brackets
        (sequence.ne_nil IsSelection.startsWith) .curly
    cases known with
    | leaf aliased listed =>
      have back := listed.filled IsArgument.startsWith IsArgument.filled
      exact aliased.filled.append (back.cons_name _)
    | branch aliased listed sequence =>
      simp only [List.length_append, List.length_cons] at small
      have back := listed.filled IsArgument.startsWith IsArgument.filled
      have below := braces (by omega) sequence
      exact aliased.filled.append ((back.append below).cons_name _)
    | fragment type sequence =>
      simp only [List.length_append, List.length_cons] at small
      have below := braces (by omega) sequence
      exact ((below.cons_name type).cons_name "on").cons_mark .ellipsis

/-- No brackets in an operation are empty. -/
theorem IsOperation.filled {tokens : List Token} {operation : Operation}
    (known : IsOperation tokens operation) : Filled tokens := by
  cases known with
  | operation kind name listed sequence =>
    have list := listed.filled IsDeclaration.startsWith IsDeclaration.filled
    have body := Sequence.filled (IsSelection.filled _) (Nat.lt_succ_self _) sequence
    have braces := body.brackets (sequence.ne_nil IsSelection.startsWith) .curly
    exact ((list.append braces).cons_name name).cons_name _

end SchemaUnfolding.Executable
