import Mathlib.Data.List.TakeWhile
import Mathlib.Tactic
import SchemaUnfolding.Sdl.Lexer

/-!
# Names in tokens

A name is a letter or an underscore, and then letters, digits and underscores. The lexer makes no
other name tokens.
-/

namespace SchemaUnfolding.Sdl

/-- A name: a letter or an underscore, and then letters, digits and underscores. -/
def IsName (name : String) : Prop :=
  ∃ first rest, name.toList = first :: rest ∧ isNameStart first = true ∧
    ∀ c ∈ rest, isNameRest c = true

/-- Whether characters spell a name. -/
def spellsName : List Char → Bool
  | [] => false
  | first :: rest => isNameStart first && rest.all isNameRest

theorem isName_iff_spellsName {name : String} :
    IsName name ↔ spellsName name.toList = true := by
  unfold IsName
  cases name.toList with
  | nil => simp [spellsName]
  | cons first rest => simp [spellsName]

instance (name : String) : Decidable (IsName name) := decidable_of_iff _ isName_iff_spellsName.symm

theorem isNameRest_of_isNameStart {c : Char} (start : isNameStart c = true) :
    isNameRest c = true := by
  simp only [isNameStart, isNameRest, Char.isAlphanum, Bool.or_eq_true] at start ⊢
  tauto

/-- All characters of a name can stand inside one. -/
theorem IsName.isNameRest_of_mem {name : String} (isName : IsName name) {c : Char}
    (member : c ∈ name.toList) : isNameRest c = true := by
  rcases isName with ⟨first, rest, spelled, start, inside⟩
  rw [spelled, List.mem_cons] at member
  rcases member with rfl | later
  · exact isNameRest_of_isNameStart start
  · exact inside c later

/-- A name with more characters that can stand inside one is a name. -/
theorem IsName.append {name suffix : String} (isName : IsName name)
    (more : ∀ c ∈ suffix.toList, isNameRest c = true) : IsName (name ++ suffix) := by
  rcases isName with ⟨first, rest, spelled, start, inside⟩
  refine ⟨first, rest ++ suffix.toList, ?_, start, ?_⟩
  · rw [String.toList_append, spelled, List.cons_append]
  · intro c member
    rcases List.mem_append.mp member with early | late
    · exact inside c early
    · exact more c late

/-! ## Tokens -/

/-- A token that names something has a name. -/
def Token.Named : Token → Prop
  | .name spelling => IsName spelling
  | _ => True

@[simp]
theorem Token.named_name_iff {spelling : String} :
    (Token.name spelling).Named ↔ IsName spelling :=
  Iff.rfl

theorem named_of_number? {spelling : List Char} {token : Token}
    (read : number? spelling = some token) : token.Named := by
  unfold number? at read
  split at read
  · rcases Option.map_eq_some_iff.mp read with ⟨_, _, rfl⟩
    trivial
  · rcases Option.map_eq_some_iff.mp read with ⟨_, _, rfl⟩
    trivial

theorem named_of_single? {c : Char} {token : Token} (read : single? c = some token) :
    token.Named := by
  unfold single? at read
  split at read <;> cases read <;> trivial

/-- The token of one step of the lexer is named. -/
theorem named_of_step {position : Position} {c : Char} {cs : List Char} {found : Step (c :: cs)}
    (read : step position c cs = .ok found) : ∀ token ∈ found.token, token.Named := by
  unfold step at read
  intro token member
  dsimp only at read
  split_ifs at read with blank tab ignored feed comment stopped start number
  -- Blanks and comments leave no token.
  iterate 6 (cases read; cases member)
  · cases read
    cases member
    exact ⟨c, _, String.toList_ofList, start, fun _ inside => List.mem_takeWhile_imp inside⟩
  · split at read
    · rename_i made
      cases read
      cases member
      exact named_of_number? made
    · cases read
  · split at read
    · rename_i made
      cases read
      cases member
      exact named_of_single? made
    · repeat' split at read
      all_goals
        cases read
        try (cases member; trivial)

theorem named_of_tokensFrom {position : Position} {done : List (Position × Token)}
    {cs : List Char} {tokens : List (Position × Token)}
    (read : tokensFrom position done cs = .ok tokens)
    (before : ∀ entry ∈ done, entry.2.Named) : ∀ entry ∈ tokens, entry.2.Named := by
  fun_induction tokensFrom position done cs with
  | case1 => 
    cases read
    simpa using before
  | case2 => cases read
  | case3 position done c cs token next rest found ih =>
    apply ih read
    cases token with
    | none => exact before
    | some token =>
      rintro entry (_ | ⟨_, member⟩)
      · exact named_of_step found token rfl
      · exact before entry member

/-- All tokens of a document are named. -/
theorem named_of_tokens {text : String} {found : List (Position × Token)}
    (read : tokens text = .ok found) : ∀ entry ∈ found, entry.2.Named :=
  named_of_tokensFrom read (by simp)

end SchemaUnfolding.Sdl
