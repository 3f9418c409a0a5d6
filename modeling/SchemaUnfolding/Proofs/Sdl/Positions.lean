import Mathlib.Data.List.Basic
import Mathlib.Tactic
import SchemaUnfolding.Proofs.Success
import SchemaUnfolding.Sdl.Lexer

/-!
# Bounds of positions

A character starts at most one line and takes at most eight columns, a tab. So no token stands
further down or further right than the length of the text allows.
-/

namespace SchemaUnfolding

/-- A position that reading so many characters can lead to. -/
structure Position.Reached (read : Nat) (position : Position) : Prop where
  line : position.line ≤ read + 1
  column : position.column ≤ 8 * read + 1

namespace Position

variable {position : Position} {read more : Nat}

theorem reached_start : start.Reached 0 := by
  constructor <;> simp [start]

theorem Reached.mono (reached : position.Reached read) (enough : read ≤ more) :
    position.Reached more :=
  ⟨by have := reached.line; omega, by have := reached.column; omega⟩

theorem Reached.advance {columns : Nat} (reached : position.Reached read)
    (enough : columns ≤ 8 * more) : (position.advance columns).Reached (read + more) := by
  obtain ⟨line, column⟩ := reached
  constructor <;> simp only [Position.advance] <;> omega

theorem Reached.nextLine (reached : position.Reached read) (enough : 1 ≤ more) :
    position.nextLine.Reached (read + more) := by
  have line := reached.line
  constructor <;> simp only [Position.nextLine] <;> omega

end Position

namespace Sdl

/-! ## Strings -/

theorem length_of_spanQuoted {cs body : List Char} {rest : Shorter cs}
    (found : spanQuoted cs = some (body, rest)) :
    body.length + 1 + rest.val.length = cs.length := by
  fun_induction spanQuoted cs generalizing body with
  | case1 => cases found
  | case2 rest =>
    cases found
    simp only [List.length_nil, List.length_cons]
    omega
  | case3 => cases found
  | case4 => cases found
  | case5 c rest _ ih =>
    rcases Option.map_eq_some_iff.mp found with ⟨⟨inner, after⟩, spanned, ⟨⟩⟩
    have := ih spanned
    simp only [List.length_cons] at this ⊢
    omega
  | case6 c rest _ _ _ _ ih =>
    rcases Option.map_eq_some_iff.mp found with ⟨⟨inner, after⟩, spanned, ⟨⟩⟩
    have := ih spanned
    simp only [List.length_cons] at this ⊢
    omega

theorem length_of_spanBlock {cs body : List Char} {rest : Shorter cs}
    (found : spanBlock cs = some (body, rest)) :
    body.length + 3 + rest.val.length = cs.length := by
  fun_induction spanBlock cs generalizing body with
  | case1 => cases found
  | case2 rest ih =>
    rcases Option.map_eq_some_iff.mp found with ⟨⟨inner, after⟩, spanned, ⟨⟩⟩
    have := ih spanned
    simp only [List.length_cons] at this ⊢
    omega
  | case3 rest =>
    cases found
    simp only [List.length_nil, List.length_cons]
    omega
  | case4 c rest _ _ ih =>
    rcases Option.map_eq_some_iff.mp found with ⟨⟨inner, after⟩, spanned, ⟨⟩⟩
    have := ih spanned
    simp only [List.length_cons] at this ⊢
    omega

theorem reached_afterBlock {position : Position} {body : List Char} {read more : Nat}
    (reached : position.Reached read) (enough : body.length + 6 ≤ more) :
    (afterBlock position body).Reached (read + more) := by
  unfold afterBlock
  dsimp only
  split
  · exact reached.advance (by omega)
  · have feeds : body.count '\n' ≤ body.length := List.count_le_length
    have last : (body.reverse.takeWhile (· != '\n')).length ≤ body.length := by
      simpa using (List.takeWhile_prefix (p := (· != '\n')) (l := body.reverse)).length_le
    have line := reached.line
    constructor <;> simp only <;> omega

/-! ## Steps -/

/-- How many characters a step reads. -/
def Step.width {cs : List Char} (found : Step cs) : Nat := cs.length - found.rest.val.length

theorem Step.one_le_width {cs : List Char} (found : Step cs) : 1 ≤ found.width :=
  Nat.sub_pos_of_lt found.rest.property

/-- Reading a run of characters is reading as many as the run has. -/
theorem length_run (isIn : Char → Bool) (c : Char) (cs : List Char) :
    (c :: cs.takeWhile isIn).length = (c :: cs).length - (cs.dropWhile isIn).length := by
  have whole := congrArg List.length (List.takeWhile_append_dropWhile (p := isIn) (l := cs))
  rw [List.length_append] at whole
  simp only [List.length_cons]
  omega

/-- A step moves on by no more than what it reads allows. -/
theorem reached_of_step {position : Position} {c : Char} {cs : List Char} {found : Step (c :: cs)}
    {read : Nat} (stepped : step position c cs = .ok found) (reached : position.Reached read) :
    found.next.Reached (read + found.width) := by
  have moved := found.one_le_width
  unfold step at stepped
  dsimp only at stepped
  split_ifs at stepped with blank tab ignored feed comment stopped start number
  -- Blanks, tabs, characters without a width, line feeds, and comments that end a line or the text.
  · cases stepped
    exact reached.advance (by omega)
  · cases stepped
    exact reached.advance (by omega)
  · cases stepped
    exact reached.mono (Nat.le_add_right ..)
  · cases stepped
    exact reached.nextLine moved
  · cases stepped
    exact reached.nextLine moved
  · cases stepped
    exact reached.mono (Nat.le_add_right ..)
  -- Names and numbers are as wide as they are long.
  · cases stepped
    apply reached.advance
    rw [length_run isNameRest c cs]
    exact Nat.le_mul_of_pos_left _ (by decide)
  · split at stepped
    · cases stepped
      apply reached.advance
      rw [length_run (fun c => !endsNumber c) c cs]
      exact Nat.le_mul_of_pos_left _ (by decide)
    · cases stepped
  · split at stepped
    · cases stepped
      exact reached.advance (by omega)
    -- What is left are the ellipsis, block strings and strings on one line.
    · split at stepped
      · cases stepped
        apply reached.advance
        simp only [Step.width, List.length_cons]
        omega
      · split at stepped
        · rename_i spanned
          have lengths := length_of_spanBlock spanned
          dsimp only at lengths
          split at stepped
          · cases stepped
            apply reached_afterBlock reached
            simp only [Step.width, List.length_cons]
            omega
          · cases stepped
            exact reached.mono (Nat.le_add_right ..)
        · cases stepped
      · split at stepped
        · rename_i spanned
          have lengths := length_of_spanQuoted spanned
          dsimp only at lengths
          split at stepped
          · cases stepped
            apply reached.advance
            simp only [Step.width, List.length_cons]
            omega
          · cases stepped
        · cases stepped
      · cases stepped

/-- All tokens stand at positions that reading the text can lead to. -/
theorem reached_of_tokensFrom {position : Position} {done tokens : List (Position × Token)}
    {cs : List Char} {read total : Nat} (scanned : tokensFrom position done cs = .ok tokens)
    (reached : position.Reached read) (enough : read + cs.length ≤ total)
    (before : ∀ entry ∈ done, entry.1.Reached total) : ∀ entry ∈ tokens, entry.1.Reached total := by
  fun_induction tokensFrom position done cs generalizing read with
  | case1 =>
    cases scanned
    simpa using before
  | case2 => cases scanned
  | case3 position done c cs token next rest found ih =>
    apply ih scanned (reached_of_step found reached)
    · have := rest.property
      simp only [Step.width]
      omega
    · cases token with
      | none => exact before
      | some token =>
        exact List.forall_mem_cons.mpr ⟨reached.mono (by omega), before⟩

/-- No token stands further down or further right than the length of the text allows. -/
theorem reached_of_tokens {text : String} {found : List (Position × Token)}
    (scanned : tokens text = .ok found) : ∀ entry ∈ found, entry.1.Reached text.length :=
  reached_of_tokensFrom scanned Position.reached_start (by simp [String.length_toList])
    fun _ => nofun

end Sdl

end SchemaUnfolding
