import Mathlib.Data.List.TakeWhile
import SchemaUnfolding.Json.Parser
import SchemaUnfolding.Json.Printer

/-!
# Strings and numbers in JSON text

What the printer writes for a string or a natural number is read back, whatever follows a string and
whatever may follow a number.
-/

namespace SchemaUnfolding.Json

/-! ## Strings -/

theorem unit?_control : ∀ code < 32,
    unit? '0' '0' (Nat.digitChar (code / 16)) (Nat.digitChar (code % 16)) = some code := by
  decide

/-- What is written for a character inside a string is read as that character. -/
theorem readString_escapedChar (done : Option (List Char)) (c : Char) (rest : List Char) :
    readString done (escapedChar c ++ rest) = readString (done.map (c :: ·)) rest := by
  unfold escapedChar
  split_ifs with quote backslash back form feed carriage tab control
  · subst quote
    rfl
  · subst backslash
    rfl
  · subst back
    rfl
  · subst form
    rfl
  · subst feed
    rfl
  · subst carriage
    rfl
  · subst tab
    rfl
  · simp only [List.cons_append, List.nil_append]
    rw [readString, unit?_control c.toNat control]
    have low : ¬ (0xD800 ≤ c.toNat ∧ c.toNat < 0xDC00) := by omega
    have high : ¬ (0xDC00 ≤ c.toNat ∧ c.toNat < 0xE000) := by omega
    simp only [low, high, if_false, Char.ofNat_toNat]
  · rw [List.singleton_append, readString, if_neg control]
    exacts [quote, fun _ _ _ _ _ same _ => backslash same, fun _ _ same _ => backslash same]

theorem readString_flatMap (done cs rest : List Char) :
    readString (some done) (cs.flatMap escapedChar ++ '"' :: rest) =
      some (some (String.ofList (done.reverse ++ cs)), rest) := by
  induction cs generalizing done with
  | nil =>
    rw [List.append_nil]
    rfl
  | cons c cs ih =>
    rw [List.flatMap_cons, List.append_assoc, readString_escapedChar, Option.map_some, ih,
      List.reverse_cons, List.append_assoc, List.singleton_append]

/-- What is written for a string is read as that string. -/
theorem readString_stringChars (text : String) (rest : List Char) :
    ∃ body, stringChars text ++ rest = '"' :: body ∧
      readString (some []) body = some (some text, rest) := by
  refine ⟨text.toList.flatMap escapedChar ++ '"' :: rest, by simp [stringChars], ?_⟩
  rw [readString_flatMap, List.reverse_nil, List.nil_append, String.ofList_toList]

/-! ## Numbers -/

/-- What may follow a value inside a text: nothing, a comma or a closing bracket. -/
def EndsValue (rest : List Char) : Prop := ∀ c ∈ rest.head?, c = ',' ∨ c = ']' ∨ c = '\x7d'

theorem endsValue_nil : EndsValue [] := by
  simp [EndsValue]

theorem endsValue_comma (rest : List Char) : EndsValue (',' :: rest) := by
  simp [EndsValue]

theorem endsValue_bracket (rest : List Char) : EndsValue (']' :: rest) := by
  simp [EndsValue]

theorem endsValue_brace (rest : List Char) : EndsValue ('\x7d' :: rest) := by
  simp [EndsValue]

/-- What may follow a value continues no number. -/
theorem EndsValue.span {rest : List Char} (ends : EndsValue rest) :
    rest.takeWhile Char.isDigit = [] ∧ rest.dropWhile Char.isDigit = rest ∧
      spanFraction rest = some ([], rest) ∧ spanExponent rest = some ([], rest) := by
  cases rest with
  | nil => exact ⟨rfl, rfl, rfl, rfl⟩
  | cons c rest => rcases ends c rfl with rfl | rfl | rfl <;> exact ⟨rfl, rfl, rfl, rfl⟩

/-- Only zero is written with a zero in front. -/
theorem head?_toDigits_ne {value : Nat} (positive : value ≠ 0) :
    (Nat.toDigits 10 value).head? ≠ some '0' := by
  induction value using Nat.strongRecOn with
  | ind value ih =>
    by_cases small : value < 10
    · have digit : ∀ digit < 10, digit ≠ 0 → Nat.digitChar digit ≠ '0' := by decide
      rw [Nat.toDigits_of_lt_base small]
      simpa using digit value small positive
    · have front := ih (value / 10) (by omega) (by omega)
      obtain ⟨first, more, spelled⟩ :=
        List.exists_cons_of_ne_nil (@Nat.toDigits_ne_nil (value / 10) 10)
      rw [Nat.toDigits_of_base_le (by decide) (Nat.le_of_not_lt small)]
      rwa [spelled] at front ⊢

theorem isPlainNumeral_toDigits (value : Nat) :
    Decimal.isPlainNumeral (Nat.toDigits 10 value) = true := by
  have digits : (Nat.toDigits 10 value).all Char.isDigit = true :=
    List.all_eq_true.mpr fun _ member => Nat.isDigit_of_mem_toDigits (by decide) (by decide) member
  have occupied : (Nat.toDigits 10 value).isEmpty = false :=
    List.isEmpty_eq_false_iff.mpr Nat.toDigits_ne_nil
  simp only [Decimal.isPlainNumeral, Decimal.isNumeral, digits, occupied, Bool.not_false,
    Bool.true_and, Bool.or_eq_true, bne_iff_ne]
  by_cases zero : value = 0
  · subst zero
    exact .inr rfl
  · exact .inl (head?_toDigits_ne zero)

/-- What is written for a natural number is read as that number. -/
theorem readNumber_toDigits (value : Nat) {rest : List Char} (ends : EndsValue rest) :
    readNumber (Nat.toDigits 10 value ++ rest) = some (natural value, rest) := by
  obtain ⟨taken, dropped, fraction, exponent⟩ := ends.span
  have digits : ∀ c ∈ Nat.toDigits 10 value, c.isDigit = true := fun _ member =>
    Nat.isDigit_of_mem_toDigits (by decide) (by decide) member
  have sign : ((Nat.toDigits 10 value ++ rest).take 1).filter (· == '-') = [] := by
    obtain ⟨first, more, spelled⟩ := List.exists_cons_of_ne_nil (@Nat.toDigits_ne_nil value 10)
    have digit := digits first (by simp [spelled])
    rw [spelled]
    by_cases minus : first = '-'
    · subst minus
      cases digit
    · simp [minus]
  have whole : (Nat.toDigits 10 value ++ rest).takeWhile Char.isDigit = Nat.toDigits 10 value := by
    rw [List.takeWhile_append_of_pos digits, taken, List.append_nil]
  have after : (Nat.toDigits 10 value ++ rest).dropWhile Char.isDigit = rest := by
    rw [List.dropWhile_append_of_pos digits, dropped]
  have denoted : Decimal.value (Nat.toDigits 10 value) = value := Nat.ofDigitChars_ten_toDigits
  rw [readNumber]
  dsimp only
  rw [sign, List.length_nil, List.drop_zero, whole, after, isPlainNumeral_toDigits, fraction]
  change Option.bind (spanExponent rest) _ = _
  rw [exponent]
  change some (natural (Decimal.value (Nat.toDigits 10 value)), rest) = _
  rw [denoted]

end SchemaUnfolding.Json
