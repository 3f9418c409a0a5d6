import SchemaUnfolding.Text.Hex

/-!
# Text for a terminal

A terminal obeys some control characters instead of showing them. In screened text escapes stand for
these: bell, backspace, form feed, escape, delete and the controls from U+0080 to U+009F. Each other
character stays, the ends of lines too.
-/

namespace SchemaUnfolding.Text

/-- One character of screened text. -/
def screenedChar (c : Char) : List Char :=
  if c = '\x07' ∨ c = '\x08' ∨ c = '\x0c' ∨ c = '\x1b' ∨ c = '\x7f' then
    ['\\', 'x', Nat.digitChar (c.toNat / 16), Nat.digitChar (c.toNat % 16)]
  else if 0x80 ≤ c.toNat ∧ c.toNat ≤ 0x9F then
    ['\\', 'u', '\x7b'] ++ hexDigits c.toNat ++ ['\x7d']
  else [c]

/-- The text with escapes for what a terminal would obey. -/
def screened (text : String) : String := String.ofList (text.toList.flatMap screenedChar)

example : "\x1b[0m\n".toList.flatMap screenedChar = "\\x1b[0m\n".toList := rfl

end SchemaUnfolding.Text
