/-!
# Reading UTF-8

Bytes are text when they are a sequence of UTF-8 characters. When they are not, the first offending
place is reported: how many bytes before it are good, and how long the bad sequence is, or that the
bytes end in the middle of a character.
-/

namespace SchemaUnfolding.Text.Utf8

/-- Why bytes are not text: the number of good bytes before the offence, and the length of the bad
sequence, which is missing when the bytes end before a character is complete. -/
structure Malformed where
  index : Nat
  length : Option Nat
deriving DecidableEq, Repr

namespace Malformed

/-- The wording of a report. -/
def message : Malformed → String
  | ⟨index, some length⟩ => s!"invalid utf-8 sequence of {length} bytes from index {index}"
  | ⟨index, none⟩ => s!"incomplete utf-8 byte sequence from index {index}"

end Malformed

/-- The ranges that the bytes after a first byte have to lie in, or nothing when no character
starts with that byte. -/
def followers (first : Nat) : Option (List (Nat × Nat)) :=
  let tail := (0x80, 0xBF)
  if first ≤ 0x7F then some []
  else if 0xC2 ≤ first ∧ first ≤ 0xDF then some [tail]
  else if first = 0xE0 then some [(0xA0, 0xBF), tail]
  else if first = 0xED then some [(0x80, 0x9F), tail]
  else if 0xE1 ≤ first ∧ first ≤ 0xEF then some [tail, tail]
  else if first = 0xF0 then some [(0x90, 0xBF), tail, tail]
  else if 0xF1 ≤ first ∧ first ≤ 0xF3 then some [tail, tail, tail]
  else if first = 0xF4 then some [(0x80, 0x8F), tail, tail]
  else none

/-- Look for the first offence. `start` is the index of the character being read, `read` the number
of its bytes seen so far and `expected` the ranges of those still to come. -/
def offence (start read : Nat) (expected : List (Nat × Nat)) : List Nat → Option Malformed
  | [] => if expected.isEmpty then none else some ⟨start, none⟩
  | byte :: rest =>
    match expected with
    | (low, high) :: later =>
      if low ≤ byte ∧ byte ≤ high then offence start (read + 1) later rest
      else some ⟨start, some read⟩
    | [] =>
      match followers byte with
      | some ranges => offence (start + read) 1 ranges rest
      | none => some ⟨start + read, some 1⟩

/-- The bytes of a text. -/
def encode (text : String) : List UInt8 := text.toUTF8.data.toList

/-- Read bytes as text. -/
def decode (bytes : List UInt8) : Except Malformed String :=
  match String.fromUTF8? ⟨bytes.toArray⟩ with
  | some text => .ok text
  | none => .error ((offence 0 0 [] (bytes.map UInt8.toNat)).getD ⟨bytes.length, none⟩)

example : offence 0 0 [] [0x61, 0xC3] = some ⟨1, none⟩ := by decide
example : offence 0 0 [] [0x61, 0xE2, 0x98, 0x61] = some ⟨1, some 2⟩ := by decide
example : offence 0 0 [] [0xED, 0xA0, 0x80] = some ⟨0, some 1⟩ := by decide
example : offence 0 0 [] [0xF0, 0x9F, 0x98, 0x80, 0xFF] = some ⟨4, some 1⟩ := by decide

end SchemaUnfolding.Text.Utf8
