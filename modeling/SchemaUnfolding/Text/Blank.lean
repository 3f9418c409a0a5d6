/-!
# Blank characters

The characters of the Unicode property `White_Space`, and what is left of a text without the blank
characters at its ends. Core's `Char.isWhitespace` knows four of these characters only.
-/

namespace SchemaUnfolding.Text

/-- The closed ranges of code points with the property `White_Space`, in order. -/
def blankRanges : List (Nat × Nat) :=
  [(0x9, 0xD), (0x20, 0x20), (0x85, 0x85), (0xA0, 0xA0), (0x1680, 0x1680), (0x2000, 0x200A),
    (0x2028, 0x2029), (0x202F, 0x202F), (0x205F, 0x205F), (0x3000, 0x3000)]

/-- Whether a code point lies in one of the closed ranges. -/
def inRanges (ranges : List (Nat × Nat)) (code : Nat) : Bool :=
  ranges.any fun (first, last) => first ≤ code && code ≤ last

/-- Whether a character has the property `White_Space`. -/
def isBlank (c : Char) : Bool := inRanges blankRanges c.toNat

/-- The characters without the blank ones at both ends. -/
def trimChars (cs : List Char) : List Char :=
  ((cs.dropWhile isBlank).reverse.dropWhile isBlank).reverse

/-- The text without the blank characters at both ends. -/
def trim (text : String) : String := String.ofList (trimChars text.toList)

/-- Lower-case the ASCII letters and keep every other character. -/
def lowerAscii (text : String) : String := text.map Char.toLower

/-- The text without the dots that it starts with. -/
def dropLeadingDots (text : String) : String := String.ofList (text.toList.dropWhile (· == '.'))

/-- Whether `part` stands somewhere in `whole`. -/
def containsChars (part : List Char) : List Char → Bool
  | [] => part.isEmpty
  | c :: rest => part.isPrefixOf (c :: rest) || containsChars part rest

/-- Whether the text `part` stands somewhere in the text `whole`. -/
def contains (whole part : String) : Bool := containsChars part.toList whole.toList

end SchemaUnfolding.Text
