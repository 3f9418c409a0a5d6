import SchemaUnfolding.Sdl.Literal
import SchemaUnfolding.Sdl.Token

/-!
# Tokens from text

Splitting a schema document into tokens with their positions. Blanks, commas, byte order marks and
comments separate tokens and vanish. Each step returns what is left of the text together with a
proof that this is shorter, so reading the whole text ends. After a block string without a text
nothing is read, because no document goes on behind one.

Columns count characters, but a tab counts eight, and a carriage return and a byte order mark count
none. A comment counts no columns, and the line feed or carriage return at its end starts a line.
-/

namespace SchemaUnfolding.Sdl

/-- The rest of a text after something was read from `cs`. -/
abbrev Shorter (cs : List Char) : Type := { rest : List Char // rest.length < cs.length }

/-- The rest of a text after at least its first character and then a run of characters. -/
def Shorter.dropWhile (isIn : Char → Bool) (c : Char) (cs : List Char) : Shorter (c :: cs) :=
  ⟨cs.dropWhile isIn, by
    have := (List.dropWhile_suffix (l := cs) isIn).length_le
    simp only [List.length_cons]
    omega⟩

/-- Whether a name can start with a character. -/
def isNameStart (c : Char) : Bool := c.isAlpha || c == '_'

/-- Whether a name can go on with a character. -/
def isNameRest (c : Char) : Bool := c.isAlphanum || c == '_'

/-- Whether a character ends a number. -/
def endsNumber (c : Char) : Bool := " \n\r\t,#!$:=@|&()[]\x7b\x7d".toList.contains c

/-- Whether a character ends a comment. -/
def endsLine (c : Char) : Bool := c == '\n' || c == '\r'

/-- The token that a character is by itself. -/
def single? : Char → Option Token
  | '(' => some (.opening .round)
  | ')' => some (.closing .round)
  | '[' => some (.opening .square)
  | ']' => some (.closing .square)
  | '\x7b' => some (.opening .curly)
  | '\x7d' => some (.closing .curly)
  | '!' => some (.mark .exclamation)
  | '$' => some (.mark .dollar)
  | ':' => some (.mark .colon)
  | '=' => some (.mark .equals)
  | '@' => some (.mark .atSign)
  | '|' => some (.mark .bar)
  | '&' => some (.mark .ampersand)
  | _ => none

/-- The token that the spelling of a number denotes. -/
def number? (spelling : List Char) : Option Token :=
  if spelling.any fun c => c == '.' || c == 'e' || c == 'E' then
    (decimal? spelling).map Token.decimal
  else (integer? spelling).map Token.integer

/-- Skip a comment: whether a line's end stopped it, and the text after that. -/
def skipComment : (cs : List Char) → Bool × { rest : List Char // rest.length ≤ cs.length }
  | [] => (false, ⟨[], by simp⟩)
  | c :: cs =>
    if endsLine c then (true, ⟨cs, by simp⟩)
    else
      let (stopped, ⟨rest, shorter⟩) := skipComment cs
      (stopped, ⟨rest, by simp only [List.length_cons]; omega⟩)

/-! ## Strings -/

/-- Split a text at the quote that ends a string. A character after a backslash ends nothing, and a
string does not reach over a line feed. -/
def spanQuoted : (cs : List Char) → Option (List Char × Shorter cs)
  | [] => none
  | '"' :: rest => some ([], ⟨rest, by simp⟩)
  | '\n' :: _ => none
  | '\\' :: '\n' :: _ => none
  | '\\' :: c :: rest =>
    (spanQuoted rest).map fun (body, ⟨after, shorter⟩) =>
      ('\\' :: c :: body, ⟨after, by simp only [List.length_cons]; omega⟩)
  | c :: rest =>
    (spanQuoted rest).map fun (body, ⟨after, shorter⟩) =>
      (c :: body, ⟨after, by simp only [List.length_cons]; omega⟩)

/-- Split a text at the triple quote that ends a block string. One with a backslash before it ends
nothing. -/
def spanBlock : (cs : List Char) → Option (List Char × Shorter cs)
  | [] => none
  | '\\' :: '"' :: '"' :: '"' :: rest =>
    (spanBlock rest).map fun (body, ⟨after, shorter⟩) =>
      ('\\' :: '"' :: '"' :: '"' :: body, ⟨after, by simp only [List.length_cons]; omega⟩)
  | '"' :: '"' :: '"' :: rest => some ([], ⟨rest, by simp only [List.length_cons]; omega⟩)
  | c :: rest =>
    (spanBlock rest).map fun (body, ⟨after, shorter⟩) =>
      (c :: body, ⟨after, by simp only [List.length_cons]; omega⟩)

/-- The position after a block string with the given characters between its quotes. -/
def afterBlock (position : Position) (body : List Char) : Position :=
  let feeds := body.count '\n'
  if feeds = 0 then position.advance (body.length + 6)
  else ⟨position.line + feeds, (body.reverse.takeWhile (· != '\n')).length + 4⟩

/-! ## Steps -/

/-- What one step finds at the front of a text: nothing that matters, or a token. -/
structure Step (cs : List Char) where
  token : Option Token
  next : Position
  rest : Shorter cs

/-- Read what a nonempty text starts with. -/
def step (position : Position) (c : Char) (cs : List Char) :
    Except SyntaxError (Step (c :: cs)) :=
  let blank (next : Position) : Except SyntaxError (Step (c :: cs)) :=
    .ok ⟨none, next, ⟨cs, by simp⟩⟩
  if c = ' ' ∨ c = ',' then blank (position.advance 1)
  else if c = '\t' then blank (position.advance 8)
  else if c = '\r' ∨ c = '\ufeff' then blank position
  else if c = '\n' then blank position.nextLine
  else if c = '#' then
    let (stopped, ⟨rest, shorter⟩) := skipComment cs
    .ok ⟨none, if stopped then position.nextLine else position,
      ⟨rest, by simp only [List.length_cons]; omega⟩⟩
  else if isNameStart c then
    let text := c :: cs.takeWhile isNameRest
    .ok ⟨some (.name (String.ofList text)), position.advance text.length,
      .dropWhile isNameRest c cs⟩
  else if c.isDigit ∨ c = '-' then
    let isInNumber (c : Char) : Bool := !endsNumber c
    let spelling := c :: cs.takeWhile isInNumber
    match number? spelling with
    | some token =>
      .ok ⟨some token, position.advance spelling.length, .dropWhile isInNumber c cs⟩
    | none => .error (.malformedNumber position)
  else
    match single? c with
    | some token => .ok ⟨some token, position.advance 1, ⟨cs, by simp⟩⟩
    | none =>
      match c, cs with
      | '.', '.' :: '.' :: rest =>
        .ok ⟨some (.mark .ellipsis), position.advance 3,
          ⟨rest, by simp only [List.length_cons]; omega⟩⟩
      | '"', '"' :: '"' :: rest =>
        match spanBlock rest with
        | some (body, ⟨after, shorter⟩) =>
          match blockText body with
          | .ok text =>
            .ok ⟨some (.text (String.ofList text)), afterBlock position body,
              ⟨after, by simp only [List.length_cons]; omega⟩⟩
          | .error cause => .ok ⟨some (.splitText cause), position, ⟨[], by simp⟩⟩
        | none => .error (.malformedText position)
      | '"', rest =>
        match spanQuoted rest with
        | some (body, ⟨after, shorter⟩) =>
          match unescape body with
          | some text =>
            .ok ⟨some (.text (String.ofList text)), position.advance (body.length + 2),
              ⟨after, by simp only [List.length_cons]; omega⟩⟩
          | none => .error (.malformedText position)
        | none => .error (.malformedText position)
      | _, _ => .error (.strayCharacter position c)

/-- The tokens of a text that starts at a position, each with its own position, after those `done`
before, which are in reverse order. -/
def tokensFrom (position : Position) (done : List (Position × Token)) (cs : List Char) :
    Except SyntaxError (List (Position × Token)) :=
  match cs with
  | [] => .ok done.reverse
  | c :: cs =>
    match step position c cs with
    | .error error => .error error
    | .ok ⟨token, next, rest⟩ =>
      tokensFrom next (token.elim done fun token => (position, token) :: done) rest.val
termination_by cs.length
decreasing_by exact rest.property

/-- The tokens of a document. -/
def tokens (text : String) : Except SyntaxError (List (Position × Token)) :=
  tokensFrom .start [] text.toList

end SchemaUnfolding.Sdl
