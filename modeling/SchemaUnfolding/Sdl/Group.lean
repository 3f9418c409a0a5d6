import SchemaUnfolding.Sdl.Token

/-!
# Bracketed groups

Before the grammar is applied, the tokens between two matching brackets are gathered into one group.
The grammar then recurses on groups, and what a group holds is smaller than the group.
-/

namespace SchemaUnfolding.Sdl

/-- A token that is no bracket, or what stands between two matching brackets. -/
inductive Item
  | token (position : Position) (token : Token)
  | group (position : Position) (bracket : Bracket) (items : List Item)

namespace Item

/-- The position of the first token of an item. -/
def position : Item → Position
  | token position _ => position
  | group position _ _ => position

/-- A bracket that is still open: where it stands, its kind, and the items before it in reverse
order. -/
structure Opened where
  position : Position
  bracket : Bracket
  before : List Item

/-- The number of brackets that may be open at a time. -/
def nestingLimit : Nat := 50

/-- Close all open brackets, the innermost first, after some items in reverse order. -/
def closeAll (opened : List Opened) (done : List Item) : List Item :=
  let close (done : List Item) (outer : Opened) : List Item :=
    group outer.position outer.bracket done.reverse :: outer.before
  (opened.foldl close done).reverse

/-- Gather groups. `opened` holds the open brackets, the innermost first, and `done` the items since
the innermost one in reverse order. The brackets around a block string without a text count as
closed behind it. -/
def gather (opened : List Opened) (done : List Item) :
    List (Position × Token) → Except SyntaxError (List Item)
  | [] => if opened.isEmpty then .ok done.reverse else .error .incomplete
  | (position, .opening bracket) :: rest =>
    if opened.length < nestingLimit then gather (⟨position, bracket, done⟩ :: opened) [] rest
    else .error (.nestedTooDeep position)
  | (position, .closing bracket) :: rest =>
    match opened with
    | [] => .error (.unbalanced position)
    | innermost :: outer =>
      if innermost.bracket = bracket then
        gather outer (group innermost.position bracket done.reverse :: innermost.before) rest
      else .error (.unbalanced position)
  | (position, .splitText cause) :: _ =>
    .ok (closeAll opened (token position (.splitText cause) :: done))
  | (position, other) :: rest => gather opened (token position other :: done) rest

/-- The items of a list of tokens. -/
def ofTokens (tokens : List (Position × Token)) : Except SyntaxError (List Item) :=
  gather [] [] tokens

end Item

end SchemaUnfolding.Sdl
