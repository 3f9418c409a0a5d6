import SchemaUnfolding.Sdl.Group
import SchemaUnfolding.Sdl.Lexer
import SchemaUnfolding.Sdl.Syntax

/-!
# The grammar of schema documents

Reading definitions from the items of a document. The next item always decides how to go on, so
nothing is read twice. A reader takes items from the front of those that are left, and a repetition
ends because each round has to take at least one.
-/

namespace SchemaUnfolding.Sdl

/-- A reader: it takes items from the front of those that are left, or fails. -/
abbrev Reader : Type → Type := StateT (List Item) (Except SyntaxError)

namespace Reader

/-- The error that the grammar wants something else than the next item. -/
def unexpected : List Item → SyntaxError
  | [] => .incomplete
  | item :: _ => .unexpected item.position

/-- Fail because the grammar wants something else than the next item. -/
def fail {α : Type} : Reader α := fun items => .error (unexpected items)

/-- Read with one reader again and again until the items end. -/
def readAll {α : Type} (read : Reader α) (items : List Item) : Except SyntaxError (List α) :=
  match items with
  | [] => .ok []
  | first :: rest => do
    let (result, after) ← read (first :: rest)
    if _shorter : after.length < (first :: rest).length then
      return result :: (← readAll read after)
    else throw (unexpected after)
termination_by items.length
decreasing_by assumption

/-- The same, with at least one result. -/
def readSome {α : Type} (read : Reader α) (items : List Item) : Except SyntaxError (List α) :=
  if items.isEmpty then .error .incomplete else readAll read items

/-! ## Pieces -/

/-- The position of the next item. -/
def position : Reader Position := fun items =>
  .ok ((items.head?.map Item.position).getD .start, items)

/-- Read a name. -/
def name : Reader String
  | .token _ (.name name) :: rest => .ok (name, rest)
  | items => fail items

/-- Read a string, if it is next. -/
def description? : Reader (Option String)
  | .token _ (.text text) :: rest => .ok (some text, rest)
  | .token _ (.splitText cause) :: _ => .error (.splitText cause)
  | items => .ok (none, items)

/-- Read a token, if it is next. -/
def token? (wanted : Token) : Reader Bool
  | .token position token :: rest =>
    if token = wanted then .ok (true, rest) else .ok (false, .token position token :: rest)
  | items => .ok (false, items)

/-- Read a token. -/
def token (wanted : Token) : Reader Unit := do
  unless ← token? wanted do fail

/-- Read a group in brackets of a kind, if it is next. -/
def group? (wanted : Bracket) : Reader (Option (List Item))
  | .group position bracket items :: rest =>
    if bracket = wanted then .ok (some items, rest)
    else .ok (none, .group position bracket items :: rest)
  | items => .ok (none, items)

/-- Read names with a mark between them. -/
def names (mark : Mark) : Reader (List String)
  | .token _ (.name name) :: .token position (.mark found) :: rest =>
    if found = mark then
      (names mark rest).map fun (others, after) => (name :: others, after)
    else .ok ([name], .token position (.mark found) :: rest)
  | .token _ (.name name) :: rest => .ok ([name], rest)
  | items => fail items

/-- Read names with a mark between them and perhaps before the first. -/
def markedNames (mark : Mark) : Reader (List String) := do
  let _ ← token? (.mark mark)
  names mark

/-! ## Types -/

/-- Turn a type into its nonnull form if an exclamation mark is next. -/
def nonNull (type : TypeExpr) : Reader TypeExpr := do
  return if ← token? (.mark .exclamation) then .nonNull type else type

/-- Read a type. -/
def type : Reader TypeExpr
  | .token _ (.name name) :: rest => nonNull (.named name) rest
  | .group _ .square inner :: rest =>
    match type inner with
    | .ok (item, []) => nonNull (.list item) rest
    | .ok (_, after) => fail after
    | .error error => .error error
  | items => fail items

/-! ## Values -/

/-- The value that a name stands for. -/
def valueOfName (name : String) : Value :=
  if name = "true" then .boolean true
  else if name = "false" then .boolean false
  else if name = "null" then .null
  else .enum name

/-- Put an entry into a list of entries in order of their names; an entry of the same name gives
way. -/
def insertEntry (name : String) (value : Value) : List (String × Value) → List (String × Value)
  | [] => [(name, value)]
  | (other, old) :: rest =>
    if name < other then (name, value) :: (other, old) :: rest
    else if name = other then (name, value) :: rest
    else (other, old) :: insertEntry name value rest

/-- The entries of an object in order of their names, the last one of each name. -/
def sortEntries (entries : List (String × Value)) : List (String × Value) :=
  entries.foldl (fun sorted (name, value) => insertEntry name value sorted) []

mutual

/-- The value of one item. -/
def valueOfItem (withVariables : Bool) : Item → Except SyntaxError Value
  | .token _ (.name name) => .ok (valueOfName name)
  | .token _ (.integer value) => .ok (.integer value)
  | .token _ (.decimal value) => .ok (.decimal value)
  | .token _ (.text value) => .ok (.string value)
  | .token _ (.splitText cause) => .error (.splitText cause)
  | .group _ .square items => (valuesOfItems withVariables items).map Value.list
  | .group _ .curly items =>
    (entriesOfItems withVariables items).map fun entries => .object (sortEntries entries)
  | item => .error (.unexpected item.position)

/-- The values of all items. Only a variable takes two items. -/
def valuesOfItems (withVariables : Bool) : List Item → Except SyntaxError (List Value)
  | [] => .ok []
  | .token position (.mark .dollar) :: .token _ (.name name) :: rest =>
    if withVariables then (valuesOfItems withVariables rest).map (.variable name :: ·)
    else .error (.unexpected position)
  | item :: rest => do
    let value ← valueOfItem withVariables item
    let values ← valuesOfItems withVariables rest
    return value :: values

/-- The entries that the items form: names, colons and values. -/
def entriesOfItems (withVariables : Bool) : List Item → Except SyntaxError (List (String × Value))
  | [] => .ok []
  | .token _ (.name name) :: .token _ (.mark .colon) :: .token position (.mark .dollar) ::
      .token _ (.name target) :: rest =>
    if withVariables then (entriesOfItems withVariables rest).map ((name, .variable target) :: ·)
    else .error (.unexpected position)
  | .token _ (.name name) :: .token _ (.mark .colon) :: item :: rest => do
    let value ← valueOfItem withVariables item
    let entries ← entriesOfItems withVariables rest
    return (name, value) :: entries
  | items => .error (unexpected items)

end

/-! ## Declarations -/

/-- Read the arguments of a directive, if there are any. -/
def arguments : Reader (List (String × Value)) := do
  match ← group? .round with
  | none => return []
  | some [] => throw .incomplete
  | some inner => entriesOfItems true inner

/-- Read the uses of directives that are next. -/
def directives : Reader (List Directive)
  | .token _ (.mark .atSign) :: .token _ (.name name) :: .group position .round inner :: rest => do
    let (arguments, _) ← arguments [.group position .round inner]
    let (others, after) ← directives rest
    return (⟨name, arguments⟩ :: others, after)
  | .token _ (.mark .atSign) :: .token _ (.name name) :: rest => do
    let (others, after) ← directives rest
    return (⟨name, []⟩ :: others, after)
  | .token _ (.mark .atSign) :: rest => fail rest
  | items => .ok ([], items)

/-- Read a default value, if there is one. It holds no variables. -/
def default? : Reader (Option Value)
  | .token _ (.mark .equals) :: item :: rest =>
    (valueOfItem false item).map fun value => (some value, rest)
  | .token _ (.mark .equals) :: [] => .error .incomplete
  | items => .ok (none, items)

/-- Read a parameter or a field of an input type. -/
def input : Reader InputDecl := do
  let position ← position
  let description ← description?
  let name ← name
  token (.mark .colon)
  let type ← type
  let default ← default?
  let directives ← directives
  return { position, description, name, type, default, directives }

/-- Read declarations between brackets, if there are brackets. -/
def bracketed {α : Type} (bracket : Bracket) (read : Reader α) : Reader (List α) := do
  match ← group? bracket with
  | none => return []
  | some inner => readSome read inner

/-- Read a field. -/
def field : Reader FieldDecl := do
  let position ← position
  let description ← description?
  let name ← name
  let parameters ← bracketed .round input
  token (.mark .colon)
  let type ← type
  let directives ← directives
  return { position, description, name, parameters, type, directives }

/-- Read a value of an enumeration. -/
def enumValue : Reader EnumValueDecl := do
  let position ← position
  let description ← description?
  let name ← name
  let directives ← directives
  return { position, description, name, directives }

/-- Read the interfaces that a type declares to implement. -/
def interfaces : Reader (List String) := do
  if ← token? (.name "implements") then markedNames .ampersand else return []

/-- Read the members of a union, if an equals sign is next. -/
def members : Reader (List String) := do
  if ← token? (.mark .equals) then markedNames .bar else return []

/-- Read a type after the keyword that says of which kind it is. -/
def typeDecl (keyword : String) (position : Position) (description : Option String) :
    Reader TypeDecl := do
  match keyword with
  | "scalar" =>
    let name ← name
    let directives ← directives
    return { position, description, name, directives, body := .scalar }
  | "type" =>
    let name ← name
    let interfaces ← interfaces
    let directives ← directives
    let fields ← bracketed .curly field
    return { position, description, name, directives, body := .object interfaces fields }
  | "interface" =>
    let name ← name
    let interfaces ← interfaces
    let directives ← directives
    let fields ← bracketed .curly field
    return { position, description, name, directives, body := .interface interfaces fields }
  | "union" =>
    let name ← name
    let directives ← directives
    let members ← members
    return { position, description, name, directives, body := .union members }
  | "enum" =>
    let name ← name
    let directives ← directives
    let values ← bracketed .curly enumValue
    return { position, description, name, directives, body := .enum values }
  | "input" =>
    let name ← name
    let directives ← directives
    let fields ← bracketed .curly input
    return { position, description, name, directives, body := .input fields }
  | _ => throw (.unexpected position)

/-- Whether an extension adds something. For an interface, a declaration of other interfaces alone
does not count. -/
def isExtending (decl : TypeDecl) : Bool :=
  !decl.directives.isEmpty || match decl.body with
    | .scalar => false
    | .object interfaces fields => !interfaces.isEmpty || !fields.isEmpty
    | .interface _ fields => !fields.isEmpty
    | .union members => !members.isEmpty
    | .enum values => !values.isEmpty
    | .input fields => !fields.isEmpty

/-! ## Definitions -/

/-- Read one entry of a schema block. -/
def root : Reader (Position × String × String) := do
  let position ← position
  let operation ← name
  token (.mark .colon)
  let type ← name
  return (position, operation, type)

/-- Enter a root type into a schema block. No operation is entered twice. -/
def enterRoot (block : SchemaBlock) :
    Position × String × String → Except SyntaxError SchemaBlock
  | (position, operation, type) =>
    match operation, block.query, block.mutation, block.subscription with
    | "query", none, _, _ => .ok { block with query := some type }
    | "mutation", _, none, _ => .ok { block with mutation := some type }
    | "subscription", _, _, none => .ok { block with subscription := some type }
    | _, _, _, _ => .error (.unexpected position)

/-- Read a schema block after its keyword. -/
def schemaBlock (position : Position) : Reader SchemaBlock := do
  let _ ← directives
  match ← group? .curly with
  | none => fail
  | some inner =>
    let entries ← readAll root inner
    entries.foldlM (fun block entry => enterRoot block entry) ⟨position, none, none, none⟩

/-- The places where a directive can be declared to stand. -/
def directiveLocations : List String :=
  ["QUERY", "MUTATION", "SUBSCRIPTION", "FIELD", "FRAGMENT_DEFINITION", "FRAGMENT_SPREAD",
    "INLINE_FRAGMENT", "VARIABLE_DEFINITION", "SCHEMA", "SCALAR", "OBJECT", "FIELD_DEFINITION",
    "ARGUMENT_DEFINITION", "INTERFACE", "UNION", "ENUM", "ENUM_VALUE", "INPUT_OBJECT",
    "INPUT_FIELD_DEFINITION"]

/-- Read the places of a directive, if a bar or a name is next. -/
def locations : Reader Unit
  | .token position (.mark .bar) :: rest => locationNames (.token position (.mark .bar) :: rest)
  | .token position (.name name) :: rest => locationNames (.token position (.name name) :: rest)
  | items => .ok ((), items)
where
  /-- Read the places of a directive. -/
  locationNames : Reader Unit := do
    let position ← position
    let names ← markedNames .bar
    unless names.all directiveLocations.contains do throw (.unexpected position)

/-- Read the definition of a directive after its keyword. -/
def directiveDefinition : Reader Definition := do
  token (.mark .atSign)
  let name ← name
  let _ ← bracketed .round input
  let _ ← token? (.name "repeatable")
  token (.name "on")
  locations
  return .directive name

/-- Read one definition. The position of a type is that of its keyword, also when a description or
the word that marks an extension stands before it. -/
def definition : Reader Definition := do
  let description ← description?
  let position ← position
  let keyword ← name
  match keyword, description with
  | "schema", none => return .schema (← schemaBlock position)
  | "extend", none =>
    let position ← Reader.position
    let keyword ← name
    let decl ← typeDecl keyword position none
    if isExtending decl then return .extension decl else fail
  | "directive", _ => directiveDefinition
  | _, _ => return .type (← typeDecl keyword position description)

end Reader

/-- The definitions of a document, of which there is at least one. -/
def definitions (text : String) : Except SyntaxError (List Definition) := do
  let tokens ← tokens text
  let items ← Item.ofTokens tokens
  Reader.readSome Reader.definition items

end SchemaUnfolding.Sdl
