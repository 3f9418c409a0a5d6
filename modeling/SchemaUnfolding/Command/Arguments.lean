import SchemaUnfolding.Command
import SchemaUnfolding.Decimal.Digits

/-!
# Reading arguments

Arguments are read from left to right. An option takes its value from the same argument, after an
equals sign or directly after its letter, or from the next one. A value that came in an argument of
its own is looked at only when the next argument, or the end, shows that it is complete; so an
unknown argument is reported before a wrong value in front of it.
-/

namespace SchemaUnfolding

/-- The shape of an argument. -/
inductive Argument
  /-- Two dashes alone: all that follows is taken as it is. -/
  | escape
  | long (name : String) (value : Option String)
  | short (letter : Char) (rest : List Char)
  | plain (text : String)
deriving DecidableEq, Repr

namespace Argument

/-- The value after the first equals sign, if there is one. -/
def valueOf : List Char → Option String
  | '=' :: value => some (String.ofList value)
  | _ => none

/-- The shape of an argument. A single dash is plain. -/
def ofChars : List Char → Argument
  | ['-', '-'] => escape
  | '-' :: '-' :: body =>
    long (String.ofList (body.takeWhile (· != '='))) (valueOf (body.dropWhile (· != '=')))
  | '-' :: letter :: rest => short letter rest
  | text => plain (String.ofList text)

/-- The shape of an argument. -/
def ofText (argument : String) : Argument := ofChars argument.toList

end Argument

/-! ## What can be set -/

/-- The commands that take arguments of their own. -/
inductive Verb
  | generate
  | print
deriving DecidableEq, Repr

namespace Verb

/-- The name of a command. -/
def name : Verb → String
  | generate => "generate"
  | print => "print"

/-- The command of a name. -/
def ofText? (text : String) : Option Verb := [generate, print].find? (·.name = text)

end Verb

/-- What arguments give values to. -/
inductive Slot
  | destination
  | kind
  | field
  | depthLimit
  | extension
  | schemaExtensions
  | paths
deriving DecidableEq, Repr

namespace Slot

/-- The name of what a value is given to. -/
def name : Slot → String
  | destination => "dest-dir"
  | kind => "kind"
  | field => "field"
  | depthLimit => "depth-limit"
  | extension => "ext"
  | schemaExtensions => "graphql-file-exts"
  | paths => "SCHEMA_FILE_OR_DIR_PATHS"

/-- The options of a command that take values. -/
def options : Verb → List Slot
  | .generate => [destination, depthLimit, extension, schemaExtensions]
  | .print => [kind, field, depthLimit, extension, schemaExtensions]

/-- What a command cannot do without. -/
def required : Verb → List Slot
  | .generate => [destination, paths]
  | .print => [field, paths]

end Slot

/-- What arguments turn on. -/
inductive Switch
  | repeatEdges
  | includeDeprecated
  | assumeValid
deriving DecidableEq, Repr

namespace Switch

/-- All switches. -/
def all : List Switch := [repeatEdges, includeDeprecated, assumeValid]

/-- The name of the option that turns a switch on. -/
def name : Switch → String
  | repeatEdges => "include-cross-references"
  | includeDeprecated => "include-deprecated-fields"
  | assumeValid => "assume-valid"

end Switch

/-! ## Values -/

/-- The greatest depth limit that can be given. -/
def depthLimitBound : Nat := Nat.pow 2 64 - 1

/-- Read a depth limit: digits, after a plus sign or none, that denote at least one. -/
def depthLimit? (text : String) : Option Nat :=
  let digits := match text.toList with
    | '+' :: digits => digits
    | digits => digits
  (Decimal.natural? digits).filter fun limit => 1 ≤ limit && limit ≤ depthLimitBound

/-- What has been read for a command so far. -/
structure Draft where
  destination : Option String := none
  kind : Option OperationKind := none
  field : Option String := none
  depthLimit : Option Nat := none
  extension : Option String := none
  schemaExtensions : Option (List String) := none
  switches : List Switch := []
  paths : List String := []
deriving DecidableEq, Repr

namespace Draft

/-- Read the value for something that is given once at most. -/
def once {α : Type} (slot : Slot) (given : Option α) (value : Option α) (text : String) :
    Except Misuse (Option α) :=
  if given.isSome then .error (.repeated slot.name)
  else
    match value with
    | some value => .ok (some value)
    | none => .error (.malformedValue slot.name text)

/-- Give a value to something. -/
def fill (draft : Draft) (slot : Slot) (text : String) : Except Misuse Draft :=
  match slot with
  | .destination => do
    let destination ← once slot draft.destination (some text) text
    if text = "" then throw (.emptyPath slot.name)
    return { draft with destination }
  | .kind => do
    return { draft with
      kind := ← once slot draft.kind (OperationKind.ofText text).toOption text }
  | .field => do return { draft with field := ← once slot draft.field (some text) text }
  | .depthLimit => do
    return { draft with depthLimit := ← once slot draft.depthLimit (depthLimit? text) text }
  | .extension => do
    return { draft with extension := ← once slot draft.extension (some text) text }
  | .schemaExtensions =>
    let known := draft.schemaExtensions.getD []
    .ok { draft with schemaExtensions := some (known ++ Text.split ',' text) }
  | .paths =>
    if text = "" then .error (.emptyPath slot.name)
    else .ok { draft with paths := draft.paths ++ [text] }

/-- Give values to something one after the other. -/
def fillAll (draft : Draft) (slot : Slot) : List String → Except Misuse Draft
  | [] => .ok draft
  | text :: rest => do (← draft.fill slot text).fillAll slot rest

/-- Turn a switch on. -/
def turnOn (draft : Draft) (switch : Switch) : Except Misuse Draft :=
  if switch ∈ draft.switches then .error (.repeated switch.name)
  else .ok { draft with switches := switch :: draft.switches }

/-- Whether something has a value. -/
def has (draft : Draft) : Slot → Bool
  | .destination => draft.destination.isSome
  | .kind => draft.kind.isSome
  | .field => draft.field.isSome
  | .depthLimit => draft.depthLimit.isSome
  | .extension => draft.extension.isSome
  | .schemaExtensions => draft.schemaExtensions.isSome
  | .paths => !draft.paths.isEmpty

/-- The choices about documents. Dots in front of the extension do not count. -/
def config (draft : Draft) : Config :=
  let standard : Config := {}
  { depthLimit := draft.depthLimit.getD standard.depthLimit
    extension := Text.dropLeadingDots (draft.extension.getD standard.extension)
    repeatEdges := .repeatEdges ∈ draft.switches
    includeDeprecated := .includeDeprecated ∈ draft.switches }

/-- Where the schema comes from. -/
def sources (draft : Draft) : SchemaSources :=
  let standard : SchemaSources := { paths := draft.paths }
  { standard with
    extensions := draft.schemaExtensions.getD standard.extensions
    assumeValid := .assumeValid ∈ draft.switches }

/-- The command of a draft with all that it cannot do without. -/
def command (draft : Draft) : Verb → Command
  | .generate => .generate (draft.destination.getD "") draft.config draft.sources
  | .print => .print (draft.kind.getD .query) (draft.field.getD "") draft.config draft.sources

/-- The command of a draft, unless something is missing. -/
def command? (draft : Draft) (verb : Verb) : Except Misuse Command :=
  match (Slot.required verb).filter (!draft.has ·) with
  | [] => .ok (draft.command verb)
  | absent => .error (.missing (absent.map Slot.name))

end Draft

/-! ## Arguments of a command -/

/-- What has been read of an option or of paths and is not settled yet. -/
inductive Pending
  | nothing
  | option (slot : Slot) (value : Option String)
  | paths (texts : List String)
deriving DecidableEq, Repr

/-- A reader of the arguments of a command. -/
structure Reader where
  draft : Draft := {}
  pending : Pending := .nothing
deriving DecidableEq, Repr

/-- Arguments as far as they have been read, or what they lead to instead. -/
abbrev Reading : Type → Type := Except Diversion

namespace Reader

/-- Settle what is pending. -/
def settle (reader : Reader) : Reading Draft :=
  Except.mapError .misuse <|
    match reader.pending with
    | .nothing => .ok reader.draft
    | .option slot none => .error (.missingValue slot.name)
    | .option slot (some text) => reader.draft.fill slot text
    | .paths texts => reader.draft.fillAll .paths texts

/-- Read an option that takes a value, which may stand in the same argument. -/
def readOption (reader : Reader) (slot : Slot) : Option String → Reading Reader
  | none => do return ⟨← reader.settle, .option slot none⟩
  | some text => do
    let draft ← reader.settle
    return ⟨← (draft.fill slot text).mapError .misuse, .nothing⟩

/-- Read an option that takes no value and leads on. -/
def readSwitch (reader : Reader) (switch : Switch) : Reading Reader := do
  let draft ← reader.settle
  return ⟨← (draft.turnOn switch).mapError .misuse, .nothing⟩

/-- Read the request for help. -/
def readHelp (reader : Reader) : Reading Reader := do
  let _ ← reader.settle
  throw .help

/-- Read an option with a long name. -/
def readLong (reader : Reader) (verb : Verb) (name : String) (value : Option String) :
    Reading Reader :=
  match (Slot.options verb).find? (·.name = name) with
  | some slot => reader.readOption slot value
  | none =>
    let unwanted (text : String) : Reading Reader := throw (.misuse (.unwantedValue name text))
    match Switch.all.find? (·.name = name) with
    | some switch => value.elim (reader.readSwitch switch) unwanted
    | none =>
      if name = "help" then value.elim reader.readHelp unwanted
      else throw (.misuse (.unknownArgument ("--" ++ name)))

/-- The value directly after a letter, with or without an equals sign between them. -/
def shortValue? : List Char → Option String
  | [] => none
  | '=' :: value => some (String.ofList value)
  | value => some (String.ofList value)

/-- Read an option with a letter for a name. -/
def readShort (reader : Reader) (verb : Verb) (letter : Char) (rest : List Char) :
    Reading Reader :=
  if letter = 'o' ∧ verb = .generate then reader.readOption .destination (shortValue? rest)
  else if letter = 'h' then reader.readHelp
  else throw (.misuse (.unknownArgument (String.ofList ['-', letter])))

/-- Read a path. -/
def readPath (reader : Reader) (text : String) : Reading Reader :=
  match reader.pending with
  | .paths texts => .ok { reader with pending := .paths (texts ++ [text]) }
  | _ => do return ⟨← reader.settle, .paths [text]⟩

/-- Read an argument without dashes: the value of an option that waits for one, or a path. -/
def readPlain (reader : Reader) (text : String) : Reading Reader :=
  match reader.pending with
  | .option slot none => .ok { reader with pending := .option slot (some text) }
  | _ => reader.readPath text

/-- Read arguments that are paths whatever they look like. -/
def readPaths (reader : Reader) : List String → Reading Reader
  | [] => .ok reader
  | text :: rest => do (← reader.readPath text).readPaths rest

/-- Read the arguments of a command. -/
def readAll (reader : Reader) (verb : Verb) : List String → Reading Reader
  | [] => .ok reader
  | argument :: rest =>
    match Argument.ofText argument with
    | .escape => reader.readPaths rest
    | .long name value => do (← reader.readLong verb name value).readAll verb rest
    | .short letter letters => do (← reader.readShort verb letter letters).readAll verb rest
    | .plain text => do (← reader.readPlain text).readAll verb rest

end Reader

namespace Command

/-- Read the arguments of a command. -/
def ofArguments (verb : Verb) (arguments : List String) : Reading Command := do
  let reader ← Reader.readAll {} verb arguments
  let draft ← reader.settle
  (draft.command? verb).mapError .misuse

end Command

/-! ## Arguments of the program -/

namespace Invocation

/-- Turn verbosity on. -/
def readVerbose (verbose : Bool) : Reading Bool :=
  if verbose then throw (.misuse (.repeated "verbose")) else return true

/-- Read letters that stand for options. -/
def readLetters (verbose : Bool) : List Char → Reading Bool
  | [] => return verbose
  | letter :: rest => do
    if letter = 'v' then readLetters (← readVerbose verbose) rest
    else if letter = 'h' then throw .help
    else if letter = 'V' then throw .version
    else throw (.misuse (.unknownArgument (String.ofList ['-', letter])))

/-- Read an option with a long name. -/
def readLong (verbose : Bool) (name : String) (value : Option String) : Reading Bool :=
  let flag (result : Reading Bool) : Reading Bool :=
    value.elim result fun text => throw (.misuse (.unwantedValue name text))
  if name = "verbose" then flag (readVerbose verbose)
  else if name = "help" then flag (throw .help)
  else if name = "version" then flag (throw .version)
  else throw (.misuse (.unknownArgument ("--" ++ name)))

/-- Whether a text names a command, help included. -/
def isCommandName (text : String) : Bool := (Verb.ofText? text).isSome || text = "help"

/-- Read what help is asked about: nothing, or one command. -/
def readTopic : List String → Diversion
  | [] => .help
  | [name] => if isCommandName name then .help else .misuse (.unknownCommand name)
  | name :: other :: _ => .misuse (.unknownCommand (if isCommandName name then other else name))

/-- Read what follows two dashes where a command should stand. -/
def readEscaped (verbose : Bool) : List String → Reading Invocation
  | [] => return { verbose }
  | name :: _ =>
    throw (.misuse (if isCommandName name then .unknownArgument name else .unknownCommand name))

/-- Read the arguments of the program, given whether verbosity is on. -/
def readAll (verbose : Bool) : List String → Reading Invocation
  | [] => return { verbose }
  | argument :: rest =>
    match Verb.ofText? argument with
    | some verb => do return ⟨verbose, some (← Command.ofArguments verb rest)⟩
    | none =>
      if argument = "help" then throw (readTopic rest)
      else
        match Argument.ofText argument with
        | .escape => readEscaped verbose rest
        | .long name value => do readAll (← readLong verbose name value) rest
        | .short letter letters => do readAll (← readLetters verbose (letter :: letters)) rest
        | .plain text => throw (.misuse (.unknownCommand text))

/-- Read the arguments of the program. -/
def ofArguments (arguments : List String) : Reading Invocation := readAll false arguments

end Invocation

end SchemaUnfolding
