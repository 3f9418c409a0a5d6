import SchemaUnfolding.OperationKind
import SchemaUnfolding.Text.Quoted
import SchemaUnfolding.Text.Screened

/-!
# Events

What the search for schema files, the building of a schema, the generation of documents and their
writing report while they work. Events change no result; the program shows those of the levels that
its user asked for.
-/

namespace SchemaUnfolding

/-- How important an event is, the most important first. -/
inductive Level
  | warning
  | info
  | debug
  | trace
deriving DecidableEq, Repr

namespace Level

/-- The rank of a level: the higher, the less important. -/
def rank : Level → Nat
  | warning => 0
  | info => 1
  | debug => 2
  | trace => 3

/-- Whether events of a level are shown when those up to `limit` are asked for. -/
def shownAt (level limit : Level) : Bool := level.rank ≤ limit.rank

/-- The name of a level. -/
def text : Level → String
  | warning => "WARN"
  | info => "INFO"
  | debug => "DEBUG"
  | trace => "TRACE"

end Level

/-- Something worth reporting. -/
inductive Event
  /-- The definition of a directive has no bearing on documents. -/
  | directiveIgnored (name : String)
  /-- A field was left out because the edge that leads to it was expanded before. -/
  | edgeRepeated (type field : String) (depth : Nat) (key : String)
  /-- A field was left out because it stands too deep. -/
  | limitExceeded (type field : String) (depth limit : Nat)
  /-- There is no root type of a kind. -/
  | rootMissing (operation : OperationKind)
  /-- The name of a root type contains no keyword. -/
  | keywordUnclear (root : String)
  /-- A document was generated. -/
  | generated (operation : OperationKind) (field : String) (bound expanded : Nat)
  /-- The program shows events up to a level. -/
  | showingUpTo (level : Level)
  /-- The user asked for a level that there is not. -/
  | levelUnknown (text : String)
  /-- The search for schema files begins. -/
  | searching (paths : Nat)
  /-- The search came to something other than a file. -/
  | otherSkipped (path : String)
  /-- The search came to a file that does not look like a schema. -/
  | fileSkipped (path : String)
  /-- The search came to a schema file. -/
  | schemaFileFound (path : String)
  /-- A file is taken for a schema although it does not look like one. -/
  | presumed (path : String) (extensions : List String)
  /-- The search for schema files ended. -/
  | filesFound (files : Nat)
  /-- A schema was built. -/
  | schemaBuilt (types files : Nat)
  /-- A file is about to be written. -/
  | writing (path : String)
deriving DecidableEq, Repr

namespace Event

/-- The level of an event. -/
def level : Event → Level
  | directiveIgnored _ | edgeRepeated .. | limitExceeded .. | showingUpTo _ | otherSkipped _
  | fileSkipped _ | schemaFileFound _ | writing _ => .trace
  | generated .. | searching _ | filesFound _ | schemaBuilt .. => .debug
  | rootMissing _ | keywordUnclear _ | levelUnknown _ | presumed .. => .warning

/-- The sentence that says that there is no root type of a kind. -/
def rootMissingMessage (operation : OperationKind) : String :=
  s!"The schema defines no {operation.keyword} root operation type, so no " ++
    s!"{operation.directory} will be generated"

/-- The wording of an event. -/
def message : Event → String
  | directiveIgnored name => s!"Ignoring definition of directive `@{name}`."
  | edgeRepeated type field depth key =>
    s!"Pruning `{type}.{field}` at depth {depth}: `{key}` was already expanded"
  | limitExceeded type field depth limit =>
    s!"Pruning `{type}.{field}`: depth {depth} exceeds the limit of {limit}"
  | rootMissing operation => rootMissingMessage operation
  | keywordUnclear root =>
    s!"Unable to infer an operation keyword from the root type name `{root}`; using the type " ++
      "name itself"
  | generated operation field bound expanded =>
    s!"Generated {operation.keyword} `{field}` ({bound} variables, {expanded} expanded edges)"
  | showingUpTo level => s!"Initial logging level set to `{level.text}`."
  | levelUnknown text => s!"Invalid `LOG_LEVEL` environment variable value: `{text}`"
  | searching paths => s!"Scanning {paths} input paths..."
  | otherSkipped path => "Skipping non-file: " ++ Text.quoted path ++ "."
  | fileSkipped path =>
    "Skipping file without a GraphQL extension: " ++ Text.quoted path ++ "."
  | schemaFileFound path => "Found schema file at " ++ Text.quoted path ++ "."
  | presumed path extensions =>
    "Proceeding to load " ++ Text.quoted path ++ " even though it doesn't match any of the " ++
      "--graphql-file-exts (" ++ ", ".intercalate (extensions.map fun name => s!"`{name}`") ++ ")."
  | filesFound files => s!"Found {files} GraphQL schema files."
  | schemaBuilt types files => s!"Built a schema with {types} types from {files} files."
  | writing path => "Writing " ++ Text.quoted path ++ "."

/-- The wording of an event as the program shows it. -/
def shownMessage (event : Event) : String := Text.screened event.message

end Event

end SchemaUnfolding
