import SchemaUnfolding.Command.Arguments
import SchemaUnfolding.Command.Verbosity
import SchemaUnfolding.Files.Destination
import SchemaUnfolding.Operation.Publication

/-!
# Running the program

A command reads its schema from a disk, may write documents to it, and ends with a text for the
user. The program chooses a command by its arguments and ends with an exit code.
-/

namespace SchemaUnfolding

/-- How a command ended. -/
inductive Outcome
  | success (text : String)
  | failure (text : String)
  | fault (cause : Fault)
deriving DecidableEq, Repr

/-- What a command left behind. -/
structure Completion where
  disk : Disk
  events : Array Event
  outcome : Outcome

namespace Completion

/-- The text about a schema that could not be loaded. -/
def unloadedText (error : SourceError) : String :=
  "\u274c Failed to load schema: " ++ error.message

/-- The text about a write that was refused. -/
def unwrittenText (error : PublicationError) : String :=
  "\u274c Failed to write generated documents: " ++ error.message

/-- The text about a root field that there is no document for. -/
def unprintedText (error : RequestError) : String := "\u274c " ++ error.message

/-- The line about the operations of a kind. -/
def countLine (report : Report) (kind : OperationKind) : String :=
  let count := (report.operations.filter (·.kind = kind)).length
  s!"  * Generated {count} {kind.directory}."

/-- The line about a kind without a root type. -/
def missingLine (kind : OperationKind) : String :=
  "  \u26a0\ufe0f " ++ Event.rootMissingMessage kind ++ "."

/-- The text about files that were written. -/
def writtenText (destination : Destination) (report : Report) : String :=
  let head :=
    s!"\u2705 Wrote {destination.written} files to " ++ Text.quoted destination.directory ++ ":"
  "\n".intercalate
    (head :: OperationKind.all.map (countLine report) ++ report.missing.map missingLine)

end Completion

namespace Command

open Completion

/-- Write the documents of a schema below a directory. -/
def publish (destination : String) (config : Config) (disk : Disk) (events : Array Event)
    (schema : Schema) : Completion :=
  let publication := Publication.all Destination.sink schema config
  match publication.run.run (⟨destination, disk, 0⟩, events) with
  | (.ok report, destination, events) =>
    ⟨destination.disk, events, .success (writtenText destination report)⟩
  | (.error (.fault cause), destination, events) => ⟨destination.disk, events, .fault cause⟩
  | (.error error, destination, events) =>
    ⟨destination.disk, events, .failure (unwrittenText error)⟩

/-- Show the document of a root field. -/
def present (kind : OperationKind) (field : String) (config : Config) (disk : Disk)
    (events : Array Event) (schema : Schema) : Completion :=
  match (Generation.named schema config kind field).run.run events with
  | (.ok (.ok operation), events) => ⟨disk, events, .success operation.text⟩
  | (.ok (.error error), events) => ⟨disk, events, .failure (unprintedText error)⟩
  | (.error cause, events) => ⟨disk, events, .fault cause⟩

/-- Load a schema and go on with it. -/
def withSchema (sources : SchemaSources) (disk : Disk) (events : Array Event)
    (finish : Array Event → Schema → Completion) : Completion :=
  match (sources.schema disk).run.run events with
  | (.ok schema, events) => finish events schema
  | (.error error, events) =>
    ⟨disk, events, error.fault?.elim (.failure (unloadedText error)) .fault⟩

/-- Run a command after some events. -/
def run (disk : Disk) (events : Array Event) : Command → Completion
  | generate destination config sources =>
    withSchema sources disk events (publish destination config disk)
  | print kind field config sources =>
    withSchema sources disk events (present kind field config disk)

end Command

/-! ## The program -/

/-- What a run of the program shows and leaves behind. -/
structure Execution where
  disk : Disk
  exitCode : Nat
  output : String := ""
  complaint : String := ""
  events : List Event := []

namespace Execution

/-- The name and version of the program. -/
def versionText : String := "graphql-querygen 0.0.1"

/-- How the program is called. -/
def helpText : String :=
  "\n".intercalate
    ["Generate GraphQL query documents for every root field of a schema.", "",
      "Usage: [-v] generate --dest-dir DIR [OPTIONS] PATHS...",
      "       [-v] print --field NAME [--kind KIND] [OPTIONS] PATHS...", "",
      "Options:",
      "  --depth-limit N               greatest depth of expanded fields [100]",
      "  --ext EXTENSION               extension of documents [gql]",
      "  --include-cross-references    expand an edge each time it is reached",
      "  --include-deprecated-fields   select deprecated fields",
      "  --assume-valid                skip the validation of the schema",
      "  --graphql-file-exts LIST      extensions of schema files [graphql,graphqls]"]

/-- The exit code of a fault. -/
def faultCode : Nat := 101

/-- The exit code of misuse. -/
def misuseCode : Nat := 2

/-- What the user gets when arguments lead to no call. -/
def ofDiversion (disk : Disk) : Diversion → Execution
  | .help => { disk, exitCode := 0, output := helpText ++ "\n" }
  | .version => { disk, exitCode := 0, output := versionText ++ "\n" }
  | .misuse cause =>
    { disk, exitCode := misuseCode, complaint := s!"error: {cause.message}\n\n{helpText}\n" }

/-- What the user gets when a command ended. -/
def ofCompletion (limit : Level) (completion : Completion) : Execution :=
  let disk := completion.disk
  let events := limit.select completion.events.toList
  match completion.outcome with
  | .success text => { disk, events, exitCode := 0, output := text ++ "\n" }
  | .failure text => { disk, events, exitCode := 1, complaint := text ++ "\n" }
  | .fault cause => { disk, events, exitCode := faultCode, complaint := cause.message ++ "\n" }

/-- Run the program with some arguments and the environment's setting of the level to show. -/
def ofArguments (disk : Disk) (setting : Option String) (arguments : List String) : Execution :=
  match Invocation.ofArguments arguments with
  | .error diversion => ofDiversion disk diversion
  | .ok invocation =>
    let (limit, events) := Level.choose invocation.verbose setting
    match invocation.command with
    | none => { ofDiversion disk .help with events := limit.select events }
    | some command => ofCompletion limit (command.run disk events.toArray)

end Execution

end SchemaUnfolding
