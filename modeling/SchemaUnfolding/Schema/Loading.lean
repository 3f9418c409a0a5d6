import SchemaUnfolding.Files.Reading
import SchemaUnfolding.Schema.Builder

/-!
# Loading schemas from files

The files of a schema are read and entered one after the other; the first that cannot be read or
entered ends the loading.
-/

namespace SchemaUnfolding

/-- Why a schema could not be loaded from files. -/
inductive LoadError
  | unreadable (error : ReadError)
  | unusable (error : BuildError)
deriving DecidableEq

/-- The wording of a reason. -/
def LoadError.message : LoadError → String
  | unreadable error =>
    "Failure while trying to read a schema file from disk: " ++ error.message
  | unusable error => error.message

/-- The fault behind a reason, if it is one. -/
def LoadError.fault? : LoadError → Option Fault
  | unreadable _ => none
  | unusable error => error.fault?

namespace SchemaBuilder

/-- Read a file and enter its definitions. -/
def loadFile (builder : SchemaBuilder) (disk : Disk) (path : String) :
    List Event × Except LoadError SchemaBuilder :=
  match disk.readText path with
  | .error error => ([], .error (.unreadable error))
  | .ok source =>
    let (events, result) := builder.load (some path) source
    (events, result.mapError .unusable)

/-- Read files and enter their definitions, file by file. -/
def loadFiles (builder : SchemaBuilder) (disk : Disk) :
    List String → List Event × Except LoadError SchemaBuilder
  | [] => ([], .ok builder)
  | path :: rest =>
    match builder.loadFile disk path with
    | (events, .error error) => (events, .error error)
    | (events, .ok builder) =>
      let (later, result) := builder.loadFiles disk rest
      (events ++ later, result)

end SchemaBuilder

end SchemaUnfolding
