import SchemaUnfolding.Files.Walk
import SchemaUnfolding.Schema.Loading
import SchemaUnfolding.Text.Blank

/-!
# Finding the files of a schema

The files of a schema are those at or under the given paths whose extension is one of those that
schemas have, without regard to case. A single path that leads to a file is taken as it is when
nothing else was found.
-/

namespace SchemaUnfolding

/-- Where a schema comes from. -/
structure SchemaSources where
  paths : List String
  /-- The extensions that schemas have. Dots in front of one do not count. -/
  extensions : List String := ["graphql", "graphqls"]
  /-- Whether the rules between types are taken for granted. -/
  assumeValid : Bool := false
deriving DecidableEq, Repr

/-- Why there is no schema. -/
inductive SourceError
  | unsearchable (start : String) (cause : WalkError)
  | nothingFound (paths : List String)
  | unloadable (error : LoadError)
deriving DecidableEq

/-- The wording of a reason. -/
def SourceError.message : SourceError → String
  | unsearchable start cause =>
    "Failed to scan for schema files at/under " ++ Text.quoted start ++ ": " ++ cause.message
  | nothingFound paths => "No GraphQL schema files found at/under " ++ Text.quotedList paths
  | unloadable error => error.message

/-- The fault behind a reason, if it is one. -/
def SourceError.fault? : SourceError → Option Fault
  | unsearchable .. | nothingFound _ => none
  | unloadable error => error.fault?

/-- A computation that looks for a schema. Events are kept also when it fails. -/
abbrev Search : Type → Type := ExceptT SourceError (StateM (Array Event))

namespace SchemaSources

/-- Whether a path has one of the extensions of schemas. -/
def covers (sources : SchemaSources) (path : String) : Bool :=
  let known := sources.extensions.map fun name => Text.lowerAscii (Text.dropLeadingDots name)
  ((Path.extension? path).map Text.lowerAscii).any known.contains

/-- Report events. -/
def report (reported : List Event) : Search Unit :=
  modify fun events => reported.foldl Array.push events

/-- Keep the schema files among what a walk from a path came to. -/
def sift (sources : SchemaSources) (start : String) :
    List (Except WalkError Visit) → Search (List String)
  | [] => return []
  | .error cause :: _ => throw (.unsearchable start cause)
  | .ok ⟨path, isFile⟩ :: rest => do
    if !isFile then
      report [.otherSkipped path]
      sources.sift start rest
    else if sources.covers path then
      report [.schemaFileFound path]
      return path :: (← sources.sift start rest)
    else
      report [.fileSkipped path]
      sources.sift start rest

/-- Search at and under several paths. -/
def siftAll (sources : SchemaSources) (disk : Disk) : List String → Search (List String)
  | [] => return []
  | path :: rest => do
    let found ← sources.sift path (disk.walk path)
    return found ++ (← sources.siftAll disk rest)

/-- The path of a file that is taken for a schema whatever its extension. -/
def presumed? (sources : SchemaSources) (disk : Disk) : Option String :=
  match sources.paths with
  | [path] => if disk.isFile path then some path else none
  | _ => none

/-- Find the files of a schema. -/
def discover (sources : SchemaSources) (disk : Disk) : Search (List String) := do
  report [.searching sources.paths.length]
  let found ← sources.siftAll disk sources.paths
  let files ←
    if !found.isEmpty then pure found
    else
      match sources.presumed? disk with
      | some path =>
        report [.presumed path sources.extensions]
        pure [path]
      | none => throw (.nothingFound sources.paths)
  report [.filesFound files.length]
  return files

/-- Continue with the result of a computation that reports events. -/
def ofReport {α : Type} : List Event × Except LoadError α → Search α
  | (events, result) => do
    report events
    match result with
    | .ok value => return value
    | .error error => throw (.unloadable error)

/-- Find the files of a schema, load them and build the schema. -/
def schema (sources : SchemaSources) (disk : Disk) : Search Schema := do
  let files ← sources.discover disk
  let start : SchemaBuilder := { assumeValid := sources.assumeValid }
  let builder ← ofReport (start.loadFiles disk files)
  let schema ← ofReport ([], builder.build.mapError .unusable)
  report [.schemaBuilt schema.types.size files.length]
  return schema

end SchemaSources

end SchemaUnfolding
