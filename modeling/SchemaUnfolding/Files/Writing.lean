import SchemaUnfolding.Files.Disk
import SchemaUnfolding.Text.Utf8

/-!
# Writing files

A text is written to the file that a path leads to, which is made if its directory exists; a device
that the path leads to takes the text or has no room for it. A directory can be made together with
those above it. What was done before an action failed stays done.
-/

namespace SchemaUnfolding

/-- A computation that changes a disk. The disk is kept also when the computation fails. -/
abbrev DiskAction : Type → Type := ExceptT FileError (StateM Disk)

namespace DiskAction

/-- Put an entry at a place. -/
def put (place : Place) (entry : Entry) : DiskAction Unit := modify (·.put place entry)

/-- Make one directory. -/
def makeDirectory (path : String) : DiskAction Unit := do
  match (← get).followPath .toLink path (Path.names path) with
  | .ok (.vacancy place) => put place .directory
  | .ok (.entry _ _) => throw .alreadyExists
  | .error error => throw error

/-- Take it as done that a directory could not be made where there is one. -/
def unlessDirectory (path : String) (error : FileError) : DiskAction Unit := do
  if (← get).isDirectory path then return else throw error

/-- Make the first of some directories, each of which stands in the next, with those of the others
that it needs. -/
def makeNested : List String → DiskAction Unit
  | [] => return
  | path :: outer => do
    try
      makeDirectory path
    catch
      | .notFound => do
        makeNested outer
        try makeDirectory path catch error => unlessDirectory path error
      | error => unlessDirectory path error

/-- Make a directory and those above it, as far as they do not exist. -/
def makeDirectories (path : String) : DiskAction Unit := makeNested (path :: Path.parents path)

/-- Write a text to a file or a device. -/
def writeFile (path text : String) : DiskAction Unit := do
  match (← get).followPath .toWrite path (Path.steps path) with
  | .ok (.vacancy place) | .ok (.entry place (.file _)) => put place (.file (Text.Utf8.encode text))
  | .ok (.entry _ (.device device)) =>
    if device = .full ∧ text ≠ "" then throw .noSpace
  | .ok (.entry _ _) => throw .isDirectory
  | .error error => throw error

end DiskAction

end SchemaUnfolding
