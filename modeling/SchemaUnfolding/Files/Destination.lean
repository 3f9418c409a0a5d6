import SchemaUnfolding.Files.Writing
import SchemaUnfolding.Operation.Sink

/-!
# Directories of documents

A directory on a disk is a sink: documents and indexes become files below it, and directories are
made as they are needed. Files that were written are counted.
-/

namespace SchemaUnfolding

/-- A directory on a disk that documents are written to, and the number of files written. -/
structure Destination where
  directory : String
  disk : Disk
  written : Nat := 0

namespace Destination

/-- The directory that the file of a write stands in. -/
def directoryOf (root : String) : Write → String
  | .document kind .. | .kindIndex kind _ => Path.join root kind.directory
  | .rootIndex _ => root

/-- The name of the file of a write in its directory. -/
def nameOf : Write → String
  | .document _ field extension _ => field ++ "." ++ extension
  | .kindIndex .. | .rootIndex _ => "index.js"

/-- The path of the file of a write. -/
def pathOf (root : String) (write : Write) : String :=
  Path.join (directoryOf root write) (nameOf write)

/-- The text of a write. -/
def textOf : Write → String
  | .document _ _ _ text | .kindIndex _ text | .rootIndex text => text

/-- Write to the directory. The path is reported as soon as there is a directory for the file. -/
def accept (destination : Destination) (write : Write) : Reply Destination :=
  let path := pathOf destination.directory write
  match (DiskAction.makeDirectories (directoryOf destination.directory write)).run.run
      destination.disk with
  | (.error error, disk) => ⟨{ destination with disk }, some error.message, []⟩
  | (.ok (), disk) =>
    match (DiskAction.writeFile path (textOf write)).run.run disk with
    | (.error error, disk) => ⟨{ destination with disk }, some error.message, [.writing path]⟩
    | (.ok (), disk) =>
      ⟨{ destination with disk, written := destination.written + 1 }, none, [.writing path]⟩

/-- The sink that writes to directories. -/
def sink : Sink Destination where
  accept := accept

end Destination

end SchemaUnfolding
