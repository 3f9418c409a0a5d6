import SchemaUnfolding.Files.Disk

/-!
# Walking through directories

A walk visits what a path leads to and, when that is a directory, everything in it, in the order of
the names and each directory directly before what it holds. What stands in a directory is known from
the directory, so a path below it is looked up again only to follow a link or to open a directory. A
link that leads back to a directory in which it stands is an error.
-/

namespace SchemaUnfolding

/-- Something that a walk came to. -/
structure Visit where
  path : String
  isFile : Bool
deriving DecidableEq, Repr

/-- Why a walk could not go on at some path. -/
inductive WalkError
  | inaccessible (path : String) (cause : FileError)
  | loop (path ancestor : String)
deriving DecidableEq, Repr

/-- The wording of a reason, followed by that of its cause. -/
def WalkError.message : WalkError → String
  | inaccessible path cause =>
    "IO error for operation on " ++ path ++ ": " ++ cause.message ++ ": " ++ cause.message
  | loop path ancestor =>
    "File system loop found: " ++ path ++ " points to an ancestor " ++ ancestor

/-- A directory that a walk is in: the path by which it was entered, and its place. -/
structure Ancestor where
  path : String
  place : Place
deriving DecidableEq, Repr

namespace Disk

/-- What a walk does at a path: nothing but visit what is no directory, enter a directory at a
place, or fail. -/
inductive Arrival
  | leaf (isFile : Bool)
  | directory (place : Place)
  | failure (error : WalkError)
deriving DecidableEq, Repr

/-- Arrive at a path whose last link, if it is one, has been followed. -/
def arriveThrough (disk : Disk) (ancestors : List Ancestor) (path : String) : Arrival :=
  match disk.look .throughLink path with
  | .error cause => .failure (.inaccessible path cause)
  | .ok (place, .directory) =>
    match ancestors.find? (·.place = place) with
    | some ancestor => .failure (.loop path ancestor.path)
    | none => .directory place
  | .ok (_, .file _) => .leaf true
  | .ok _ => .leaf false

/-- Arrive at a path where something stands, in directories of which the innermost comes first. -/
def arrive (disk : Disk) (ancestors : List Ancestor) (path : String) : Place × Entry → Arrival
  | (_, .link _) => disk.arriveThrough ancestors path
  | (place, .directory) => .directory place
  | (_, .file _) => .leaf true
  | (_, .device _) => .leaf false

/-- Open the directory at a place under a path, and list what stands in it. -/
def enter (disk : Disk) (path : String) (place : Place) :
    Except WalkError (List (String × Entry)) :=
  match disk.look .throughLink path with
  | .error cause => .error (.inaccessible path cause)
  | .ok _ =>
    .ok ((disk.namesIn place).filterMap fun name =>
      (disk.get? (place ++ [name])).map fun entry => (name, entry))

/-- Walk from a path where something stands through so many levels of directories at most. -/
def walkWithin (disk : Disk) :
    Nat → List Ancestor → String → Place × Entry → List (Except WalkError Visit)
  | 0, _, _, _ => []
  | levels + 1, ancestors, path, found =>
    match disk.arrive ancestors path found with
    | .failure error => [.error error]
    | .leaf isFile => [.ok ⟨path, isFile⟩]
    | .directory place =>
      .ok ⟨path, false⟩ ::
        match disk.enter path place with
        | .error error => [.error error]
        | .ok held => held.flatMap fun (name, entry) =>
          disk.walkWithin levels (⟨path, place⟩ :: ancestors) (Path.join path name)
            (place ++ [name], entry)

/-- More levels than a walk can go down. Between two links that it follows it goes down as many
levels as there are directories at most, and no two of the links it follows lead to one place. -/
def levelLimit (disk : Disk) : Nat := (disk.entries.length + 2) * (disk.entries.length + 2)

/-- Walk from a path. -/
def walk (disk : Disk) (path : String) : List (Except WalkError Visit) :=
  match disk.look .toLink path with
  | .error cause => [.error (.inaccessible path cause)]
  | .ok found => disk.walkWithin disk.levelLimit [] path found

end Disk

end SchemaUnfolding
