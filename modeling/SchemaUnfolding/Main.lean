import SchemaUnfolding.Command.Execution

/-!
# The program

The outermost layer. What the arguments can reach is read from the machine's disk beforehand, the
program runs on that picture of it, and the changes that the program made to the picture are carried
out.
-/

namespace SchemaUnfolding

/-- A picture of a disk that grows, and the directories that are in it with all they hold. -/
structure Picture where
  disk : Disk
  explored : List Place := []

namespace Picture

/-- The path of a place from the root. -/
def pathOf (place : Place) : String := "/" ++ "/".intercalate place

/-- Put what stands at a place into the picture, and say what it is. A link is pictured as leading
to where it finally leads; one that leads nowhere, as leading to a place that cannot be. -/
def observe (place : Place) : StateT Picture IO (Option Entry) := do
  let path := pathOf place
  let seen ← try
      match (← (System.mkFilePath [path]).symlinkMetadata).type with
      | .dir => pure (some Entry.directory)
      | .file => pure (some (.file (← IO.FS.readBinFile path).data.toList))
      | .symlink =>
        try pure (some (.link (← IO.FS.realPath path).toString))
        catch _ => pure (some (.link "/\x00"))
      | .other => pure (some (.device (if place = ["dev", "full"] then .full else .null)))
    catch _ => pure none
  if let some entry := seen then
    unless place.isEmpty do
      modify fun picture => { picture with disk := picture.disk.put place entry }
  return seen

/-- Put a directory and those above it into the picture. -/
def reveal (place : Place) : StateT Picture IO Unit := do
  for count in List.range place.length do
    let outer := place.take (count + 1)
    if ((← get).disk.get? outer).isNone then
      modify fun picture => { picture with disk := picture.disk.put outer .directory }

/-- Put what stands at a place into the picture, with so many levels of what it holds. -/
partial def explore (levels : Nat) (place : Place) : StateT Picture IO Unit := do
  match ← observe place with
  | some .directory =>
    if levels = 0 || (← get).explored.contains place then return
    modify fun picture => { picture with explored := place :: picture.explored }
    for child in ← (System.mkFilePath [pathOf place]).readDir do
      explore (levels - 1) (place ++ [child.fileName])
  | some (.link target) =>
    let real := Path.names target
    reveal real.dropLast
    explore levels real
  | _ => return

/-- Follow steps from a place, putting what stands on the way into the picture, and so many levels
of what stands at the end. -/
partial def approach (levels : Nat) (place : Place) : List String → StateT Picture IO Unit
  | [] => explore levels place
  | name :: rest => do
    if name = "." || name = "" then approach levels place rest
    else if name = ".." then approach levels place.dropLast rest
    else
      match ← observe (place ++ [name]) with
      | some (.link target) =>
        let real := Path.names target
        reveal real.dropLast
        approach levels real rest
      | some _ => approach levels (place ++ [name]) rest
      | none => return

/-- Put what a path leads to into the picture. -/
def cover (levels : Nat) (path : String) : StateT Picture IO Unit := do
  approach levels (Disk.start path (← get).disk.home) (Path.steps path)

/-- A picture of all that a command can reach. -/
def ofCommand (command : Command) : StateT Picture IO Unit := do
  let everything := 1000000
  match command with
  | .generate destination _ sources =>
    sources.paths.forM (cover everything)
    cover 2 destination
  | .print _ _ _ sources => sources.paths.forM (cover everything)

/-- Carry out the changes from one picture to another on the machine's disk. -/
def carryOut (before after : Disk) : IO Unit := do
  for (place, entry) in after.entries.reverse do
    if before.get? place ≠ some entry then
      match entry with
      | .directory => IO.FS.createDir (pathOf place)
      | .file content => IO.FS.writeBinFile (pathOf place) ⟨content.toArray⟩
      | .link _ | .device _ => pure ()

/-- A picture for some arguments. -/
def ofArguments (arguments : List String) : IO Disk := do
  let home := Path.names (← IO.currentDir).toString
  let start : Picture := { disk := { home } }
  let collect : StateT Picture IO Unit := do
    reveal home
    match Invocation.ofArguments arguments with
    | .ok ⟨_, some command⟩ => ofCommand command
    | _ => return
  return (← collect.run start).2.disk

end Picture

end SchemaUnfolding

open SchemaUnfolding in
/-- Run the program. Documents go to standard output, all else to standard error. -/
def main (arguments : List String) : IO UInt32 := do
  let before ← Picture.ofArguments arguments
  let execution := Execution.ofArguments before (← IO.getEnv "LOG_LEVEL") arguments
  for event in execution.events do
    IO.eprintln s!"{event.level.text} {event.shownMessage}"
  Picture.carryOut before execution.disk
  IO.print execution.output
  IO.eprint execution.complaint
  return UInt32.ofNat execution.exitCode
