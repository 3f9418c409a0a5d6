import SchemaUnfolding.Files.Disk
import SchemaUnfolding.Text.Quoted
import SchemaUnfolding.Text.Utf8

/-!
# Reading text files

A path can be read when it leads to a file whose bytes are UTF-8.
-/

namespace SchemaUnfolding

/-- Why a path could not be read. -/
inductive ReadError
  | notFile (path : String)
  | notText (path : String) (content : List UInt8) (offence : Text.Utf8.Malformed)
deriving DecidableEq

namespace ReadError

/-- The wording of a reason. -/
def message : ReadError → String
  | notFile path => Text.quoted path ++ " is not a file"
  | notText path _ offence => Text.quoted path ++ " is not valid UTF-8: " ++ offence.message

/-- Whether two reasons are the same: they concern one path, however it is written, and one
content. -/
def same : ReadError → ReadError → Bool
  | notFile path, notFile other => Path.components path = Path.components other
  | notText path content _, notText other content' _ =>
    Path.components path = Path.components other ∧ content = content'
  | _, _ => false

end ReadError

/-- Read the text of the file that a path leads to. -/
def Disk.readText (disk : Disk) (path : String) : Except ReadError String :=
  match disk.look .throughLink path with
  | .ok (_, .file content) => (Text.Utf8.decode content).mapError (.notText path content)
  | _ => .error (.notFile path)

end SchemaUnfolding
