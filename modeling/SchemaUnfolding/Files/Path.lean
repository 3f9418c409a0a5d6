import SchemaUnfolding.Text.Pieces

/-!
# Paths

A path is a text of names with slashes between them. It starts at the root of all files when it
begins with a slash, else at the working directory. The name `.` stays where it is and `..` goes to
the directory above.
-/

namespace SchemaUnfolding.Path

/-- Whether a path starts at the root. -/
def isAbsolute (path : String) : Bool := (Text.split '/' path).head? == some "" && path ≠ ""

/-- Whether a path ends in a slash and so can lead to a directory only. -/
def endsInSlash (path : String) : Bool :=
  (Text.split '/' path).getLast? == some "" && path ≠ ""

/-- The names on a path in order. -/
def names (path : String) : List String := (Text.split '/' path).filter (· ≠ "")

/-- The steps to take along a path: its names, and an empty one for a slash at the end, which stays
where it is but has to be in a directory. -/
def steps (path : String) : List String := names path ++ if endsInSlash path then [""] else []

/-- The path of a name below a path. -/
def join (path name : String) : String :=
  if path = "" || endsInSlash path then path ++ name else path ++ "/" ++ name

/-- What makes a path the same path as another: where it starts, and its names without those that
stay where they are. A relative path that begins with `.` counts as different from one that does
not. -/
def components (path : String) : List String :=
  let start :=
    if isAbsolute path then ["/"] else (Text.split '/' path).head?.toList.filter (· = ".")
  start ++ (names path).filter (· ≠ ".")

/-- The path of some components. -/
def ofComponents : List String → String
  | "/" :: rest => "/" ++ "/".intercalate rest
  | parts => "/".intercalate parts

/-- The paths of the nonempty beginnings of a list of components, the longest first, of which the
last in the list is the outermost. -/
def beginnings : List String → List String
  | [] => []
  | part :: rest => ofComponents (part :: rest).reverse :: beginnings rest

/-- The paths of the directories above a path, from the nearest on. -/
def parents (path : String) : List String := beginnings (components path).reverse.tail

/-- The last name of a path. -/
def fileName (path : String) : String := (names path).getLast?.getD ""

/-- The extension of a name: what follows its last dot, if anything stands before that dot. -/
def extensionChars? (name : List Char) : Option (List Char) :=
  let back := name.reverse
  let front := (back.dropWhile (· != '.')).drop 1
  if back.contains '.' && !front.isEmpty then some (back.takeWhile (· != '.')).reverse else none

/-- The extension of the last name of a path. -/
def extension? (path : String) : Option String :=
  (extensionChars? (fileName path).toList).map String.ofList

example : extension? "schemas/blog.graphql" = some "graphql" := by decide
example : extension? "a.b." = some "" := by decide
example : extension? ".graphql" = none := by decide

end SchemaUnfolding.Path
