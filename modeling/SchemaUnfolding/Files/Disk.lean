import SchemaUnfolding.Files.FileError
import SchemaUnfolding.Files.Path

/-!
# Disks

A disk holds files, directories, symbolic links and devices at places; a place is the list of the
names on the way to it from the root. A path is followed from the root or from the working directory
of the disk, through the links on its way. It leads to what stands at a place, or to a vacancy: a
place in a directory where nothing stands yet.
-/

namespace SchemaUnfolding

/-- Something that bytes can be written to and that keeps none of them. -/
inductive Device
  /-- It takes all bytes. -/
  | null
  /-- It has no room for any byte. -/
  | full
deriving DecidableEq, Repr

/-- What can stand at a place. -/
inductive Entry
  | file (content : List UInt8)
  | directory
  | link (target : String)
  | device (device : Device)
deriving DecidableEq

/-- The names on the way from the root to a place. -/
abbrev Place : Type := List String

/-- Entries at places, no place more than once, and the working directory. The root is a directory
that is not listed. -/
structure Disk where
  entries : List (Place × Entry) := []
  home : Place := []

/-- Where a path leads. -/
inductive Destiny
  | entry (place : Place) (entry : Entry)
  | vacancy (place : Place)
deriving DecidableEq

namespace Disk

/-- The entry under a place in a list of pairs. -/
def find? (place : Place) : List (Place × Entry) → Option Entry
  | [] => none
  | (key, entry) :: rest => if key = place then some entry else find? place rest

/-- What stands at a place. -/
def get? (disk : Disk) : Place → Option Entry
  | [] => some .directory
  | name :: rest => find? (name :: rest) disk.entries

/-- Put an entry at a place, instead of what stood there. -/
def put (disk : Disk) (place : Place) (entry : Entry) : Disk :=
  { disk with entries := (place, entry) :: disk.entries.filter (·.1 ≠ place) }

theorem find?_filter_ne {place other : Place} (different : other ≠ place)
    (entries : List (Place × Entry)) :
    find? other (entries.filter (·.1 ≠ place)) = find? other entries := by
  induction entries with
  | nil => rfl
  | cons pair rest ih =>
    obtain ⟨key, entry⟩ := pair
    by_cases same : key = place
    · subst same
      simp only [ne_eq, not_true_eq_false, decide_false, Bool.false_eq_true, not_false_eq_true,
        List.filter_cons_of_neg]
      rw [find?, if_neg (Ne.symm different)]
      exact ih
    · simp only [ne_eq, same, not_false_eq_true, decide_true, List.filter_cons_of_pos]
      simp only [find?]
      rw [← ih]

/-- After an entry is put at a place other than the root, it stands there, and what stands at other
places is as before. -/
theorem get?_put (disk : Disk) {place : Place} (inside : place ≠ []) (entry : Entry)
    (other : Place) :
    (disk.put place entry).get? other = if other = place then some entry else disk.get? other := by
  cases other with
  | nil => simp [get?, Ne.symm inside]
  | cons name rest =>
    by_cases same : name :: rest = place
    · simp [get?, put, find?, same]
    · simp only [get?, put, find?, if_neg (Ne.symm same), if_neg same]
      exact find?_filter_ne same disk.entries

/-! ## Following paths -/

/-- The most bytes that a name may have. -/
def nameLimit : Nat := 255

/-- The most bytes that a path may have. -/
def pathLimit : Nat := 4095

/-- The most links that are followed along one path. -/
def linkLimit : Nat := 40

/-- The place where a path starts that is followed from a place. -/
def start (path : String) (place : Place) : Place := if Path.isAbsolute path then [] else place

/-- How far a path is followed, which depends on what it is followed for. -/
inductive Reach
  /-- Up to a link at the end. -/
  | toLink
  /-- Through a link at the end. -/
  | throughLink
  /-- Through a link at the end, to write there. Neither the path nor that link can then end in a
  slash behind a name, whatever the name leads to. -/
  | toWrite
deriving DecidableEq, Repr

/-- Follow steps from a directory, through so many links at most. -/
def follow (disk : Disk) (reach : Reach) (links : Nat) (place : Place) :
    List String → Except FileError Destiny
  | [] => .ok (.entry place .directory)
  | name :: rest =>
    if name = "." ∨ name = "" then follow disk reach links place rest
    else if name = ".." then follow disk reach links place.dropLast rest
    else if reach = .toWrite ∧ rest = [""] then .error .isDirectory
    else if nameLimit < name.utf8ByteSize then .error .nameTooLong
    else
      match disk.get? (place ++ [name]) with
      | none => if rest.isEmpty then .ok (.vacancy (place ++ [name])) else .error .notFound
      | some .directory => follow disk reach links (place ++ [name]) rest
      | some (.link target) =>
        if rest.isEmpty ∧ reach = .toLink then .ok (.entry (place ++ [name]) (.link target))
        else
          match links with
          | 0 => .error .tooManyLinks
          | links + 1 =>
            follow disk reach links (start target place) (Path.steps target ++ rest)
      | some entry =>
        if rest.isEmpty then .ok (.entry (place ++ [name]) entry) else .error .notDirectory
termination_by steps => (links, steps.length)

/-- Where some steps of a path lead, or why they cannot be followed. -/
def followPath (disk : Disk) (reach : Reach) (path : String) (steps : List String) :
    Except FileError Destiny :=
  if path.contains '\x00' then .error .zeroInName
  else if path = "" then .error .notFound
  else if pathLimit < path.utf8ByteSize then .error .nameTooLong
  else disk.follow reach linkLimit (start path disk.home) steps

/-- What a path leads to. -/
def look (disk : Disk) (reach : Reach) (path : String) : Except FileError (Place × Entry) :=
  match disk.followPath reach path (Path.steps path) with
  | .ok (.entry place entry) => .ok (place, entry)
  | .ok (.vacancy _) => .error .notFound
  | .error error => .error error

/-- Whether a path leads to a file. -/
def isFile (disk : Disk) (path : String) : Bool :=
  match disk.look .throughLink path with
  | .ok (_, .file _) => true
  | _ => false

/-- Whether a path leads to a directory. -/
def isDirectory (disk : Disk) (path : String) : Bool :=
  match disk.look .throughLink path with
  | .ok (_, .directory) => true
  | _ => false

/-! ## Directories -/

/-- The name of a place in a directory, if it stands directly in it. -/
def nameIn? : Place → Place → Option String
  | [], [name] => some name
  | above :: directory, first :: rest => if above = first then nameIn? directory rest else none
  | _, _ => none

/-- The names in a directory in the order of their code points. -/
def namesIn (disk : Disk) (directory : Place) : List String :=
  (disk.entries.filterMap fun pair => nameIn? directory pair.1).mergeSort (fun a b => a ≤ b)

end Disk

end SchemaUnfolding
