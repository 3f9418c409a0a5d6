/-!
# Why a file could not be used

The causes that keep a path from being followed, read or written, with the numbers Linux has for
them.
-/

namespace SchemaUnfolding

/-- Why a file could not be used. -/
inductive FileError
  | notFound
  | alreadyExists
  | notDirectory
  | isDirectory
  | noSpace
  | nameTooLong
  | tooManyLinks
  | zeroInName
deriving DecidableEq, Repr

namespace FileError

/-- The wording of a cause. -/
def message : FileError → String
  | notFound => "No such file or directory (os error 2)"
  | alreadyExists => "File exists (os error 17)"
  | notDirectory => "Not a directory (os error 20)"
  | isDirectory => "Is a directory (os error 21)"
  | noSpace => "No space left on device (os error 28)"
  | nameTooLong => "File name too long (os error 36)"
  | tooManyLinks => "Too many levels of symbolic links (os error 40)"
  | zeroInName => "file name contained an unexpected NUL byte"

end FileError

end SchemaUnfolding
