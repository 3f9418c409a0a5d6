import SchemaUnfolding.Command.Discovery
import SchemaUnfolding.Config

/-!
# Commands

What the program can be asked to do, and why arguments may ask for nothing that it can do.
-/

namespace SchemaUnfolding

/-- What the program can be asked to do. -/
inductive Command
  /-- Write the documents of all root fields below a directory. -/
  | generate (destination : String) (config : Config) (sources : SchemaSources)
  /-- Print the document of one root field. -/
  | print (kind : OperationKind) (field : String) (config : Config) (sources : SchemaSources)
deriving DecidableEq, Repr

/-- A call of the program. -/
structure Invocation where
  verbose : Bool := false
  command : Option Command := none
deriving DecidableEq, Repr

/-- What is wrong with arguments. -/
inductive Misuse
  | unknownArgument (argument : String)
  | unknownCommand (name : String)
  | missingValue (option : String)
  | emptyPath (option : String)
  | malformedValue (option value : String)
  | repeated (option : String)
  | unwantedValue (option value : String)
  | missing (options : List String)
deriving DecidableEq, Repr

/-- The wording of what is wrong with arguments. -/
def Misuse.message : Misuse → String
  | unknownArgument argument => s!"unexpected argument `{argument}`"
  | unknownCommand name => s!"unknown command `{name}`"
  | missingValue option => s!"`{option}` needs a value"
  | emptyPath option => s!"`{option}` needs a path that is not empty"
  | malformedValue option value => s!"`{value}` is no value for `{option}`"
  | repeated option => s!"`{option}` is given more than once"
  | unwantedValue option value => s!"`{option}` takes no value, but is given `{value}`"
  | missing options => "missing arguments: " ++ ", ".intercalate options

/-- Why arguments lead to no call of the program: they ask about the program, or are wrong. -/
inductive Diversion
  | help
  | version
  | misuse (cause : Misuse)
deriving DecidableEq, Repr

end SchemaUnfolding
