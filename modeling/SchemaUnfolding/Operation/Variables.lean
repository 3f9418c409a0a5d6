import SchemaUnfolding.Schema.Basic

/-!
# Variables

Each argument in a document is bound to a variable of its own. The first parameter of a name lends
its name to its variable; later ones get the name with a number after it. A number is never used
again for the same name, and a numbered name that a variable already has is passed over.
-/

namespace SchemaUnfolding

/-- The variables of a document with the parameters they stand for, in order of their binding, and
the last number that was put after each name. -/
structure Variables where
  bound : Table Parameter := .empty
  numbers : Table Nat := .empty

namespace Variables

/-- No variables. -/
def empty : Variables := {}

/-- A name with a number after it. -/
def numbered (name : String) (number : Nat) : String := name ++ toString number

/-- The first number from `number` on that gives a name no variable has, if it comes within so many
steps. As many steps as there are variables are enough. -/
def freeNumber (bound : Table Parameter) (name : String) : Nat → Nat → Nat
  | 0, number => number
  | steps + 1, number =>
    if bound.contains (numbered name number) then freeNumber bound name steps (number + 1)
    else number

/-- Choose the name of the variable for a parameter of a name. -/
def allocate (scope : Variables) (name : String) : String × Variables :=
  if scope.numbers.contains name || scope.bound.contains name then
    let last := (scope.numbers.get? name).getD 0
    let number := freeNumber scope.bound name scope.bound.size (last + 1)
    (numbered name number, { scope with numbers := scope.numbers.insert name number })
  else (name, scope)

/-- Bind a variable to a parameter. -/
def bind (scope : Variables) (parameter : Parameter) : String × Variables :=
  let (name, scope) := scope.allocate parameter.name
  (name, { scope with bound := scope.bound.insert name parameter })

/-- Bind variables to parameters in order. The result pairs the name of each parameter with its
variable. -/
def bindAll (scope : Variables) : List Parameter → List (String × String) × Variables
  | [] => ([], scope)
  | parameter :: rest =>
    let (name, scope) := scope.bind parameter
    let (arguments, scope) := scope.bindAll rest
    ((parameter.name, name) :: arguments, scope)

/-- The names of the variables in order. -/
def names (scope : Variables) : List String := scope.bound.names

/-- The variables with the types they are declared with, in order. -/
def declarations (scope : Variables) : List (String × TypeRef) :=
  scope.bound.entries.map fun (name, parameter) => (name, parameter.type)

end Variables

/-- The text of declarations of variables. -/
def declarationsText (declarations : List (String × TypeRef)) : String :=
  ", ".intercalate (declarations.map fun (name, type) => "$" ++ name ++ ": " ++ type.text)

/-- The text of arguments: each parameter with its variable. -/
def argumentsText (arguments : List (String × String)) : String :=
  ", ".intercalate (arguments.map fun (parameter, name) => parameter ++ ": $" ++ name)

end SchemaUnfolding
