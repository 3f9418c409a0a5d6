/-!
# JSON values

A JSON text as data. Objects keep the order of their members and members that repeat a name;
whether a repetition is an error is up to the reader of the object. A number that is written with
digits only is a natural number; every other number keeps its spelling. So does a value that the
grammar allows and that stands for nothing.
-/

namespace SchemaUnfolding

/-- A JSON value. -/
inductive Json
  | null
  | bool (value : Bool)
  | natural (value : Nat)
  | numeral (spelling : String)
  | string (text : String)
  | array (items : List Json)
  | object (members : List (String × Json))
  /-- A string with half a surrogate pair, which stands for no character, or an object in which such
  a string is a name. -/
  | unreadable (spelling : String)
deriving Inhabited

end SchemaUnfolding
