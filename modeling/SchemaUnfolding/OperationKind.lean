import SchemaUnfolding.Text.Blank

/-!
# Kinds of operation

A schema has up to three root types, one for each kind of operation.
-/

namespace SchemaUnfolding

/-- The three kinds of operation. -/
inductive OperationKind
  | query
  | mutation
  | subscription
deriving DecidableEq, Repr

namespace OperationKind

/-- The kinds in the order in which they are generated. -/
def all : List OperationKind := [query, mutation, subscription]

/-- The keyword that opens an operation of a kind. -/
def keyword : OperationKind → String
  | query => "query"
  | mutation => "mutation"
  | subscription => "subscription"

/-- The directory that holds the documents of a kind. -/
def directory : OperationKind → String
  | query => "queries"
  | mutation => "mutations"
  | subscription => "subscriptions"

/-- The name a root type has when a schema does not choose one. -/
def defaultRoot : OperationKind → String
  | query => "Query"
  | mutation => "Mutation"
  | subscription => "Subscription"

/-- Read the name of a kind, in the singular or the plural, without regard to blanks around it and
to the case of its letters. What could not be read is returned without blanks and in lower case. -/
def ofText (text : String) : Except String OperationKind :=
  let name := Text.lowerAscii (Text.trim text)
  match all.find? fun kind => name = kind.keyword ∨ name = kind.directory with
  | some kind => .ok kind
  | none => .error name

/-- The message about a text that names no kind. -/
def unknownMessage (name : String) : String :=
  s!"`{name}` is not an operation kind (expected one of `query`, `mutation`, or `subscription`)"

end OperationKind

end SchemaUnfolding
