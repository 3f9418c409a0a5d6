import SchemaUnfolding.Json
import SchemaUnfolding.Table

/-!
# Reading data from JSON values

Readers for the shapes that data takes: records with named fields, tables, lists, and alternatives
with a tag. A record may also be written as the array of its fields. Containers may nest only so
deep; each reader is told how many more levels are left.
-/

namespace SchemaUnfolding.Json

universe u

/-- A reader of JSON values, given how many levels of containers are left. -/
abbrev Decoder (α : Type u) : Type u := Nat → Json → Option α

/-- How deep the containers of a readable value may nest. -/
def nestingLimit : Nat := 127

/-- The members of an object with a name. -/
def membersNamed (name : String) (members : List (String × Json)) : List Json :=
  (members.filter (·.1 == name)).map (·.2)

/-- The fields of a record by name. Fields without a value are missing, unknown fields do not
matter, and no field occurs twice. As an array a record has all its fields in order. -/
def fields? (names : List String) : Json → Option (List (Option Json))
  | object members =>
    if names.all fun name => (membersNamed name members).length ≤ 1 then
      some (names.map fun name => (membersNamed name members).head?)
    else none
  | array items => if items.length = names.length then some (items.map some) else none
  | _ => none

/-- Read a text. -/
def text? : Json → Option String
  | string text => some text
  | _ => none

/-- Read a truth value. -/
def bool? : Json → Option Bool
  | bool value => some value
  | _ => none

/-- Read a natural number of 64 bits. -/
def natural? : Json → Option Nat
  | natural value => if value < Nat.pow 2 64 then some value else none
  | _ => none

/-- Read a field that has to be there. -/
def required {α : Type u} (read : Json → Option α) (field : Option Json) : Option α :=
  field.bind read

/-- Read a field that may be missing or null. -/
def optional {α : Type u} (read : Json → Option α) : Option Json → Option (Option α)
  | none | some null => some none
  | some value => (read value).map some

/-- Read a list. -/
def list? {α : Type u} (read : Decoder α) : Decoder (List α)
  | room + 1, array items => items.mapM (read room)
  | _, _ => none

/-- Read a table. Of two members with one name the first gives the place and the last the value. -/
def table? {α : Type} (read : Decoder α) : Decoder (Table α)
  | room + 1, object members =>
    (members.mapM fun member : String × Json =>
      (read room member.2).map fun value => (member.1, value)).map Table.ofList
  | _, _ => none

/-- An alternative without content. -/
def isUnit (tag : String) : Nat → Json → Bool
  | _, string text => text == tag
  | _ + 1, object [(name, null)] => name == tag
  | _, _ => false

/-- The tag and the content of an alternative. -/
def tagged? : Decoder (String × Json)
  | _ + 1, object [(tag, content)] => some (tag, content)
  | _, _ => none

end SchemaUnfolding.Json
