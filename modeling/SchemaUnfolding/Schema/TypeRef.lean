import SchemaUnfolding.Location
import SchemaUnfolding.Sdl.Syntax

/-!
# References to types

A field, a parameter or an input field refers to a type by name, perhaps inside lists. Every level
of a reference says whether null is allowed there. The written form marks the levels that are *not*
nullable, so reading it moves each mark to the level that it stands at.
-/

namespace SchemaUnfolding

/-- A type's name and where it was written. -/
structure NamedRef where
  name : String
  location : Location
deriving DecidableEq, Repr

/-- A reference to a type, with the nullability of each level. -/
inductive TypeRef
  | named (nullable : Bool) (target : NamedRef)
  | list (nullable : Bool) (item : TypeRef) (location : Location)
deriving DecidableEq, Repr

namespace TypeRef

/-- The reference that a written type denotes below a level of known nullability. -/
def ofExprAt (location : Location) : Bool → Sdl.TypeExpr → TypeRef
  | nullable, .named name => named nullable ⟨name, location⟩
  | nullable, .list item => list nullable (ofExprAt location true item) location
  | _, .nonNull type => ofExprAt location false type

/-- The reference that a written type denotes. -/
def ofExpr (location : Location) (type : Sdl.TypeExpr) : TypeRef := ofExprAt location true type

/-- Whether null is allowed at the outermost level. -/
def nullable : TypeRef → Bool
  | named nullable _ => nullable
  | list nullable _ _ => nullable

/-- Whether null is allowed at each level, from the outside inwards. -/
def nullability : TypeRef → List Bool
  | named nullable _ => [nullable]
  | list nullable item _ => nullable :: item.nullability

/-- The name inside all lists. -/
def name : TypeRef → String
  | named _ target => target.name
  | list _ item _ => item.name

/-- Where the outermost level was written. -/
def location : TypeRef → Location
  | named _ target => target.location
  | list _ _ location => location

/-- Whether two references agree apart from where they were written: in their lists, in the
nullability of each level and in the name. -/
def equivalent : TypeRef → TypeRef → Bool
  | named nullable target, named nullable' target' =>
    nullable == nullable' && target.name == target'.name
  | list nullable item _, list nullable' item' _ => nullable == nullable' && item.equivalent item'
  | _, _ => false

/-- The mark of a level. -/
def mark (nullable : Bool) : String := if nullable then "" else "!"

/-- The spelling of a reference. -/
def text : TypeRef → String
  | named nullable target => target.name ++ mark nullable
  | list nullable item _ => "[" ++ item.text ++ "]" ++ mark nullable

end TypeRef

end SchemaUnfolding
