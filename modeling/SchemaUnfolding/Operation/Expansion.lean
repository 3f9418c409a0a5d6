import SchemaUnfolding.Config
import SchemaUnfolding.Event
import SchemaUnfolding.Operation.Edges
import SchemaUnfolding.Schema.Fault
import SchemaUnfolding.Operation.Selection

/-!
# Expanding fields

A field is expanded into a selection: below it the included fields of its type are expanded in
turn, and for an interface or a union the fields of the types it may stand for, in fragments. A field
with fields of its own is left out when it stands too deep or, unless edges may be repeated, when the
edge that leads to it has been expanded before. The depth limit alone ends the expansion, so the
number of levels that it leaves bounds the recursion.
-/

namespace SchemaUnfolding

/-- What an expansion has bound, expanded and reported so far. -/
structure Progress where
  scope : Variables := .empty
  edges : Edges := .empty
  events : Array Event := #[]

/-- A computation that expands fields. Progress is kept also when a fault ends it. -/
abbrev Expansion : Type → Type := ExceptT Fault (StateM Progress)

/-- How a field is reached: the field above it, or the root type, its depth, and whether it stands
below a fragment. -/
structure Site where
  container : String
  depth : Nat
  inFragment : Bool
deriving DecidableEq, Repr

namespace Site

/-- The site of a root field. -/
def root (type : String) : Site := ⟨type, 1, false⟩

/-- The site of a field directly below a field. -/
def below (site : Site) (field : String) : Site := ⟨field, site.depth + 1, site.inFragment⟩

/-- The site of a field in a fragment below a field. -/
def inFragmentBelow (site : Site) (field : String) : Site := ⟨field, site.depth + 2, true⟩

/-- The depth that counts for the limit: below a fragment two levels are forgiven. -/
def countedDepth (site : Site) : Nat := if site.inFragment then site.depth - 2 else site.depth

end Site

/-- Whether a field of a type is expanded with a selection of its own, and so may be left out. -/
def TypeDef.isComposite : TypeDef → Bool
  | .union type => !type.members.isEmpty
  | type => !type.isLeaf

/-! ## Leaving out -/

/-- What becomes of a field with fields of its own. -/
inductive Verdict
  | repeated
  | tooDeep
  | admitted
deriving DecidableEq, Repr

/-- Decide what becomes of a field with fields of its own. -/
def verdict (config : Config) (edges : Edges) (site : Site) (field : Field) : Verdict :=
  if !config.repeatEdges && edges.contains (Edges.key site.container field.name) then .repeated
  else if config.depthLimit < site.countedDepth then .tooDeep
  else .admitted

namespace Expansion

/-- Report an event. -/
def report (event : Event) : Expansion Unit :=
  modify fun progress => { progress with events := progress.events.push event }

/-- Decide about a field with fields of its own, and act on it: report a field that is left out, and
remember the edge to one that is expanded outside fragments. -/
def enter (config : Config) (site : Site) (field : Field) : Expansion Bool := do
  let key := Edges.key site.container field.name
  match verdict config (← get).edges site field with
  | .repeated =>
    report (.edgeRepeated field.parent field.name site.depth key)
    return false
  | .tooDeep =>
    report (.limitExceeded field.parent field.name site.countedDepth config.depthLimit)
    return false
  | .admitted =>
    unless site.inFragment do
      modify fun progress => { progress with edges := progress.edges.insert key }
    return true

/-- The type of a field. -/
def target (schema : Schema) (field : Field) : Expansion TypeDef :=
  match schema.type? field.type.name with
  | some type => return type
  | none => throw (.undefinedType field.parent field.name field.type.name)

/-- Bind variables to the parameters of a field. -/
def bindArguments (field : Field) : Expansion (List (String × String)) := do
  let progress ← get
  let (arguments, scope) := progress.scope.bindAll field.parameters.values
  set { progress with scope }
  return arguments

/-- Expand fields in order and keep those that are not left out. -/
def collect (expand : Field → Expansion (Option Selection)) :
    List Field → Expansion (List Selection)
  | [] => return []
  | field :: rest => do
    let selection ← expand field
    let selections ← collect expand rest
    return selection.toList ++ selections

/-- A fragment, unless it would be empty. -/
def fragment? (type : String) (selections : List Selection) : Option Selection :=
  if selections.isEmpty then none else some (.fragment type selections)

end Expansion

/-! ## Interfaces -/

namespace FieldedType

/-- The fields of a type that an interface does not define itself. -/
def fieldsBeyond (interface type : FieldedType) : List Field :=
  type.fields.values.filter fun field => !interface.fields.contains field.name

/-- Whether two of the types that an interface may stand for define a field of a name, which the
interface does not, with types that differ. Such fields go by an alias. -/
def isConflicting (interface : FieldedType) (possible : List FieldedType) (name : String) : Bool :=
  let types := ((possible.flatMap interface.fieldsBeyond).filter (·.name == name)).map (·.type)
  match types with
  | [] => false
  | first :: rest => rest.any fun other => !other.equivalent first

/-- The alias of a field in the fragment for a type, if it goes by one. -/
def label? (interface : FieldedType) (possible : List FieldedType) (type : FieldedType)
    (field : Field) : Option String :=
  if interface.isConflicting possible field.name then some (field.name ++ "_" ++ type.name)
  else none

end FieldedType

/-! ## Expansion -/

namespace Expansion

/-- How a field with an alias is expanded at a site. -/
abbrev Expander : Type := Option String → Site → Field → Expansion (Option Selection)

/-- The fragments of a field whose type is an interface, one for each type with a field to show. -/
def interfaceFragments (config : Config) (expand : Expander) (site : Site) (field : Field)
    (interface : FieldedType) (possible : List FieldedType) :
    List FieldedType → Expansion (List Selection)
  | [] => return []
  | type :: rest => do
    let fields := (interface.fieldsBeyond type).filter config.includes
    let selections ← collect
      (fun inner =>
        expand (interface.label? possible type inner) (site.inFragmentBelow field.name) inner)
      fields
    let fragments ← interfaceFragments config expand site field interface possible rest
    return (fragment? type.name selections).toList ++ fragments

/-- The fields of a member of a union. -/
def memberFields (schema : Schema) (union member : String) : Expansion (Table Field) :=
  match (schema.type? member).bind TypeDef.fields? with
  | some fields => return fields
  | none => throw (.unselectableMember union member)

/-- The fragments of a field whose type is a union, one for each member with a field to show. -/
def unionFragments (schema : Schema) (config : Config) (expand : Expander) (site : Site)
    (field : Field) (union : String) : List String → Expansion (List Selection)
  | [] => return []
  | member :: rest => do
    let fields ← memberFields schema union member
    let selections ← collect (expand none (site.inFragmentBelow field.name))
      (fields.values.filter config.includes)
    let fragments ← unionFragments schema config expand site field union rest
    return (fragment? member selections).toList ++ fragments

/-- What is selected below a field for the types it may stand for. -/
def polymorphic (schema : Schema) (config : Config) (expand : Expander) (site : Site)
    (field : Field) : TypeDef → Expansion (List Selection)
  | .interface interface => do
    let possible := schema.possibleTypes interface.name
    let fragments ← interfaceFragments config expand site field interface possible possible
    return .typename :: fragments
  | .union union =>
    if union.members.isEmpty then return []
    else do
      let members := union.members.names
      let fragments ← unionFragments schema config expand site field union.name members
      return .typename :: fragments
  | _ => return []

/-- The fields of a type that are selected outside fragments. -/
def ownFields (config : Config) (type : TypeDef) : List Field :=
  type.fields?.elim [] fun fields => fields.values.filter config.includes

/-- Expand a field, given how the fields below it are expanded. -/
def expandBy (schema : Schema) (config : Config) (below : Expander) : Expander :=
  fun label site field => do
    let type ← target schema field
    let admitted ← if type.isComposite then enter config site field else pure true
    if !admitted then return none
    let own ← collect (below none (site.below field.name)) (ownFields config type)
    let arguments ← bindArguments field
    let fragments ← polymorphic schema config below site field type
    return some (.field label field.name arguments (own ++ fragments))

/-- Expand a field with so many levels below it. -/
def expandWithin (schema : Schema) (config : Config) : Nat → Expander
  | 0 => expandBy schema config fun _ _ _ => return none
  | levels + 1 => expandBy schema config (expandWithin schema config levels)

/-- The number of levels below a site at which a field can still be admitted, and one more. -/
def levelsBelow (config : Config) (site : Site) : Nat := config.depthLimit + 3 - site.depth

/-- Expand a field at a site. -/
def expand (schema : Schema) (config : Config) (site : Site) (field : Field) :
    Expansion (Option Selection) :=
  expandWithin schema config (levelsBelow config site) none site field

/-- Expand the field of a name of a type at a site. -/
def expandNamed (schema : Schema) (config : Config) (site : Site) (type : TypeDef)
    (name : String) : Expansion (Option Selection) :=
  match type.fields?.bind (·.get? name) with
  | some field => expand schema config site field
  | none => throw (.missingField type.kind type.name name)

end Expansion

end SchemaUnfolding
