import SchemaUnfolding.Config
import SchemaUnfolding.Proofs.Unfolding.Spots

/-!
# The unfolding of a schema

A field unfolds into paths through the types of a schema, cut off at a depth. This file says which
paths there are and what stands below their ends, in terms of the schema alone: it knows nothing of
how documents are generated, of edges or of progress.
-/

namespace SchemaUnfolding

/-- A stop of a path: a field with the type of the fragment that it stands in, its depth, and
whether there is a fragment above it. -/
structure Stop where
  condition : Option String
  field : Field
  depth : Nat
  inFragment : Bool
deriving DecidableEq

/-- The fields of the type of a name, if it has any. -/
def Schema.fieldsOf (schema : Schema) (name : String) : List Field :=
  ((schema.type? name).bind TypeDef.fields?).elim [] Table.values

namespace Stop

/-- The stop at which every path of a root field starts. -/
def start (field : Field) : Stop := ⟨none, field, 1, false⟩

/-- The step that a stop is in a document. -/
def step (stop : Stop) : Step := ⟨stop.condition, stop.field.name⟩

/-- The stop at a field directly below. -/
def below (stop : Stop) (field : Field) : Stop := ⟨none, field, stop.depth + 1, stop.inFragment⟩

/-- The stop at a field in a fragment below. -/
def branch (stop : Stop) (type : String) (field : Field) : Stop :=
  ⟨some type, field, stop.depth + 2, true⟩

/-- The depth that counts for the limit. -/
def countedDepth (stop : Stop) : Nat := if stop.inFragment then stop.depth - 2 else stop.depth

/-- A stop is within the limit, or its field has no fields of its own. -/
def isAllowed (schema : Schema) (config : Config) (stop : Stop) : Bool :=
  match schema.type? stop.field.type.name with
  | some (.object _) | some (.interface _) => stop.countedDepth ≤ config.depthLimit
  | some (.union union) => union.members.isEmpty || stop.countedDepth ≤ config.depthLimit
  | _ => true

end Stop

/-- How paths continue from one stop to the next. -/
inductive Continues (schema : Schema) (config : Config) (stop : Stop) : Stop → Prop
  /-- From an object type or an interface to an included field of it. -/
  | own {type : TypeDef} {fields : Table Field} {field : Field} :
      schema.type? stop.field.type.name = some type → type.fields? = some fields →
      field ∈ fields.values → config.includes field = true →
      Continues schema config stop (stop.below field)
  /-- From an interface to an included field of a type it may stand for, unless the interface
  defines a field of that name itself. -/
  | possible {interface type : FieldedType} {field : Field} :
      schema.type? stop.field.type.name = some (.interface interface) →
      type ∈ schema.possibleTypes interface.name → field ∈ type.fields.values →
      field.name ∉ interface.fields.names → config.includes field = true →
      Continues schema config stop (stop.branch type.name field)
  /-- From a union to an included field of a member. -/
  | member {union : UnionType} {member : String} {field : Field} :
      schema.type? stop.field.type.name = some (.union union) →
      member ∈ union.members.names → field ∈ schema.fieldsOf member →
      config.includes field = true →
      Continues schema config stop (stop.branch member field)

/-- Paths continue to fields that are not deprecated, and to others only when they are asked for. -/
theorem Continues.included {schema : Schema} {config : Config} {stop next : Stop}
    (continued : Continues schema config stop next) :
    next.field.deprecation = none ∨ config.includeDeprecated = true := by
  rw [← Config.includes_iff]
  cases continued <;> assumption

namespace Stop

variable (schema : Schema) (config : Config)

/-- The names of the fields that make allowed stops, in order. -/
def shown (reach : Field → Stop) (fields : List Field) : List String :=
  (fields.filter fun field => (reach field).isAllowed schema config).map Field.name

/-- The fragment for a type with fields of some names, unless it would be empty. -/
def fragmentOf (type : String) (names : List String) : List Sibling :=
  if names.isEmpty then [] else [.fragment type names]

/-- What stands below a stop: own fields in the order of their definitions, then the name of the
type at hand and the fragments in the order of the types that an interface may stand for, or of the
members of a union. -/
def siblings (stop : Stop) : List Sibling :=
  match schema.type? stop.field.type.name with
  | some (.object type) =>
    (shown schema config stop.below (type.fields.values.filter config.includes)).map .field
  | some (.interface interface) =>
    (shown schema config stop.below (interface.fields.values.filter config.includes)).map .field ++
      .typename :: (schema.possibleTypes interface.name).flatMap fun type =>
        fragmentOf type.name (shown schema config (stop.branch type.name)
          ((type.fields.values.filter fun field => field.name ∉ interface.fields.names).filter
            config.includes))
  | some (.union union) =>
    if union.members.isEmpty then []
    else .typename :: union.members.names.flatMap fun member =>
      fragmentOf member (shown schema config (stop.branch member)
        ((schema.fieldsOf member).filter config.includes))
  | _ => []

end Stop

/-- The paths of a stop with what stands below their ends: every stop on the way is allowed. -/
inductive Unfolds (schema : Schema) (config : Config) : Stop → Spot → Prop
  | here {stop : Stop} :
      stop.isAllowed schema config = true →
      Unfolds schema config stop ⟨[stop.step], stop.siblings schema config⟩
  | onward {stop next : Stop} {spot : Spot} :
      stop.isAllowed schema config = true → Continues schema config stop next →
      Unfolds schema config next spot →
      Unfolds schema config stop (spot.under stop.step)

/-- A path into which a stop unfolds starts with the step of that stop. -/
theorem Unfolds.head?_path {schema : Schema} {config : Config} {stop : Stop} {spot : Spot}
    (unfolded : Unfolds schema config stop spot) : spot.path.head? = some stop.step := by
  cases unfolded <;> rfl

theorem unfolds_iff {schema : Schema} {config : Config} {stop : Stop} {spot : Spot} :
    Unfolds schema config stop spot ↔
      stop.isAllowed schema config = true ∧
        (spot = ⟨[stop.step], stop.siblings schema config⟩ ∨
          ∃ next inner, Continues schema config stop next ∧ Unfolds schema config next inner ∧
            spot = inner.under stop.step) := by
  constructor
  · rintro (allowed | ⟨allowed, continued, unfolded⟩)
    · exact ⟨allowed, .inl rfl⟩
    · exact ⟨allowed, .inr ⟨_, _, continued, unfolded, rfl⟩⟩
  · rintro ⟨allowed, rfl | ⟨next, inner, continued, unfolded, rfl⟩⟩
    · exact .here allowed
    · exact .onward allowed continued unfolded

end SchemaUnfolding
