import SchemaUnfolding.Operation.Generation
import SchemaUnfolding.Proofs.Schema.Closed

/-!
# What an operation depends on

The operation of a root field depends on the types that the field involves and on nothing else in
the schema: two schemas that agree about those types answer a request for it alike, with the same
operation or the same fault, and report the same events.

The types involved are found from the schema alone, by following the names in definitions.
-/

namespace SchemaUnfolding

/-! ## Types involved -/

namespace Schema

/-- The names that the definition under a name leads to: the types of its fields, the members of a
union, and the types that an interface may stand for with the types of their fields. The latter are
listed here because nothing but well-formedness says that such a type is found under its name. -/
def mentioned (schema : Schema) (name : String) : List String :=
  let targets (type : FieldedType) : List String := type.fields.values.map (·.type.name)
  match schema.type? name with
  | some (.object type) => targets type
  | some (.interface interface) =>
    targets interface ++
      (schema.possibleTypes interface.name).flatMap fun type => type.name :: targets type
  | some (.union union) => union.members.names
  | _ => []

/-- The names of the types that a field involves: that of its own type, and whatever the definitions
under such names lead to. -/
inductive Involves (schema : Schema) (start : Field) : String → Prop
  | start : Involves schema start start.type.name
  | onward {name next : String} :
      Involves schema start name → next ∈ schema.mentioned name → Involves schema start next

/-- Names among which the names mentioned under them are again hold all that a field involves. -/
theorem Involves.mem_of_closed {schema : Schema} {field : Field} {names : List String}
    (first : field.type.name ∈ names)
    (closed : ∀ name ∈ names, ∀ next ∈ schema.mentioned name, next ∈ names) {name : String}
    (involved : schema.Involves field name) : name ∈ names := by
  induction involved with
  | start => exact first
  | onward _ mentioned ih => exact closed _ ih _ mentioned

/-- Two schemas agree about what a field involves in the first: they have the same definitions, and
their interfaces may stand for the same types. -/
structure AgreesOn (schema other : Schema) (start : Field) : Prop where
  types : ∀ name, schema.Involves start name → other.type? name = schema.type? name
  possible : ∀ name interface, schema.Involves start name →
    schema.type? name = some (.interface interface) →
    other.possibleTypes interface.name = schema.possibleTypes interface.name

section Mentioned

variable {schema : Schema} {start : Field} {name : String}

theorem Involves.of_mem_ownFields {config : Config} {type : TypeDef} {field : Field}
    (involved : schema.Involves start name) (found : schema.type? name = some type)
    (own : field ∈ Expansion.ownFields config type) : schema.Involves start field.type.name := by
  apply involved.onward
  rw [mentioned, found]
  cases type with
  | object type => exact List.mem_map_of_mem (List.mem_filter.mp own).1
  | interface type =>
    exact List.mem_append_left _ (List.mem_map_of_mem (List.mem_filter.mp own).1)
  | _ => cases own

theorem Involves.of_mem_possibleTypes {interface type : FieldedType} {field : Field}
    (involved : schema.Involves start name)
    (found : schema.type? name = some (.interface interface))
    (possible : type ∈ schema.possibleTypes interface.name)
    (declared : field ∈ type.fields.values) : schema.Involves start field.type.name := by
  apply involved.onward
  rw [mentioned, found]
  apply List.mem_append_right
  exact List.mem_flatMap.mpr ⟨type, possible, List.mem_cons_of_mem _ (List.mem_map_of_mem declared)⟩

theorem Involves.of_mem_members {union : UnionType} {member : String}
    (involved : schema.Involves start name) (found : schema.type? name = some (.union union))
    (listed : member ∈ union.members.names) : schema.Involves start member := by
  apply involved.onward
  rw [mentioned, found]
  exact listed

end Mentioned

end Schema

/-! ## Expansion -/

namespace Expansion

variable {schema other : Schema} {config : Config} {start : Field} {first second : Expander}
  {site : Site}

/-- Two ways of expanding fields are the same for fields whose types a field involves. -/
def SameOn (schema : Schema) (start : Field) (first second : Expander) : Prop :=
  ∀ label site field, schema.Involves start field.type.name →
    first label site field = second label site field

theorem throw_bind {α β : Type} (fault : Fault) (next : α → Expansion β) :
    (throw fault >>= next : Expansion β) = throw fault :=
  rfl

theorem collect_congr {expand expand' : Field → Expansion (Option Selection)} {fields : List Field}
    (same : ∀ field ∈ fields, expand field = expand' field) :
    collect expand fields = collect expand' fields := by
  induction fields with
  | nil => rfl
  | cons field rest ih =>
    have head := same field (List.mem_cons_self ..)
    have tail := ih fun inner member => same inner (List.mem_cons_of_mem _ member)
    simp only [collect, head, tail]

theorem SameOn.interfaceFragments_eq (same : SameOn schema start first second) (config : Config)
    (site : Site) (field : Field) (interface : FieldedType) (possible : List FieldedType)
    {types : List FieldedType}
    (involved : ∀ type ∈ types, ∀ inner ∈ type.fields.values,
      schema.Involves start inner.type.name) :
    interfaceFragments config first site field interface possible types =
      interfaceFragments config second site field interface possible types := by
  induction types with
  | nil => rfl
  | cons type rest ih =>
    have fields : ∀ inner ∈ (interface.fieldsBeyond type).filter config.includes,
        first (interface.label? possible type inner) (site.inFragmentBelow field.name) inner =
          second (interface.label? possible type inner) (site.inFragmentBelow field.name) inner :=
      fun inner member => same _ _ _ (involved type (List.mem_cons_self ..) inner
        (List.mem_filter.mp (List.mem_filter.mp member).1).1)
    have others := ih fun type member => involved type (List.mem_cons_of_mem _ member)
    simp only [interfaceFragments, collect_congr fields, others]

theorem SameOn.unionFragments_eq (same : SameOn schema start first second)
    (agree : schema.AgreesOn other start) (config : Config) (site : Site) (field : Field)
    (union : String) {members : List String}
    (involved : ∀ member ∈ members, schema.Involves start member) :
    unionFragments schema config first site field union members =
      unionFragments other config second site field union members := by
  induction members with
  | nil => rfl
  | cons member rest ih =>
    have known := involved member (List.mem_cons_self ..)
    have others := ih fun member listed => involved member (List.mem_cons_of_mem _ listed)
    simp only [unionFragments, memberFields, agree.types member known, others]
    cases declares : (schema.type? member).bind TypeDef.fields? with
    | none => simp only [throw_bind]
    | some fields =>
      obtain ⟨type, found, held⟩ := Option.bind_eq_some_iff.mp declares
      have own : fields.values.filter config.includes = ownFields config type := by
        rw [ownFields, held, Option.elim]
      have each : ∀ inner ∈ fields.values.filter config.includes,
          first none (site.inFragmentBelow field.name) inner =
            second none (site.inFragmentBelow field.name) inner :=
        fun inner listed => same _ _ _ (known.of_mem_ownFields found (own ▸ listed))
      simp only [pure_bind, collect_congr each]

theorem SameOn.polymorphic_eq (same : SameOn schema start first second)
    (agree : schema.AgreesOn other start) {field : Field} {type : TypeDef} {name : String}
    (involved : schema.Involves start name) (found : schema.type? name = some type) :
    polymorphic schema config first site field type =
      polymorphic other config second site field type := by
  cases type with
  | interface interface =>
    have fragments := same.interfaceFragments_eq config site field interface
      (schema.possibleTypes interface.name) fun type possible inner declared =>
        involved.of_mem_possibleTypes found possible declared
    simp only [polymorphic, agree.possible name interface involved found, fragments]
  | union union =>
    have fragments := same.unionFragments_eq agree config site field union.name
      fun member listed => involved.of_mem_members found listed
    simp only [polymorphic, fragments]
  | _ => rfl

/-- One round of expansion is the same in schemas that agree when the expansion of the fields below
is. -/
theorem SameOn.expandBy (same : SameOn schema start first second)
    (agree : schema.AgreesOn other start) :
    SameOn schema start (expandBy schema config first) (expandBy other config second) := by
  intro label site field involved
  have resolved := agree.types _ involved
  simp only [Expansion.expandBy, target, resolved]
  cases found : schema.type? field.type.name with
  | none => simp only [throw_bind]
  | some type =>
    have own : ∀ inner ∈ ownFields config type,
        first none (site.below field.name) inner = second none (site.below field.name) inner :=
      fun inner member => same _ _ _ (involved.of_mem_ownFields found member)
    simp only [pure_bind, collect_congr own, same.polymorphic_eq agree involved found]

theorem sameOn_expandWithin (agree : schema.AgreesOn other start) (levels : Nat) :
    SameOn schema start (expandWithin schema config levels) (expandWithin other config levels) := by
  induction levels with
  | zero => exact SameOn.expandBy (fun _ _ _ _ => rfl) agree
  | succ levels ih => exact ih.expandBy agree

/-- A field is expanded alike in schemas that agree about what it involves. -/
theorem expand_eq_of_agreesOn {field : Field} (agree : schema.AgreesOn other field)
    (config : Config) (site : Site) :
    expand schema config site field = expand other config site field :=
  sameOn_expandWithin agree _ _ _ _ .start

end Expansion

/-! ## Requests -/

/-- The answer to a request for the operation of a root field depends on the name of the root type,
the field and what the field involves: two schemas that agree about these answer alike, whatever
else they define and in whatever order. -/
theorem Generation.named_eq_of_agreesOn {schema other : Schema} {kind : OperationKind}
    {root otherRoot : FieldedType} {name : String} {field : Field}
    (rooted : schema.root? kind = some root) (otherRooted : other.root? kind = some otherRoot)
    (sameName : otherRoot.name = root.name) (declared : root.fields.get? name = some field)
    (otherDeclared : otherRoot.fields.get? name = some field) (agree : schema.AgreesOn other field)
    (config : Config) : named schema config kind name = named other config kind name := by
  have expanded := Expansion.expand_eq_of_agreesOn agree config (.root root.name)
  have same : operation schema config kind root field =
      operation other config kind otherRoot field := by
    simp only [operation, sameName, expanded]
  simp only [named, rooted, otherRooted, declared, otherDeclared, same]

/-! ## A larger schema -/

/-- The source of a schema that defines all that the small one does and more: another root field
with a type of its own, a union and a root type for mutations. -/
def largerSource : String :=
  sampleSource ++ " type Z { z: Z } extend type Query { z: Z } union U = C | Z " ++
    "type Mutation { u: U }"

/-- A field of the larger schema. -/
def largerField (holder name type : String) (column : Nat) : Field :=
  ⟨sampleAt column, none, none, name, .empty, holder, .named true ⟨type, sampleAt column⟩⟩

/-- The root type of the larger schema. -/
def largerQuery : FieldedType :=
  { sampleQuery with
    fields := .ofList [("n", sampleField "Query" 14 16), ("z", largerField "Query" "z" "Z" 128)] }

/-- The larger schema. -/
def largerSchema : Schema where
  query := some ⟨"Query", sampleAt 1⟩
  mutation := some ⟨"Mutation", sampleAt 151⟩
  subscription := none
  types := TypeDef.builtIns.insertAll
    [("Query", .object largerQuery), ("N", .interface sampleInterface),
      ("C", .object sampleImplementor),
      ("Z", .object ⟨sampleAt 92, none, .ofList [("z", largerField "Z" "z" "Z" 101)], [], "Z"⟩),
      ("U", .union ⟨sampleAt 135, none, "U",
        .ofList [("C", ⟨"C", sampleAt 135⟩), ("Z", ⟨"Z", sampleAt 135⟩)]⟩),
      ("Mutation",
        .object ⟨sampleAt 151, none, .ofList [("u", largerField "Mutation" "u" "U" 167)], [],
          "Mutation"⟩)]

theorem load_largerSource :
    SchemaBuilder.empty.load none largerSource = ([], .ok { types := largerSchema.types }) := by
  refine (SchemaBuilder.load_of_toList (toList_append_of_toList
    (toList_append_of_toList String.toList_ofList String.toList_ofList)
    String.toList_ofList)).trans ?_
  cbv

theorem largerSchema_checked : largerSchema.Checked := by
  refine ⟨{ types := largerSchema.types }, .load .empty load_largerSource, rfl, ?_⟩
  cbv

/-- The small schema and the larger one answer a request for the root field `n` alike. -/
theorem largerSchema_named_eq :
    sampleSchema.Checked ∧ largerSchema.Checked ∧ sampleSchema ≠ largerSchema ∧
      Generation.named sampleSchema {} .query "n" =
        Generation.named largerSchema {} .query "n" := by
  have involved : ∀ name, sampleSchema.Involves (sampleField "Query" 14 16) name →
      name ∈ ["N", "ID", "C"] := by
    intro name known
    exact known.mem_of_closed (by decide) (by decide)
  have types : ∀ name ∈ ["N", "ID", "C"],
      largerSchema.type? name = sampleSchema.type? name := by
    decide
  have possible : ∀ name ∈ ["N", "ID", "C"],
      largerSchema.possibleTypes name = sampleSchema.possibleTypes name := by
    decide
  have agree : sampleSchema.AgreesOn largerSchema (sampleField "Query" 14 16) := by
    constructor
    · intro name known
      exact types name (involved name known)
    · intro name interface known found
      have keyed := sampleSchema_checked.built.wellFormed.types.types.keyed
      have named : interface.name = name := (keyed.get?_eq_some_iff.mp found).2
      rw [named]
      exact possible name (involved name known)
  have rooted : sampleSchema.root? .query = some sampleQuery := by decide
  have otherRooted : largerSchema.root? .query = some largerQuery := by decide
  have declared : sampleQuery.fields.get? "n" = some (sampleField "Query" 14 16) := by
    decide
  have otherDeclared : largerQuery.fields.get? "n" = some (sampleField "Query" 14 16) := by
    decide
  exact ⟨sampleSchema_checked, largerSchema_checked, by decide,
    Generation.named_eq_of_agreesOn rooted otherRooted rfl declared otherDeclared agree {}⟩

end SchemaUnfolding
