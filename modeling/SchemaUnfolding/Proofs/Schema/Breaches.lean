import SchemaUnfolding.Proofs.Assembly.Reordering

/-!
# Breaches of the rules between types

A schema demands of each name in it that it leads to a type of a proper kind. A rule is broken when
a name leads to no type or to one of another kind, and when an enumeration or a union is empty.
Checking a schema finds a violation for each breach and nothing else, and apart from that it changes
nothing about how a schema is built.
-/

namespace SchemaUnfolding

/-! ## Demands -/

/-- What is asked of the type that a name leads to: its kind, and the violations when there is no
such type and when it is of another kind. -/
structure Demand where
  name : String
  allows : TypeKind → Prop
  undefined : Violation
  improper : TypeKind → Violation

namespace Demand

/-- A root type is an object type. -/
def ofRoot (operation : OperationKind) (root : NamedRef) : Demand where
  name := root.name
  allows kind := kind = .object
  undefined := .rootUndefined operation root.name root.location
  improper kind := .rootNotObject operation root.name kind root.location

/-- What a type declares to implement is an interface. The violations stand where the type is
defined. -/
def ofInterface (type : TypeDef) (interface : NamedRef) : Demand where
  name := interface.name
  allows kind := kind = .interface
  undefined := .implementsUndefined type.name interface.name type.location
  improper _ := .implementsNonInterface type.name interface.name type.location

/-- The result of a field is no input type. -/
def ofResult (type : TypeDef) (field : Field) : Demand where
  name := field.type.name
  allows kind := kind ≠ .input
  undefined := .undefinedType field.type.name field.type.location
  improper _ := .inputAsResult type.name field.name field.type.name field.location

/-- The type of a parameter is one that parameters can have. -/
def ofParameter (type : TypeDef) (field : Field) (parameter : Parameter) : Demand where
  name := parameter.type.name
  allows kind := kind.isInput = true
  undefined := .undefinedType parameter.type.name parameter.type.location
  improper _ := .parameterNotInput type.name field.name parameter.name parameter.type.name
    parameter.location

/-- The type of a field of an input type is one that parameters can have. -/
def ofInputField (type : TypeDef) (field : InputField) : Demand where
  name := field.type.name
  allows kind := kind.isInput = true
  undefined := .undefinedType field.type.name field.type.location
  improper _ := .inputFieldNotInput type.name field.name field.type.name field.location

/-- A member of a union is an object type. -/
def ofMember (type : TypeDef) (member : NamedRef) : Demand where
  name := member.name
  allows kind := kind = .object
  undefined := .undefinedType member.name member.location
  improper kind := .memberNotObject type.name member.name kind member.location

/-- A demand is not met, and this is the violation that says so. -/
inductive Breaks (types : Table TypeDef) (demand : Demand) : Violation → Prop
  | undefined (missing : kindAt types demand.name = none) : Breaks types demand demand.undefined
  | improper {kind : TypeKind} (found : kindAt types demand.name = some kind)
      (other : ¬ demand.allows kind) : Breaks types demand (demand.improper kind)

end Demand

/-- The demands that a type makes of the names in it. -/
inductive TypeDef.Demands (type : TypeDef) : Demand → Prop
  | interface {interface : NamedRef} (declared : interface ∈ type.declaredInterfaces) :
      Demands type (.ofInterface type interface)
  | result {name : String} {field : Field} (declared : (name, field) ∈ type.fieldEntries) :
      Demands type (.ofResult type field)
  | parameter {name : String} {field : Field} {parameter : Parameter}
      (declared : (name, field) ∈ type.fieldEntries)
      (taken : parameter ∈ field.parameters.values) :
      Demands type (.ofParameter type field parameter)
  | inputField {name : String} {field : InputField}
      (declared : (name, field) ∈ type.inputEntries) :
      Demands type (.ofInputField type field)
  | member {name : String} {member : NamedRef} (listed : (name, member) ∈ type.memberEntries) :
      Demands type (.ofMember type member)

/-- A type breaks a rule: it makes a demand that is not met, or it is empty. -/
inductive TypeDef.Breaks (types : Table TypeDef) (type : TypeDef) : Violation → Prop
  | demand {demand : Demand} {violation : Violation} (made : type.Demands demand)
      (broken : demand.Breaks types violation) : Breaks types type violation
  | emptyEnum (kind : type.kind = .enum) (empty : type.valueEntries = []) :
      Breaks types type (.emptyEnum type.name type.location)
  | emptyUnion (kind : type.kind = .union) (empty : type.memberEntries = []) :
      Breaks types type (.emptyUnion type.name type.location)

/-- A schema breaks a rule, at one of its root types or in one of its types, and this is the
violation that names the offender and its location. -/
inductive Schema.Breaks (schema : Schema) : Violation → Prop
  | root {operation : OperationKind} {root : NamedRef} {violation : Violation}
      (rooted : schema.rootRef? operation = some root)
      (broken : (Demand.ofRoot operation root).Breaks schema.types violation) :
      Breaks schema violation
  | type {type : TypeDef} {violation : Violation} (held : type ∈ schema.types.values)
      (broken : type.Breaks schema.types violation) : Breaks schema violation

/-! ## What is found about a name -/

section Found

variable {types : Table TypeDef} {violation : Violation} {demand : Demand}

theorem Demand.breaks_iff_of_get?_eq_none (missing : types.get? demand.name = none) :
    demand.Breaks types violation ↔ violation = demand.undefined := by
  have none : kindAt types demand.name = none := by rw [kindAt, missing]; rfl
  constructor
  · rintro (_ | ⟨found, _⟩)
    · rfl
    · rw [none] at found
      cases found
  · rintro rfl
    exact .undefined none

theorem Demand.breaks_iff_of_get?_eq_some {target : TypeDef}
    (found : types.get? demand.name = some target) :
    demand.Breaks types violation ↔
      ¬ demand.allows target.kind ∧ violation = demand.improper target.kind := by
  have known : kindAt types demand.name = some target.kind := by rw [kindAt, found]; rfl
  constructor
  · rintro (none | ⟨same, other⟩)
    · rw [known] at none
      cases none
    · cases known.symm.trans same
      exact ⟨other, rfl⟩
  · rintro ⟨other, rfl⟩
    exact .improper known other

namespace Violation

theorem mem_ofRoot_iff {operation : OperationKind} {root : NamedRef} :
    violation ∈ ofRoot types operation root ↔
      (Demand.ofRoot operation root).Breaks types violation := by
  rw [ofRoot]
  cases found : types.get? root.name with
  | none =>
    rw [Demand.breaks_iff_of_get?_eq_none found]
    exact List.mem_singleton
  | some target =>
    rw [Demand.breaks_iff_of_get?_eq_some found]
    cases target <;> simp [Demand.ofRoot, TypeDef.kind]

theorem mem_ofMember_iff {union : UnionType} {member : NamedRef} :
    violation ∈ ofMember types union member ↔
      (Demand.ofMember (.union union) member).Breaks types violation := by
  rw [ofMember]
  cases found : types.get? member.name with
  | none =>
    rw [Demand.breaks_iff_of_get?_eq_none found]
    exact List.mem_singleton
  | some target =>
    rw [Demand.breaks_iff_of_get?_eq_some found]
    cases target <;> simp [Demand.ofMember, TypeDef.kind, TypeDef.name]

/-- What is found about a reference is how the demand is broken, when the rule for the target of the
reference says of a target of each kind what the demand says. -/
theorem mem_ofRef_iff (keyed : types.Keyed TypeDef.name) {ref : TypeRef}
    {rule : TypeDef → List Violation} (name : demand.name = ref.name)
    (undefined : demand.undefined = .undefinedType ref.name ref.location)
    (asks : ∀ target, target.name = ref.name →
      (violation ∈ rule target ↔
        ¬ demand.allows target.kind ∧ violation = demand.improper target.kind)) :
    violation ∈ ofRef types ref rule ↔ demand.Breaks types violation := by
  rw [ofRef]
  cases found : types.get? ref.name with
  | none =>
    rw [← name] at found
    rw [Demand.breaks_iff_of_get?_eq_none found, undefined]
    exact List.mem_singleton
  | some target =>
    have named : target.name = ref.name := keyed _ (Table.get?_eq_some_iff.mp found)
    rw [← name] at found
    rw [Demand.breaks_iff_of_get?_eq_some found]
    exact asks target named

end Violation

end Found

/-! ## What is found about a type -/

theorem TypeDef.isInput_kind (type : TypeDef) : type.kind.isInput = type.isInput := by
  cases type <;> rfl

namespace Violation

variable {types : Table TypeDef} {violation : Violation} {type : TypeDef} {holder : FieldedType}

/-- An object type or an interface, as a type and without its kind. -/
inductive IsFielded : TypeDef → FieldedType → Prop
  | object (holder : FieldedType) : IsFielded (.object holder) holder
  | interface (holder : FieldedType) : IsFielded (.interface holder) holder

theorem IsFielded.name (fielded : IsFielded type holder) : type.name = holder.name := by
  cases fielded <;> rfl

theorem mem_ofInterface_iff (fielded : IsFielded type holder) {interface : NamedRef} :
    violation ∈ ofInterface types holder interface ↔
      (Demand.ofInterface type interface).Breaks types violation := by
  rw [ofInterface]
  cases found : types.get? interface.name with
  | none =>
    rw [Demand.breaks_iff_of_get?_eq_none found]
    cases fielded <;> exact List.mem_singleton
  | some target =>
    rw [Demand.breaks_iff_of_get?_eq_some found]
    cases fielded <;> cases target <;>
      simp [Demand.ofInterface, TypeDef.kind, TypeDef.name, TypeDef.location]

theorem mem_ofParameter_iff (keyed : types.Keyed TypeDef.name) (fielded : IsFielded type holder)
    {field : Field} {parameter : Parameter} :
    violation ∈ ofParameter types holder field parameter ↔
      (Demand.ofParameter type field parameter).Breaks types violation := by
  refine mem_ofRef_iff keyed rfl rfl fun target named => ?_
  cases input : target.isInput <;>
    simp [Demand.ofParameter, TypeDef.isInput_kind, input, named, fielded.name]

theorem mem_ofField_iff (keyed : types.Keyed TypeDef.name) (fielded : IsFielded type holder)
    {field : Field} :
    violation ∈ ofField types holder field ↔
      (Demand.ofResult type field).Breaks types violation ∨
        ∃ parameter ∈ field.parameters.values,
          (Demand.ofParameter type field parameter).Breaks types violation := by
  rw [ofField, List.mem_append, List.mem_flatMap]
  simp only [mem_ofParameter_iff keyed fielded]
  apply or_congr_left
  refine mem_ofRef_iff keyed rfl rfl fun target named => ?_
  cases fielded <;> cases target <;> simp_all [Demand.ofResult, TypeDef.kind, TypeDef.name]

theorem mem_ofInputField_iff (keyed : types.Keyed TypeDef.name) {input : InputType}
    {field : InputField} :
    violation ∈ ofInputField types input field ↔
      (Demand.ofInputField (.input input) field).Breaks types violation := by
  refine mem_ofRef_iff keyed rfl rfl fun target named => ?_
  have own : (TypeDef.input input).name = input.name := rfl
  cases proper : target.isInput <;>
    simp [Demand.ofInputField, TypeDef.isInput_kind, proper, named, own]

theorem mem_ofFielded_iff (keyed : types.Keyed TypeDef.name) (fielded : IsFielded type holder) :
    violation ∈ ofFielded types holder ↔ type.Breaks types violation := by
  have interfaces : type.declaredInterfaces = holder.interfaces := by cases fielded <;> rfl
  have fields : type.fieldEntries = holder.fields.entries := by cases fielded <;> rfl
  simp only [ofFielded, List.mem_append, List.mem_flatMap, mem_ofInterface_iff fielded,
    mem_ofField_iff keyed fielded, ← interfaces, Table.mem_values_iff, ← fields]
  constructor
  · rintro (⟨interface, declared, broken⟩ | ⟨field, ⟨name, declared⟩, broken⟩)
    · exact .demand (.interface declared) broken
    · rcases broken with broken | ⟨parameter, ⟨key, taken⟩, broken⟩
      · exact .demand (.result declared) broken
      · exact .demand (.parameter declared (Table.mem_values_iff.mpr ⟨key, taken⟩)) broken
  · rintro (⟨made, broken⟩ | ⟨kind, _⟩ | ⟨kind, _⟩)
    · cases made with
      | interface declared => exact .inl ⟨_, declared, broken⟩
      | result declared => exact .inr ⟨_, ⟨_, declared⟩, .inl broken⟩
      | parameter declared taken =>
        exact .inr ⟨_, ⟨_, declared⟩, .inr ⟨_, Table.mem_values_iff.mp taken, broken⟩⟩
      | inputField declared => cases fielded <;> cases declared
      | member listed => cases fielded <;> cases listed
    · cases fielded <;> cases kind
    · cases fielded <;> cases kind

/-- Of an empty table one violation is noted, and of others none. -/
theorem mem_ite_isEmpty_iff {α : Type} {table : Table α} {noted : Violation} :
    violation ∈ (if table.isEmpty then [noted] else []) ↔
      table.entries = [] ∧ violation = noted := by
  rw [List.mem_ite_nil_right, List.mem_singleton]
  exact and_congr_left fun _ => List.isEmpty_iff

/-- What is found about a type is how it breaks the rules. -/
theorem mem_ofType_iff (keyed : types.Keyed TypeDef.name) :
    violation ∈ ofType types type ↔ type.Breaks types violation := by
  cases type with
  | object holder => exact mem_ofFielded_iff keyed (.object holder)
  | interface holder => exact mem_ofFielded_iff keyed (.interface holder)
  | union union =>
    simp only [ofType, List.mem_append, List.mem_flatMap, mem_ite_isEmpty_iff, mem_ofMember_iff,
      Table.mem_values_iff]
    constructor
    · rintro (⟨empty, rfl⟩ | ⟨member, ⟨name, listed⟩, broken⟩)
      · exact .emptyUnion rfl empty
      · exact .demand (.member listed) broken
    · rintro (⟨made, broken⟩ | ⟨⟨⟩, _⟩ | ⟨_, empty⟩)
      · cases made with
        | member listed => exact .inr ⟨_, ⟨_, listed⟩, broken⟩
        | interface declared | result declared | parameter declared | inputField declared =>
          cases declared
      · exact .inl ⟨empty, rfl⟩
  | enum enum =>
    rw [ofType, mem_ite_isEmpty_iff]
    constructor
    · rintro ⟨empty, rfl⟩
      exact .emptyEnum rfl empty
    · rintro (⟨made, _⟩ | ⟨_, empty⟩ | ⟨⟨⟩, _⟩)
      · cases made with
        | interface declared | result declared | parameter declared | inputField declared
        | member declared => cases declared
      · exact ⟨empty, rfl⟩
  | input input =>
    simp only [ofType, List.mem_flatMap, mem_ofInputField_iff keyed, Table.mem_values_iff]
    constructor
    · rintro ⟨field, ⟨name, declared⟩, broken⟩
      exact .demand (.inputField declared) broken
    · rintro (⟨made, broken⟩ | ⟨⟨⟩, _⟩ | ⟨⟨⟩, _⟩)
      cases made with
      | inputField declared => exact ⟨_, ⟨_, declared⟩, broken⟩
      | interface declared | result declared | parameter declared | member declared =>
        cases declared
  | _ =>
    constructor
    · rintro ⟨⟩
    · rintro (⟨made, _⟩ | ⟨⟨⟩, _⟩ | ⟨⟨⟩, _⟩)
      cases made with
      | interface declared | result declared | parameter declared | inputField declared
      | member declared => cases declared

end Violation

/-! ## Checked building -/

theorem Schema.mem_roots_iff {schema : Schema} {operation : OperationKind} {root : NamedRef} :
    (operation, root) ∈ schema.roots ↔ schema.rootRef? operation = some root := by
  constructor
  · intro member
    rw [roots, List.mem_filterMap] at member
    rcases member with ⟨other, _, chosen⟩
    rcases Option.map_eq_some_iff.mp chosen with ⟨ref, known, same⟩
    cases same
    exact known
  · exact mem_roots_of_rootRef?

/-- The violations of a well-formed schema are its breaches. -/
theorem Schema.WellFormed.mem_violations_iff {schema : Schema} (wellFormed : schema.WellFormed)
    {violation : Violation} :
    violation ∈ violations schema.types schema.roots ↔ schema.Breaks violation := by
  rw [violations, List.mem_append, List.mem_flatMap, List.mem_flatMap]
  simp only [Violation.mem_ofRoot_iff, Violation.mem_ofType_iff wellFormed.types.types.keyed]
  constructor
  · rintro (⟨⟨operation, root⟩, rooted, broken⟩ | ⟨type, held, broken⟩)
    · exact .root (mem_roots_iff.mp rooted) broken
    · exact .type held broken
  · rintro (⟨rooted, broken⟩ | ⟨held, broken⟩)
    · exact .inl ⟨_, mem_roots_iff.mpr rooted, broken⟩
    · exact .inr ⟨_, held, broken⟩

namespace SchemaBuilder

variable {builder : SchemaBuilder}

/-- The types of a builder after the extensions that waited were applied. -/
def applied (builder : SchemaBuilder) : Except BuildError (Table TypeDef) :=
  builder.pending.foldlM (fun types (file, decl) => extendIn types file decl) builder.types

/-- What a builder builds from its types, once the extensions that waited were applied. -/
theorem build_eq_bind_applied :
    builder.build = builder.applied.bind fun types =>
      if builder.assumeValid then .ok (builder.settled types)
      else match violations types (builder.settled types).roots with
        | [] => .ok (builder.settled types)
        | found => .error (.invalid found) := by
  rw [build, applied]
  cases builder.pending.foldlM (fun types (file, decl) => extendIn types file decl)
    builder.types with
  | error error => rfl
  | ok types =>
    simp only [Schema.roots, rootRef?_settled, Except.bind, bind]
    generalize violations types _ = found
    cases builder.assumeValid with
    | false => cases found <;> rfl
    | true => rfl

/-- Checking the rules changes nothing about how a schema is built but this: a schema that breaks
rules is refused, with a list of violations that holds one for each breach and no other. What cannot
be built when the rules are taken for granted fails in the same way when they are checked. -/
theorem Loaded.checking_exact (loaded : builder.Loaded) :
    (∀ error, { builder with assumeValid := true }.build = .error error →
      { builder with assumeValid := false }.build = .error error) ∧
    ∀ schema, { builder with assumeValid := true }.build = .ok schema →
      ((∀ violation, ¬ schema.Breaks violation) →
        { builder with assumeValid := false }.build = .ok schema) ∧
      ((∃ violation, schema.Breaks violation) →
        ∃ found, { builder with assumeValid := false }.build = .error (.invalid found) ∧
          ∀ violation, violation ∈ found ↔ schema.Breaks violation) := by
  have lenient : { builder with assumeValid := true }.build =
      builder.applied.bind fun types => .ok (builder.settled types) := build_eq_bind_applied
  have strict : { builder with assumeValid := false }.build = builder.applied.bind fun types =>
      match violations types (builder.settled types).roots with
        | [] => .ok (builder.settled types)
        | found => .error (.invalid found) := build_eq_bind_applied
  cases applied : builder.applied with
  | error cause =>
    rw [applied] at lenient strict
    rw [lenient, strict]
    constructor
    · exact fun _ failed => failed
    · rintro _ ⟨⟩
  | ok types =>
    rw [applied] at lenient strict
    have built : (builder.settled types).Built := ⟨_, loaded.assuming true, lenient⟩
    have complete (violation : Violation) :
        violation ∈ violations types (builder.settled types).roots ↔
          (builder.settled types).Breaks violation := built.wellFormed.mem_violations_iff
    rw [lenient, strict]
    constructor
    · rintro _ ⟨⟩
    · rintro _ ⟨⟩
      dsimp only [Except.bind]
      cases found : violations types (builder.settled types).roots with
      | nil =>
        simp only [found, List.not_mem_nil, false_iff] at complete
        exact ⟨fun _ => rfl, fun ⟨violation, broken⟩ => absurd broken (complete violation)⟩
      | cons first rest =>
        rw [found] at complete
        have broken := (complete first).mp (List.mem_cons_self ..)
        exact ⟨fun unbroken => absurd broken (unbroken first), fun _ => ⟨_, rfl, complete⟩⟩

end SchemaBuilder

/-! ## A schema with breaches -/

/-- The source of a schema that leads from a root to no type, from a field to an input type and from
a parameter to an interface. -/
def brokenSource : String :=
  "schema { mutation: M } type Query { f(p: [N]): I } interface N { k: ID } input I { k: ID }"

/-- The field of that schema that refers to types of the wrong kinds. -/
def brokenField : Field where
  location := sampleAt 37
  deprecation := none
  description := none
  name := "f"
  parameters := .ofList [("p", ⟨sampleAt 39, none, none, "p",
    .list true (.named true ⟨"N", sampleAt 39⟩) (sampleAt 39)⟩)]
  parent := "Query"
  type := .named true ⟨"I", sampleAt 37⟩

/-- The root type of that schema. -/
def brokenQuery : TypeDef :=
  .object ⟨sampleAt 24, none, .ofList [("f", brokenField)], [], "Query"⟩

/-- The types of that schema. -/
def brokenTypes : Table TypeDef :=
  TypeDef.builtIns.insertAll
    [("Query", brokenQuery),
      ("N", .interface ⟨sampleAt 52, none, .ofList [("k", sampleKey "N" 66)], [], "N"⟩),
      ("I", .input ⟨sampleAt 74, none,
        .ofList [("k", ⟨sampleAt 84, "k", .named true ⟨"ID", sampleAt 84⟩⟩)], "I"⟩)]

/-- The builder after that source. -/
def brokenBuilder : SchemaBuilder where
  types := brokenTypes
  mutation := some ⟨"M", sampleAt 1⟩

/-- The schema that is built from it when the rules are taken for granted. -/
def brokenSchema : Schema where
  query := some ⟨"Query", sampleAt 24⟩
  mutation := some ⟨"M", sampleAt 1⟩
  subscription := none
  types := brokenTypes

/-- The three breaches of that schema are found. -/
theorem brokenBuilder_checking_exact :
    brokenBuilder.Loaded ∧ { brokenBuilder with assumeValid := true }.build = .ok brokenSchema ∧
      ∃ found, { brokenBuilder with assumeValid := false }.build = .error (.invalid found) ∧
        .rootUndefined .mutation "M" (sampleAt 1) ∈ found ∧
        .inputAsResult "Query" "f" "I" (sampleAt 37) ∈ found ∧
        .parameterNotInput "Query" "f" "p" "N" (sampleAt 39) ∈ found := by
  have succeeded : SchemaBuilder.empty.load none brokenSource = ([], .ok brokenBuilder) := by cbv
  have loaded : brokenBuilder.Loaded := .load .empty succeeded
  have built : { brokenBuilder with assumeValid := true }.build = .ok brokenSchema := by cbv
  have held : brokenQuery ∈ brokenSchema.types.values := by decide
  have declared : ("f", brokenField) ∈ brokenQuery.fieldEntries := List.mem_singleton.mpr rfl
  have missing : kindAt brokenTypes "M" = none := by decide
  have input : kindAt brokenTypes "I" = some .input := by decide
  have interface : kindAt brokenTypes "N" = some .interface := by decide
  have root : brokenSchema.Breaks (.rootUndefined .mutation "M" (sampleAt 1)) := by
    have broken : (Demand.ofRoot .mutation ⟨"M", sampleAt 1⟩).Breaks brokenTypes
        (.rootUndefined .mutation "M" (sampleAt 1)) := .undefined missing
    exact .root rfl broken
  have result : brokenSchema.Breaks (.inputAsResult "Query" "f" "I" (sampleAt 37)) := by
    apply Schema.Breaks.type held
    apply TypeDef.Breaks.demand (.result declared)
    exact .improper input (by simp [Demand.ofResult])
  have parameter :
      brokenSchema.Breaks (.parameterNotInput "Query" "f" "p" "N" (sampleAt 39)) := by
    apply Schema.Breaks.type held
    apply TypeDef.Breaks.demand (.parameter declared (List.mem_singleton.mpr rfl))
    exact .improper interface (by simp [Demand.ofParameter, TypeKind.isInput])
  rcases (loaded.checking_exact.2 brokenSchema built).2 ⟨_, root⟩ with
    ⟨found, refused, complete⟩
  exact ⟨loaded, built, found, refused, (complete _).mpr root, (complete _).mpr result,
    (complete _).mpr parameter⟩

end SchemaUnfolding
