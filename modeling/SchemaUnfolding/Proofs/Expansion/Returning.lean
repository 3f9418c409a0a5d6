import SchemaUnfolding.Operation.Expansion
import SchemaUnfolding.Proofs.Ending

/-!
# What expansions return

An expansion that ends without a fault takes one progress to another and returns a value. This file
says for each building block of expansions what it returns.
-/

namespace SchemaUnfolding

/-! ## Progress -/

namespace Progress

/-- The progress after an event was reported. -/
def noting (progress : Progress) (event : Event) : Progress :=
  { progress with events := progress.events.push event }

/-- The progress after a field of a type was admitted: outside fragments the edge to a field with
fields of its own is remembered. -/
def admitting (progress : Progress) (site : Site) (field : Field) (type : TypeDef) : Progress :=
  if type.isComposite && !site.inFragment then
    { progress with edges := progress.edges.insert (Edges.key site.container field.name) }
  else progress

/-- The progress after variables were bound. -/
def binding (progress : Progress) (scope : Variables) : Progress := { progress with scope }

@[simp]
theorem noting_scope (progress : Progress) (event : Event) :
    (progress.noting event).scope = progress.scope :=
  rfl

@[simp]
theorem noting_edges (progress : Progress) (event : Event) :
    (progress.noting event).edges = progress.edges :=
  rfl

@[simp]
theorem binding_scope (progress : Progress) (scope : Variables) :
    (progress.binding scope).scope = scope :=
  rfl

@[simp]
theorem binding_edges (progress : Progress) (scope : Variables) :
    (progress.binding scope).edges = progress.edges :=
  rfl

@[simp]
theorem binding_events (progress : Progress) (scope : Variables) :
    (progress.binding scope).events = progress.events :=
  rfl

@[simp]
theorem admitting_scope (progress : Progress) (site : Site) (field : Field) (type : TypeDef) :
    (progress.admitting site field type).scope = progress.scope := by
  rw [admitting]
  split <;> rfl

@[simp]
theorem admitting_events (progress : Progress) (site : Site) (field : Field) (type : TypeDef) :
    (progress.admitting site field type).events = progress.events := by
  rw [admitting]
  split <;> rfl

theorem admitting_of_isComposite_eq_false (progress : Progress) (site : Site) (field : Field)
    {type : TypeDef} (simple : type.isComposite = false) :
    progress.admitting site field type = progress := by
  simp [admitting, simple]

theorem admitting_of_isComposite (progress : Progress) (site : Site) (field : Field)
    {type : TypeDef} (composite : type.isComposite = true) :
    progress.admitting site field type =
      if site.inFragment then progress
      else { progress with
        edges := progress.edges.insert (Edges.key site.container field.name) } := by
  rw [admitting]
  cases site.inFragment <;> simp [composite]

end Progress

namespace Expansion

open ExceptT

/-! ## The building blocks -/

section Blocks

variable {schema : Schema} {config : Config} {before after : Progress} {site : Site}
  {field : Field}

/-- The event that tells why a field is left out, if it is. -/
def omission? (config : Config) (edges : Edges) (site : Site) (field : Field) : Option Event :=
  match verdict config edges site field with
  | .repeated =>
    some (.edgeRepeated field.parent field.name site.depth (Edges.key site.container field.name))
  | .tooDeep =>
    some (.limitExceeded field.parent field.name site.countedDepth config.depthLimit)
  | .admitted => none

/-- A field is admitted when its edge may be expanded and it does not stand too deep. -/
theorem omission?_eq_none_iff {edges : Edges} :
    omission? config edges site field = none ↔
      (config.repeatEdges = true ∨
        edges.contains (Edges.key site.container field.name) = false) ∧
        site.countedDepth ≤ config.depthLimit := by
  rw [omission?, verdict]
  cases config.repeatEdges <;>
    cases edges.contains (Edges.key site.container field.name) <;>
    by_cases deep : config.depthLimit < site.countedDepth <;>
    simp [deep, Nat.le_of_not_lt]

/-- A field is left out as a repeated edge or because it stands too deep. -/
theorem event_of_omission? {edges : Edges} {event : Event}
    (omitted : omission? config edges site field = some event) :
    event = .edgeRepeated field.parent field.name site.depth
        (Edges.key site.container field.name) ∨
      config.depthLimit < site.countedDepth ∧
        event = .limitExceeded field.parent field.name site.countedDepth config.depthLimit := by
  rw [omission?] at omitted
  split at omitted
  · exact .inl (Option.some.inj omitted).symm
  · rename_i tooDeep
    refine .inr ⟨?_, (Option.some.inj omitted).symm⟩
    rw [verdict] at tooDeep
    split at tooDeep
    · cases tooDeep
    · split at tooDeep
      · assumption
      · cases tooDeep
  · cases omitted

/-- A field is reported as repeated when edges may not be repeated and its own was expanded. -/
theorem edgeRepeated_of_omission? {edges : Edges} {type name key : String} {depth : Nat}
    (omitted : omission? config edges site field = some (.edgeRepeated type name depth key)) :
    config.repeatEdges = false ∧ type = field.parent ∧ name = field.name ∧
      key = Edges.key site.container field.name ∧ edges.contains key = true := by
  rw [omission?, verdict] at omitted
  split at omitted
  · rename_i repeated
    split at repeated
    · cases omitted
      simp_all
    · split at repeated <;> cases repeated
  · cases omitted
  · cases omitted

theorem run_enter (config : Config) (site : Site) (field : Field) (before : Progress) :
    (enter config site field).run.run before =
      match omission? config before.edges site field with
      | some event => (.ok false, before.noting event)
      | none =>
        (.ok true, if site.inFragment then before
          else { before with
            edges := before.edges.insert (Edges.key site.container field.name) }) := by
  have unfolded : (enter config site field).run.run before =
      match verdict config before.edges site field with
      | .repeated => (.ok false, before.noting (.edgeRepeated field.parent field.name site.depth
          (Edges.key site.container field.name)))
      | .tooDeep => (.ok false, before.noting (.limitExceeded field.parent field.name
          site.countedDepth config.depthLimit))
      | .admitted =>
        (.ok true, if site.inFragment then before
          else { before with
            edges := before.edges.insert (Edges.key site.container field.name) }) := by
    rw [enter]
    rw [ExceptT.run_bind, StateT.run_bind]
    change StateT.run (ExceptT.run (match verdict config before.edges site field with
      | .repeated => _ | .tooDeep => _ | .admitted => _)) before = _
    cases verdict config before.edges site field with
    | repeated => rfl
    | tooDeep => rfl
    | admitted => cases site.inFragment <;> rfl
  rw [unfolded]
  rw [omission?]
  cases verdict config before.edges site field <;> rfl

theorem returns_enter_iff {result : Bool} :
    (enter config site field).Returns before result after ↔
      match omission? config before.edges site field with
      | some event => result = false ∧ after = before.noting event
      | none =>
        result = true ∧
          after = if site.inFragment then before
            else { before with
              edges := before.edges.insert (Edges.key site.container field.name) } := by
  rw [Returns]
  rw [run_enter]
  split
  · constructor
    · rintro ⟨⟩
      exact ⟨rfl, rfl⟩
    · rintro ⟨rfl, rfl⟩
      rfl
  · constructor
    · rintro ⟨⟩
      exact ⟨rfl, rfl⟩
    · rintro ⟨rfl, rfl⟩
      rfl

theorem returns_target_iff {type : TypeDef} :
    (target schema field).Returns before type after ↔
      schema.type? field.type.name = some type ∧ after = before := by
  rw [target]
  split
  · rename_i found same
    rw [returns_pure_iff, same, Option.some.injEq, eq_comm]
  · rename_i missing
    simp [missing]

theorem returns_bindArguments_iff {arguments : List (String × String)} :
    (bindArguments field).Returns before arguments after ↔
      ∃ scope, before.scope.bindAll field.parameters.values = (arguments, scope) ∧
        after = before.binding scope := by
  have unfolded : (bindArguments field).run.run before =
      (.ok (before.scope.bindAll field.parameters.values).1,
        before.binding (before.scope.bindAll field.parameters.values).2) :=
    rfl
  rw [Returns]
  rw [unfolded]
  constructor
  · intro returned
    cases returned
    exact ⟨_, rfl, rfl⟩
  · rintro ⟨scope, bound, rfl⟩
    rw [bound]

theorem returns_memberFields_iff {union member : String} {fields : Table Field} :
    (memberFields schema union member).Returns before fields after ↔
      (schema.type? member).bind TypeDef.fields? = some fields ∧ after = before := by
  rw [memberFields]
  split
  · rename_i found same
    rw [returns_pure_iff, same, Option.some.injEq, eq_comm]
  · rename_i missing
    simp [missing]

end Blocks

end Expansion

end SchemaUnfolding
