import SchemaUnfolding.Command.Execution
import SchemaUnfolding.Proofs.Assembly.Reordering
import SchemaUnfolding.Proofs.Generation.Safety

/-!
# Commands on checked schemas

The schema that a command works on was built from loaded sources, and unless the command takes the
rules between types for granted, it is checked. What is known of checked schemas therefore holds for
such a command: once its schema is there, it meets no fault.
-/

namespace SchemaUnfolding

open ExceptT

/-! ## Files -/

namespace SchemaBuilder

variable {builder next : SchemaBuilder} {disk : Disk}

/-- A file that is loaded holds a source that is loaded. -/
theorem exists_load_of_loadFile {path : String}
    (succeeded : (builder.loadFile disk path).2 = .ok next) :
    ∃ source events, builder.load (some path) source = (events, .ok next) := by
  rw [loadFile] at succeeded
  split at succeeded
  · cases succeeded
  · rename_i source _
    exact ⟨source, _, Prod.ext rfl (mapError_eq_ok_iff.mp succeeded)⟩

/-- What the loading of each source keeps up, the loading of files keeps up. -/
theorem loadFiles_preserves {kept : SchemaBuilder → Prop} {paths : List String}
    (step : ∀ {builder next : SchemaBuilder} {file source events}, kept builder →
      builder.load file source = (events, .ok next) → kept next)
    (succeeded : (builder.loadFiles disk paths).2 = .ok next) (start : kept builder) :
    kept next := by
  induction paths generalizing builder with
  | nil =>
    cases succeeded
    exact start
  | cons path rest ih =>
    rw [loadFiles] at succeeded
    split at succeeded
    · cases succeeded
    · rename_i middle first
      rcases exists_load_of_loadFile (congrArg Prod.snd first) with ⟨_, _, loaded⟩
      exact ih succeeded (step start loaded)

theorem Loaded.of_loadFiles {paths : List String} (loaded : builder.Loaded)
    (succeeded : (builder.loadFiles disk paths).2 = .ok next) : next.Loaded :=
  loadFiles_preserves .load succeeded loaded

/-- No source changes whether the rules are taken for granted. -/
theorem assumeValid_of_load {file : Option String} {source : String} {events : List Event}
    (loaded : builder.load file source = (events, .ok next)) :
    next.assumeValid = builder.assumeValid := by
  rw [load] at loaded
  split at loaded
  · cases loaded
  · exact assumeValid_of_enter (addAll_snd.symm.trans (congrArg Prod.snd loaded))

theorem assumeValid_of_loadFiles {paths : List String}
    (succeeded : (builder.loadFiles disk paths).2 = .ok next) :
    next.assumeValid = builder.assumeValid :=
  loadFiles_preserves (fun known loaded => (assumeValid_of_load loaded).trans known) succeeded rfl

end SchemaBuilder

/-! ## Sources -/

namespace SchemaSources

variable {sources : SchemaSources} {disk : Disk} {schema : Schema} {before after : Array Event}

theorem eq_ok_of_returns_ofReport {α : Type} {reported : List Event × Except LoadError α}
    {value : α} (returned : (ofReport reported).Returns before value after) :
    reported.2 = .ok value := by
  rcases reported with ⟨events, error | result⟩
  · rcases returns_bind_iff.mp returned with ⟨_, _, _, ended⟩
    exact absurd ended not_returns_throw
  · rcases returns_bind_iff.mp returned with ⟨_, _, _, ended⟩
    rw [(returns_pure_iff.mp ended).1]

/-- The schema of some sources is built by a builder that loaded files. It takes the rules between
types for granted exactly if the sources say so. -/
theorem exists_builder_of_schema (returned : (sources.schema disk).Returns before schema after) :
    ∃ builder : SchemaBuilder, builder.Loaded ∧ builder.assumeValid = sources.assumeValid ∧
      builder.build = .ok schema := by
  rcases returns_bind_iff.mp returned with ⟨files, _, _, returned⟩
  rcases returns_bind_iff.mp returned with ⟨builder, _, loading, returned⟩
  rcases returns_bind_iff.mp returned with ⟨built, _, building, returned⟩
  rcases returns_bind_iff.mp returned with ⟨_, _, _, ended⟩
  obtain rfl : schema = built := (returns_pure_iff.mp ended).1
  have loaded := eq_ok_of_returns_ofReport loading
  refine ⟨builder, .of_loadFiles (.assuming _ .empty) loaded,
    SchemaBuilder.assumeValid_of_loadFiles loaded, ?_⟩
  exact mapError_eq_ok_iff.mp (eq_ok_of_returns_ofReport building)

theorem built_of_schema (returned : (sources.schema disk).Returns before schema after) :
    schema.Built := by
  rcases exists_builder_of_schema returned with ⟨builder, loaded, _, built⟩
  exact ⟨builder, loaded, built⟩

theorem checked_of_schema (returned : (sources.schema disk).Returns before schema after)
    (strict : sources.assumeValid = false) : schema.Checked := by
  rcases exists_builder_of_schema returned with ⟨builder, loaded, same, built⟩
  exact ⟨builder, loaded, same.trans strict, built⟩

end SchemaSources

/-- The one fault of a builder is a block string that has no text. -/
theorem BuildError.fault?_eq_some_iff {error : BuildError} {cause : Fault} :
    error.fault? = some cause ↔
      ∃ file split, cause = .splitText split ∧ error = .malformed file (.splitText split) := by
  constructor
  · intro found
    unfold fault? at found
    split at found
    · cases found
      exact ⟨_, _, rfl, rfl⟩
    · cases found
  · rintro ⟨file, split, rfl, rfl⟩
    rfl

/-- What looks for a schema adds no fault to that of the builder. -/
theorem SourceError.fault?_eq_some_iff {error : SourceError} {cause : Fault} :
    error.fault? = some cause ↔
      ∃ file split, cause = .splitText split ∧
        error = .unloadable (.unusable (.malformed file (.splitText split))) := by
  cases error with
  | unsearchable start cause | nothingFound paths => simp [fault?]
  | unloadable error =>
    cases error with
    | unreadable error => simp [fault?, LoadError.fault?]
    | unusable error => simp [fault?, LoadError.fault?, BuildError.fault?_eq_some_iff]

/-! ## Commands -/

namespace Command

variable {schema : Schema} {config : Config} {disk : Disk} {events : Array Event}

/-- Where the schema of a command comes from. -/
def sources : Command → SchemaSources
  | generate _ _ sources => sources
  | print _ _ _ sources => sources

theorem outcome_present_ne_fault (closed : schema.Closed) (kind : OperationKind) (field : String)
    (cause : Fault) : (present kind field config disk events schema).outcome ≠ .fault cause := by
  have never : (Generation.named schema config kind field).Faultless :=
    Generation.faultless_named closed kind field
  rcases never.returns events with ⟨answer, after, returned⟩
  rw [Returns] at returned
  rw [present, returned]
  cases answer <;> rintro ⟨⟩

theorem outcome_publish_ne_fault (closed : schema.Closed) (destination : String) (cause : Fault) :
    (publish destination config disk events schema).outcome ≠ .fault cause := by
  have refused : (Publication.all Destination.sink schema config).FailsOnly
      PublicationError.IsRefusal :=
    Publication.failsOnly_all closed
  rw [publish]
  split
  · rintro ⟨⟩
  · rename_i failed
    exact (refused _ _ _ failed).elim
  · rintro ⟨⟩

/-- When nothing that is done with checked schemas ends in a fault, a fault comes from a source that
the loading of the schema read. -/
theorem fault_of_withSchema {sources : SchemaSources} {finish : Array Event → Schema → Completion}
    {cause : Fault} (strict : sources.assumeValid = false)
    (finishes : ∀ events schema, schema.Closed → (finish events schema).outcome ≠ .fault cause)
    (faulted : (withSchema sources disk events finish).outcome = .fault cause) :
    ∃ file split after, cause = .splitText split ∧
      (sources.schema disk).run.run events =
        (.error (.unloadable (.unusable (.malformed file (.splitText split)))), after) := by
  rcases searched : (sources.schema disk).run.run events with ⟨error | schema, after⟩
  · rw [withSchema, searched] at faulted
    have unloaded : error.fault? = some cause := by
      rcases known : error.fault? with _ | other
      · simp [known] at faulted
      · simpa [known] using faulted
    rcases SourceError.fault?_eq_some_iff.mp unloaded with ⟨file, split, rfl, rfl⟩
    exact ⟨file, split, after, rfl, rfl⟩
  · rw [withSchema, searched] at faulted
    have closed := (SchemaSources.checked_of_schema searched strict).closed
    exact absurd faulted (finishes after schema closed)

/-- A command that does not take the rules for granted meets no fault but the one that a source can
cause while the schema is loaded. -/
theorem fault_of_run {command : Command} (strict : command.sources.assumeValid = false)
    {cause : Fault} (faulted : (command.run disk events).outcome = .fault cause) :
    ∃ file split after, cause = .splitText split ∧
      (command.sources.schema disk).run.run events =
        (.error (.unloadable (.unusable (.malformed file (.splitText split)))), after) := by
  cases command with
  | generate destination config sources =>
    exact fault_of_withSchema strict
      (fun _ _ closed => outcome_publish_ne_fault closed destination cause) faulted
  | print kind field config sources =>
    exact fault_of_withSchema strict
      (fun _ _ closed => outcome_present_ne_fault closed kind field cause) faulted

end Command

end SchemaUnfolding
