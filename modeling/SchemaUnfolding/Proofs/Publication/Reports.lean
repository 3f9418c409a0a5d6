import SchemaUnfolding.Proofs.Publication.OnDisk
import SchemaUnfolding.Proofs.Schema.Closed

/-!
# Files of reports

The operations of a report are told apart by their kinds and fields, and so are the files of their
documents. Each index has a file of its own too, except that the document of a field `index` goes
into the file of its kind's index when the extension is that of an index. The index is written after
the document.
-/

namespace SchemaUnfolding

open ExceptT
open Sdl (IsName)

/-! ## The operations of a report -/

/-- The operations of a report are of kinds with a root type, for fields with names, of which no two
are the same in one kind. -/
structure Report.Sound (report : Report) (schema : Schema) : Prop where
  rooted : ∀ operation ∈ report.operations,
    operation.kind ∈ schema.rootedKinds OperationKind.all
  named : ∀ operation ∈ report.operations, IsName operation.field
  distinct : ∀ kind, ((report.operationsOf kind).map Operation.field).Nodup

theorem Report.mem_operationsOf_iff {report : Report} {kind : OperationKind}
    {operation : Operation} :
    operation ∈ report.operationsOf kind ↔
      operation ∈ report.operations ∧ operation.kind = kind := by
  simp [operationsOf]

namespace Generation

variable {schema : Schema} {config : Config} {report : Report} {before after : Array Event}

/-- What is generated from a loaded schema is a sound report. -/
theorem sound_of_returns_all (wellFormed : schema.WellFormed)
    (generated : (all schema config).Returns before report after) : report.Sound schema := by
  rcases of_returns_ofKinds (by decide) generated with ⟨rooted, fields⟩
  have everyKind : ∀ kind, kind ∈ OperationKind.all := by rintro (_ | _ | _) <;> decide
  refine ⟨rooted, fun operation present => ?_, fun kind => ?_⟩
  · have isRooted := (List.mem_filter.mp (rooted operation present)).2
    rcases Option.isSome_iff_exists.mp isRooted with ⟨root, known⟩
    have listed : operation.field ∈ (report.operationsOf operation.kind).map Operation.field :=
      List.mem_map_of_mem (Report.mem_operationsOf_iff.mpr ⟨present, rfl⟩)
    rw [fields _ (everyKind _) root known] at listed
    rcases List.mem_map.mp listed with ⟨field, included, same⟩
    have inRoot := (wellFormed.of_root? known).fields.values field (List.mem_filter.mp included).1
    exact same ▸ inRoot.name.isName
  · cases known : schema.root? kind with
    | none =>
      have nothing : report.operationsOf kind = [] := by
        refine Report.operationsOf_eq_nil fun operation present same => ?_
        have isRooted := (List.mem_filter.mp (rooted operation present)).2
        rw [same, known] at isRooted
        cases isRooted
      simp [nothing]
    | some root =>
      rw [fields kind (everyKind kind) root known]
      have keyed := (wellFormed.of_root? known).fields.keyed.nodup_map_values
      exact keyed.sublist ((List.filter_sublist).map Field.name)

end Generation

/-! ## Files of writes -/

/-- The document of an operation goes into the file of its kind's index. -/
def Operation.Clashes (operation : Operation) (extension : String) : Prop :=
  operation.field = "index" ∧ extension = "js"

instance (operation : Operation) (extension : String) :
    Decidable (operation.Clashes extension) :=
  inferInstanceAs (Decidable (_ ∧ _))

/-- The write of an operation's document. -/
def Operation.write (operation : Operation) (extension : String) : Write :=
  .document operation.kind operation.field extension operation.text

/-- The write of a kind's index. -/
def Report.indexWrite (report : Report) (extension : String) (kind : OperationKind) : Write :=
  .kindIndex kind (kindIndex extension ((report.operationsOf kind).map Operation.field))

theorem OperationKind.directory_injective {kind other : OperationKind}
    (same : kind.directory = other.directory) : kind = other := by
  revert same
  cases kind <;> cases other <;> decide

/-- A name with an extension can be put below a path. -/
theorem isFileName_document {field extension : String} (isName : IsName field)
    (flat : '/' ∉ extension.toList) : Path.IsFileName (field ++ "." ++ extension) := by
  have inside : '/' ∉ field.toList :=
    fun present => absurd (isName.isNameRest_of_mem present) (by decide)
  have whole : '/' ∉ (field ++ "." ++ extension).toList := by simp [inside, flat]
  rcases isName with ⟨first, rest, spelled, start, _⟩
  have chars : (field ++ "." ++ extension).toList =
      first :: (rest ++ '.' :: extension.toList) := by
    simp [spelled]
  have begins : ∀ {name : String}, field ++ "." ++ extension = name →
      name.toList.head? = some first := by
    rintro _ rfl
    rw [chars, List.head?_cons]
  have letter : first ≠ '.' := by
    rintro rfl
    exact absurd start (by decide)
  refine ⟨whole, ?_, fun same => ?_⟩
  · rintro (same | same)
    · exact letter (Option.some.inj (begins same)).symm
    · cases begins same
  · exact letter (Option.some.inj (begins same)).symm

/-- A document has the name of an index only for one field and one extension. -/
theorem documentName_eq_iff {field extension : String} :
    field ++ "." ++ extension = "index.js" ↔ field = "index" ∧ extension = "js" := by
  constructor
  · intro same
    have chars : "index".toList ++ '.' :: "js".toList =
        field.toList ++ '.' :: extension.toList := by
      simpa using (congrArg String.toList same).symm
    rcases (List.append_cons_inj_of_notMem (by decide) (by decide)).mp chars with ⟨front, _, back⟩
    exact ⟨String.toList_inj.mp front.symm, String.toList_inj.mp back.symm⟩
  · rintro ⟨rfl, rfl⟩
    rfl

theorem documentName_inj {field other extension : String}
    (same : field ++ "." ++ extension = other ++ "." ++ extension) : field = other := by
  have chars : field.toList ++ ".".toList ++ extension.toList =
      other.toList ++ ".".toList ++ extension.toList := by
    simpa only [String.toList_append] using congrArg String.toList same
  exact String.toList_inj.mp (List.append_cancel_right (List.append_cancel_right chars))

namespace Write

variable {top : Place} {write other : Write}

theorem place_eq_iff :
    write.place top = other.place top ↔
      write.above = other.above ∧ Destination.nameOf write = Destination.nameOf other := by
  rw [place, place, List.append_assoc, List.append_assoc, List.append_right_inj]
  constructor
  · intro same
    rcases List.append_inj' same rfl with ⟨above, name⟩
    exact ⟨above, List.cons.inj name |>.1⟩
  · rintro ⟨above, name⟩
    rw [above, name]

/-- Writes to one place have one path. -/
theorem pathOf_eq (root : String) (same : write.place top = other.place top) :
    Destination.pathOf root write = Destination.pathOf root other := by
  rcases place_eq_iff.mp same with ⟨above, name⟩
  have directory : ∀ write : Write,
      Destination.directoryOf root write = write.above.foldl Path.join root := by
    rintro (_ | _ | _) <;> rfl
  rw [Destination.pathOf, Destination.pathOf, directory, directory, above, name]

end Write

namespace Report

variable {report : Report} {schema : Schema} {config : Config} {extension : String} {top : Place}
  {kind : OperationKind} {operation : Operation} {write : Write}

theorem kindWrites_eq :
    report.kindWrites extension kind =
      (report.operationsOf kind).map (·.write extension) ++
        [report.indexWrite extension kind] := by
  have documents : ∀ operation ∈ report.operationsOf kind,
      Write.document kind operation.field extension operation.text = operation.write extension := by
    intro operation present
    rw [Operation.write, (mem_operationsOf_iff.mp present).2]
  rw [kindWrites, List.map_congr_left documents, indexWrite]

/-- The writes of a report are the documents of its operations and the indexes. -/
theorem mem_writes_iff (sound : report.Sound schema) :
    write ∈ report.writes schema config ↔
      (∃ operation ∈ report.operations, write = operation.write config.extension) ∨
      (∃ kind ∈ schema.rootedKinds OperationKind.all,
        write = report.indexWrite config.extension kind) ∨
      write = .rootIndex (rootIndex (schema.rootedKinds OperationKind.all)) := by
  simp only [writes, kindWrites_eq, List.mem_append, List.mem_flatMap, List.mem_map,
    List.mem_singleton, mem_operationsOf_iff]
  constructor
  · rintro (⟨kind, rooted, ⟨operation, ⟨present, _⟩, rfl⟩ | rfl⟩ | rfl)
    · exact .inl ⟨operation, present, rfl⟩
    · exact .inr (.inl ⟨kind, rooted, rfl⟩)
    · exact .inr (.inr rfl)
  · rintro (⟨operation, present, rfl⟩ | ⟨kind, rooted, rfl⟩ | rfl)
    · exact .inl ⟨_, sound.rooted operation present, .inl ⟨operation, ⟨present, rfl⟩, rfl⟩⟩
    · exact .inl ⟨kind, rooted, .inr rfl⟩
    · exact .inr rfl

theorem isFileName_nameOf (sound : report.Sound schema) (flat : '/' ∉ config.extension.toList) :
    ∀ write ∈ report.writes schema config, Path.IsFileName (Destination.nameOf write) := by
  have index : Path.IsFileName "index.js" := by decide
  intro write listed
  rcases (mem_writes_iff sound).mp listed with ⟨operation, present, rfl⟩ | ⟨kind, _, rfl⟩ | rfl
  · exact isFileName_document (sound.named operation present) flat
  · exact index
  · exact index

/-- An operation of a report is known by its kind and its field. -/
theorem Sound.eq_of_field (sound : report.Sound schema) {other : Operation}
    (present : operation ∈ report.operations) (otherPresent : other ∈ report.operations)
    (kinds : operation.kind = other.kind) (fields : operation.field = other.field) :
    operation = other :=
  List.inj_on_of_nodup_map (sound.distinct other.kind)
    (mem_operationsOf_iff.mpr ⟨present, kinds⟩) (mem_operationsOf_iff.mpr ⟨otherPresent, rfl⟩)
    fields

/-- A document has a file of its own, but for one that goes into an index's file. -/
theorem Sound.document_alone (sound : report.Sound schema)
    (present : operation ∈ report.operations) (apart : ¬ operation.Clashes config.extension)
    (listed : write ∈ report.writes schema config)
    (same : write.place top = (operation.write config.extension).place top) :
    write = operation.write config.extension := by
  rcases Write.place_eq_iff.mp same with ⟨above, name⟩
  rcases (mem_writes_iff sound).mp listed with ⟨other, otherPresent, rfl⟩ | ⟨kind, _, rfl⟩ | rfl
  · have kinds : other.kind = operation.kind :=
      OperationKind.directory_injective (List.cons.inj above).1
    have fields : other.field = operation.field := documentName_inj name
    rw [sound.eq_of_field otherPresent present kinds fields]
  · exact (apart (documentName_eq_iff.mp name.symm)).elim
  · cases above

/-- The last index has a file of its own. -/
theorem Sound.rootIndex_alone (sound : report.Sound schema)
    (listed : write ∈ report.writes schema config) {text : String}
    (same : write.place top = (Write.rootIndex text).place top) :
    write = .rootIndex (rootIndex (schema.rootedKinds OperationKind.all)) := by
  have above := (Write.place_eq_iff.mp same).1
  rcases (mem_writes_iff sound).mp listed with ⟨other, _, rfl⟩ | ⟨kind, _, rfl⟩ | rfl
  · cases above
  · cases above
  · rfl

theorem above_of_mem_kindWrites (listed : write ∈ report.kindWrites extension kind) :
    write.above = [kind.directory] := by
  rcases List.mem_append.mp listed with document | index
  · rcases List.mem_map.mp document with ⟨_, _, rfl⟩
    rfl
  · cases List.mem_singleton.mp index
    rfl

theorem nodup_rootedKinds : (schema.rootedKinds OperationKind.all).Nodup :=
  List.Nodup.filter _ (by decide)

/-- The index of a kind is the last write to its file. -/
theorem kindIndex_last (report : Report) (config : Config) (top : Place)
    (rooted : kind ∈ schema.rootedKinds OperationKind.all) :
    ∃ early late, report.writes schema config =
        early ++ report.indexWrite config.extension kind :: late ∧
      ∀ other ∈ late,
        other.place top ≠ (report.indexWrite config.extension kind).place top := by
  rcases List.append_of_mem rooted with ⟨kinds, others, split⟩
  have fresh : kind ∉ others := by
    have distinct : (kinds ++ kind :: others).Nodup := split ▸ nodup_rootedKinds
    exact (List.nodup_cons.mp distinct.of_append_right).1
  refine ⟨kinds.flatMap (report.kindWrites config.extension) ++
      (report.operationsOf kind).map (·.write config.extension),
    others.flatMap (report.kindWrites config.extension) ++
      [.rootIndex (rootIndex (schema.rootedKinds OperationKind.all))], ?_, ?_⟩
  · simp [writes, kindWrites_eq, split]
  · intro other listed same
    have above := (Write.place_eq_iff.mp same).1
    rcases List.mem_append.mp listed with listed | root
    · rcases List.mem_flatMap.mp listed with ⟨later, present, listed⟩
      rw [above_of_mem_kindWrites listed] at above
      exact fresh (OperationKind.directory_injective (List.cons.inj above).1 ▸ present)
    · cases List.mem_singleton.mp root
      cases above

/-- The writes of a kind go into different files when no document goes into the index's file. -/
theorem Sound.nodup_kindPlaces (sound : report.Sound schema)
    (apart : ∀ operation ∈ report.operations, ¬ operation.Clashes config.extension) :
    ((report.kindWrites config.extension kind).map (Write.place top)).Nodup := by
  rw [kindWrites_eq, List.map_append, List.map_map]
  refine List.Nodup.append (List.Nodup.map_on ?_ ?_) (List.nodup_singleton _) ?_
  · intro operation listed other otherListed same
    rcases mem_operationsOf_iff.mp listed with ⟨present, kinds⟩
    rcases mem_operationsOf_iff.mp otherListed with ⟨otherPresent, otherKinds⟩
    exact sound.eq_of_field present otherPresent (kinds.trans otherKinds.symm)
      (documentName_inj (Write.place_eq_iff.mp same).2)
  · exact (sound.distinct kind).of_map
  · intro place document index
    rcases List.mem_map.mp document with ⟨operation, listed, rfl⟩
    have name := (Write.place_eq_iff.mp (List.mem_singleton.mp index)).2
    exact apart operation (mem_operationsOf_iff.mp listed).1 (documentName_eq_iff.mp name)

/-- No two writes of a report go into one file exactly when no document goes into the file of an
index. -/
theorem Sound.nodup_places_iff (sound : report.Sound schema) (top : Place) :
    ((report.writes schema config).map (Write.place top)).Nodup ↔
      ∀ operation ∈ report.operations, ¬ operation.Clashes config.extension := by
  constructor
  · intro distinct operation present clashes
    have document : operation.write config.extension ∈ report.writes schema config :=
      (mem_writes_iff sound).mpr (.inl ⟨operation, present, rfl⟩)
    have index : report.indexWrite config.extension operation.kind ∈ report.writes schema config :=
      (mem_writes_iff sound).mpr
        (.inr (.inl ⟨operation.kind, sound.rooted operation present, rfl⟩))
    have same : (operation.write config.extension).place top =
        (report.indexWrite config.extension operation.kind).place top :=
      Write.place_eq_iff.mpr ⟨rfl, documentName_eq_iff.mpr clashes⟩
    cases List.inj_on_of_nodup_map distinct document index same
  · intro apart
    rw [writes, List.map_append, List.map_flatMap]
    refine List.Nodup.append (List.nodup_flatMap.mpr
      ⟨fun kind _ => sound.nodup_kindPlaces apart, ?_⟩) (List.nodup_singleton _) ?_
    · refine nodup_rootedKinds.imp fun {kind other} different place early late => ?_
      rcases List.mem_map.mp early with ⟨write, listed, rfl⟩
      rcases List.mem_map.mp late with ⟨otherWrite, otherListed, same⟩
      have above := (Write.place_eq_iff.mp same).1
      rw [above_of_mem_kindWrites listed, above_of_mem_kindWrites otherListed] at above
      exact different (OperationKind.directory_injective (List.cons.inj above).1).symm
    · intro place listed root
      rcases List.mem_flatMap.mp listed with ⟨kind, _, listed⟩
      rcases List.mem_map.mp listed with ⟨write, inKind, rfl⟩
      have above := (Write.place_eq_iff.mp (List.mem_singleton.mp root)).1
      rw [above_of_mem_kindWrites inKind] at above
      cases above

end Report

end SchemaUnfolding
