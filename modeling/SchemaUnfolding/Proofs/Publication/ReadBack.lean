import Mathlib.Data.List.Dedup
import SchemaUnfolding.Proofs.Publication.Reports
import SchemaUnfolding.Proofs.Schema.Loaded

/-!
# Reading documents back

What was published below a directory can be read back, document by document and index by index,
unless the document of an operation went into the file of an index: that file holds the index, and
fewer files were written than were counted.
-/

namespace SchemaUnfolding

open ExceptT

/-! ## Reading back -/

namespace Destination

variable {schema : Schema} {config : Config} {report : Report} {before : Destination} {top : Place}
  {root : String} {write other : Write}

theorem names_pathOf (filled : root ≠ "") (named : Path.IsFileName (nameOf write)) :
    Path.names (pathOf root write) = write.place (Path.names root) := by
  have nonempty : nameOf write ≠ "" := fun empty => named.moves (.inr empty)
  have inKind : ∀ (kind : OperationKind) (name : String), Path.IsFileName name → name ≠ "" →
      Path.names (Path.join (Path.join root kind.directory) name) =
        Path.names root ++ [kind.directory] ++ [name] := by
    intro kind name named nonempty
    have directory := kind.isFileName_directory
    have kindFilled : kind.directory ≠ "" := fun empty => directory.moves (.inr empty)
    rw [Path.names_join (Path.join_ne_empty filled) named.flat nonempty,
      Path.names_join filled directory.flat kindFilled]
  cases write with
  | document kind => exact inKind kind _ named nonempty
  | kindIndex kind => exact inKind kind _ named nonempty
  | rootIndex text =>
    refine (Path.names_join filled named.flat nonempty).trans ?_
    rw [Write.place, Write.above, List.append_nil]

/-- Two writes have one path exactly when they have one place. -/
theorem pathOf_eq_iff (filled : root ≠ "") (named : Path.IsFileName (nameOf write))
    (otherNamed : Path.IsFileName (nameOf other)) :
    pathOf root write = pathOf root other ↔ write.place top = other.place top := by
  refine ⟨fun same => ?_, Write.pathOf_eq root⟩
  have places := congrArg Path.names same
  rw [names_pathOf filled named, names_pathOf filled otherNamed] at places
  exact Write.place_eq_iff.mpr (Write.place_eq_iff.mp places)

/-- No two writes have one path exactly when no two have one place. -/
theorem nodup_paths_iff {writes : List Write} (filled : root ≠ "")
    (named : ∀ write ∈ writes, Path.IsFileName (nameOf write)) :
    (writes.map (pathOf root)).Nodup ↔ (writes.map (Write.place top)).Nodup := by
  constructor
  · intro distinct
    refine distinct.of_map.map_on fun write listed other otherListed same => ?_
    exact List.inj_on_of_nodup_map distinct listed otherListed (Write.pathOf_eq root same)
  · intro distinct
    refine distinct.of_map.map_on fun write listed other otherListed same => ?_
    exact List.inj_on_of_nodup_map distinct listed otherListed
      ((pathOf_eq_iff filled (named write listed) (named other otherListed)).mp same)

/-- A write whose place no other write has can be read back. -/
theorem readText_of_alone {writes : List Write} (accepts : sink.AcceptsAll before writes)
    (named : ∀ write ∈ writes, Path.IsFileName (nameOf write))
    (tree : (sink.after before writes).disk.PlainTree before.directory top)
    (listed : write ∈ writes)
    (alone : ∀ other ∈ writes, other.place top = write.place top → other = write) :
    (sink.after before writes).disk.readText (pathOf before.directory write) =
      .ok (textOf write) := by
  rcases List.eq_append_cons_of_mem (List.mem_reverse.mpr listed) with ⟨late, early, split, fresh⟩
  have split : writes = early.reverse ++ write :: late.reverse := by
    simpa using congrArg List.reverse split
  subst split
  refine readText_of_last named accepts tree fun other later same => ?_
  have again : other = write := alone other (by simp [List.mem_reverse.mp later]) same
  exact fresh (again ▸ List.mem_reverse.mp later)

/-- The index of a kind can be read back. -/
theorem readText_indexWrite {kind : OperationKind}
    (named : ∀ write ∈ report.writes schema config, Path.IsFileName (nameOf write))
    (accepts : sink.AcceptsAll before (report.writes schema config))
    (tree : (sink.after before (report.writes schema config)).disk.PlainTree before.directory top)
    (rooted : kind ∈ schema.rootedKinds OperationKind.all) :
    (sink.after before (report.writes schema config)).disk.readText
        (pathOf before.directory (report.indexWrite config.extension kind)) =
      .ok (kindIndex config.extension ((report.operationsOf kind).map Operation.field)) := by
  rcases report.kindIndex_last config top rooted with ⟨early, late, split, last⟩
  rw [split] at accepts named tree ⊢
  exact readText_of_last named accepts tree last

/-- The document of an operation can be read back unless it goes into the file of an index: then
that index is read. -/
theorem readText_document {operation : Operation} (sound : report.Sound schema)
    (named : ∀ write ∈ report.writes schema config, Path.IsFileName (nameOf write))
    (accepts : sink.AcceptsAll before (report.writes schema config))
    (tree : (sink.after before (report.writes schema config)).disk.PlainTree before.directory top)
    (present : operation ∈ report.operations) :
    (sink.after before (report.writes schema config)).disk.readText
        (pathOf before.directory (operation.write config.extension)) =
      .ok (if operation.Clashes config.extension then
          kindIndex config.extension ((report.operationsOf operation.kind).map Operation.field)
        else operation.text) := by
  by_cases clashes : operation.Clashes config.extension
  · have same : (operation.write config.extension).place top =
        (report.indexWrite config.extension operation.kind).place top :=
      Write.place_eq_iff.mpr ⟨rfl, documentName_eq_iff.mpr clashes⟩
    rw [if_pos clashes, Write.pathOf_eq before.directory same]
    exact readText_indexWrite named accepts tree (sound.rooted operation present)
  · have listed : operation.write config.extension ∈ report.writes schema config :=
      (Report.mem_writes_iff sound).mpr (.inl ⟨operation, present, rfl⟩)
    rw [if_neg clashes]
    exact readText_of_alone accepts named tree listed fun other listed same =>
      sound.document_alone present clashes listed same

/-- As many files were written as writes were counted exactly when no document goes into the file of
an index. -/
theorem written_eq_iff (sound : report.Sound schema) (fresh : before.written = 0)
    (named : ∀ write ∈ report.writes schema config, Path.IsFileName (nameOf write))
    (accepts : sink.AcceptsAll before (report.writes schema config))
    (filled : before.directory ≠ "") :
    (sink.after before (report.writes schema config)).written =
        ((report.writes schema config).map (pathOf before.directory)).dedup.length ↔
      ∀ operation ∈ report.operations, ¬ operation.Clashes config.extension := by
  rw [← sound.nodup_places_iff [], ← nodup_paths_iff filled named, ← List.dedup_eq_self,
    (grows_after accepts).2.2, fresh, Nat.zero_add]
  constructor
  · intro same
    exact (List.dedup_sublist _).eq_of_length (by rw [List.length_map, same])
  · intro whole
    rw [whole, List.length_map]

end Destination

/-- A publication of a checked schema into a directory below which stand only files and directories
has handed over the writes of a sound report, and the directory took them all. -/
theorem Schema.Checked.settled_of_published {schema : Schema} (checked : schema.Checked)
    {config : Config} (flat : '/' ∉ config.extension.toList) {before final : Destination}
    {events later : Array Event} {report : Report}
    (published : (Publication.all Destination.sink schema config).Returns (before, events) report
      (final, later))
    (plain : ∀ top, final.disk.look .throughLink before.directory = .ok (top, .directory) →
      before.disk.PlainBelow top) :
    report.Sound schema ∧
      (∀ write ∈ report.writes schema config, Path.IsFileName (Destination.nameOf write)) ∧
      Destination.sink.AcceptsAll before (report.writes schema config) ∧
      final = Destination.sink.after before (report.writes schema config) ∧
      ∃ top, final.disk.PlainTree before.directory top := by
  have never : (Generation.all schema config).Faultless :=
    Generation.faultless_ofKinds checked.closed OperationKind.all
  rcases Publication.of_returns_all never published with ⟨⟨after, generated⟩, accepts, rfl⟩
  have sound := Generation.sound_of_returns_all checked.built.wellFormed generated
  exact ⟨sound, Report.isFileName_nameOf sound flat, accepts, rfl,
    Destination.plainTree_after accepts plain⟩

/-- After a publication into a directory below which stood only files and directories, each
document can be read back, but for that of a field `index` with the extension `js`: its file holds
the index of its kind. Each index can be read back. The writes that were counted are as many as the
files exactly when there is no such document. The directory need not have been there before; it is
the one that its path leads to in the end. -/
theorem Schema.Checked.published_read_back {schema : Schema} (checked : schema.Checked)
    {config : Config} (flat : '/' ∉ config.extension.toList) {root : String} {disk : Disk}
    {events later : Array Event} {report : Report} {final : Destination}
    (published : (Publication.all Destination.sink schema config).Returns (⟨root, disk, 0⟩, events)
      report (final, later))
    (plain : ∀ top, final.disk.look .throughLink root = .ok (top, .directory) →
      disk.PlainBelow top) :
    (∀ operation ∈ report.operations,
      final.disk.readText (Path.join (Path.join root operation.kind.directory)
          (operation.field ++ "." ++ config.extension)) =
        .ok (if operation.Clashes config.extension then
            kindIndex config.extension ((report.operationsOf operation.kind).map Operation.field)
          else operation.text)) ∧
    (∀ kind ∈ schema.rootedKinds OperationKind.all,
      final.disk.readText (Path.join (Path.join root kind.directory) "index.js") =
        .ok (kindIndex config.extension ((report.operationsOf kind).map Operation.field))) ∧
    final.disk.readText (Path.join root "index.js") =
      .ok (rootIndex (schema.rootedKinds OperationKind.all)) ∧
    (final.written = ((report.writes schema config).map (Destination.pathOf root)).dedup.length ↔
      ∀ operation ∈ report.operations, ¬ operation.Clashes config.extension) := by
  rcases checked.settled_of_published flat published plain with
    ⟨sound, named, accepts, rfl, top, tree⟩
  have listed : .rootIndex (rootIndex (schema.rootedKinds OperationKind.all)) ∈
      report.writes schema config := (Report.mem_writes_iff sound).mpr (.inr (.inr rfl))
  refine ⟨fun operation present => ?_, fun kind rooted => ?_, ?_, ?_⟩
  · exact Destination.readText_document sound named accepts tree present
  · exact Destination.readText_indexWrite named accepts tree rooted
  · have read := Destination.readText_of_alone accepts named tree listed fun other listed same =>
      sound.rootIndex_alone listed same
    exact read
  · exact Destination.written_eq_iff sound rfl named accepts tree.opens.1.filled

/-! ## A small schema with a field for the index -/

/-- The source of a small schema, one field of which has the name of an index. -/
def indexedSource : String := "type Query { index: Int title: Int }"

/-- A place in the source. -/
def indexedAt (column : Nat) : Location := .source none ⟨1, column⟩

/-- A field of the small schema. -/
def indexedField (name : String) (column : Nat) : Field :=
  ⟨indexedAt column, none, none, name, .empty, "Query", .named true ⟨"Int", indexedAt column⟩⟩

/-- The root type of the small schema. -/
def indexedQuery : FieldedType :=
  ⟨indexedAt 1, none, .ofList [("index", indexedField "index" 14),
    ("title", indexedField "title" 25)], [], "Query"⟩

/-- The small schema. -/
def indexedSchema : Schema where
  query := some ⟨"Query", indexedAt 1⟩
  mutation := none
  subscription := none
  types := TypeDef.builtIns.insertAll [("Query", .object indexedQuery)]

theorem load_indexedSource :
    SchemaBuilder.empty.load none indexedSource = ([], .ok { types := indexedSchema.types }) := by
  cbv

theorem indexedSchema_checked : indexedSchema.Checked := by
  refine ⟨{ types := indexedSchema.types }, .load .empty load_indexedSource, rfl, ?_⟩
  cbv

/-- A directory for the documents of the small schema. -/
def indexedDestination : Destination where
  directory := "out"
  disk := { entries := [(["out"], .directory), (["out", "queries"], .directory)] }

/-- The writes for the small schema. -/
def indexedWrites : List Write :=
  [.document .query "index" "js" "query index\x7b\n    index\n\x7d",
    .document .query "title" "js" "query title\x7b\n    title\n\x7d",
    .kindIndex .query (kindIndex "js" ["index", "title"]), .rootIndex (rootIndex [.query])]

theorem fits_indexedWrites :
    ∀ write ∈ indexedWrites, Destination.Fits indexedDestination.disk "out" ["out"] write := by
  have opened : ∀ steps {path place}, Path.Usable path → Disk.start path [] = [] →
      Path.steps path = steps → indexedDestination.disk.follow .throughLink Disk.linkLimit []
        steps = .ok (.entry place .directory) → indexedDestination.disk.Opens path place := by
    rintro _ path place usable begins rfl followed
    refine Disk.look_directory_iff.mp (Disk.look_eq_ok_iff.mpr ?_)
    exact Disk.followPath_eq_ok_iff.mpr ⟨usable, begins.symm ▸ followed⟩
  have top : indexedDestination.disk.Opens "out" ["out"] :=
    opened ["out"] (by decide) (by decide) (by decide) (by cbv)
  have queries : indexedDestination.disk.Opens "out/queries" ["out", "queries"] :=
    opened ["out", "queries"] (by decide) (by decide)
      (by decide) (by cbv)
  have settled : ∀ write ∈ indexedWrites,
      (Destination.directoryOf "out" write = "out/queries" ∧ write.above = ["queries"] ∨
        Destination.directoryOf "out" write = "out" ∧ write.above = []) ∧
      Path.IsFileName (Destination.nameOf write) ∧ Path.IsEntry (Destination.nameOf write) ∧
      Path.Usable (Destination.pathOf "out" write) ∧
      indexedDestination.disk.get? (write.place ["out"]) = none := by
    decide
  intro write listed
  rcases settled write listed with ⟨directory, named, entry, usable, nothing⟩
  refine ⟨?_, named, entry, usable, .inl nothing⟩
  rcases directory with ⟨path, above⟩ | ⟨path, above⟩
  · rw [path, above]
    exact queries
  · rw [path, above]
    exact top

/-- The small schema is published into the directory, which takes all writes. -/
theorem published_indexedSchema :
    ∃ report later,
      (Publication.all Destination.sink indexedSchema { extension := "js" }).Returns
        (indexedDestination, #[]) report
        (Destination.sink.after indexedDestination indexedWrites, later) ∧
      report.writes indexedSchema { extension := "js" } = indexedWrites ∧
      report.operations.map (·.write "js") = indexedWrites.take 2 := by
  let generation := Generation.all indexedSchema { extension := "js" }
  have never : generation.Faultless :=
    Generation.faultless_ofKinds indexedSchema_checked.closed OperationKind.all
  rcases never.returns #[] with ⟨report, after, returned⟩
  have ran : generation.run.run #[] = (.ok report, after) := returned
  have known : (generation.run.run #[]).1.toOption.map
      (fun report => (report.writes indexedSchema { extension := "js" },
        report.operations.map (·.write "js"))) = some (indexedWrites, indexedWrites.take 2) := by
    decide +kernel
  rw [ran] at known
  have known : (report.writes indexedSchema { extension := "js" },
      report.operations.map (·.write "js")) = (indexedWrites, indexedWrites.take 2) :=
    Option.some.inj known
  rcases Prod.mk.inj known with ⟨writes, operations⟩
  rcases Publication.performs_all Destination.sink returned indexedDestination #[] with
    ⟨later, published⟩
  rw [writes, Sink.feed_of_acceptsAll (Destination.acceptsAll_of_fits fits_indexedWrites)]
    at published
  exact ⟨report, later, published, writes, operations⟩

theorem indexedDestination_plain (top : Place) : indexedDestination.disk.PlainBelow top := by
  refine Disk.plainBelow_of_entries (fun pair listed => ?_) top
  rcases List.mem_pair.mp listed with rfl | rfl <;> trivial

/-- The operations of the small schema are known by their documents. -/
theorem operations_indexedSchema {report : Report}
    (known : report.operations.map (·.write "js") = indexedWrites.take 2) :
    ∃ index title : Operation, report.operations = [index, title] ∧
      (report.operationsOf .query).map Operation.field = ["index", "title"] ∧
      index.kind = .query ∧ index.field = "index" ∧
      index.text = "query index\x7b\n    index\n\x7d" ∧
      title.kind = .query ∧ title.field = "title" ∧
      title.text = "query title\x7b\n    title\n\x7d" := by
  rcases List.map_eq_cons_iff.mp known with ⟨index, others, operations, first, known⟩
  rcases List.map_eq_cons_iff.mp known with ⟨title, none, rest, second, known⟩
  cases List.map_eq_nil_iff.mp known
  rcases Write.document.inj first with ⟨indexKind, indexField, _, indexText⟩
  rcases Write.document.inj second with ⟨titleKind, titleField, _, titleText⟩
  have both : report.operations = [index, title] := rest ▸ operations
  have ofQuery : (report.operationsOf .query).map Operation.field = ["index", "title"] := by
    simp [Report.operationsOf, both, indexKind, titleKind, indexField, titleField]
  exact ⟨index, title, both, ofQuery, indexKind, indexField, indexText, titleKind, titleField,
    titleText⟩

/-- The document of one field of the small schema is read back, that of the other is lost. -/
theorem indexedSchema_read_back :
    ∃ report final later,
      (Publication.all Destination.sink indexedSchema { extension := "js" }).Returns
        (indexedDestination, #[]) report (final, later) ∧
      report.operations.map Operation.field = ["index", "title"] ∧
      final.disk.readText "out/queries/title.js" = .ok "query title\x7b\n    title\n\x7d" ∧
      final.disk.readText "out/queries/index.js" = .ok (kindIndex "js" ["index", "title"]) ∧
      final.written ≠ ((report.writes indexedSchema { extension := "js" }).map
        (Destination.pathOf "out")).dedup.length := by
  rcases published_indexedSchema with ⟨report, later, published, writes, known⟩
  have read := indexedSchema_checked.published_read_back
    (by decide) published fun top _ => indexedDestination_plain top
  rcases operations_indexedSchema known with
    ⟨index, title, operations, ofQuery, _, indexField, _, titleKind, titleField, titleText⟩
  have fields : report.operations.map Operation.field = ["index", "title"] := by
    rw [operations, List.map_cons, List.map_cons, List.map_nil, indexField, titleField]
  refine ⟨report, _, later, published, fields, ?_, ?_, fun same => ?_⟩
  · have document := read.1 title (by simp [operations])
    have apart : ¬ title.Clashes "js" := fun clashes =>
      absurd (titleField.symm.trans clashes.1) (by decide)
    have path : Path.join (Path.join "out" OperationKind.query.directory)
        ("title" ++ "." ++ "js") = "out/queries/title.js" := by decide
    rw [if_neg apart, titleKind, titleField, titleText, path] at document
    exact document
  · have document := read.2.1 .query (by decide)
    have path : Path.join (Path.join "out" OperationKind.query.directory) "index.js" =
        "out/queries/index.js" := by decide
    rw [ofQuery, path] at document
    exact document
  · exact read.2.2.2.mp same index (by simp [operations]) ⟨indexField, rfl⟩

/-- It is not so that after each publication into such a directory every document can be read back
and as many files were written as were counted. -/
theorem indexedSchema_not_read_back :
    ¬ ∀ (schema : Schema) (config : Config) (root : String) (disk : Disk)
        (events later : Array Event) (report : Report) (final : Destination),
      schema.Checked → config.extension ≠ "" →
      (∀ c ∈ config.extension.toList, c.isAlphanum) →
      (Publication.all Destination.sink schema config).Returns (⟨root, disk, 0⟩, events) report
        (final, later) →
      (∀ top, disk.PlainBelow top) →
      (∀ operation ∈ report.operations,
        final.disk.readText (Path.join (Path.join root operation.kind.directory)
          (operation.field ++ "." ++ config.extension)) = .ok operation.text) ∧
      final.written =
        ((report.writes schema config).map (Destination.pathOf root)).dedup.length := by
  intro law
  rcases published_indexedSchema with ⟨report, later, published, writes, known⟩
  rcases operations_indexedSchema known with
    ⟨index, title, operations, ofQuery, kind, field, text, _⟩
  have flat : '/' ∉ ({ extension := "js" } : Config).extension.toList := by decide
  rcases indexedSchema_checked.settled_of_published flat published
    fun top _ => indexedDestination_plain top with ⟨sound, named, accepts, ended, top, tree⟩
  have present : index ∈ report.operations := by simp [operations]
  have letters : ∀ c ∈ "js".toList, c.isAlphanum := List.all_eq_true.mp (by decide)
  have lawful := (law indexedSchema { extension := "js" } "out" indexedDestination.disk #[] later
    report _ indexedSchema_checked (by decide) letters published indexedDestination_plain).1
    index present
  rw [ended] at lawful tree
  have read := Destination.readText_document sound named accepts tree present
  have same := Except.ok.inj (lawful.symm.trans read)
  rw [if_pos ⟨field, rfl⟩, text, kind, ofQuery] at same
  exact absurd same (by decide)

end SchemaUnfolding
