import SchemaUnfolding.Proofs.Discovery.Searching
import SchemaUnfolding.Proofs.Files.Walking

/-!
# Lists of schema files

The schema files at or under a path, in the order of the names on the way to them, make a list
without repetition. The lists for several paths, one behind the other, hold a file once for every
path that it is at or under.
-/

namespace SchemaUnfolding

theorem Path.fileName_eq_self {name : String} (named : Path.IsFileName name) :
    Path.fileName name = name := by
  have present : name ≠ "" := fun empty => named.moves (.inr empty)
  simp [Path.fileName, Path.names, Text.split, Text.splitChars_of_not_mem named.flat, present]

/-- A path leads to a place or to a directory above it. -/
def Disk.Encloses (disk : Disk) (path : String) (place : Place) : Prop :=
  ∃ top ∈ disk.destination? path, top <+: place

instance (disk : Disk) (path : String) (place : Place) : Decidable (disk.Encloses path place) :=
  inferInstanceAs (Decidable (∃ top ∈ disk.destination? path, top <+: place))

namespace SchemaSources

variable {sources : SchemaSources} {disk : Disk} {path : String} {place top : Place} {way : Way}

/-- A name has one of the extensions of schemas, whatever the case of its ASCII letters. Dots in
front of an extension in the list do not count. -/
def HasExtension (sources : SchemaSources) (name : String) : Prop :=
  ∃ listed ∈ sources.extensions, (Path.extension? name).map Text.lowerAscii =
    some (Text.lowerAscii (Text.dropLeadingDots listed))

instance (sources : SchemaSources) (name : String) : Decidable (sources.HasExtension name) :=
  inferInstanceAs (Decidable (∃ listed ∈ sources.extensions, _))

/-- A file stands at a place, under a name with one of the extensions of schemas. -/
def IsSchemaFile (sources : SchemaSources) (disk : Disk) (place : Place) : Prop :=
  disk.isFileAt place = true ∧ ∃ name ∈ place.getLast?, sources.HasExtension name

instance (sources : SchemaSources) (disk : Disk) (place : Place) :
    Decidable (sources.IsSchemaFile disk place) :=
  inferInstanceAs (Decidable (_ ∧ ∃ name ∈ place.getLast?, sources.HasExtension name))

/-- The ways from a place to the schema files at or below it: depth first, and by names within a
directory. -/
def waysToFiles (sources : SchemaSources) (disk : Disk) (place : Place) : List Way :=
  ([] :: disk.below place).filter fun way => sources.IsSchemaFile disk (place ++ way)

/-- The paths of the schema files at or under a path, in this order. -/
def filesUnder (sources : SchemaSources) (disk : Disk) (path : String) : List String :=
  (disk.destination? path).elim [] fun place =>
    (sources.waysToFiles disk place).map (Path.extend path)

/-- The paths of the schema files at or under each of the paths, one path after the other. -/
def listing (sources : SchemaSources) (disk : Disk) : List String :=
  sources.paths.flatMap (sources.filesUnder disk)

/-! ## Schema files -/

theorem covers_iff (named : Path.IsFileName (Path.fileName path)) :
    sources.covers path ↔ sources.HasExtension (Path.fileName path) := by
  have same : Path.extension? (Path.fileName path) = Path.extension? path := by
    rw [Path.extension?, Path.extension?, Path.fileName_eq_self named]
  rw [covers, HasExtension, same]
  cases Path.extension? path with
  | none => simp
  | some extension => simp [eq_comm]

/-- A walk keeps what it visits at the end of a way exactly when a schema file stands there. -/
theorem keeps_visitAt (tree : disk.IsTree) {entry : Entry} (meets : disk.Meets path place entry)
    (unlinked : disk.Unlinked place) (way : Way) :
    sources.keeps (disk.visitAt path place way) ↔ sources.IsSchemaFile disk (place ++ way) := by
  rw [keeps, Bool.and_eq_true, IsSchemaFile]
  refine and_congr_right fun file => ?_
  rw [Disk.visitAt, Disk.isFileAt, Option.any_eq_true] at file
  rcases file with ⟨last, stands, file⟩
  have further := meets.extend tree unlinked stands
  have last := further.named (by rintro rfl; cases file)
  rcases List.getLast?_eq_some_iff.mp last with ⟨directory, split⟩
  have held : (disk.get? (place ++ way)).isSome := by rw [stands, Option.isSome_some]
  rw [split] at held
  have named := tree.named_of_isSome held
  simp [last, Disk.visitAt, covers_iff named.toIsFileName]

theorem filesUnder_eq (sources : SchemaSources) (tree : disk.IsTree)
    (leads : disk.LeadsToTree path place) :
    sources.filesUnder disk path = (sources.waysToFiles disk place).map (Path.extend path) := by
  rw [filesUnder, leads.destination?_eq tree, Option.elim_some]

/-- A search from a path to a tree finds the schema files at or under it. -/
theorem endsWith_sift_walk (sources : SchemaSources) (tree : disk.IsTree)
    (leads : disk.LeadsToTree path place) (short : ¬ disk.Overlong path place) :
    (sources.sift path (disk.walk path)).EndsWith (.ok (sources.filesUnder disk path)) := by
  rcases leads.exists_meets tree with ⟨entry, meets, _⟩
  have walked : disk.walk path =
      (([] :: disk.below place).map (disk.visitAt path place)).map .ok := by
    rw [leads.walk_eq tree short, List.map_map]
    rfl
  have kept : (sources.keeps ∘ disk.visitAt path place) =
      fun way => decide (sources.IsSchemaFile disk (place ++ way)) := by
    funext way
    rw [Bool.eq_iff_iff, decide_eq_true_iff]
    exact keeps_visitAt tree meets leads.1 way
  have listed : ((([] :: disk.below place).map (disk.visitAt path place)).filter sources.keeps).map
      Visit.path = sources.filesUnder disk path := by
    rw [List.filter_map, kept, List.map_map, filesUnder_eq sources tree leads]
    rfl
  rw [walked, ← listed]
  exact endsWith_sift sources path _

/-! ## How often a file is listed -/

theorem mem_waysToFiles_iff (sources : SchemaSources) (tree : disk.IsTree) :
    way ∈ sources.waysToFiles disk place ↔ sources.IsSchemaFile disk (place ++ way) := by
  rw [waysToFiles, List.mem_filter, decide_eq_true_iff, and_iff_right_iff_imp]
  intro file
  have stands := file.1
  rw [Disk.isFileAt, Option.any_eq_true] at stands
  rcases stands with ⟨last, stands, _⟩
  rw [List.mem_cons, tree.mem_below_iff, stands]
  exact or_iff_not_imp_left.mpr fun onward => ⟨onward, rfl⟩

theorem nodup_waysToFiles (sources : SchemaSources) (tree : disk.IsTree) (place : Place) :
    (sources.waysToFiles disk place).Nodup := by
  refine List.Nodup.filter _ (List.nodup_cons.mpr ⟨?_, (tree.pairwise_below place).imp ne_of_lt⟩)
  exact fun member => (tree.mem_below_iff.mp member).1 rfl

/-- The paths of the schema files under a path lead to those files. -/
theorem map_destination?_filesUnder (sources : SchemaSources) (tree : disk.IsTree)
    (leads : disk.LeadsToTree path place) :
    (sources.filesUnder disk path).map disk.destination? =
      (sources.waysToFiles disk place).map fun way => some (place ++ way) := by
  rcases leads.exists_meets tree with ⟨entry, meets, _⟩
  rw [filesUnder_eq sources tree leads, List.map_map]
  refine List.map_congr_left fun way member => ?_
  have file := ((mem_waysToFiles_iff sources tree).mp member).1
  rw [Disk.isFileAt, Option.any_eq_true] at file
  rcases file with ⟨last, stands, _⟩
  exact (meets.extend tree leads.1 stands).destination

/-- Under one path no file is listed twice. -/
theorem nodup_destinations (sources : SchemaSources) (tree : disk.IsTree)
    (leads : disk.LeadsToTree path place) :
    ((sources.filesUnder disk path).map disk.destination?).Nodup := by
  rw [map_destination?_filesUnder sources tree leads]
  refine (nodup_waysToFiles sources tree place).map fun first second same => ?_
  exact List.append_cancel_left (Option.some.inj same)

/-- Under a path exactly the schema files are listed that the path encloses. -/
theorem mem_destinations_iff (sources : SchemaSources) (tree : disk.IsTree)
    (leads : disk.LeadsToTree path top) :
    some place ∈ (sources.filesUnder disk path).map disk.destination? ↔
      sources.IsSchemaFile disk place ∧ disk.Encloses path place := by
  rw [map_destination?_filesUnder sources tree leads, Disk.Encloses, leads.destination?_eq tree]
  simp only [List.mem_map, mem_waysToFiles_iff sources tree, Option.some.injEq, Option.mem_def,
    exists_eq_left']
  constructor
  · rintro ⟨way, file, rfl⟩
    exact ⟨file, List.prefix_append top way⟩
  · rintro ⟨file, way, rfl⟩
    exact ⟨way, file, rfl⟩

/-- Each path that is listed leads somewhere. -/
theorem none_not_mem_destinations (sources : SchemaSources) (tree : disk.IsTree)
    {paths : List String} (leads : ∀ path ∈ paths, ∃ top, disk.LeadsToTree path top) :
    none ∉ (paths.flatMap (sources.filesUnder disk)).map disk.destination? := by
  rw [List.map_flatMap, List.mem_flatMap]
  rintro ⟨path, member, nowhere⟩
  rcases leads path member with ⟨top, led⟩
  rw [map_destination?_filesUnder sources tree led] at nowhere
  simp at nowhere

/-- A schema file is listed once for each path that encloses it, and no other file is listed. -/
theorem count_destinations (sources : SchemaSources) (tree : disk.IsTree) {paths : List String}
    (leads : ∀ path ∈ paths, ∃ top, disk.LeadsToTree path top) (place : Place) :
    ((paths.flatMap (sources.filesUnder disk)).map disk.destination?).count (some place) =
      if sources.IsSchemaFile disk place then paths.countP (disk.Encloses · place) else 0 := by
  induction paths with
  | nil => simp
  | cons path rest ih =>
    rcases List.forall_mem_cons.mp leads with ⟨⟨top, first⟩, leads⟩
    rw [List.flatMap_cons, List.map_append, List.count_append, ih leads,
      (nodup_destinations sources tree first).count, List.countP_cons]
    simp only [mem_destinations_iff sources tree first]
    by_cases file : sources.IsSchemaFile disk place
    · simp [file, Nat.add_comm]
    · simp [file]

/-- No file is listed twice exactly when no schema file is enclosed by two of the paths. -/
theorem nodup_destinations_iff (sources : SchemaSources) (tree : disk.IsTree)
    {paths : List String} (leads : ∀ path ∈ paths, ∃ top, disk.LeadsToTree path top) :
    ((paths.flatMap (sources.filesUnder disk)).map disk.destination?).Nodup ↔
      ∀ place, sources.IsSchemaFile disk place → paths.countP (disk.Encloses · place) ≤ 1 := by
  rw [List.nodup_iff_count_le_one]
  constructor
  · intro once place file
    have counted := once (some place)
    rwa [count_destinations sources tree leads, if_pos file] at counted
  · rintro once (_ | place)
    · rw [List.count_eq_zero.mpr (none_not_mem_destinations sources tree leads)]
      exact Nat.zero_le 1
    · rw [count_destinations sources tree leads]
      split
      · exact once place ‹_›
      · exact Nat.zero_le 1

/-- Something is listed exactly when one of the paths encloses a schema file. -/
theorem flatMap_filesUnder_ne_nil_iff (sources : SchemaSources) (tree : disk.IsTree)
    {paths : List String} (leads : ∀ path ∈ paths, ∃ top, disk.LeadsToTree path top) :
    paths.flatMap (sources.filesUnder disk) ≠ [] ↔
      ∃ place, sources.IsSchemaFile disk place ∧ ∃ path ∈ paths, disk.Encloses path place := by
  have listed : ∀ place,
      some place ∈ (paths.flatMap (sources.filesUnder disk)).map disk.destination? ↔
        sources.IsSchemaFile disk place ∧ ∃ path ∈ paths, disk.Encloses path place := by
    intro place
    rw [← List.count_pos_iff, count_destinations sources tree leads]
    by_cases file : sources.IsSchemaFile disk place
    · simp [file, List.countP_pos_iff]
    · simp [file]
  simp only [← listed]
  constructor
  · intro filled
    rcases List.exists_mem_of_ne_nil _ filled with ⟨path, member⟩
    have member := List.mem_map_of_mem (f := disk.destination?) member
    cases led : disk.destination? path with
    | none => exact (none_not_mem_destinations sources tree leads (led ▸ member)).elim
    | some place => exact ⟨place, led ▸ member⟩
  · rintro ⟨place, member⟩ empty
    simp [empty] at member

end SchemaSources

end SchemaUnfolding
