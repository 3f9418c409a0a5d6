import SchemaUnfolding.Proofs.Discovery.Listing

/-!
# What a search finds

A search from paths to directory trees without links lists the schema files at or under each path,
one path after the other. Nothing keeps a file from being listed again for a second path that it is
at or under. Without schema files a single path to a file is taken, and anything else is an error,
as is a directory with a path that is too long to be opened.
-/

namespace SchemaUnfolding

namespace SchemaSources

variable {sources : SchemaSources} {disk : Disk}

/-- Some directory at or under one of the paths has a path that is too long to be opened. -/
def OutOfReach (sources : SchemaSources) (disk : Disk) : Prop :=
  ∃ path ∈ sources.paths, ∃ place ∈ disk.destination? path, disk.Overlong path place

/-- One of the paths encloses a schema file. -/
def HasFiles (sources : SchemaSources) (disk : Disk) : Prop :=
  ∃ place, sources.IsSchemaFile disk place ∧ ∃ path ∈ sources.paths, disk.Encloses path place

/-- A search ends with an error when a directory is out of reach. -/
theorem endsWith_discover_of_outOfReach (tree : disk.IsTree)
    (leads : ∀ path ∈ sources.paths, ∃ place, disk.LeadsToTree path place)
    (beyond : sources.OutOfReach disk) :
    ∃ start ∈ sources.paths, ∃ long, (sources.discover disk).EndsWith
      (.error (.unsearchable start (.inaccessible long .nameTooLong))) := by
  have fails : ∀ {path place}, disk.LeadsToTree path place → disk.Overlong path place →
      ∃ long, (sources.sift path (disk.walk path)).EndsWith
        (.error (.unsearchable path (.inaccessible long .nameTooLong))) := by
    intro path place led long
    rcases led.exists_error tree long with ⟨cause, failed⟩
    rcases endsWith_sift_error sources path failed with ⟨first, failed, ended⟩
    rcases led.cause_of_walk tree failed with ⟨long, rfl⟩
    exact ⟨long, ended⟩
  have each : ∀ path ∈ sources.paths,
      (∃ found, (sources.sift path (disk.walk path)).EndsWith (.ok found)) ∨
      ∃ error, (∃ long, error = .unsearchable path (.inaccessible long .nameTooLong)) ∧
        (sources.sift path (disk.walk path)).EndsWith (.error error) := by
    intro path member
    rcases leads path member with ⟨place, led⟩
    by_cases long : disk.Overlong path place
    · rcases fails led long with ⟨long, ended⟩
      exact .inr ⟨_, ⟨long, rfl⟩, ended⟩
    · exact .inl ⟨_, endsWith_sift_walk sources tree led long⟩
  have stuck : ∃ path ∈ sources.paths, ∃ error,
      (sources.sift path (disk.walk path)).EndsWith (.error error) := by
    rcases beyond with ⟨path, member, place, found, long⟩
    rcases leads path member with ⟨other, led⟩
    obtain rfl : other = place := Option.some.inj ((led.destination?_eq tree).symm.trans found)
    rcases fails led long with ⟨long, ended⟩
    exact ⟨path, member, _, ended⟩
  rcases endsWith_siftAll_error each stuck with ⟨start, member, _, ⟨long, rfl⟩, ended⟩
  exact ⟨start, member, long, endsWith_discover_error ended⟩

/-- A search that reaches all directories puts the listing together. -/
theorem endsWith_siftAll_listing (tree : disk.IsTree)
    (leads : ∀ path ∈ sources.paths, ∃ place, disk.LeadsToTree path place)
    (within : ¬ sources.OutOfReach disk) :
    (sources.siftAll disk sources.paths).EndsWith (.ok (sources.listing disk)) := by
  refine endsWith_siftAll fun path member => ?_
  rcases leads path member with ⟨place, led⟩
  refine endsWith_sift_walk sources tree led fun long => ?_
  exact within ⟨path, member, place, led.destination?_eq tree, long⟩

theorem presumed?_eq_some_iff {path : String} :
    sources.presumed? disk = some path ↔ sources.paths = [path] ∧ disk.isFile path = true := by
  rw [presumed?]
  rcases sources.paths with _ | ⟨first, _ | _⟩
  · simp
  · by_cases file : disk.isFile first = true
    · simp only [file, if_true, Option.some.injEq, List.cons.injEq, and_true]
      exact ⟨fun same => ⟨same, same ▸ file⟩, And.left⟩
    · simp only [file, Bool.false_eq_true, if_false, reduceCtorEq, List.cons.injEq, and_true,
        false_iff, not_and]
      rintro rfl
      exact file
  · simp

/-- From paths to trees without links, a search returns the schema files at or under the paths: in
the order of the paths, and under each path depth first and by names. A file is listed as often as
there are paths that enclose it, so none is listed twice exactly when none is enclosed by two of the
paths. When there are no schema files, a single path to a file is returned, and else the search ends
with an error. It also does when a directory is out of reach. -/
theorem discover_exact (sources : SchemaSources) (tree : disk.IsTree)
    (leads : ∀ path ∈ sources.paths, ∃ place, disk.LeadsToTree path place) :
    (sources.OutOfReach disk →
      ∃ start ∈ sources.paths, ∃ long, (sources.discover disk).EndsWith
        (.error (.unsearchable start (.inaccessible long .nameTooLong)))) ∧
    (¬ sources.OutOfReach disk →
      (sources.HasFiles disk →
        (sources.discover disk).EndsWith (.ok (sources.listing disk))) ∧
      (¬ sources.HasFiles disk →
        (∀ path, sources.paths = [path] → disk.isFile path = true →
          (sources.discover disk).EndsWith (.ok [path])) ∧
        ((¬ ∃ path, sources.paths = [path] ∧ disk.isFile path = true) →
          (sources.discover disk).EndsWith (.error (.nothingFound sources.paths))))) ∧
    (∀ place, ((sources.listing disk).map disk.destination?).count (some place) =
      if sources.IsSchemaFile disk place then sources.paths.countP (disk.Encloses · place)
      else 0) ∧
    (((sources.listing disk).map disk.destination?).Nodup ↔
      ∀ place, sources.IsSchemaFile disk place →
        sources.paths.countP (disk.Encloses · place) ≤ 1) ∧
    ∀ path ∈ sources.paths, (sources.filesUnder disk path).Nodup := by
  have filled := flatMap_filesUnder_ne_nil_iff sources tree leads
  refine ⟨endsWith_discover_of_outOfReach tree leads, fun within => ?_,
    count_destinations sources tree leads, nodup_destinations_iff sources tree leads,
    fun path member => ?_⟩
  · have searched := endsWith_siftAll_listing tree leads within
    constructor
    · intro something
      exact endsWith_discover searched (filled.mpr something)
    · intro nothing
      have empty : sources.listing disk = [] := not_ne_iff.mp (mt filled.mp nothing)
      rw [empty] at searched
      have ended := endsWith_discover_nil searched
      constructor
      · intro path single file
        rwa [presumed?_eq_some_iff.mpr ⟨single, file⟩] at ended
      · intro other
        have unpresumed : sources.presumed? disk = none :=
          Option.eq_none_iff_forall_ne_some.mpr fun path presumed =>
            other ⟨path, presumed?_eq_some_iff.mp presumed⟩
        rwa [unpresumed] at ended
  · rcases leads path member with ⟨place, led⟩
    exact (nodup_destinations sources tree led).of_map _

end SchemaSources

/-! ## A file under two paths -/

/-- A directory with two schema files, one of them in a directory of its own, and another file. -/
def smallDisk : Disk where
  entries := [(["work"], .directory), (["work", "d"], .directory),
    (["work", "d", "README.md"], .file []), (["work", "d", "nested"], .directory),
    (["work", "d", "nested", "a.graphqls"], .file []), (["work", "d", "s.graphql"], .file [])]
  home := ["work"]

/-- The directory, and one of the files in it once more. -/
def smallSources : SchemaSources := { paths := ["d", "d/s.graphql"] }

theorem smallDisk_isTree : smallDisk.IsTree := by decide

theorem smallDisk_leads_directory : smallDisk.LeadsToTree "d" ["work", "d"] := by
  have steps : Path.steps "d" = ["d"] := by decide
  have start : Disk.start "d" smallDisk.home = ["work"] := by decide
  refine ⟨Disk.IsTree.unlinked smallDisk_isTree (by simp [smallDisk]) _, .directory, ?_⟩
  rw [Disk.look_eq_ok_iff, Disk.followPath_eq_ok_iff, steps, start]
  exact ⟨by decide, by simp +decide [Disk.follow, smallDisk, Disk.get?, Disk.find?]⟩

theorem smallDisk_leads_file :
    smallDisk.LeadsToTree "d/s.graphql" ["work", "d", "s.graphql"] := by
  have steps : Path.steps "d/s.graphql" = ["d", "s.graphql"] := by decide
  have start : Disk.start "d/s.graphql" smallDisk.home = ["work"] := by decide
  refine ⟨Disk.IsTree.unlinked smallDisk_isTree (by simp [smallDisk]) _, .file [], ?_⟩
  rw [Disk.look_eq_ok_iff, Disk.followPath_eq_ok_iff, steps, start]
  exact ⟨by decide, by simp +decide [Disk.follow, smallDisk, Disk.get?, Disk.find?]⟩

theorem smallSources_leads :
    ∀ path ∈ smallSources.paths, ∃ place, smallDisk.LeadsToTree path place :=
  List.forall_mem_cons.mpr ⟨⟨_, smallDisk_leads_directory⟩,
    List.forall_mem_cons.mpr ⟨⟨_, smallDisk_leads_file⟩, by simp⟩⟩

theorem smallDisk_below_directory : smallDisk.below ["work", "d"] =
    [["README.md"], ["nested"], ["nested", "a.graphqls"], ["s.graphql"]] :=
  List.mergeSort_of_pairwise (by decide)

theorem smallDisk_below_file : smallDisk.below ["work", "d", "s.graphql"] = [] :=
  Disk.IsTree.below_eq_nil smallDisk_isTree (by decide)

theorem smallSources_within : ¬ smallSources.OutOfReach smallDisk := by
  have directory : ¬ smallDisk.Overlong "d" ["work", "d"] := by
    rw [Disk.IsTree.overlong_iff smallDisk_isTree, smallDisk_below_directory]
    decide
  have file : ¬ smallDisk.Overlong "d/s.graphql" ["work", "d", "s.graphql"] := by
    rw [Disk.IsTree.overlong_iff smallDisk_isTree, smallDisk_below_file]
    decide
  rintro ⟨path, member, place, found, overlong⟩
  rcases List.mem_pair.mp member with rfl | rfl
  · have leads := Disk.LeadsToTree.destination?_eq smallDisk_isTree smallDisk_leads_directory
    cases leads.symm.trans found
    exact directory overlong
  · have leads := Disk.LeadsToTree.destination?_eq smallDisk_isTree smallDisk_leads_file
    cases leads.symm.trans found
    exact file overlong

theorem smallSources_listing : smallSources.listing smallDisk =
    ["d/nested/a.graphqls", "d/s.graphql", "d/s.graphql"] := by
  have directory : smallSources.filesUnder smallDisk "d" =
      ["d/nested/a.graphqls", "d/s.graphql"] := by
    rw [SchemaSources.filesUnder_eq _ smallDisk_isTree smallDisk_leads_directory,
      SchemaSources.waysToFiles, smallDisk_below_directory]
    decide +kernel
  have file : smallSources.filesUnder smallDisk "d/s.graphql" = ["d/s.graphql"] := by
    rw [SchemaSources.filesUnder_eq _ smallDisk_isTree smallDisk_leads_file,
      SchemaSources.waysToFiles, smallDisk_below_file]
    decide +kernel
  have paths : smallSources.paths = ["d", "d/s.graphql"] := rfl
  rw [SchemaSources.listing, paths, List.flatMap_cons, List.flatMap_cons, List.flatMap_nil,
    directory, file]
  rfl

theorem smallSources_hasFiles : smallSources.HasFiles smallDisk := by
  have listed := SchemaSources.flatMap_filesUnder_ne_nil_iff smallSources smallDisk_isTree
    smallSources_leads
  refine listed.mp fun empty => ?_
  cases empty.symm.trans smallSources_listing

/-- The file under both paths is listed for each of them. -/
theorem smallSources_discover_exact :
    smallDisk.IsTree ∧ (∀ path ∈ smallSources.paths, ∃ place, smallDisk.LeadsToTree path place) ∧
      (smallSources.discover smallDisk).EndsWith
        (.ok ["d/nested/a.graphqls", "d/s.graphql", "d/s.graphql"]) ∧
      ((smallSources.listing smallDisk).map smallDisk.destination?).count
        (some ["work", "d", "s.graphql"]) =
          smallSources.paths.countP (smallDisk.Encloses · ["work", "d", "s.graphql"]) ∧
      ∀ path ∈ smallSources.paths, (smallSources.filesUnder smallDisk path).Nodup := by
  have ⟨_, searched, counted, _, distinct⟩ :=
    smallSources.discover_exact smallDisk_isTree smallSources_leads
  refine ⟨smallDisk_isTree, smallSources_leads, ?_, ?_, distinct⟩
  · rw [← smallSources_listing]
    exact (searched smallSources_within).1 smallSources_hasFiles
  · rw [counted, if_pos (by decide +kernel)]

/-- Although every directory is reached, a path is returned twice. -/
theorem smallSources_returned_twice :
    smallDisk.IsTree ∧ (∀ path ∈ smallSources.paths, ∃ place, smallDisk.LeadsToTree path place) ∧
      ¬ smallSources.OutOfReach smallDisk ∧ smallSources.HasFiles smallDisk ∧
      ∃ files, (smallSources.discover smallDisk).EndsWith (.ok files) ∧
        files = ["d/nested/a.graphqls", "d/s.graphql", "d/s.graphql"] ∧ ¬ files.Nodup := by
  have searched := SchemaSources.endsWith_siftAll_listing smallDisk_isTree smallSources_leads
    smallSources_within
  rw [smallSources_listing] at searched
  refine ⟨smallDisk_isTree, smallSources_leads, smallSources_within, smallSources_hasFiles, _,
    SchemaSources.endsWith_discover searched (List.cons_ne_nil _ _), rfl, ?_⟩
  decide

end SchemaUnfolding
