import SchemaUnfolding.Command.Discovery
import SchemaUnfolding.Proofs.Ending

/-!
# How a search ends

What a search for schema files returns, by what the walks from its paths come to: all schema files
that were visited, or the first reason why a walk could not go on. The events that a search reports
have no part in that.
-/

namespace SchemaUnfolding

namespace SchemaSources

variable {sources : SchemaSources} {disk : Disk} {start : String} {paths : List String}
  {cause : WalkError}

/-- Whether something that was visited is a schema file. -/
def keeps (sources : SchemaSources) (visit : Visit) : Bool :=
  visit.isFile && sources.covers visit.path

theorem endsWith_report (reported : List Event) : (report reported).EndsWith (.ok ⟨⟩) :=
  ExceptT.endsWith_modify _

/-! ## One walk -/

/-- The event about something that was visited. -/
def eventOf (sources : SchemaSources) (visit : Visit) : Event :=
  if !visit.isFile then .otherSkipped visit.path
  else if sources.covers visit.path then .schemaFileFound visit.path
  else .fileSkipped visit.path

/-- What was visited is reported, and kept if it is a schema file. -/
theorem sift_cons (visit : Visit) (rest : List (Except WalkError Visit)) :
    sources.sift start (.ok visit :: rest) = (do
      report [sources.eventOf visit]
      if sources.keeps visit then
        return visit.path :: (← sources.sift start rest)
      else
        sources.sift start rest) := by
  rcases visit with ⟨path, isFile⟩
  rw [sift]
  cases isFile with
  | false => simp [keeps, eventOf]
  | true => by_cases covered : sources.covers path = true <;> simp [keeps, eventOf, covered]

/-- From a walk that does not fail the schema files are kept in the order of the visits. -/
theorem endsWith_sift (sources : SchemaSources) (start : String) (visits : List Visit) :
    (sources.sift start (visits.map .ok)).EndsWith
      (.ok ((visits.filter sources.keeps).map Visit.path)) := by
  induction visits with
  | nil => exact ExceptT.endsWith_pure []
  | cons visit rest ih =>
    rw [List.map_cons, sift_cons, List.filter_cons]
    refine (endsWith_report _).bind ?_
    by_cases kept : sources.keeps visit = true
    · rw [if_pos kept, if_pos kept]
      exact ih.bind (ExceptT.endsWith_pure _)
    · rw [if_neg kept, if_neg kept]
      exact ih

/-- A walk that fails somewhere ends the search with the first reason why. -/
theorem endsWith_sift_error (sources : SchemaSources) (start : String)
    {visits : List (Except WalkError Visit)} (failed : .error cause ∈ visits) :
    ∃ first, .error first ∈ visits ∧
      (sources.sift start visits).EndsWith (.error (.unsearchable start first)) := by
  induction visits with
  | nil => simp at failed
  | cons visit rest ih =>
    rcases visit with first | visit
    · exact ⟨first, List.mem_cons_self, ExceptT.endsWith_throw _⟩
    · rcases ih (by simpa using failed) with ⟨first, member, ended⟩
      refine ⟨first, List.mem_cons_of_mem _ member, ?_⟩
      rw [sift_cons]
      refine (endsWith_report _).bind ?_
      split
      · exact ended.bind_error _
      · exact ended

/-! ## All walks -/

/-- What is found from each path is put together in the order of the paths. -/
theorem endsWith_siftAll {found : String → List String}
    (each : ∀ path ∈ paths, (sources.sift path (disk.walk path)).EndsWith (.ok (found path))) :
    (sources.siftAll disk paths).EndsWith (.ok (paths.flatMap found)) := by
  induction paths with
  | nil => exact ExceptT.endsWith_pure []
  | cons path rest ih =>
    rcases List.forall_mem_cons.mp each with ⟨first, each⟩
    rw [siftAll, List.flatMap_cons]
    exact first.bind ((ih each).bind (ExceptT.endsWith_pure _))

/-- A path from which nothing can be found ends the search, if no path before it does. -/
theorem endsWith_siftAll_error {failing : String → SourceError → Prop}
    (each : ∀ path ∈ paths,
      (∃ found, (sources.sift path (disk.walk path)).EndsWith (.ok found)) ∨
      ∃ error, failing path error ∧ (sources.sift path (disk.walk path)).EndsWith (.error error))
    (stuck : ∃ path ∈ paths, ∃ error,
      (sources.sift path (disk.walk path)).EndsWith (.error error)) :
    ∃ path ∈ paths, ∃ error, failing path error ∧
      (sources.siftAll disk paths).EndsWith (.error error) := by
  induction paths with
  | nil => simp at stuck
  | cons path rest ih =>
    rcases List.forall_mem_cons.mp each with ⟨⟨found, ended⟩ | ⟨error, known, ended⟩, each⟩
    · have later : ∃ path ∈ rest, ∃ error,
          (sources.sift path (disk.walk path)).EndsWith (.error error) := by
        rcases stuck with ⟨other, member, error, failed⟩
        rcases List.mem_cons.mp member with rfl | member
        · exact absurd ((ended #[]).symm.trans (failed #[])) (by simp)
        · exact ⟨other, member, error, failed⟩
      rcases ih each later with ⟨path, member, error, known, failed⟩
      refine ⟨path, List.mem_cons_of_mem _ member, error, known, ?_⟩
      rw [siftAll]
      exact ended.bind (failed.bind_error _)
    · refine ⟨path, List.mem_cons_self, error, known, ?_⟩
      rw [siftAll]
      exact ended.bind_error _

/-! ## The search -/

theorem endsWith_discover_error {error : SourceError}
    (searched : (sources.siftAll disk sources.paths).EndsWith (.error error)) :
    (sources.discover disk).EndsWith (.error error) :=
  (endsWith_report _).bind (searched.bind_error _)

/-- A search that finds something returns that. -/
theorem endsWith_discover {found : List String}
    (searched : (sources.siftAll disk sources.paths).EndsWith (.ok found)) (some : found ≠ []) :
    (sources.discover disk).EndsWith (.ok found) := by
  refine (endsWith_report _).bind (searched.bind ?_)
  have filled : (!found.isEmpty) = true := by simpa using some
  rw [if_pos filled]
  exact (ExceptT.endsWith_pure found).bind ((endsWith_report _).bind (ExceptT.endsWith_pure found))

/-- A search that finds nothing takes a single path that leads to a file as it is. -/
theorem endsWith_discover_nil
    (searched : (sources.siftAll disk sources.paths).EndsWith (.ok [])) :
    (sources.discover disk).EndsWith
      ((sources.presumed? disk).elim (.error (.nothingFound sources.paths)) fun path =>
        .ok [path]) := by
  refine (endsWith_report _).bind (searched.bind ?_)
  rw [if_neg (by simp)]
  cases sources.presumed? disk with
  | none => exact (ExceptT.endsWith_throw _).bind_error _
  | some path =>
    exact (endsWith_report _).bind ((ExceptT.endsWith_pure [path]).bind
      ((endsWith_report _).bind (ExceptT.endsWith_pure _)))

end SchemaSources

end SchemaUnfolding
