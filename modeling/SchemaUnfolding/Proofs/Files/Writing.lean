import Mathlib.Data.Set.Basic
import SchemaUnfolding.Files.Writing
import SchemaUnfolding.Proofs.Ending
import SchemaUnfolding.Proofs.Files.Directories

/-!
# What writing changes

An action that makes directories or writes a file takes nothing away: all that stood on the disk
still stands, but for the content of the file that was written, and no link and no device is new.
Paths therefore keep opening the directories they opened.
-/

namespace SchemaUnfolding

open ExceptT

/-- What stands at a place is a file or a directory. -/
def Entry.IsPlain : Entry → Prop
  | .file _ | .directory => True
  | .link _ | .device _ => False

/-- A disk has all that another has, but for the content of files at some places, and what is new on
it are files and directories. -/
structure Disk.Grows (rewritten : Set Place) (before after : Disk) : Prop where
  home : after.home = before.home
  keeps : ∀ {place entry}, before.get? place = some entry →
    (place ∈ rewritten → ∀ content, entry ≠ .file content) → after.get? place = some entry
  plain : ∀ {place entry}, after.get? place = some entry →
    entry.IsPlain ∨ before.get? place = some entry

namespace Disk

variable {before middle after : Disk} {rewritten more : Set Place} {place target : Place}
  {path name : String} {entry : Entry}

theorem Grows.refl (rewritten : Set Place) (disk : Disk) : disk.Grows rewritten disk :=
  ⟨rfl, fun stands _ => stands, .inr⟩

theorem Grows.trans (first : before.Grows rewritten middle)
    (second : middle.Grows rewritten after) : before.Grows rewritten after where
  home := second.home.trans first.home
  keeps stands spared := second.keeps (first.keeps stands spared) spared
  plain stands := (second.plain stands).elim .inl fun earlier => first.plain earlier

theorem Grows.mono (grows : before.Grows rewritten after) (fewer : rewritten ⊆ more) :
    before.Grows more after :=
  ⟨grows.home, fun stands spared => grows.keeps stands fun inside => spared (fewer inside),
    grows.plain⟩

theorem Grows.directories (grows : before.Grows rewritten after)
    (stands : before.get? place = some .directory) : after.get? place = some .directory :=
  grows.keeps stands fun _ _ => Entry.noConfusion

theorem Grows.links (grows : before.Grows rewritten after) {text : String}
    (stands : before.get? place = some (.link text)) : after.get? place = some (.link text) :=
  grows.keeps stands fun _ _ => Entry.noConfusion

/-- Paths keep opening the directories they open. -/
theorem Grows.opens (grows : before.Grows rewritten after) (opens : before.Opens path place) :
    after.Opens path place :=
  opens.mono grows.home grows.directories grows.links

/-- What is put where nothing stood, or in the place of a file, takes nothing else away. -/
theorem Grows.put (inside : place ≠ []) (plain : entry.IsPlain)
    (free : ∀ old, before.get? place = some old →
      place ∈ rewritten ∧ ∃ content, old = .file content) :
    before.Grows rewritten (before.put place entry) where
  home := rfl
  keeps {other old} stands spared := by
    rw [get?_put before inside]
    by_cases same : other = place
    · subst same
      rcases free old stands with ⟨inside, content, rfl⟩
      exact (spared inside content rfl).elim
    · rw [if_neg same, stands]
  plain {other new} stands := by
    rw [get?_put before inside] at stands
    by_cases same : other = place
    · rw [if_pos same] at stands
      cases stands
      exact .inl plain
    · rw [if_neg same] at stands
      exact .inr stands

end Disk

/-! ## Making directories -/

namespace DiskAction

variable {before after : Disk} {path : String} {outer : List String}

theorem run_makeDirectory :
    (makeDirectory path).run.run before =
      match before.followPath .toLink path (Path.names path) with
      | .ok (.vacancy place) => (.ok (), before.put place .directory)
      | .ok (.entry _ _) => (.error .alreadyExists, before)
      | .error error => (.error error, before) := by
  rw [makeDirectory, run_run_bind, run_run_get]
  dsimp only
  rcases before.followPath .toLink path (Path.names path) with _ | _ | _ <;> rfl

theorem run_unlessDirectory {error : FileError} :
    (unlessDirectory path error).run.run before =
      (if before.isDirectory path then .ok () else .error error, before) := by
  rw [unlessDirectory, run_run_bind, run_run_get]
  dsimp only
  cases before.isDirectory path <;> rfl

/-- A directory was made: it stands where nothing stood, and its path opens it. -/
theorem returns_makeDirectory (returned : (makeDirectory path).Returns before () after) :
    before.Grows ∅ after ∧ after.isDirectory path := by
  rw [Returns, run_makeDirectory] at returned
  rcases followed : before.followPath .toLink path (Path.names path) with _ | _ | place
  · rw [followed] at returned
    cases returned
  · rw [followed] at returned
    cases returned
  · rw [followed] at returned
    cases returned
    rcases Disk.followPath_eq_ok_iff.mp followed with ⟨usable, followed⟩
    rcases Disk.arrives_of_follow followed with ⟨left, at', rest, leads, arrives⟩
    cases arrives with
    | @vacancy name named stands =>
      have grows : before.Grows ∅ (before.put (at' ++ [name]) .directory) :=
        .put (by simp) trivial (by simp [stands])
      have made : (before.put (at' ++ [name]) .directory).get? (at' ++ [name]) =
          some .directory := by
        rw [Disk.get?_put before (by simp), if_pos rfl]
      have onward := leads.mono grows.directories grows.links
      exact ⟨grows, Disk.isDirectory_iff.mpr
        ⟨at' ++ [name], usable, left, onward.tail (.below left named (by simp) made)⟩⟩

theorem returns_unlessDirectory {error : FileError}
    (returned : (unlessDirectory path error).Returns before () after) :
    after = before ∧ before.isDirectory path := by
  rw [Returns, run_unlessDirectory] at returned
  by_cases stands : before.isDirectory path
  · rw [if_pos stands] at returned
    cases returned
    exact ⟨rfl, stands⟩
  · rw [if_neg stands] at returned
    cases returned

/-- Where a directory could not be made, the disk is as before for what is tried instead. -/
theorem returns_tryCatch_makeDirectory {instead : FileError → DiskAction Unit}
    (returned : (tryCatch (makeDirectory path) instead).Returns before () after) :
    (makeDirectory path).Returns before () after ∨
      ∃ error, (instead error).Returns before () after := by
  rw [Returns, run_run_tryCatch, run_makeDirectory] at returned
  rw [Returns, run_makeDirectory]
  generalize before.followPath .toLink path (Path.names path) = followed at returned ⊢
  rcases followed with error | _ | place
  · exact .inr ⟨error, returned⟩
  · exact .inr ⟨.alreadyExists, returned⟩
  · exact .inl returned

/-- Nested directories were made: the path of the first opens one. -/
theorem returns_makeNested {paths : List String}
    (returned : (makeNested paths).Returns before () after) :
    before.Grows ∅ after ∧ ∀ path ∈ paths.head?, after.isDirectory path := by
  have found : ∀ {path error before after}, (unlessDirectory path error).Returns before () after →
      before.Grows ∅ after ∧ after.isDirectory path := by
    intro path error before after returned
    rcases returns_unlessDirectory returned with ⟨rfl, stands⟩
    exact ⟨.refl ∅ _, stands⟩
  induction paths generalizing before after with
  | nil =>
    rcases returns_pure_iff.mp returned with ⟨_, rfl⟩
    exact ⟨.refl ∅ _, by simp⟩
  | cons path outer ih =>
    rw [makeNested] at returned
    suffices grown : before.Grows ∅ after ∧ after.isDirectory path by simpa using grown
    rcases returns_tryCatch_makeDirectory returned with made | ⟨error, returned⟩
    · exact returns_makeDirectory made
    · split at returned
      · rcases returns_bind_iff.mp returned with ⟨_, middle, outside, returned⟩
        have grown : middle.Grows ∅ after ∧ after.isDirectory path := by
          rcases returns_tryCatch_makeDirectory returned with made | ⟨error, returned⟩
          · exact returns_makeDirectory made
          · exact found returned
        exact ⟨(ih outside).1.trans grown.1, grown.2⟩
      · exact found returned

/-- A directory and those above it were made or found. -/
theorem returns_makeDirectories (returned : (makeDirectories path).Returns before () after) :
    before.Grows ∅ after ∧ ∃ place, after.Opens path place := by
  rcases returns_makeNested returned with ⟨grows, stands⟩
  exact ⟨grows, Disk.isDirectory_iff.mp (stands path rfl)⟩

/-- A directory that is there is found. -/
theorem makeDirectories_of_opens {place : Place} (opens : before.Opens path place) :
    (makeDirectories path).Returns before () before := by
  rcases opens.2 with ⟨left, leads⟩
  rcases leads.follow_toLink with ⟨target, entry, followed⟩
  have found := Disk.followPath_eq_ok_iff.mpr ⟨opens.1, followed⟩
  have stands : before.isDirectory path := Disk.isDirectory_iff.mpr ⟨place, opens⟩
  rw [Returns, makeDirectories, makeNested, run_run_tryCatch, run_makeDirectory, found]
  dsimp only
  rw [run_unlessDirectory, if_pos stands]

/-! ## Writing files -/

variable {name text : String} {place : Place}

/-- A text was written: to a file, a new one or in the place of an old one, or to a device. -/
theorem returns_writeFile (returned : (writeFile path text).Returns before () after) :
    ∃ destiny, before.followPath .toWrite path (Path.steps path) = .ok destiny ∧
      match destiny with
      | .vacancy place | .entry place (.file _) =>
        after = before.put place (.file (Text.Utf8.encode text))
      | .entry _ entry => after = before ∧ ∃ device, entry = .device device := by
  rw [Returns, writeFile, run_run_bind, run_run_get] at returned
  dsimp only at returned
  generalize before.followPath .toWrite path (Path.steps path) = followed at returned ⊢
  rcases followed with _ | ⟨place, _ | _ | _ | device⟩ | place
  · cases returned
  · cases returned
    exact ⟨_, rfl, rfl⟩
  · cases returned
  · cases returned
  · dsimp only at returned
    split at returned
    · cases returned
    · cases returned
      exact ⟨_, rfl, rfl, device, rfl⟩
  · cases returned
    exact ⟨_, rfl, rfl⟩

/-- A file is put where nothing or a file stands. -/
theorem grows_put_file {content : List UInt8} (inside : place ≠ [])
    (free : before.get? place = none ∨ ∃ old, before.get? place = some (.file old)) :
    before.Grows {place} (before.put place (.file content)) := by
  refine .put inside trivial fun old stands => ⟨rfl, ?_⟩
  rcases free with nothing | ⟨content, file⟩
  · cases nothing.symm.trans stands
  · exact ⟨content, Option.some.inj (stands.symm.trans file)⟩

/-- A write changes the content of files at most, and makes no link or device. -/
theorem grows_writeFile (returned : (writeFile path text).Returns before () after) :
    before.Grows Set.univ after := by
  rcases returns_writeFile returned with ⟨destiny, followed, written⟩
  have stands := Disk.stands_of_follow (Disk.followPath_eq_ok_iff.mp followed).2
  rcases destiny with ⟨place, content | _ | _ | _⟩ | place
  · cases written
    rcases stands with directory | ⟨inside, stands⟩
    · cases directory
    · exact (grows_put_file inside (.inr ⟨content, stands⟩)).mono (Set.subset_univ _)
  · exact written.1 ▸ .refl Set.univ before
  · exact written.1 ▸ .refl Set.univ before
  · exact written.1 ▸ .refl Set.univ before
  · cases written
    exact (grows_put_file stands.1 (.inl stands.2)).mono (Set.subset_univ _)

/-- The text of a name below a path is written to the file of that name in the directory that the
path opens. -/
theorem returns_writeFile_join (opens : before.Opens path place) (named : Path.IsFileName name)
    (plain : ∀ entry, before.get? (place ++ [name]) = some entry → entry.IsPlain)
    (returned : (writeFile (Path.join path name) text).Returns before () after) :
    Path.IsEntry name ∧ Path.Usable (Path.join path name) ∧
      before.Grows {place ++ [name]} after ∧
      after.get? (place ++ [name]) = some (.file (Text.Utf8.encode text)) := by
  rcases returns_writeFile returned with ⟨destiny, followed, written⟩
  have usable : Path.Usable (Path.join path name) := (Disk.followPath_eq_ok_iff.mp followed).1
  rcases opens.followPath_join named usable (named.onward .toWrite) with ⟨left, below⟩
  rw [below] at followed
  have entry : Path.IsEntry name := Disk.isEntry_of_follow followed named.moves named.below
  rw [Disk.follow_name entry (by simp)] at followed
  have put : ∀ content, (before.put (place ++ [name]) (.file content)).get? (place ++ [name]) =
      some (.file content) := by
    intro content
    rw [Disk.get?_put before (by simp), if_pos rfl]
  refine ⟨entry, usable, ?_⟩
  rcases stands : before.get? (place ++ [name]) with _ | content | _ | text | device
  · rw [stands] at followed
    cases followed
    cases written
    exact ⟨grows_put_file (by simp) (.inl stands), put _⟩
  · rw [stands] at followed
    cases followed
    cases written
    exact ⟨grows_put_file (by simp) (.inr ⟨content, stands⟩), put _⟩
  · rw [stands] at followed
    dsimp only at followed
    rw [Disk.follow] at followed
    cases followed
    rcases written.2 with ⟨device, same⟩
    cases same
  · exact (plain _ stands).elim
  · exact (plain _ stands).elim

/-- A text can be written to a name in a directory under which nothing or a file stands. -/
theorem writeFile_join_of_opens (opens : before.Opens path place) (named : Path.IsFileName name)
    (entry : Path.IsEntry name) (usable : Path.Usable (Path.join path name))
    (free : before.get? (place ++ [name]) = none ∨
      ∃ old, before.get? (place ++ [name]) = some (.file old)) :
    (writeFile (Path.join path name) text).Returns before ()
      (before.put (place ++ [name]) (.file (Text.Utf8.encode text))) := by
  rcases opens.followPath_join named usable (named.onward .toWrite) with ⟨left, below⟩
  rw [Returns, writeFile, run_run_bind, run_run_get]
  dsimp only
  rcases free with nothing | ⟨old, stands⟩
  · have followed := (below (.vacancy (place ++ [name]))).mpr (by
      rw [Disk.follow_name entry (by simp), nothing]
      rfl)
    rw [followed]
    rfl
  · have followed := (below (.entry (place ++ [name]) (.file old))).mpr (by
      rw [Disk.follow_name entry (by simp), stands]
      rfl)
    rw [followed]
    rfl

end DiskAction

end SchemaUnfolding
