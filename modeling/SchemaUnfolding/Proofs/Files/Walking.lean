import SchemaUnfolding.Files.Walk
import SchemaUnfolding.Proofs.Files.Destinations

/-!
# Walks through trees

A walk from a path visits what the path leads to and all that stands below, each once and in the
order of the names on the way, if no link is there and every directory has a path that is short
enough to be opened. A directory with a longer path makes the walk fail, and nothing else does.
-/

namespace SchemaUnfolding

/-- Whether an entry is a file. -/
def Entry.isFile : Entry → Bool
  | .file _ => true
  | _ => false

namespace Disk

variable {disk : Disk} {place : Place} {path name : String} {way : Way} {entry : Entry}
  {ancestors : List Ancestor} {levels : Nat} {cause : WalkError}

/-- Some directory at or below the place that a path leads to has a path that is too long to be
looked up. -/
def Overlong (disk : Disk) (path : String) (place : Place) : Prop :=
  ∃ way, disk.get? (place ++ way) = some .directory ∧
    pathLimit < (Path.extend path way).utf8ByteSize

/-- Whether a file stands at a place. -/
def isFileAt (disk : Disk) (place : Place) : Bool := (disk.get? place).any Entry.isFile

/-- What a walk from a path to a place visits at the end of a way. -/
def visitAt (disk : Disk) (path : String) (place : Place) (way : Way) : Visit :=
  ⟨Path.extend path way, disk.isFileAt (place ++ way)⟩

/-! ## One step of a walk -/

/-- What is no directory is visited, and nothing else. -/
theorem walkWithin_leaf (plain : ∀ text, entry ≠ .link text) (leaf : entry ≠ .directory) :
    disk.walkWithin (levels + 1) ancestors path (place, entry) = [.ok ⟨path, entry.isFile⟩] := by
  rw [walkWithin]
  cases entry with
  | file | device => rfl
  | directory => exact (leaf rfl).elim
  | link text => exact (plain text rfl).elim

/-- A directory is visited before what stands in it, which is out of reach if the path is too
long. -/
theorem Denotes.walkWithin_directory (denotes : disk.Denotes path place) :
    disk.walkWithin (levels + 1) ancestors path (place, .directory) =
      .ok ⟨path, false⟩ ::
        if pathLimit < path.utf8ByteSize then [.error (.inaccessible path .nameTooLong)]
        else (disk.namesIn place).flatMap fun name =>
          (disk.get? (place ++ [name])).toList.flatMap fun entry =>
            disk.walkWithin levels (⟨path, place⟩ :: ancestors) (Path.join path name)
              (place ++ [name], entry) := by
  simp only [walkWithin, arrive, enter, denotes.look]
  by_cases long : pathLimit < path.utf8ByteSize
  · simp [long]
  · simp only [long, if_false, List.filterMap_eq_flatMap_toList, List.flatMap_assoc]
    congr 2
    funext name
    cases disk.get? (place ++ [name]) <;> simp

/-- No directory that stands in the one at a place has a path that is too long, if none does. -/
theorem not_overlong_join (short : ¬ disk.Overlong path place) (name : String) :
    ¬ disk.Overlong (Path.join path name) (place ++ [name]) := by
  rintro ⟨way, stands, long⟩
  exact short ⟨name :: way, by simpa using stands, long⟩

theorem IsTree.overlong_iff (tree : disk.IsTree) :
    disk.Overlong path place ↔ ∃ way ∈ [] :: disk.below place,
      disk.get? (place ++ way) = some .directory ∧
        pathLimit < (Path.extend path way).utf8ByteSize := by
  refine exists_congr fun way => (and_iff_right_of_imp fun ⟨stands, _⟩ => ?_).symm
  rw [List.mem_cons, tree.mem_below_iff, stands]
  exact or_iff_not_imp_left.mpr fun onward => ⟨onward, rfl⟩

/-! ## Whole walks -/

/-- A walk that goes in order through all that stands below a path does so at the path. -/
theorem Meets.walkWithin_step (tree : disk.IsTree) (meets : disk.Meets path place entry)
    (unlinked : disk.Unlinked place) (short : ¬ disk.Overlong path place)
    (inner : ∀ name entry, disk.get? (place ++ [name]) = some entry →
      disk.walkWithin levels (⟨path, place⟩ :: ancestors) (Path.join path name)
          (place ++ [name], entry) =
        ([] :: disk.below (place ++ [name])).map fun way =>
          .ok (disk.visitAt (Path.join path name) (place ++ [name]) way)) :
    disk.walkWithin (levels + 1) ancestors path (place, entry) =
      ([] :: disk.below place).map fun way => .ok (disk.visitAt path place way) := by
  have first : disk.visitAt path place [] = ⟨path, entry.isFile⟩ := by
    simp [visitAt, isFileAt, meets.stands]
  rw [List.map_cons, first]
  by_cases leaf : entry = .directory
  · subst leaf
    have fits : ¬ pathLimit < path.utf8ByteSize := fun long =>
      short ⟨[], by simpa using meets.stands, by simpa using long⟩
    have onward : ∀ name way, disk.visitAt (Path.join path name) (place ++ [name]) way =
        disk.visitAt path place (name :: way) := by
      intro name way
      simp [visitAt]
    rw [(meets.denotes rfl).walkWithin_directory, if_neg fits, tree.below_eq_flatMap,
      List.map_flatMap]
    congr 1
    refine List.flatMap_congr fun name member => ?_
    rcases Option.isSome_iff_exists.mp (tree.mem_namesIn_iff.mp member) with ⟨entry, stands⟩
    rw [stands, Option.toList_some, List.flatMap_singleton, inner name entry stands]
    simp [onward]
  · have bare : disk.below place = [] := tree.below_eq_nil (by simp [meets.stands, leaf])
    rw [walkWithin_leaf (unlinked.ne_link meets.stands) leaf, bare, List.map_nil]

/-- A walk visits what its path meets and all below that, in order. -/
theorem Meets.walkWithin_eq (tree : disk.IsTree) (meets : disk.Meets path place entry)
    (unlinked : disk.Unlinked place) (short : ¬ disk.Overlong path place)
    (deep : ∀ way, (disk.get? (place ++ way)).isSome → way.length ≤ levels) :
    disk.walkWithin (levels + 1) ancestors path (place, entry) =
      ([] :: disk.below place).map fun way => .ok (disk.visitAt path place way) := by
  induction levels generalizing ancestors path place entry with
  | zero =>
    refine meets.walkWithin_step tree unlinked short fun name entry stands => ?_
    exact absurd (deep [name] (by simp [stands])) (by simp)
  | succ levels ih =>
    refine meets.walkWithin_step tree unlinked short fun name entry stands => ?_
    refine ih (meets.join tree unlinked stands) (unlinked.append [name])
      (not_overlong_join short name) fun way below => ?_
    have longer := deep (name :: way) (by simpa using below)
    simpa using longer

/-! ## Walks that fail -/

/-- A walk fails for a path that is too long, and for no other reason. -/
theorem Meets.cause_of_walkWithin (tree : disk.IsTree) (meets : disk.Meets path place entry)
    (unlinked : disk.Unlinked place)
    (failed : .error cause ∈ disk.walkWithin levels ancestors path (place, entry)) :
    ∃ long, cause = .inaccessible long .nameTooLong := by
  induction levels generalizing ancestors path place entry with
  | zero => simp [walkWithin] at failed
  | succ levels ih =>
    by_cases leaf : entry = .directory
    · subst leaf
      rw [(meets.denotes rfl).walkWithin_directory] at failed
      split at failed
      · exact ⟨path, by simpa using failed⟩
      · simp only [List.mem_cons, reduceCtorEq, List.mem_flatMap, Option.mem_toList,
          false_or] at failed
        rcases failed with ⟨name, _, entry, stands, failed⟩
        exact ih (meets.join tree unlinked stands) (unlinked.append [name]) failed
    · rw [walkWithin_leaf (unlinked.ne_link meets.stands) leaf] at failed
      simp at failed

/-- A walk fails that comes to a directory with a path that is too long. -/
theorem Meets.exists_error (tree : disk.IsTree) (meets : disk.Meets path place entry)
    (unlinked : disk.Unlinked place) (stands : disk.get? (place ++ way) = some .directory)
    (long : pathLimit < (Path.extend path way).utf8ByteSize) (deep : way.length ≤ levels) :
    ∃ cause, .error cause ∈ disk.walkWithin (levels + 1) ancestors path (place, entry) := by
  induction way generalizing levels ancestors path place entry with
  | nil =>
    rw [List.append_nil, meets.stands, Option.some.injEq] at stands
    subst stands
    rw [Path.extend_nil] at long
    rw [(meets.denotes rfl).walkWithin_directory, if_pos long]
    exact ⟨.inaccessible path .nameTooLong, by simp⟩
  | cons name rest ih =>
    rcases levels with _ | levels
    · simp at deep
    rw [List.append_cons] at stands
    have held := tree.isSome_of_append (by rw [stands, Option.isSome_some])
    have leaf := tree.directory_of_isSome held
    rw [meets.stands, Option.some.injEq] at leaf
    subst leaf
    rw [(meets.denotes rfl).walkWithin_directory]
    split
    · exact ⟨.inaccessible path .nameTooLong, by simp⟩
    · rcases Option.isSome_iff_exists.mp held with ⟨entry, known⟩
      rcases ih (meets.join tree unlinked known) (unlinked.append [name]) stands long
        (by simpa using deep) with ⟨cause, failed⟩
      refine ⟨cause, List.mem_cons_of_mem _ (List.mem_flatMap.mpr ⟨name, ?_, ?_⟩)⟩
      · exact tree.mem_namesIn_iff.mpr held
      · exact List.mem_flatMap.mpr ⟨entry, by simpa using known, failed⟩

/-! ## Walks from a path -/

/-- A path leads to a place at and below which no link stands. -/
def LeadsToTree (disk : Disk) (path : String) (place : Place) : Prop :=
  disk.Unlinked place ∧ ∃ entry, disk.look .toLink path = .ok (place, entry)

theorem LeadsToTree.exists_meets (tree : disk.IsTree) (leads : disk.LeadsToTree path place) :
    ∃ entry, disk.Meets path place entry ∧
      disk.walk path = disk.walkWithin disk.levelLimit [] path (place, entry) := by
  rcases leads with ⟨unlinked, entry, looked⟩
  have stands : entry = .directory ∨ disk.get? place = some entry := by
    rw [look_eq_ok_iff, followPath_eq_ok_iff] at looked
    exact (stands_of_follow looked.2).imp_right And.right
  have plain : ∀ text, entry ≠ .link text := by
    rcases stands with rfl | stands
    · exact fun text => Entry.noConfusion
    · exact unlinked.ne_link stands
  exact ⟨entry, .of_look tree looked plain, by rw [walk, looked]⟩

theorem LeadsToTree.destination?_eq (tree : disk.IsTree) (leads : disk.LeadsToTree path place) :
    disk.destination? path = some place := by
  rcases leads.exists_meets tree with ⟨entry, meets, _⟩
  exact meets.destination

/-- The levels that a walk may go down are enough for all ways. -/
theorem IsTree.levelLimit_enough (tree : disk.IsTree) (place : Place) :
    ∃ levels, disk.levelLimit = levels + 1 ∧
      ∀ way, (disk.get? (place ++ way)).isSome → way.length ≤ levels := by
  have more : disk.entries.length + 1 ≤ disk.levelLimit :=
    calc disk.entries.length + 1 ≤ disk.entries.length + 2 := by omega
      _ ≤ (disk.entries.length + 2) * (disk.entries.length + 2) := Nat.le_mul_self _
  refine ⟨disk.levelLimit - 1, by omega, fun way stands => ?_⟩
  have bound := tree.length_le stands
  rw [List.length_append] at bound
  omega

/-- A walk visits what its path leads to and all below that, in the order of the names. -/
theorem LeadsToTree.walk_eq (tree : disk.IsTree) (leads : disk.LeadsToTree path place)
    (short : ¬ disk.Overlong path place) :
    disk.walk path = ([] :: disk.below place).map fun way => .ok (disk.visitAt path place way) := by
  rcases leads.exists_meets tree with ⟨entry, meets, walked⟩
  rcases tree.levelLimit_enough place with ⟨levels, limit, deep⟩
  rw [walked, limit, meets.walkWithin_eq tree leads.1 short deep]

theorem LeadsToTree.exists_error (tree : disk.IsTree) (leads : disk.LeadsToTree path place)
    (overlong : disk.Overlong path place) : ∃ cause, .error cause ∈ disk.walk path := by
  rcases leads.exists_meets tree with ⟨entry, meets, walked⟩
  rcases tree.levelLimit_enough place with ⟨levels, limit, deep⟩
  rcases overlong with ⟨way, stands, long⟩
  rw [walked, limit]
  exact meets.exists_error tree leads.1 stands long (deep way (by rw [stands, Option.isSome_some]))

theorem LeadsToTree.cause_of_walk (tree : disk.IsTree) (leads : disk.LeadsToTree path place)
    (failed : .error cause ∈ disk.walk path) : ∃ long, cause = .inaccessible long .nameTooLong := by
  rcases leads.exists_meets tree with ⟨entry, meets, walked⟩
  rw [walked] at failed
  exact meets.cause_of_walkWithin tree leads.1 failed

end Disk

end SchemaUnfolding
