import SchemaUnfolding.Proofs.Files.Following
import SchemaUnfolding.Proofs.Files.Paths

/-!
# Paths to directories

A path opens a directory when its names lead there. It is the directory that is looked up under the
path, and a name below the path leads to what stands under that name in it.
-/

namespace SchemaUnfolding

/-- A path that can be followed on some disk. -/
structure Path.Usable (path : String) : Prop where
  clean : ¬ path.contains '\x00'
  filled : path ≠ ""
  short : ¬ Disk.pathLimit < path.utf8ByteSize

theorem Path.usable_iff {path : String} :
    Path.Usable path ↔
      '\x00' ∉ path.toList ∧ path ≠ "" ∧ ¬ Disk.pathLimit < path.utf8ByteSize := by
  have clean : ¬ path.contains '\x00' ↔ '\x00' ∉ path.toList := by
    rw [String.contains_char_eq, decide_eq_true_iff]
  exact ⟨fun usable => ⟨clean.mp usable.clean, usable.filled, usable.short⟩,
    fun usable => ⟨clean.mpr usable.1, usable.2.1, usable.2.2⟩⟩

instance (path : String) : Decidable (Path.Usable path) := decidable_of_iff _ Path.usable_iff.symm

/-- A name that can be put below a path. -/
structure Path.IsFileName (name : String) : Prop where
  flat : '/' ∉ name.toList
  moves : ¬ (name = "." ∨ name = "")
  below : name ≠ ".."

instance (name : String) : Decidable (Path.IsFileName name) :=
  decidable_of_iff ('/' ∉ name.toList ∧ ¬ (name = "." ∨ name = "") ∧ name ≠ "..")
    ⟨fun ⟨flat, moves, below⟩ => ⟨flat, moves, below⟩,
      fun ⟨flat, moves, below⟩ => ⟨flat, moves, below⟩⟩

theorem Path.IsFileName.onward {name : String} (named : Path.IsFileName name)
    (reach : Disk.Reach) : Disk.Onward reach [name] :=
  .inr ⟨List.cons_ne_nil _ _, fun same => named.moves (.inr (List.cons.inj same).1)⟩

namespace Disk

variable {disk other : Disk} {reach : Reach} {links left : Nat} {place target : Place}
  {path name : String} {steps : List String} {course : Course} {destiny : Destiny} {entry : Entry}

/-- The names on a path lead to a directory. -/
def Opens (disk : Disk) (path : String) (place : Place) : Prop :=
  Path.Usable path ∧ ∃ left, disk.Leads .throughLink
    ⟨linkLimit, start path disk.home, Path.names path⟩ ⟨left, place, []⟩

theorem followPath_eq_ok_iff :
    disk.followPath reach path steps = .ok destiny ↔
      Path.Usable path ∧
        disk.follow reach linkLimit (start path disk.home) steps = .ok destiny := by
  rw [followPath]
  constructor
  · intro followed
    split at followed
    · cases followed
    · split at followed
      · cases followed
      · split at followed
        · cases followed
        · exact ⟨⟨‹_›, ‹_›, ‹_›⟩, followed⟩
  · rintro ⟨usable, followed⟩
    rw [if_neg usable.clean, if_neg usable.filled, if_neg usable.short, followed]

theorem look_eq_ok_iff :
    disk.look reach path = .ok (place, entry) ↔
      disk.followPath reach path (Path.steps path) = .ok (.entry place entry) := by
  rw [look]
  rcases disk.followPath reach path (Path.steps path) with _ | _ | _ <;> simp

/-! ## Looking up directories -/

theorem Leads.eq_of_steps_nil (leads : disk.Leads reach ⟨links, place, []⟩ course) :
    course = ⟨links, place, []⟩ := by
  rcases Relation.ReflTransGen.cases_head leads with same | ⟨next, moves, _⟩
  · exact same.symm
  · cases moves

/-- The empty step for a slash at the end of a path leads nowhere else. -/
theorem Leads.place_eq_of_slash {slash : Bool}
    (leads : disk.Leads reach ⟨links, place, if slash then [""] else []⟩ ⟨left, target, []⟩) :
    target = place := by
  cases slash with
  | false => exact congrArg Course.place leads.eq_of_steps_nil
  | true =>
    rcases Relation.ReflTransGen.cases_head leads with same | ⟨next, moves, leads⟩
    · cases same
    · generalize begun : (if true then [""] else []) = slash at moves
      cases moves with
      | still =>
        cases begun
        exact congrArg Course.place (Leads.eq_of_steps_nil leads)
      | above => simp at begun
      | below links named =>
        cases begun
        exact (named.moves (.inr rfl)).elim
      | through links named =>
        cases begun
        exact (named.moves (.inr rfl)).elim

theorem follow_slash {slash : Bool} :
    disk.follow reach links place (if slash then [""] else []) = .ok (.entry place .directory) := by
  cases slash with
  | false => rw [if_neg Bool.false_ne_true, follow]
  | true => rw [if_pos rfl, follow, if_pos (.inr rfl), follow]

/-- A path opens the directory that is looked up under it. -/
theorem look_directory_iff :
    disk.look .throughLink path = .ok (place, .directory) ↔ disk.Opens path place := by
  rw [look_eq_ok_iff, followPath_eq_ok_iff, Opens, Path.steps]
  apply and_congr_right
  intro usable
  constructor
  · intro followed
    rcases arrives_of_follow followed with ⟨left, at', rest, leads, arrives⟩
    cases arrives with
    | directory =>
      rcases leads.of_append with ⟨middle, at', early, late⟩
      exact ⟨middle, late.place_eq_of_slash ▸ early⟩
    | entry _ other _ => exact (other rfl).elim
  · rintro ⟨left, leads⟩
    have longer : disk.Leads .throughLink _ _ :=
      leads.append (if Path.endsInSlash path then [""] else []) (.inl rfl) id id
    exact longer.follow_eq.trans follow_slash

theorem isDirectory_iff : disk.isDirectory path ↔ ∃ place, disk.Opens path place := by
  simp only [← look_directory_iff, isDirectory]
  rcases disk.look .throughLink path with _ | ⟨_, _ | _ | _ | _⟩ <;> simp

theorem Opens.unique (opens : disk.Opens path place) (again : disk.Opens path target) :
    target = place := by
  have same := (look_directory_iff.mpr again).symm.trans (look_directory_iff.mpr opens)
  exact congrArg Prod.fst (Except.ok.inj same)

/-- A path opens the same directory on each disk with the same directories and links. -/
theorem Opens.mono (opens : disk.Opens path place) (home : other.home = disk.home)
    (directories : ∀ {place}, disk.get? place = some .directory →
      other.get? place = some .directory)
    (linked : ∀ {place text}, disk.get? place = some (.link text) →
      other.get? place = some (.link text)) : other.Opens path place := by
  rcases opens with ⟨usable, left, leads⟩
  exact ⟨usable, left, home ▸ leads.mono directories linked⟩

/-! ## Paths of any length -/

/-- The names on a path lead to a directory, however long the path is. -/
structure Denotes (disk : Disk) (path : String) (place : Place) : Prop where
  clean : '\x00' ∉ path.toList
  filled : path ≠ ""
  leads : ∃ left, disk.Leads .throughLink
    ⟨linkLimit, start path disk.home, Path.names path⟩ ⟨left, place, []⟩

/-- A path opens the directory that it denotes, when it is not too long. -/
theorem opens_iff :
    disk.Opens path place ↔ disk.Denotes path place ∧ ¬ pathLimit < path.utf8ByteSize := by
  rw [Opens, Path.usable_iff]
  constructor
  · rintro ⟨⟨clean, filled, short⟩, leads⟩
    exact ⟨⟨clean, filled, leads⟩, short⟩
  · rintro ⟨⟨clean, filled, leads⟩, short⟩
    exact ⟨⟨clean, filled, short⟩, leads⟩

/-! ## Names below a path -/

theorem start_join (filled : path ≠ "") (named : Path.IsFileName name) :
    start (Path.join path name) place = start path place := by
  rw [start, start, Path.isAbsolute_join filled named.flat]

/-- A name below a path is followed from the directory that the path denotes. -/
theorem Denotes.follow_join (denotes : disk.Denotes path place) (named : Path.IsFileName name)
    (onward : Onward reach [name]) :
    ∃ left, disk.follow reach linkLimit (start (Path.join path name) disk.home)
        (Path.steps (Path.join path name)) =
      disk.follow reach left place [name] := by
  rcases denotes.leads with ⟨left, leads⟩
  have filled : name ≠ "" := fun empty => named.moves (.inr empty)
  have longer := leads.append [name] onward id id
  refine ⟨left, ?_⟩
  rw [start_join denotes.filled named, Path.steps_join denotes.filled named.flat filled]
  exact longer.follow_eq

/-- A name below a path is followed from the directory that the path opens. -/
theorem Opens.followPath_join (opens : disk.Opens path place) (named : Path.IsFileName name)
    (usable : Path.Usable (Path.join path name)) (onward : Onward reach [name]) :
    ∃ left, ∀ destiny,
      disk.followPath reach (Path.join path name) (Path.steps (Path.join path name)) =
          .ok destiny ↔
        disk.follow reach left place [name] = .ok destiny := by
  rcases (opens_iff.mp opens).1.follow_join named onward with ⟨left, followed⟩
  refine ⟨left, fun destiny => ?_⟩
  rw [followPath_eq_ok_iff, and_iff_right usable, followed]

/-- A file in a directory is looked up under the path of its name. -/
theorem Opens.look_join {content : List UInt8} (opens : disk.Opens path place)
    (named : Path.IsFileName name) (entry : Path.IsEntry name)
    (usable : Path.Usable (Path.join path name))
    (stands : disk.get? (place ++ [name]) = some (.file content)) :
    disk.look .throughLink (Path.join path name) = .ok (place ++ [name], .file content) := by
  rcases opens.followPath_join named usable (named.onward .throughLink) with ⟨left, followed⟩
  rw [look_eq_ok_iff, followed, follow_name entry (by simp), stands]
  rfl

/-- A directory below a directory, that no link stands for, is the one of that name in it. -/
theorem Opens.join_eq (opens : disk.Opens path place) (named : Path.IsFileName name)
    (inner : disk.Opens (Path.join path name) target)
    (unlinked : ∀ text, disk.get? (place ++ [name]) ≠ some (.link text)) :
    target = place ++ [name] := by
  rcases inner with ⟨_, left, leads⟩
  have filled : name ≠ "" := fun empty => named.moves (.inr empty)
  rw [start_join opens.1.filled named, Path.names_join opens.1.filled named.flat filled] at leads
  rcases leads.of_append with ⟨middle, at', early, late⟩
  have same : at' = place := opens.unique ⟨opens.1, middle, early⟩
  subst same
  rcases Relation.ReflTransGen.cases_head late with same | ⟨next, moves, late⟩
  · cases same
  · cases moves with
    | still links place rest stays => exact (named.moves stays).elim
    | above => exact (named.below rfl).elim
    | below links => exact congrArg Course.place (Leads.eq_of_steps_nil late)
    | through links _ _ _ stands => exact (unlinked _ stands).elim

end Disk

end SchemaUnfolding
