import SchemaUnfolding.Proofs.Files.Trees

/-!
# Where paths lead, however long they are

Only a path of limited length can be looked up, but a longer one still names a way through
directories. This file says where a path leads by its names alone. A path that is made longer name
by name leads on from where it led, and that it is too long is all that can keep it from being
opened.
-/

namespace SchemaUnfolding

/-! ## Paths along a way -/

namespace Path

variable {path name : String} {way : Way}

/-- The path that goes on along a way. -/
def extend (path : String) (way : Way) : String := way.foldl join path

@[simp]
theorem extend_nil (path : String) : extend path [] = path :=
  rfl

@[simp]
theorem extend_cons (path name : String) (way : Way) :
    extend path (name :: way) = extend (join path name) way :=
  rfl

theorem fileName_join (filled : path ≠ "") (named : IsFileName name) :
    fileName (join path name) = name := by
  have present : name ≠ "" := fun empty => named.moves (.inr empty)
  simp [fileName, names_join filled named.flat present]

theorem not_mem_toList_join {c : Char} (outside : c ∉ path.toList) (fresh : c ∉ name.toList)
    (other : c ≠ '/') : c ∉ (join path name).toList := by
  rw [join]
  split <;> simp [outside, fresh, other]

end Path

namespace Disk

variable {disk : Disk} {place : Place} {path name : String} {way : Way} {course next : Course}
  {entry : Entry}

/-! ## Directories -/

theorem Denotes.look (denotes : disk.Denotes path place) :
    disk.look .throughLink path =
      if pathLimit < path.utf8ByteSize then .error .nameTooLong else .ok (place, .directory) := by
  by_cases long : pathLimit < path.utf8ByteSize
  · have clean : ¬ path.contains '\x00' := by
      simpa [String.contains_char_eq] using denotes.clean
    rw [if_pos long, Disk.look, followPath, if_neg clean, if_neg denotes.filled, if_pos long]
  · rw [if_neg long, look_directory_iff, opens_iff]
    exact ⟨denotes, long⟩

/-- A path denotes each directory that stands under a name in the one it denotes. -/
theorem Denotes.join (denotes : disk.Denotes path place) (named : Path.IsEntryName name)
    (stands : disk.get? (place ++ [name]) = some .directory) :
    disk.Denotes (Path.join path name) (place ++ [name]) where
  clean := Path.not_mem_toList_join denotes.clean named.clean (by decide)
  filled := Path.join_ne_empty denotes.filled
  leads := by
    rcases denotes.leads with ⟨left, leads⟩
    have present : name ≠ "" := fun empty => named.moves (.inr empty)
    have onward : Onward .throughLink [name] := .inl rfl
    have longer := leads.append [name] onward id id
    refine ⟨left, ?_⟩
    rw [start_join denotes.filled named.toIsFileName,
      Path.names_join denotes.filled named.flat present]
    exact longer.tail (.below left named.isEntry (by simp) stands)

/-- Moves lead from a directory to a directory. -/
theorem Leads.stands (tree : disk.IsTree) (leads : disk.Leads reach course next)
    (stands : disk.get? course.place = some .directory) :
    disk.get? next.place = some .directory := by
  induction leads with
  | refl => exact stands
  | tail _ moves ih =>
    cases moves with
    | still => exact ih
    | above => exact tree.directory_dropLast ih
    | below _ _ _ inner => exact inner
    | through =>
      rw [start]
      split
      · rfl
      · exact ih

theorem Denotes.stands (tree : disk.IsTree) (denotes : disk.Denotes path place) :
    disk.get? place = some .directory := by
  rcases denotes.leads with ⟨left, leads⟩
  refine leads.stands tree ?_
  rw [start]
  split
  · rfl
  · exact tree.home

/-! ## Destinations -/

/-- The place that a path leads to, however long the path is. -/
def destination? (disk : Disk) (path : String) : Option Place :=
  match disk.follow .throughLink linkLimit (start path disk.home) (Path.steps path) with
  | .ok (.entry place _) => some place
  | _ => none

theorem destination?_of_look (looked : disk.look .throughLink path = .ok (place, entry)) :
    disk.destination? path = some place := by
  rw [look_eq_ok_iff, followPath_eq_ok_iff] at looked
  rw [destination?, looked.2]

theorem Denotes.destination?_join (denotes : disk.Denotes path place)
    (named : Path.IsEntryName name) (stands : disk.get? (place ++ [name]) = some entry)
    (unlinked : ∀ text, entry ≠ .link text) :
    disk.destination? (Path.join path name) = some (place ++ [name]) := by
  rcases denotes.follow_join named.toIsFileName (.inl rfl) with ⟨left, followed⟩
  rw [destination?, followed, follow_name named.isEntry (by simp), stands]
  cases entry with
  | file | device => rfl
  | directory => simp [follow]
  | link text => exact (unlinked text rfl).elim

/-! ## What a path meets -/

/-- Moves up to a link at the end leave the last step, or no step. -/
theorem Leads.getLast?_steps (leads : disk.Leads .toLink course next) (more : next.steps ≠ []) :
    next.steps.getLast? = course.steps.getLast? := by
  induction leads with
  | refl => rfl
  | @tail middle next _ moves ih =>
    cases moves with
    | still links place rest stays =>
      rw [← ih (by simp), List.getLast?_cons_of_ne_nil more]
    | above links place rest => rw [← ih (by simp), List.getLast?_cons_of_ne_nil more]
    | below links named ends stands => rw [← ih (by simp), List.getLast?_cons_of_ne_nil more]
    | @through links place rest name text named ends passes stands =>
      have onward : rest ≠ [] := by
        rintro rfl
        exact passes ⟨rfl, rfl⟩
      rw [← ih (by simp), List.getLast?_append_of_ne_nil _ onward,
        List.getLast?_cons_of_ne_nil onward]

/-- What a path leads to, if it is no link: the directory that the path denotes, or something else
that stands under the last name of the path. -/
structure Meets (disk : Disk) (path : String) (place : Place) (entry : Entry) : Prop where
  destination : disk.destination? path = some place
  stands : disk.get? place = some entry
  denotes : entry = .directory → disk.Denotes path place
  named : entry ≠ .directory → place.getLast? = some (Path.fileName path)

/-- What is no link is also looked up through links. -/
theorem look_throughLink (looked : disk.look .toLink path = .ok (place, entry))
    (unlinked : ∀ text, entry ≠ .link text) :
    disk.look .throughLink path = .ok (place, entry) := by
  rw [look_eq_ok_iff, followPath_eq_ok_iff] at looked ⊢
  refine ⟨looked.1, ?_⟩
  rcases arrives_of_follow looked.2 with ⟨left, at', rest, leads, arrives⟩
  rw [(leads.mono id id).follow_eq]
  cases arrives with
  | directory => rw [follow]
  | entry named other stands =>
    rw [follow_name named (by simp), stands]
    cases entry with
    | file | device => rfl
    | directory => exact (other rfl).elim
    | link text => exact (unlinked text rfl).elim

theorem Meets.of_look (tree : disk.IsTree) (looked : disk.look .toLink path = .ok (place, entry))
    (unlinked : ∀ text, entry ≠ .link text) : disk.Meets path place entry := by
  have through := look_throughLink looked unlinked
  have denotes : entry = .directory → disk.Denotes path place := by
    rintro rfl
    exact (opens_iff.mp (look_directory_iff.mp through)).1
  rw [look_eq_ok_iff, followPath_eq_ok_iff] at looked
  refine ⟨destination?_of_look through, ?_, denotes, ?_⟩
  · rcases stands_of_follow looked.2 with same | ⟨_, stands⟩
    · rw [same]
      exact (denotes same).stands tree
    · exact stands
  · intro other
    rcases arrives_of_follow looked.2 with ⟨left, at', rest, leads, arrives⟩
    cases arrives with
    | directory => exact (other rfl).elim
    | @entry name _ named =>
      have last : some name = (Path.steps path).getLast? := leads.getLast?_steps (by simp)
      have present : name ≠ "" := fun empty => named.moves (.inr empty)
      have flat : Path.endsInSlash path = false := by
        cases slash : Path.endsInSlash path with
        | false => rfl
        | true => simp [Path.steps, slash, present] at last
      have last : some name = (Path.names path).getLast? := by simpa [Path.steps, flat] using last
      simp [Path.fileName, ← last]

/-! ## Trees without links -/

/-- No link stands at a place or below it. -/
def Unlinked (disk : Disk) (place : Place) : Prop :=
  ∀ way text, disk.get? (place ++ way) ≠ some (.link text)

theorem Unlinked.append (unlinked : disk.Unlinked place) (way : Way) :
    disk.Unlinked (place ++ way) := by
  intro rest text
  rw [List.append_assoc]
  exact unlinked (way ++ rest) text

theorem Unlinked.ne_link (unlinked : disk.Unlinked place) (stands : disk.get? place = some entry)
    (text : String) : entry ≠ .link text := by
  rintro rfl
  exact unlinked [] text (by simpa using stands)

/-- No link stands below any place of a tree that has none. -/
theorem IsTree.unlinked (tree : disk.IsTree)
    (plain : ∀ pair ∈ disk.entries, ∀ text, pair.2 ≠ .link text) (place : Place) :
    disk.Unlinked place := by
  intro way text stands
  by_cases inside : place ++ way = []
  · rw [inside] at stands
    cases stands
  · exact plain _ ((tree.get?_eq_some_iff inside).mp stands) text rfl

/-- Below the path of a directory, the path of a name meets what stands under that name. -/
theorem Meets.join (tree : disk.IsTree) (meets : disk.Meets path place entry)
    (unlinked : disk.Unlinked place) {inner : Entry}
    (stands : disk.get? (place ++ [name]) = some inner) :
    disk.Meets (Path.join path name) (place ++ [name]) inner := by
  have held : (disk.get? (place ++ [name])).isSome := by rw [stands, Option.isSome_some]
  have directory := tree.directory_of_isSome held
  rw [meets.stands, Option.some.injEq] at directory
  have denotes := meets.denotes directory
  have named := tree.named_of_isSome held
  refine ⟨denotes.destination?_join named stands ((unlinked.append [name]).ne_link stands), stands,
    ?_, fun _ => by simp [Path.fileName_join denotes.filled named.toIsFileName]⟩
  rintro rfl
  exact denotes.join named stands

/-- A path that goes on along a way meets what stands at the end of the way. -/
theorem Meets.extend (tree : disk.IsTree) (meets : disk.Meets path place entry)
    (unlinked : disk.Unlinked place) {last : Entry}
    (stands : disk.get? (place ++ way) = some last) :
    disk.Meets (Path.extend path way) (place ++ way) last := by
  induction way generalizing path place entry with
  | nil =>
    rw [List.append_nil, meets.stands, Option.some.injEq] at stands
    simpa [stands] using meets
  | cons name rest ih =>
    rw [List.append_cons] at stands ⊢
    have held := tree.isSome_of_append (by rw [stands, Option.isSome_some])
    rcases Option.isSome_iff_exists.mp held with ⟨inner, known⟩
    exact ih (meets.join tree unlinked known) (unlinked.append [name]) stands

end Disk

end SchemaUnfolding
