import Mathlib.Data.List.Lex
import Mathlib.Data.List.Perm.Subperm
import Mathlib.Data.List.Sort
import Mathlib.Data.String.Basic
import SchemaUnfolding.Files.Disk
import SchemaUnfolding.Proofs.Files.Directories

/-!
# Trees of directories

The entries of a disk form a tree when each of them stands in a directory. What stands below a place
is then listed by the ways to it from there. Ordered by the names on them, the ways go through each
directory directly after the way to it, so this is the order of going through a tree depth first.
-/

namespace SchemaUnfolding

/-- A name that an entry can have in a directory. -/
structure Path.IsEntryName (name : String) : Prop extends Path.IsFileName name where
  clean : '\x00' ∉ name.toList
  short : ¬ Disk.nameLimit < name.utf8ByteSize

instance (name : String) : Decidable (Path.IsEntryName name) :=
  decidable_of_iff (Path.IsFileName name ∧ '\x00' ∉ name.toList ∧
      ¬ Disk.nameLimit < name.utf8ByteSize)
    ⟨fun ⟨named, clean, short⟩ => ⟨named, clean, short⟩,
      fun named => ⟨named.toIsFileName, named.clean, named.short⟩⟩

theorem Path.IsEntryName.isEntry {name : String} (named : Path.IsEntryName name) :
    Path.IsEntry name :=
  ⟨named.moves, named.below, named.short⟩

/-- The names on the way from a place to one at or below it. -/
abbrev Way : Type := List String

/-- A list without duplicates is strictly increasing after it was sorted. -/
theorem pairwise_lt_mergeSort {α : Type} [LinearOrder α] {items : List α}
    (distinct : items.Nodup) : (items.mergeSort fun a b => a ≤ b).Pairwise (· < ·) := by
  have distinct := (List.mergeSort_perm items fun a b => decide (a ≤ b)).nodup_iff.mpr distinct
  exact (List.sortedLE_mergeSort.sortedLT_of_nodup distinct).pairwise

namespace Disk

variable {disk : Disk} {place front directory key : Place} {way : Way} {name : String}
  {entry : Entry}

/-- No place has two entries, each entry stands in a directory under a name, and the working
directory is one of the directories. -/
structure IsTree (disk : Disk) : Prop where
  distinct : (disk.entries.map Prod.fst).Nodup
  rooted : ∀ key ∈ disk.entries.map Prod.fst,
    key ≠ [] ∧ disk.get? key.dropLast = some .directory
  named : ∀ key ∈ disk.entries.map Prod.fst, ∀ name ∈ key, Path.IsEntryName name
  home : disk.get? disk.home = some .directory

instance (disk : Disk) : Decidable disk.IsTree :=
  decidable_of_iff ((disk.entries.map Prod.fst).Nodup ∧
      (∀ key ∈ disk.entries.map Prod.fst,
        key ≠ [] ∧ disk.get? key.dropLast = some .directory) ∧
      (∀ key ∈ disk.entries.map Prod.fst, ∀ name ∈ key, Path.IsEntryName name) ∧
      disk.get? disk.home = some .directory)
    ⟨fun ⟨distinct, rooted, named, home⟩ => ⟨distinct, rooted, named, home⟩,
      fun tree => ⟨tree.distinct, tree.rooted, tree.named, tree.home⟩⟩

/-! ## Entries of a tree -/

theorem find?_eq_some_iff {entries : List (Place × Entry)}
    (distinct : (entries.map Prod.fst).Nodup) :
    find? key entries = some entry ↔ (key, entry) ∈ entries := by
  induction entries with
  | nil => simp [find?]
  | cons pair rest ih =>
    rcases pair with ⟨first, held⟩
    rcases List.nodup_cons.mp distinct with ⟨fresh, distinct⟩
    rw [find?, List.mem_cons]
    by_cases same : first = key
    · subst same
      have absent : (first, entry) ∉ rest := fun member =>
        fresh (List.mem_map.mpr ⟨_, member, rfl⟩)
      simp [absent, eq_comm]
    · simp [same, Ne.symm same, ih distinct]

theorem IsTree.get?_eq_some_iff (tree : disk.IsTree) (inside : key ≠ []) :
    disk.get? key = some entry ↔ (key, entry) ∈ disk.entries := by
  rcases List.exists_cons_of_ne_nil inside with ⟨name, rest, rfl⟩
  exact find?_eq_some_iff tree.distinct

theorem IsTree.isSome_get?_iff (tree : disk.IsTree) (inside : key ≠ []) :
    (disk.get? key).isSome ↔ key ∈ disk.entries.map Prod.fst := by
  simp [Option.isSome_iff_exists, tree.get?_eq_some_iff inside]

/-- What stands under a name stands in a directory. -/
theorem IsTree.directory_of_isSome (tree : disk.IsTree)
    (stands : (disk.get? (place ++ [name])).isSome) : disk.get? place = some .directory := by
  rw [tree.isSome_get?_iff (by simp)] at stands
  simpa using (tree.rooted _ stands).2

/-- The directory above a directory is one. -/
theorem IsTree.directory_dropLast (tree : disk.IsTree)
    (stands : disk.get? place = some .directory) : disk.get? place.dropLast = some .directory := by
  by_cases inside : place = []
  · rw [inside]
    rfl
  · rw [← List.dropLast_append_getLast inside] at stands
    exact tree.directory_of_isSome (by rw [stands, Option.isSome_some])

theorem IsTree.named_of_isSome (tree : disk.IsTree)
    (stands : (disk.get? (place ++ [name])).isSome) : Path.IsEntryName name := by
  rw [tree.isSome_get?_iff (by simp)] at stands
  exact tree.named _ stands name (by simp)

/-- Something stands at each place on the way to a place where something stands. -/
theorem IsTree.isSome_of_append (tree : disk.IsTree)
    (stands : (disk.get? (place ++ way)).isSome) : (disk.get? place).isSome := by
  induction way generalizing place with
  | nil => simpa using stands
  | cons name rest ih =>
    have first : (disk.get? (place ++ [name])).isSome := ih (by simpa using stands)
    simp [tree.directory_of_isSome first]

/-- Nothing stands below what is no directory. -/
theorem IsTree.eq_nil_of_isSome (tree : disk.IsTree) (other : disk.get? place ≠ some .directory)
    (stands : (disk.get? (place ++ way)).isSome) : way = [] := by
  cases way with
  | nil => rfl
  | cons name rest =>
    rw [List.append_cons] at stands
    have first := tree.isSome_of_append stands
    exact (other (tree.directory_of_isSome first)).elim

/-- There is an entry for each name on the way to a place. -/
theorem IsTree.length_le (tree : disk.IsTree) (stands : (disk.get? place).isSome) :
    place.length ≤ disk.entries.length := by
  have lengths : List.range' 1 place.length ⊆ disk.entries.map fun pair => pair.1.length := by
    intro count member
    rw [List.mem_range'_1] at member
    have inside : place.take count ≠ [] := by
      rw [← List.length_pos_iff, List.length_take]
      omega
    rw [← List.take_append_drop count place] at stands
    have above := tree.isSome_of_append stands
    rw [tree.isSome_get?_iff inside, List.mem_map] at above
    rcases above with ⟨pair, member', same⟩
    refine List.mem_map.mpr ⟨pair, member', ?_⟩
    rw [same, List.length_take]
    omega
  simpa using (List.Nodup.subperm List.nodup_range' lengths).length_le

/-- What is taken from different places, and only from one place each, is taken once. -/
theorem IsTree.nodup_filterMap {α : Type} (tree : disk.IsTree) {take : Place → Option α}
    (apart : ∀ first second item, take first = some item → take second = some item →
      first = second) :
    (disk.entries.filterMap fun pair => take pair.1).Nodup := by
  have listed : (disk.entries.filterMap fun pair => take pair.1) =
      (disk.entries.map Prod.fst).filterMap take := by
    rw [List.filterMap_map]
    rfl
  rw [listed]
  exact List.Nodup.filterMap apart tree.distinct

/-! ## Names in a directory -/

theorem nameIn?_eq_some_iff : nameIn? directory key = some name ↔ key = directory ++ [name] := by
  induction directory generalizing key with
  | nil => rcases key with _ | ⟨first, _ | _⟩ <;> simp [nameIn?]
  | cons above directory ih =>
    cases key with
    | nil => simp [nameIn?]
    | cons first rest => by_cases same : above = first <;> simp [nameIn?, same, ih, eq_comm]

theorem IsTree.mem_namesIn_iff (tree : disk.IsTree) :
    name ∈ disk.namesIn place ↔ (disk.get? (place ++ [name])).isSome := by
  rw [namesIn, List.mem_mergeSort, List.mem_filterMap, tree.isSome_get?_iff (by simp),
    List.mem_map]
  simp only [nameIn?_eq_some_iff]

theorem IsTree.pairwise_namesIn (tree : disk.IsTree) (place : Place) :
    (disk.namesIn place).Pairwise (· < ·) := by
  refine pairwise_lt_mergeSort (tree.nodup_filterMap fun first second name here there => ?_)
  rw [nameIn?_eq_some_iff] at here there
  rw [here, there]

/-! ## Ways from a place -/

/-- The way from a place to one below it. -/
def wayBelow? : Place → Place → Option Way
  | [], [] => none
  | [], name :: rest => some (name :: rest)
  | _ :: _, [] => none
  | above :: directory, first :: rest =>
    if above = first then wayBelow? directory rest else none

theorem wayBelow?_eq_some_iff :
    wayBelow? directory key = some way ↔ way ≠ [] ∧ key = directory ++ way := by
  induction directory generalizing key with
  | nil =>
    cases key with
    | nil => simp [wayBelow?, eq_comm]
    | cons name rest =>
      rw [wayBelow?, Option.some.injEq, List.nil_append]
      constructor
      · rintro rfl
        exact ⟨List.cons_ne_nil _ _, rfl⟩
      · rintro ⟨_, rfl⟩
        rfl
  | cons above directory ih =>
    cases key with
    | nil => simp [wayBelow?]
    | cons first rest => by_cases same : above = first <;> simp [wayBelow?, same, ih, eq_comm]

/-- The ways from a place to all that stands below it, in the order of the names on them. -/
def below (disk : Disk) (place : Place) : List Way :=
  (disk.entries.filterMap fun pair => wayBelow? place pair.1).mergeSort fun a b => a ≤ b

theorem IsTree.mem_below_iff (tree : disk.IsTree) :
    way ∈ disk.below place ↔ way ≠ [] ∧ (disk.get? (place ++ way)).isSome := by
  rw [below, List.mem_mergeSort, List.mem_filterMap]
  simp only [wayBelow?_eq_some_iff]
  constructor
  · rintro ⟨pair, member, filled, same⟩
    refine ⟨filled, ?_⟩
    rw [← same, tree.isSome_get?_iff (by simp [same, filled])]
    exact List.mem_map_of_mem member
  · rintro ⟨filled, stands⟩
    rw [tree.isSome_get?_iff (by simp [filled]), List.mem_map] at stands
    rcases stands with ⟨pair, member, same⟩
    exact ⟨pair, member, filled, same⟩

theorem IsTree.pairwise_below (tree : disk.IsTree) (place : Place) :
    (disk.below place).Pairwise (· < ·) := by
  refine pairwise_lt_mergeSort (tree.nodup_filterMap fun first second way here there => ?_)
  rw [wayBelow?_eq_some_iff] at here there
  rw [here.2, there.2]

theorem IsTree.below_eq_nil (tree : disk.IsTree) (other : disk.get? place ≠ some .directory) :
    disk.below place = [] := by
  refine List.eq_nil_iff_forall_not_mem.mpr fun way member => ?_
  rcases tree.mem_below_iff.mp member with ⟨filled, stands⟩
  exact filled (tree.eq_nil_of_isSome other stands)

/-- The ways below a place go to each name in it, and directly after that to all below that name. -/
theorem IsTree.below_eq_flatMap (tree : disk.IsTree) (place : Place) :
    disk.below place = (disk.namesIn place).flatMap fun name =>
      [name] :: (disk.below (place ++ [name])).map (name :: ·) := by
  have increasing : ((disk.namesIn place).flatMap fun name =>
      [name] :: (disk.below (place ++ [name])).map (name :: ·)).Pairwise (· < ·) := by
    rw [List.pairwise_flatMap]
    constructor
    · intro name _
      refine List.pairwise_cons.mpr ⟨?_, List.pairwise_map.mpr ?_⟩
      · intro way member
        rcases List.mem_map.mp member with ⟨rest, known, rfl⟩
        rcases List.exists_cons_of_ne_nil (tree.mem_below_iff.mp known).1 with ⟨_, _, rfl⟩
        simp
      · exact (tree.pairwise_below _).imp fun less => by simpa using less
    · refine (tree.pairwise_namesIn place).imp fun {first second} less way here other there => ?_
      have headed : ∀ {name way}, way ∈ [name] :: (disk.below (place ++ [name])).map (name :: ·) →
          ∃ rest, way = name :: rest := by
        simp only [List.mem_cons, List.mem_map]
        rintro name way (rfl | ⟨rest, _, rfl⟩)
        · exact ⟨[], rfl⟩
        · exact ⟨rest, rfl⟩
      rcases headed here with ⟨_, rfl⟩
      rcases headed there with ⟨_, rfl⟩
      exact List.cons_lt_cons_iff.mpr (.inl less)
  refine (tree.pairwise_below place).eq_of_mem_iff increasing fun way => ?_
  simp only [tree.mem_below_iff, List.mem_flatMap, tree.mem_namesIn_iff, List.mem_cons,
    List.mem_map]
  constructor
  · rintro ⟨filled, stands⟩
    rcases List.exists_cons_of_ne_nil filled with ⟨name, rest, rfl⟩
    rw [List.append_cons] at stands
    refine ⟨name, tree.isSome_of_append stands, ?_⟩
    by_cases last : rest = []
    · exact .inl (by rw [last])
    · exact .inr ⟨rest, ⟨last, stands⟩, rfl⟩
  · rintro ⟨name, stands, rfl | ⟨rest, ⟨_, further⟩, rfl⟩⟩
    · exact ⟨by simp, stands⟩
    · exact ⟨by simp, by simpa using further⟩

end Disk

end SchemaUnfolding
