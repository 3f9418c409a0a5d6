import Mathlib.Data.List.Nodup
import SchemaUnfolding.Proofs.Success
import SchemaUnfolding.Table

/-!
# Tables and insertion

Looking a name up finds the one entry under it, and an insertion changes the entry of one name. New
names are entered at the end, so a run of insertions under new names appends what it inserts. A
table is keyed when each value is entered under the name that it has itself.
-/

namespace SchemaUnfolding.Table

universe u

variable {α : Type u} {table : Table α} {name : String} {value : α}

/-! ## Looking up -/

theorem find?_eq_some_iff {entries : List (String × α)}
    (nodup : (entries.map Prod.fst).Nodup) :
    find? name entries = some value ↔ (name, value) ∈ entries := by
  induction entries with
  | nil => simp [find?]
  | cons entry rest ih =>
    rcases entry with ⟨key, held⟩
    rw [List.map_cons, List.nodup_cons] at nodup
    by_cases same : key = name
    · subst same
      have absent : (key, value) ∉ rest := fun member =>
        nodup.1 (List.mem_map.mpr ⟨_, member, rfl⟩)
      simp [find?, absent, eq_comm]
    · simp [find?, same, Ne.symm same, ih nodup.2]

/-- A name leads to a value exactly when the two are an entry. -/
theorem get?_eq_some_iff : table.get? name = some value ↔ (name, value) ∈ table.entries :=
  find?_eq_some_iff table.nodup

theorem get?_eq_none_iff : table.get? name = none ↔ name ∉ table.names := by
  rw [← contains_iff, contains, Option.not_isSome_iff_eq_none]

theorem mem_names_iff : name ∈ table.names ↔ ∃ value, (name, value) ∈ table.entries := by
  simp [names]

theorem mem_values_iff : value ∈ table.values ↔ ∃ name, (name, value) ∈ table.entries := by
  simp [values]

theorem mem_values_of_get? (found : table.get? name = some value) : value ∈ table.values :=
  mem_values_iff.mpr ⟨name, get?_eq_some_iff.mp found⟩

theorem mem_names_of_get? (found : table.get? name = some value) : name ∈ table.names :=
  mem_names_iff.mpr ⟨value, get?_eq_some_iff.mp found⟩

/-- The entries are known when their names are known in order and each name leads to its value. -/
theorem entries_eq_of_get? {pairs : List (String × α)} (named : table.names = pairs.map Prod.fst)
    (found : ∀ pair ∈ pairs, table.get? pair.1 = some pair.2) : table.entries = pairs := by
  have long : table.entries.length = pairs.length := by
    simpa [names] using congrArg List.length named
  apply List.ext_getElem long
  intro index inside inside'
  have same : table.entries[index].1 = pairs[index].1 := by
    simpa [names, inside, inside'] using congrArg (·[index]?) named
  have member : pairs[index] ∈ table.entries :=
    get?_eq_some_iff.mp (found _ (List.getElem_mem inside'))
  exact List.inj_on_of_nodup_map table.nodup (List.getElem_mem inside) member same

@[simp]
theorem entries_empty : (empty : Table α).entries = [] :=
  rfl

/-! ## Inserting -/

theorem mem_replace_iff {entries : List (String × α)} {key : String} {held : α}
    (nodup : (entries.map Prod.fst).Nodup) (known : name ∈ entries.map Prod.fst) :
    (key, held) ∈ replace name value entries ↔
      (key = name ∧ held = value) ∨ (key ≠ name ∧ (key, held) ∈ entries) := by
  induction entries with
  | nil => simp at known
  | cons entry rest ih =>
    rcases entry with ⟨first, old⟩
    rw [List.map_cons, List.nodup_cons] at nodup
    by_cases same : first = name
    · subst same
      have absent : ∀ later, (first, later) ∉ rest := fun _ member =>
        nodup.1 (List.mem_map.mpr ⟨_, member, rfl⟩)
      by_cases equal : key = first
      · subst equal
        simp [replace, absent]
      · simp [replace, equal]
    · have later : name ∈ rest.map Prod.fst := by
        simpa [Ne.symm same] using known
      by_cases equal : key = first
      · subst equal
        simp [replace, same, ih nodup.2 later]
      · simp [replace, same, equal, ih nodup.2 later]

/-- The entries after an insertion: the inserted one, and those under other names. -/
theorem mem_entries_insert_iff {key : String} {held : α} :
    (key, held) ∈ (table.insert name value).entries ↔
      (key = name ∧ held = value) ∨ (key ≠ name ∧ (key, held) ∈ table.entries) := by
  rw [insert]
  split
  · rename_i present
    exact mem_replace_iff table.nodup (contains_iff.mp present)
  · rename_i absent
    have fresh : ∀ later, (name, later) ∉ table.entries := fun later member =>
      absent (contains_iff.mpr (mem_names_iff.mpr ⟨later, member⟩))
    by_cases same : key = name
    · subst same
      simp [fresh]
    · simp [same]

/-- A new name is entered at the end. -/
theorem entries_insert_of_not_mem (fresh : name ∉ table.names) :
    (table.insert name value).entries = table.entries ++ [(name, value)] := by
  have absent : ¬ table.contains name = true := fun present => fresh (contains_iff.mp present)
  simp [insert, absent]

theorem get?_insert {key : String} :
    (table.insert name value).get? key = if key = name then some value else table.get? key := by
  ext held
  rw [get?_eq_some_iff, mem_entries_insert_iff]
  by_cases same : key = name
  · simp [same, eq_comm]
  · simp [same, get?_eq_some_iff]

/-! ## Inserting one after the other -/

theorem insertAll_cons {pair : String × α} {rest : List (String × α)} :
    table.insertAll (pair :: rest) = (table.insert pair.1 pair.2).insertAll rest :=
  rfl

theorem insertAll_append {first second : List (String × α)} :
    table.insertAll (first ++ second) = (table.insertAll first).insertAll second :=
  List.foldl_append

/-- Pairs under new names are entered at the end, in order. -/
theorem entries_insertAll {pairs : List (String × α)}
    (nodup : (table.names ++ pairs.map Prod.fst).Nodup) :
    (table.insertAll pairs).entries = table.entries ++ pairs := by
  induction pairs generalizing table with
  | nil => simp [insertAll]
  | cons pair rest ih =>
    have fresh : pair.1 ∉ table.names := fun known =>
      List.disjoint_of_nodup_append nodup known (List.mem_cons_self ..)
    have later : ((table.insert pair.1 pair.2).names ++ rest.map Prod.fst).Nodup := by
      rw [names_insert_of_not_mem fresh]
      simpa using nodup
    rw [insertAll_cons, ih later, entries_insert_of_not_mem fresh]
    simp

theorem entries_ofList {pairs : List (String × α)} (nodup : (pairs.map Prod.fst).Nodup) :
    (ofList pairs).entries = pairs :=
  entries_insertAll nodup

/-- A fold whose steps enter new names into a table, which may be a part of a larger state, enters
all of them: exactly when each item is good and no name occurs twice. -/
theorem foldlM_eq_ok_iff {ε β σ : Type} {step : σ → β → Except ε σ} (place : Table α → σ)
    (good : β → Prop) (entry : β → String × α)
    (enters : ∀ {table : Table α} {item : β} {result : σ}, step (place table) item = .ok result ↔
      good item ∧ (entry item).1 ∉ table.names ∧
        result = place (table.insert (entry item).1 (entry item).2))
    {items : List β} {result : σ} :
    items.foldlM step (place table) = .ok result ↔
      (∀ item ∈ items, good item) ∧ (table.names ++ items.map fun item => (entry item).1).Nodup ∧
        result = place (table.insertAll (items.map entry)) := by
  induction items generalizing table with
  | nil =>
    have nodup : table.names.Nodup := table.nodup
    simp [insertAll, nodup, pure, Except.pure, eq_comm]
  | cons item rest ih =>
    rw [List.foldlM_cons, bind_eq_ok_iff]
    constructor
    · rintro ⟨middle, first, others⟩
      rcases enters.mp first with ⟨known, fresh, rfl⟩
      rcases ih.mp others with ⟨goods, nodup, rfl⟩
      rw [names_insert_of_not_mem fresh] at nodup
      exact ⟨List.forall_mem_cons.mpr ⟨known, goods⟩, by simpa using nodup, rfl⟩
    · rintro ⟨goods, nodup, rfl⟩
      rcases List.forall_mem_cons.mp goods with ⟨known, others⟩
      have fresh : (entry item).1 ∉ table.names := fun known =>
        List.disjoint_of_nodup_append nodup known (List.mem_cons_self ..)
      refine ⟨_, enters.mpr ⟨known, fresh, rfl⟩, ih.mpr ⟨others, ?_, rfl⟩⟩
      rw [names_insert_of_not_mem fresh]
      simpa using nodup

/-! ## Keyed tables -/

/-- Each value is entered under the name that it has itself. -/
def Keyed (nameOf : α → String) (table : Table α) : Prop :=
  ∀ entry ∈ table.entries, nameOf entry.2 = entry.1

variable {nameOf : α → String}

theorem keyed_empty : Keyed nameOf (empty : Table α) := by
  intro entry member
  cases member

theorem Keyed.insert (keyed : Keyed nameOf table) (named : nameOf value = name) :
    Keyed nameOf (table.insert name value) := by
  rintro ⟨key, held⟩ member
  rcases mem_entries_insert_iff.mp member with ⟨rfl, rfl⟩ | ⟨_, known⟩
  · exact named
  · exact keyed _ known

/-- The values of a keyed table have the names of the table, in order. -/
theorem Keyed.map_values (keyed : Keyed nameOf table) : table.values.map nameOf = table.names := by
  rw [values, names, List.map_map]
  exact List.map_congr_left keyed

/-- No two values of a keyed table have the same name. -/
theorem Keyed.nodup_map_values (keyed : Keyed nameOf table) :
    (table.values.map nameOf).Nodup := by
  rw [keyed.map_values]
  exact table.nodup

theorem Keyed.get?_eq_some_iff (keyed : Keyed nameOf table) :
    table.get? name = some value ↔ value ∈ table.values ∧ nameOf value = name := by
  rw [Table.get?_eq_some_iff, mem_values_iff]
  constructor
  · intro member
    exact ⟨⟨name, member⟩, keyed _ member⟩
  · rintro ⟨⟨key, member⟩, rfl⟩
    rwa [keyed _ member]

/-- Each value is entered under the name that it has itself, and is of a kind. -/
structure Holds (nameOf : α → String) (good : α → Prop) (table : Table α) : Prop where
  keyed : Keyed nameOf table
  values : ∀ value ∈ table.values, good value

variable {good : α → Prop}

theorem holds_empty : Holds nameOf good (empty : Table α) where
  keyed := keyed_empty
  values := by
    intro value member
    cases member

theorem Holds.insert (holds : Holds nameOf good table) (named : nameOf value = name)
    (known : good value) : Holds nameOf good (table.insert name value) where
  keyed := holds.keyed.insert named
  values := by
    intro held member
    rcases mem_values_iff.mp member with ⟨key, entered⟩
    rcases mem_entries_insert_iff.mp entered with ⟨_, rfl⟩ | ⟨_, before⟩
    · exact known
    · exact holds.values held (mem_values_iff.mpr ⟨key, before⟩)

end SchemaUnfolding.Table
