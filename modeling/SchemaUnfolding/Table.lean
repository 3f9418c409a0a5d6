/-!
# Tables in insertion order

A table assigns a value to each of finitely many names and remembers the order in which the names
were first inserted. Inserting under a name that is already there replaces the value and keeps the
place. That no name occurs twice is part of the type.
-/

namespace SchemaUnfolding

universe u v

/-- Finitely many named values in insertion order, no name twice. -/
structure Table (α : Type u) where
  entries : List (String × α)
  nodup : (entries.map Prod.fst).Nodup

namespace Table

variable {α : Type u} {β : Type v}

instance [DecidableEq α] : DecidableEq (Table α) := fun first second =>
  decidable_of_iff (first.entries = second.entries) (by cases first; cases second; simp)

/-- The table without entries. -/
def empty : Table α := ⟨[], List.nodup_nil⟩

instance : Inhabited (Table α) := ⟨empty⟩

/-- The names of a table in order. -/
def names (table : Table α) : List String := table.entries.map Prod.fst

/-- The values of a table in order. -/
def values (table : Table α) : List α := table.entries.map Prod.snd

/-- The number of entries. -/
def size (table : Table α) : Nat := table.entries.length

/-- Whether the table has no entries. -/
def isEmpty (table : Table α) : Bool := table.entries.isEmpty

/-- The first value under a name in a list of pairs. -/
def find? (name : String) : List (String × α) → Option α
  | [] => none
  | (key, value) :: rest => if key = name then some value else find? name rest

/-- The value under a name. -/
def get? (table : Table α) (name : String) : Option α := find? name table.entries

/-- Whether the table has an entry under a name. -/
def contains (table : Table α) (name : String) : Bool := (table.get? name).isSome

theorem find?_isSome {name : String} {entries : List (String × α)} :
    (find? name entries).isSome = true ↔ name ∈ entries.map Prod.fst := by
  induction entries with
  | nil => simp [find?]
  | cons entry rest ih =>
    obtain ⟨key, value⟩ := entry
    by_cases same : key = name
    · simp [find?, same]
    · simp [find?, same, ih, Ne.symm same]

/-- A name is contained exactly when it is among the names. -/
@[simp]
theorem contains_iff {table : Table α} {name : String} :
    table.contains name = true ↔ name ∈ table.names :=
  find?_isSome

/-- Replace the value under a name. -/
def replace (name : String) (value : α) : List (String × α) → List (String × α)
  | [] => []
  | (key, old) :: rest =>
    if key = name then (key, value) :: rest else (key, old) :: replace name value rest

theorem map_fst_replace (name : String) (value : α) (entries : List (String × α)) :
    (replace name value entries).map Prod.fst = entries.map Prod.fst := by
  induction entries with
  | nil => rfl
  | cons entry rest ih =>
    obtain ⟨key, old⟩ := entry
    by_cases same : key = name <;> simp [replace, same, ih]

/-- Set the value under a name: in place if the name is there, else at the end. -/
def insert (table : Table α) (name : String) (value : α) : Table α :=
  if present : table.contains name then
    ⟨replace name value table.entries, by rw [map_fst_replace]; exact table.nodup⟩
  else
    ⟨table.entries ++ [(name, value)], by
      rw [List.map_append, List.nodup_append]
      refine ⟨table.nodup, by simp, ?_⟩
      rintro key known _ fresh rfl
      simp only [List.map_cons, List.map_nil, List.mem_singleton] at fresh
      subst fresh
      exact present (contains_iff.mpr known)⟩

/-- A name that is new stands at the end after its insertion. -/
theorem names_insert_of_not_mem {table : Table α} {name : String} {value : α}
    (fresh : name ∉ table.names) : (table.insert name value).names = table.names ++ [name] := by
  have absent : ¬ table.contains name = true := fun present => fresh (contains_iff.mp present)
  simp [insert, absent, names]

/-- Inserting under a name that is there keeps the names and their order. -/
theorem names_insert_of_mem {table : Table α} {name : String} {value : α}
    (known : name ∈ table.names) : (table.insert name value).names = table.names := by
  have present : table.contains name = true := contains_iff.mpr known
  simp [insert, present, names, map_fst_replace]

/-- Insert pairs one after the other. -/
def insertAll (table : Table α) (pairs : List (String × α)) : Table α :=
  pairs.foldl (fun table (name, value) => table.insert name value) table

/-- The table of a list of pairs: of two with one name the first gives the place and the last the
value. -/
def ofList (pairs : List (String × α)) : Table α := empty.insertAll pairs

end Table

end SchemaUnfolding
