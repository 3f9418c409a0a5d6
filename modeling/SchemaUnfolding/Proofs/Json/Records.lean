import SchemaUnfolding.Json.Record
import SchemaUnfolding.Proofs.Table
import SchemaUnfolding.Schema.ToJson

/-!
# Records, tables and lists are read back

The readers for the shapes that data takes undo the writers, if the readers for the parts do so at
the level of nesting that is left for the parts.
-/

namespace SchemaUnfolding.Json

/-! ## Records -/

/-- The members of an object with a name of its own. -/
theorem membersNamed_of_mem {members : List (String × Json)}
    (nodup : (members.map Prod.fst).Nodup) {member : String × Json} (known : member ∈ members) :
    membersNamed member.1 members = [member.2] := by
  induction members with
  | nil => cases known
  | cons first rest ih =>
    obtain ⟨fresh, restNodup⟩ := List.nodup_cons.mp nodup
    rw [membersNamed]
    rcases List.mem_cons.mp known with rfl | later
    · have others : rest.filter (fun other => other.1 == member.1) = [] := by
        rw [List.filter_eq_nil_iff]
        intro other listed same
        exact fresh (List.mem_map.mpr ⟨other, listed, beq_iff_eq.mp same⟩)
      rw [List.filter_cons_of_pos (by simp), others]
      rfl
    · have different : (first.1 == member.1) = false := by
        rw [beq_eq_false_iff_ne]
        exact fun same => fresh (List.mem_map.mpr ⟨member, later, same.symm⟩)
      rw [List.filter_cons_of_neg (by simp [different])]
      exact ih restNodup later

/-- A record is read field by field when it is written with its own names. -/
theorem fields?_object {names : List String} (members : List (String × Json))
    (same : members.map Prod.fst = names) (nodup : names.Nodup) :
    fields? names (object members) = some (members.map fun member => some member.2) := by
  subst same
  have single : ∀ member ∈ members, membersNamed member.1 members = [member.2] :=
    fun _ known => membersNamed_of_mem nodup known
  have once : ((members.map Prod.fst).all fun name => (membersNamed name members).length ≤ 1) =
      true := by
    rw [List.all_map, List.all_eq_true]
    intro member known
    simp [single member known]
  rw [fields?, if_pos once, List.map_map]
  congr 1
  refine List.map_congr_left fun member known => ?_
  simp [single member known]

/-! ## Fields of records -/

@[simp]
theorem required_some {α : Type} (read : Json → Option α) (json : Json) :
    required read (some json) = read json :=
  rfl

@[simp]
theorem text?_string (text : String) : text? (string text) = some text :=
  rfl

@[simp]
theorem bool?_bool (value : Bool) : bool? (bool value) = some value :=
  rfl

@[simp]
theorem optional_ofOption (text : Option String) :
    optional text? (some (ofOption text)) = some text := by
  cases text <;> rfl

/-! ## Alternatives -/

@[simp]
theorem isUnit_string (tag : String) (room : Nat) (text : String) :
    isUnit tag room (string text) = (text == tag) := by
  rw [isUnit]

theorem isUnit_object {content : Json} (occupied : content ≠ null) (tag : String) (room : Nat)
    (other : String) : isUnit tag room (object [(other, content)]) = false := by
  cases content with
  | null => exact absurd rfl occupied
  | _ => cases room <;> rfl

@[simp]
theorem tagged?_object (room : Nat) (tag : String) (content : Json) :
    tagged? (room + 1) (object [(tag, content)]) = some (tag, content) :=
  rfl

/-! ## Containers -/

section Containers

variable {α : Type} {read : Decoder α} {write : α → Json} {room : Nat}

/-- A list of writable items is read back. -/
theorem list?_array {items : List α}
    (readBack : ∀ item ∈ items, read room (write item) = some item) :
    list? read (room + 1) (array (items.map write)) = some items := by
  rw [list?]
  induction items with
  | nil => rfl
  | cons item rest ih =>
    obtain ⟨first, others⟩ := List.forall_mem_cons.mp readBack
    rw [List.map_cons, List.mapM_cons, first, ih others]
    rfl

/-- Entries with writable values are read back, each under its name. -/
theorem mapM_entries {entries : List (String × α)}
    (readBack : ∀ entry ∈ entries, read room (write entry.2) = some entry.2) :
    (entries.map fun (name, value) => (name, write value)).mapM
      (fun member : String × Json =>
        (read room member.2).map fun value => (member.1, value)) = some entries := by
  induction entries with
  | nil => rfl
  | cons entry rest ih =>
    obtain ⟨first, others⟩ := List.forall_mem_cons.mp readBack
    rw [List.map_cons, List.mapM_cons, first, ih others]
    rfl

/-- A table of writable values is read back, with its order. -/
theorem table?_ofTable {table : Table α}
    (readBack : ∀ value ∈ table.values, read room (write value) = some value) :
    table? read (room + 1) (ofTable write table) = some table := by
  have same : Table.ofList table.entries = table := by
    have held := Table.entries_ofList table.nodup
    cases table
    rw [Table.mk.injEq]
    exact held
  have entries := mapM_entries fun entry listed => readBack _ (List.mem_map_of_mem listed)
  rw [ofTable, table?, entries, Option.map_some, same]

end Containers

end SchemaUnfolding.Json
