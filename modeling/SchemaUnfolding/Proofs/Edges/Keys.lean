import Mathlib.Data.List.Basic
import SchemaUnfolding.Operation.Edges

/-!
# Keys of edges

The key of an edge joins two names with a separator that may stand inside names as well. Two pairs
of names have one key exactly when they are the same pair or overlap: one container goes on, after
the separator, with what the field of the other pair starts with.
-/

namespace SchemaUnfolding.Edges

/-- One of two pairs of a container and a field takes a piece that ends at a separator from the
field to the container of the other pair. -/
def Overlap (first second : String × String) : Prop :=
  ∃ between,
    (second.1 = first.1 ++ "To" ++ between ∧ first.2 = between ++ "To" ++ second.2) ∨
      (first.1 = second.1 ++ "To" ++ between ∧ second.2 = between ++ "To" ++ first.2)

theorem Overlap.symm {first second : String × String} (overlap : Overlap first second) :
    Overlap second first := by
  obtain ⟨between, parts | parts⟩ := overlap
  · exact ⟨between, .inr parts⟩
  · exact ⟨between, .inl parts⟩

/-- Names that are taken from the one pair to the other leave the key as it is. -/
theorem key_append_separator (container between field : String) :
    key (container ++ "To" ++ between) field = key container (between ++ "To" ++ field) := by
  simp only [key, String.append_assoc]

theorem Overlap.key_eq {first second : String × String} (overlap : Overlap first second) :
    key first.1 first.2 = key second.1 second.2 := by
  obtain ⟨between, ⟨container, field⟩ | ⟨container, field⟩⟩ := overlap
  · rw [container, field, key_append_separator]
  · rw [container, field, key_append_separator]

/-- The field and the key of an edge determine its container. -/
theorem key_left_inj {container other field : String} :
    key container field = key other field ↔ container = other := by
  simp only [key, String.append_left_inj]

/-! ## One key -/

/-- What stands in front of a separator in a text that starts with one: nothing, or a separator and
more. A single character cannot, because the separator does not start as it ends. -/
theorem separator_append {field between inner : List Char}
    (same : 'T' :: 'o' :: field = between ++ 'T' :: 'o' :: inner) :
    (between = [] ∧ field = inner) ∨
      ∃ rest, between = 'T' :: 'o' :: rest ∧ field = rest ++ 'T' :: 'o' :: inner := by
  match between with
  | [] =>
    cases same
    exact .inl ⟨rfl, rfl⟩
  | [c] => simp at same
  | _ :: _ :: rest =>
    cases same
    exact .inr ⟨rest, rfl, rfl⟩

theorem toList_key (container field : String) :
    (key container field).toList =
      container.toList ++ 'T' :: 'o' :: field.toList ++ ['K', 'e', 'y'] := by
  simp [key]

/-- A container that is longer than another one with the same key goes on with a separator. -/
theorem eq_or_overlap_of_append (container : String) {field inner : String} {more : List Char}
    (same : 'T' :: 'o' :: field.toList = more ++ 'T' :: 'o' :: inner.toList) :
    (container = String.ofList (container.toList ++ more) ∧ field = inner) ∨
      Overlap (container, field) (String.ofList (container.toList ++ more), inner) := by
  rcases separator_append same with ⟨rfl, equal⟩ | ⟨rest, rfl, equal⟩
  · left
    exact ⟨by simp, String.toList_inj.mp equal⟩
  · right
    refine ⟨String.ofList rest, .inl ⟨?_, ?_⟩⟩
    · apply String.toList_inj.mp
      simp
    · apply String.toList_inj.mp
      simpa using equal

/-- Two pairs have the same key exactly when they are equal or overlap. -/
theorem key_eq_key_iff (first second : String × String) :
    key first.1 first.2 = key second.1 second.2 ↔ first = second ∨ Overlap first second := by
  constructor
  · intro same
    obtain ⟨container, field⟩ := first
    obtain ⟨other, inner⟩ := second
    have texts : container.toList ++ 'T' :: 'o' :: field.toList =
        other.toList ++ 'T' :: 'o' :: inner.toList := by
      have joined := congrArg String.toList same
      rw [toList_key, toList_key] at joined
      exact List.append_cancel_right joined
    rcases List.append_eq_append_iff.mp texts with ⟨more, longer, rest⟩ | ⟨more, longer, rest⟩
    · have known : other = String.ofList (container.toList ++ more) := by
        rw [← longer, String.ofList_toList]
      rw [known]
      simpa using eq_or_overlap_of_append container rest
    · have known : container = String.ofList (other.toList ++ more) := by
        rw [← longer, String.ofList_toList]
      rw [known]
      rcases eq_or_overlap_of_append other rest with ⟨equal, rfl⟩ | overlap
      · exact .inl (by rw [← equal])
      · exact .inr overlap.symm
  · rintro (rfl | overlap)
    · rfl
    · exact overlap.key_eq

/-- Two pairs of a container and a field are not told apart: they are the same pair or overlap. -/
def Alike (first second : String × String) : Prop := first = second ∨ Overlap first second

theorem key_eq_iff_alike {first second : String × String} :
    key first.1 first.2 = key second.1 second.2 ↔ Alike first second :=
  key_eq_key_iff first second

instance (first second : String × String) : Decidable (Alike first second) :=
  decidable_of_iff _ key_eq_iff_alike

/-! ## Sets of keys -/

/-- Remember the edges of some pairs of a container and a field, one after the other. -/
def insertPairs (edges : Edges) (pairs : List (String × String)) : Edges :=
  pairs.foldl (fun edges pair => edges.insert (key pair.1 pair.2)) edges

theorem contains_insertPairs_iff {edges : Edges} {pairs : List (String × String)} {other : String} :
    (edges.insertPairs pairs).contains other = true ↔
      edges.contains other = true ∨ ∃ pair ∈ pairs, key pair.1 pair.2 = other := by
  induction pairs generalizing edges with
  | nil => simp [insertPairs]
  | cons pair rest ih =>
    rw [insertPairs, List.foldl_cons, ← insertPairs, ih, contains_insert, Bool.or_eq_true,
      beq_iff_eq, List.exists_mem_cons_iff, or_comm (a := other = _), or_assoc,
      eq_comm (a := other)]

/-- After edges were remembered in an empty set, a pair is found there exactly when it or a pair
that overlaps it was remembered. -/
theorem contains_key_insertPairs_iff {pairs : List (String × String)} {container field : String} :
    (empty.insertPairs pairs).contains (key container field) = true ↔
      (container, field) ∈ pairs ∨ ∃ pair ∈ pairs, Overlap pair (container, field) := by
  have nothing : empty.contains (key container field) = false := rfl
  rw [contains_insertPairs_iff, nothing]
  simp only [Bool.false_eq_true, false_or]
  constructor
  · rintro ⟨pair, member, same⟩
    rcases (key_eq_key_iff pair (container, field)).mp same with rfl | overlap
    · exact .inl member
    · exact .inr ⟨pair, member, overlap⟩
  · rintro (member | ⟨pair, member, overlap⟩)
    · exact ⟨_, member, rfl⟩
    · exact ⟨pair, member, overlap.key_eq⟩

end SchemaUnfolding.Edges
