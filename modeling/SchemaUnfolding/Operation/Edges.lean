/-!
# Edges between fields

While a document grows, the edges from a field to the fields below it that have been expanded are
remembered. An edge is known by a key made of the names of the two fields; for a root field the name
of the root type takes the place of the upper one.
-/

namespace SchemaUnfolding

/-- The keys of the edges that have been expanded, the newest first. -/
structure Edges where
  keys : List String := []

namespace Edges

/-- No edges. -/
def empty : Edges := {}

/-- The key of the edge from a container to a field. -/
def key (container field : String) : String := container ++ "To" ++ field ++ "Key"

/-- Whether an edge has been expanded. -/
def contains (edges : Edges) (key : String) : Bool := edges.keys.contains key

/-- Remember an edge. -/
def insert (edges : Edges) (key : String) : Edges :=
  if edges.contains key then edges else ⟨key :: edges.keys⟩

/-- The number of edges. -/
def size (edges : Edges) : Nat := edges.keys.length

/-- After an edge is remembered, it is among those expanded, and no other edge was added. -/
@[simp]
theorem contains_insert (edges : Edges) (key other : String) :
    (edges.insert key).contains other = (other == key || edges.contains other) := by
  unfold insert
  split
  · rename_i known
    by_cases same : other = key
    · subst same; simp [known]
    · simp [same]
  · rw [Bool.eq_iff_iff]
    simp [contains]

end Edges

end SchemaUnfolding
