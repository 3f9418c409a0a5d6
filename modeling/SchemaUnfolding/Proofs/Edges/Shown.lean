import SchemaUnfolding.Operation.Document
import SchemaUnfolding.Proofs.Unfolding.Fields

/-!
# Edges that a document shows

A field with fields of its own is an edge from its container, which is the field above it or the
root type. The edges in a selection are read off with the help of the schema, because a selection
names its fields only.
-/

namespace SchemaUnfolding

open Expansion

/-- A field with fields of its own that a selection shows: the name of its container, the name of
the type that it belongs to, its own name, and whether it stands below a fragment. -/
structure Edge where
  container : String
  type : String
  field : String
  inFragment : Bool
deriving DecidableEq, Repr

namespace Edge

/-- The key by which an edge is remembered. -/
def key (edge : Edge) : String := Edges.key edge.container edge.field

/-- The keys of the edges outside fragments. -/
def keysOutside (edges : List Edge) : List String := (edges.filter (!·.inFragment)).map key

@[simp]
theorem keysOutside_nil : keysOutside [] = [] :=
  rfl

@[simp]
theorem keysOutside_append (first second : List Edge) :
    keysOutside (first ++ second) = keysOutside first ++ keysOutside second := by
  simp [keysOutside]

end Edge

/-- The edge that a field is when it is shown, if it has fields of its own. -/
def Schema.edgeOf (schema : Schema) (container type : String) (inFragment : Bool) (field : Field) :
    List Edge :=
  if (schema.type? field.type.name).any TypeDef.isComposite then
    [⟨container, type, field.name, inFragment⟩]
  else []

namespace Selection

mutual

/-- The edges in a selection of a type, in order: each before those below it. -/
def edges (schema : Schema) (type container : String) (inFragment : Bool) : Selection → List Edge
  | typename => []
  | field _ name _ selections =>
    match schema.fieldOf? type name with
    | none => []
    | some shown =>
      schema.edgeOf container type inFragment shown ++
        edgesOfAll schema shown.type.name name inFragment selections
  | fragment other selections => edgesOfAll schema other container true selections

/-- The edges in several selections, one after the other. -/
def edgesOfAll (schema : Schema) (type container : String) (inFragment : Bool) :
    List Selection → List Edge
  | [] => []
  | selection :: rest =>
    selection.edges schema type container inFragment ++
      edgesOfAll schema type container inFragment rest

end

variable {schema : Schema} {type container : String} {inFragment : Bool}

@[simp]
theorem edgesOfAll_nil : edgesOfAll schema type container inFragment [] = [] := by
  rw [edgesOfAll]

@[simp]
theorem edgesOfAll_append (first second : List Selection) :
    edgesOfAll schema type container inFragment (first ++ second) =
      edgesOfAll schema type container inFragment first ++
        edgesOfAll schema type container inFragment second := by
  induction first with
  | nil => simp
  | cons selection rest ih => simp [edgesOfAll, ih]

@[simp]
theorem edgesOfAll_typenames (holder : TypeDef) :
    edgesOfAll schema type container inFragment holder.typenames = [] := by
  rw [TypeDef.typenames]
  split
  · simp [edgesOfAll, edges]
  · simp

@[simp]
theorem edgesOfAll_fragment? (other : String) (selections : List Selection) :
    edgesOfAll schema type container inFragment (fragment? other selections).toList =
      edgesOfAll schema other container true selections := by
  rw [fragment?]
  cases selections with
  | nil => simp
  | cons first rest => simp [edgesOfAll, edges]

/-- The edges in a field that is shown. -/
theorem edgesOfAll_field {label : Option String} {name : String}
    {arguments : List (String × String)} {selections : List Selection} {shown : Field}
    (found : schema.fieldOf? type name = some shown) :
    edgesOfAll schema type container inFragment [field label name arguments selections] =
      schema.edgeOf container type inFragment shown ++
        edgesOfAll schema shown.type.name name inFragment selections := by
  simp [edgesOfAll, edges, found]

end Selection

/-- The edges in a document for a field of a root type. -/
def Document.edges (document : Document) (schema : Schema) (root : String) : List Edge :=
  Selection.edgesOfAll schema root root false document.selection.toList

end SchemaUnfolding
