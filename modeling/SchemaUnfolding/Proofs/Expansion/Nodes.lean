import SchemaUnfolding.Proofs.Expansion.Growth
import SchemaUnfolding.Proofs.Generation.Operations
import SchemaUnfolding.Proofs.Unfolding.Fields

/-!
# Fields in documents

A node is a field that a selection shows, with the type it belongs to, its depth, and all that the
selection says about it. Every node of what an expansion returns is itself what an expansion of the
node's field returned, so what holds of each expansion by itself holds all over a document. What the
inner expansion left behind is still there when the outer one ends.
-/

namespace SchemaUnfolding

open Expansion

/-- A field that a selection shows: the name of the type that it belongs to, its depth, whether
there is a fragment above it, and what the selection says about it. -/
structure Node where
  holder : String
  depth : Nat
  inFragment : Bool
  label : Option String
  name : String
  arguments : List (String × String)
  below : List Selection

namespace Selection

mutual

/-- The fields that a selection of a type shows, each before those below it. -/
def nodes (schema : Schema) (holder : String) (depth : Nat) (inFragment : Bool) :
    Selection → List Node
  | typename => []
  | field label name arguments selections =>
    ⟨holder, depth, inFragment, label, name, arguments, selections⟩ ::
      nodesOfAll schema ((schema.fieldOf? holder name).elim "" (·.type.name)) (depth + 1) inFragment
        selections
  | fragment type selections => nodesOfAll schema type (depth + 1) true selections

/-- The fields that several selections of a type show, one after the other. -/
def nodesOfAll (schema : Schema) (holder : String) (depth : Nat) (inFragment : Bool) :
    List Selection → List Node
  | [] => []
  | selection :: rest =>
    selection.nodes schema holder depth inFragment ++
      nodesOfAll schema holder depth inFragment rest

end

variable {schema : Schema} {holder : String} {depth : Nat} {inFragment : Bool}

@[simp]
theorem nodesOfAll_nil : nodesOfAll schema holder depth inFragment [] = [] := by
  rw [nodesOfAll]

@[simp]
theorem nodesOfAll_append (first second : List Selection) :
    nodesOfAll schema holder depth inFragment (first ++ second) =
      nodesOfAll schema holder depth inFragment first ++
        nodesOfAll schema holder depth inFragment second := by
  induction first with
  | nil => simp
  | cons selection rest ih => simp [nodesOfAll, ih]

@[simp]
theorem nodesOfAll_typenames (type : TypeDef) :
    nodesOfAll schema holder depth inFragment type.typenames = [] := by
  rw [TypeDef.typenames]
  split
  · simp [nodesOfAll, nodes]
  · simp

@[simp]
theorem nodesOfAll_fragment? (type : String) (selections : List Selection) :
    nodesOfAll schema holder depth inFragment (fragment? type selections).toList =
      nodesOfAll schema type (depth + 1) true selections := by
  rw [fragment?]
  cases selections with
  | nil => simp
  | cons first rest => simp [nodesOfAll, nodes]

end Selection

/-- The fields that a document for a field of a root type shows. -/
def Document.nodes (document : Document) (schema : Schema) (root : String) : List Node :=
  Selection.nodesOfAll schema root 1 false document.selection.toList

/-- A node is what an expansion of its field at a site of its depth returned. -/
def Node.IsExpanded (schema : Schema) (config : Config) (node : Node) : Prop :=
  ∃ field site before after, schema.fieldOf? node.holder node.name = some field ∧
    site.depth = node.depth ∧ site.inFragment = node.inFragment ∧
    Expands schema config node.label site field before
      (some (.field node.label node.name node.arguments node.below)) after

/-- The same, and a later progress has all that the expansion of the node left behind. -/
def Node.IsExpandedBy (schema : Schema) (config : Config) (last : Progress) (node : Node) : Prop :=
  ∃ field site before after, schema.fieldOf? node.holder node.name = some field ∧
    site.depth = node.depth ∧ site.inFragment = node.inFragment ∧
    Expands schema config node.label site field before
      (some (.field node.label node.name node.arguments node.below)) after ∧
    after.Grows config last

section Nodes

variable {schema : Schema} {config : Config}

theorem Node.IsExpandedBy.mono {node : Node} {last later : Progress}
    (known : node.IsExpandedBy schema config last) (grows : last.Grows config later) :
    node.IsExpandedBy schema config later := by
  obtain ⟨field, site, before, after, found, depth, inFragment, expanded, kept⟩ := known
  exact ⟨field, site, before, after, found, depth, inFragment, expanded, kept.trans grows⟩

theorem Node.IsExpandedBy.isExpanded {node : Node} {last : Progress}
    (known : node.IsExpandedBy schema config last) : node.IsExpanded schema config := by
  obtain ⟨field, site, before, after, found, depth, inFragment, expanded, _⟩ := known
  exact ⟨field, site, before, after, found, depth, inFragment, expanded⟩

mutual

/-- The nodes of what the expansion of a field returns are expanded. -/
theorem Expands.nodes {label : Option String} {site : Site} {field : Field}
    {before after : Progress} {result : Option Selection}
    (expanded : Expands schema config label site field before result after)
    (wellFormed : schema.WellFormed) {holder : String}
    (findable : schema.fieldOf? holder field.name = some field) :
    ∀ node ∈ Selection.nodesOfAll schema holder site.depth site.inFragment result.toList,
      node.IsExpandedBy schema config after := by
  have whole := expanded
  match expanded with
  | .leftOut _ _ _ => simp
  | .shown found _ ownExpanded _ known expanded =>
    have own := ownExpanded.nodes wellFormed (wellFormed.fieldOf?_of_mem_ownFields found)
    have above : (site.inFragmentBelow field.name).depth = site.depth + 1 + 1 := rfl
    have fragments := expanded.nodes wellFormed rfl (wellFormed.fieldOf?_of_branches? known) above
      field.type.name site.inFragment
    intro node member
    simp only [Option.toList_some, Selection.nodesOfAll, Selection.nodes, findable, Option.elim,
      Selection.nodesOfAll_append, Selection.nodesOfAll_typenames, List.nil_append, List.append_nil,
      List.mem_cons, List.mem_append] at member
    rcases member with rfl | inside | branched
    · exact ⟨field, site, before, after, findable, rfl, rfl, whole, .refl config after⟩
    · exact (own node inside).mono ((Progress.grows_binding ..).trans expanded.grows)
    · exact fragments node branched

/-- The nodes of what the expansion of fields returns are expanded. -/
theorem ExpandsAll.nodes {site : Site} {entries : List (Option String × Field)}
    {before after : Progress} {selections : List Selection}
    (expanded : ExpandsAll schema config site entries before selections after)
    (wellFormed : schema.WellFormed) {holder : String}
    (findable : ∀ entry ∈ entries, schema.fieldOf? holder entry.2.name = some entry.2) :
    ∀ node ∈ Selection.nodesOfAll schema holder site.depth site.inFragment selections,
      node.IsExpandedBy schema config after := by
  match expanded with
  | .nil => simp
  | .cons first others =>
    have head := first.nodes wellFormed (findable _ (List.mem_cons_self ..))
    have tail := others.nodes wellFormed
      fun entry member => findable entry (List.mem_cons_of_mem _ member)
    intro node member
    rw [Selection.nodesOfAll_append] at member
    rcases List.mem_append.mp member with early | late
    · exact (head node early).mono others.grows
    · exact tail node late

/-- The nodes of what the expansion of fragments returns are expanded. A fragment stands one level
above its fields. -/
theorem ExpandsBranches.nodes {site : Site} {branches : List Branch} {before after : Progress}
    {fragments : List Selection}
    (expanded : ExpandsBranches schema config site branches before fragments after)
    (wellFormed : schema.WellFormed) (below : site.inFragment = true)
    (findable : ∀ branch ∈ branches, ∀ entry ∈ branch.fields,
      schema.fieldOf? branch.type entry.2.name = some entry.2)
    {depth : Nat} (above : site.depth = depth + 1) (holder : String) (inFragment : Bool) :
    ∀ node ∈ Selection.nodesOfAll schema holder depth inFragment fragments,
      node.IsExpandedBy schema config after := by
  match expanded with
  | .nil => simp
  | .cons first others =>
    have head := first.nodes wellFormed (findable _ (List.mem_cons_self ..))
    have tail := others.nodes wellFormed below
      (fun branch member => findable branch (List.mem_cons_of_mem _ member)) above holder
      inFragment
    rw [below, above] at head
    intro node member
    rw [Selection.nodesOfAll_append, Selection.nodesOfAll_fragment?] at member
    rcases List.mem_append.mp member with early | late
    · exact (head node early).mono others.grows
    · exact tail node late

end

end Nodes

/-- The nodes of a generated document are expanded. -/
theorem Schema.WellFormed.nodes_expanded {schema : Schema} (wellFormed : schema.WellFormed)
    {config : Config} {kind : OperationKind} {root : FieldedType} {field : Field}
    (rooted : schema.root? kind = some root) (declared : field ∈ root.fields.values)
    {before after : Array Event} {operation : Operation}
    (returned : (Generation.operation schema config kind root field).Returns before operation
      after) :
    ∀ node ∈ operation.document.nodes schema root.name, node.IsExpanded schema config := by
  obtain ⟨selection, progress, expanded, rfl, _⟩ := Generation.returns_operation_iff.mp returned
  have found := wellFormed.type?_of_root? rooted
  have nodes := expanded.nodes wellFormed (wellFormed.fieldOf?_of_mem found rfl declared)
  exact fun node member => (nodes node member).isExpanded

/-- A generated document has the first node that evaluation finds, if that is one of the root
field. -/
theorem Schema.WellFormed.exists_node_of_eval {schema : Schema} (wellFormed : schema.WellFormed)
    {config : Config} {kind : OperationKind} {root : FieldedType} {field : Field}
    (rooted : schema.root? kind = some root) (declared : field ∈ root.fields.values)
    {before after : Array Event} {operation : Operation}
    (returned : (Generation.operation schema config kind root field).Returns before operation
      after) {α : Type} {look : Node → α} {value : α}
    (evaluated : ((Generation.operation schema config kind root field).run.run
      before).1.toOption.bind (fun operation =>
        (operation.document.nodes schema root.name).head?.map fun node =>
          (node.holder, node.name, look node)) = some (root.name, field.name, value)) :
    ∃ node ∈ operation.document.nodes schema root.name,
      schema.fieldOf? node.holder node.name = some field ∧ look node = value := by
  have ran : (Generation.operation schema config kind root field).run.run before =
      (.ok operation, after) := returned
  rw [ran] at evaluated
  obtain ⟨node, first, same⟩ := Option.map_eq_some_iff.mp evaluated
  simp only [Prod.mk.injEq] at same
  obtain ⟨holder, name, looked⟩ := same
  have found := wellFormed.type?_of_root? rooted
  refine ⟨node, List.mem_of_mem_head? first, ?_, looked⟩
  rw [holder, name]
  exact wellFormed.fieldOf?_of_mem found rfl declared

end SchemaUnfolding
