import SchemaUnfolding.Proofs.Arguments.Exact
import SchemaUnfolding.Proofs.Expansion.Nodes
import SchemaUnfolding.Proofs.Expansion.Recursion
import SchemaUnfolding.Proofs.Layout.Documents

/-!
# Bounds on documents

The depth limit alone ends the expansion of a field, on every schema: it bounds the depth of what
has a selection of its own, and with it the braces of a document. Below fragments two levels are
forgiven once, and two more braces stand around what is selected there.
-/

namespace SchemaUnfolding

open Expansion

namespace Selection

@[simp]
theorem heightOfAll_typenames (type : TypeDef) : heightOfAll type.typenames = 0 := by
  rw [TypeDef.typenames]
  split
  · simp [heightOfAll, height]
  · simp

theorem heightOfAll_fragment?_le (type : String) (selections : List Selection) :
    heightOfAll (fragment? type selections).toList ≤ heightOfAll selections + 1 := by
  rw [fragment?]
  cases selections with
  | nil => simp
  | cons first rest => simp [heightOfAll, height]

theorem height_field_le (label : Option String) (name : String)
    (arguments : List (String × String)) (selections : List Selection) :
    (field label name arguments selections).height ≤ heightOfAll selections + 1 := by
  cases selections with
  | nil => simp [height]
  | cons first rest => simp [height]

end Selection

/-! ## Depths -/

section Depths

variable {schema : Schema} {config : Config}

/-- A field with a selection of its own was admitted. -/
theorem Expands.countedDepth_le {label other : Option String} {site : Site} {field : Field}
    {before after : Progress} {name : String} {arguments : List (String × String)}
    {selections : List Selection}
    (expanded : Expands schema config label site field before
      (some (.field other name arguments selections)) after) (occupied : selections ≠ []) :
    site.countedDepth ≤ config.depthLimit := by
  generalize shown : some (Selection.field other name arguments selections) = result at expanded
  cases expanded with
  | leftOut => cases shown
  | @shown _ _ _ _ _ _ type own fragments _ _ branches found admitted ownExpanded _ known
      expanded =>
    cases composite : type.isComposite with
    | true => exact (omission?_eq_none_iff.mp (admitted composite)).2
    | false =>
      rw [ownFields_of_isComposite_eq_false composite] at ownExpanded
      obtain ⟨rfl, _⟩ := expandsAll_nil_iff.mp ownExpanded
      rw [branches?_of_isComposite_eq_false composite] at known
      cases known
      obtain ⟨rfl, _⟩ := expandsBranches_nil_iff.mp expanded
      have single : type.typenames = [] := by
        cases type <;>
          simp_all [TypeDef.isComposite, TypeDef.isLeaf, TypeDef.typenames, TypeDef.isPolymorphic]
      rw [single] at shown
      cases shown
      exact absurd rfl occupied

theorem Site.depth_le_of_countedDepth_le {site : Site} {limit : Nat}
    (admitted : site.countedDepth ≤ limit) :
    site.depth ≤ limit + if site.inFragment then 2 else 0 := by
  rw [Site.countedDepth] at admitted
  split at admitted <;> rename_i below <;> simp only [below] <;> simp <;> omega

/-- A node with a selection of its own stands no deeper than the limit allows. -/
theorem Node.IsExpanded.depth_le {node : Node} (known : node.IsExpanded schema config)
    (occupied : node.below ≠ []) :
    node.depth ≤ config.depthLimit + if node.inFragment then 2 else 0 := by
  obtain ⟨field, site, before, after, _, depth, inFragment, expanded⟩ := known
  rw [← depth, ← inFragment]
  exact Site.depth_le_of_countedDepth_le (expanded.countedDepth_le occupied)

mutual

/-- The expansion of a field puts no more braces around anything than four more than the limit,
those above the field included. -/
theorem Expands.height_le {label : Option String} {site : Site} {field : Field}
    {before after : Progress} {result : Option Selection}
    (expanded : Expands schema config label site field before result after)
    (shallow : site.depth ≤ config.depthLimit + 4) :
    site.depth + Selection.heightOfAll result.toList ≤ config.depthLimit + 4 := by
  have whole := expanded
  match expanded with
  | .leftOut _ _ _ => simpa using shallow
  | .shown _ _ ownExpanded _ _ expanded =>
    rename_i middle type own fragments arguments scope branches _ _ _ _
    rw [Option.toList_some, Selection.heightOfAll, Selection.heightOfAll_nil, Nat.max_zero]
    by_cases empty : own ++ (type.typenames ++ fragments) = []
    · rw [empty, Selection.height]
      exact shallow
    · have admitted := Site.depth_le_of_countedDepth_le (whole.countedDepth_le empty)
      have small : site.depth ≤ config.depthLimit + 2 := by
        split at admitted <;> omega
      have below := ownExpanded.height_le (by simp only [Site.below]; omega)
      have branched := expanded.height_le (by simp only [Site.inFragmentBelow]; omega)
      have height := Selection.height_field_le label field.name arguments
        (own ++ (type.typenames ++ fragments))
      simp only [Selection.heightOfAll_append, Selection.heightOfAll_typenames] at height
      simp only [Site.below] at below
      simp only [Site.inFragmentBelow] at branched
      omega

/-- The expansion of fields puts no more braces around anything. -/
theorem ExpandsAll.height_le {site : Site} {entries : List (Option String × Field)}
    {before after : Progress} {selections : List Selection}
    (expanded : ExpandsAll schema config site entries before selections after)
    (shallow : site.depth ≤ config.depthLimit + 4) :
    site.depth + Selection.heightOfAll selections ≤ config.depthLimit + 4 := by
  match expanded with
  | .nil => simpa using shallow
  | .cons first others =>
    have head := first.height_le shallow
    have tail := others.height_le shallow
    rw [Selection.heightOfAll_append]
    omega

/-- The expansion of fragments puts one more brace around the fields in them. -/
theorem ExpandsBranches.height_le {site : Site} {branches : List Branch} {before after : Progress}
    {fragments : List Selection}
    (expanded : ExpandsBranches schema config site branches before fragments after)
    (shallow : site.depth ≤ config.depthLimit + 4) :
    site.depth + Selection.heightOfAll fragments ≤ config.depthLimit + 5 := by
  match expanded with
  | .nil =>
    rw [Selection.heightOfAll_nil]
    omega
  | .cons first others =>
    rename_i branch rest middle selections fragments
    have head := first.height_le shallow
    have tail := others.height_le shallow
    have around := Selection.heightOfAll_fragment?_le branch.type selections
    rw [Selection.heightOfAll_append]
    omega

end

end Depths

/-! ## Documents -/

/-- On every checked schema, however its types refer to each other: expansion is a recursion that
ends, and the document of a root field is generated. In it a field with a selection of its own
stands no deeper than the limit, or two levels deeper below a fragment, no more than four braces
more than the limit are open at once, and a document with a selection is indented by its open
braces. -/
theorem Schema.Checked.expansion_bounded {schema : Schema} (checked : schema.Checked)
    (config : Config) :
    (∃ solution, IsRecursion schema config solution ∧
      ∀ site field, expand schema config site field = solution none site field) ∧
    ∀ {kind : OperationKind} {root : FieldedType} {field : Field},
      schema.root? kind = some root → field ∈ root.fields.values → ∀ before : Array Event,
      ∃ operation after,
        (Generation.operation schema config kind root field).Returns before operation after ∧
        (∀ node ∈ operation.document.nodes schema root.name, node.below ≠ [] →
          node.depth ≤ config.depthLimit + if node.inFragment then 2 else 0) ∧
        deepest 0 operation.text.toList ≤ config.depthLimit + 4 ∧
        (operation.document.selection.isSome = true → IsIndented operation.text.toList) := by
  have wellFormed := checked.built.wellFormed
  constructor
  · exact ⟨_, isRecursion schema config, fun _ _ => rfl⟩
  intro kind root field rooted declared before
  have offered := Schema.offers_of_root? rooted declared
  have never : (Generation.operation schema config kind root field).Faultless :=
    Generation.faultless_operation checked.closed offered
  obtain ⟨operation, after, returned⟩ := never.returns before
  have nodes := wellFormed.nodes_expanded rooted declared returned
  obtain ⟨selection, progress, expanded, rfl, _⟩ := Generation.returns_operation_iff.mp returned
  have named := expanded.document_named wellFormed rooted declared
  refine ⟨_, after, returned, fun node member => (nodes node member).depth_le, ?_,
    named.isIndented⟩
  have height := expanded.height_le (by simp only [Site.root]; omega)
  have counts := named.counts.2
  simp only [Site.root] at height
  exact Nat.le_trans counts height

/-- A limit of one nests the document of the small schema's root field four braces deep, one less
than the limit allows. -/
theorem sampleSchema_expansion_bounded :
    ∃ operation after,
      (Generation.operation sampleSchema { depthLimit := 1 } .query sampleQuery
        (sampleField "Query" 14 16)).Returns #[] operation after ∧
      deepest 0 operation.text.toList = 4 ∧ IsIndented operation.text.toList ∧
      deepest 0 operation.text.toList ≤ 5 := by
  have rooted : sampleSchema.root? .query = some sampleQuery := by decide
  have declared : sampleField "Query" 14 16 ∈ sampleQuery.fields.values := by decide
  let generation :=
    Generation.operation sampleSchema { depthLimit := 1 } .query sampleQuery
      (sampleField "Query" 14 16)
  obtain ⟨operation, after, returned, _, deep, indented⟩ :=
    (sampleSchema_checked.expansion_bounded { depthLimit := 1 }).2 rooted declared #[]
  have ran : generation.run.run #[] = (.ok operation, after) := returned
  have shape : (generation.run.run #[]).1.toOption.map (fun operation =>
      (deepest 0 operation.text.toList, operation.document.selection.isSome)) =
      some (4, true) := by
    decide +kernel
  rw [ran] at shape
  obtain ⟨nested, shown⟩ := Prod.mk.inj (Option.some.inj shape)
  exact ⟨operation, after, returned, nested, indented shown, deep⟩

end SchemaUnfolding
