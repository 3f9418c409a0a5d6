import SchemaUnfolding.Proofs.Edges.Repeated
import SchemaUnfolding.Proofs.Suppression.Subtree

/-!
# Operations without repeated edges

The operation of a root field that repeats no edges is pruned from the one that repeats them, if
there is one. A root field itself is never left out as repeated, since nothing was expanded before.
-/

namespace SchemaUnfolding

open Expansion Selection

variable {schema : Schema} {config : Config}

/-- Before anything is expanded, only the depth limit leaves fields out. -/
theorem Expands.isSome_of_repeating {label : Option String} {site : Site} {field : Field}
    {before start after last : Progress} {whole part : Option Selection}
    (unseen : start.edges = .empty)
    (repeated : Expands schema (config.repeating true) label site field before whole after)
    (once : Expands schema (config.repeating false) label site field start part last)
    (shown : whole.isSome = true) : part.isSome = true := by
  cases once with
  | shown => rfl
  | leftOut found composite omitted =>
    cases repeated with
    | leftOut => cases shown
    | shown sameFound admitted =>
      cases found.symm.trans sameFound
      have allowed : site.countedDepth ≤ config.depthLimit :=
        (omission?_eq_none_iff.mp (admitted composite)).2
      have admittedToo : omission? (config.repeating false) start.edges site field = none :=
        omission?_eq_none_iff.mpr ⟨.inr (by rw [unseen]; rfl), allowed⟩
      cases omitted.symm.trans admittedToo

/-- What a root field selects without repeated edges is pruned from what it selects with them. -/
theorem Expands.exists_prunedFrom {label : Option String} {site : Site} {field : Field}
    {before after : Progress} {whole : Option Selection}
    (expanded : Expands schema (config.repeating true) label site field before whole after) :
    ∃ part last, Expands schema (config.repeating false) label site field {} part last ∧
      Option.Rel Selection.PrunedFrom part whole := by
  obtain ⟨part, last, once, pruned⟩ := expanded.exists_pruned {}
  refine ⟨part, last, once, ?_⟩
  have shown := expanded.isSome_of_repeating rfl once
  cases whole with
  | none =>
    cases part with
    | none => exact .none
    | some selection => cases pruned.eq_nil
  | some selection =>
    cases part with
    | none => cases shown rfl
    | some left => exact .some pruned.prunedFrom

/-- The trails of a document stand in order among those of the document that it is pruned from. -/
theorem Document.PrunedFrom.trails_sublist {part whole : Document}
    (pruned : part.PrunedFrom whole) : part.trails.Sublist whole.trails := by
  obtain ⟨_, _, _, left⟩ := part
  obtain ⟨_, _, _, selection⟩ := whole
  cases pruned.selection with
  | none => exact .refl _
  | some below => exact (AllPrunedFrom.keep below .nil).trails_sublist none

/-- Where an operation that repeats edges is generated for a field, so is one that repeats none, and
its document is pruned from that of the other: every trail that it selects is selected there too, in
the same order. -/
theorem Generation.exists_prunedFrom_of_repeating {kind : OperationKind} {root : FieldedType}
    {field : Field} {before after : Array Event} {whole : Operation}
    (returned : (operation schema (config.repeating true) kind root field).Returns before whole
      after) :
    ∃ part last,
      (operation schema (config.repeating false) kind root field).Returns before part last ∧
      part.document.PrunedFrom whole.document ∧
      part.document.trails.Sublist whole.document.trails := by
  obtain ⟨selection, progress, expanded, rfl, _⟩ := returns_operation_iff.mp returned
  obtain ⟨left, last, once, pruned⟩ := expanded.exists_prunedFrom
  have documents : Document.PrunedFrom (.ofExpansion root field left last)
      (.ofExpansion root field selection progress) := ⟨rfl, rfl, pruned⟩
  exact ⟨_, _, returns_operation_iff.mpr ⟨left, last, once, rfl, rfl⟩, documents,
    documents.trails_sublist⟩

/-- What is generated, with repeated edges or without, for the root field of the schema where an
edge is taken for a repetition of another one. -/
def libraryGenerationWith (repeatEdges : Bool) : Generation Operation :=
  Generation.operation librarySchema (({} : Config).repeating repeatEdges) .query
    (libraryType "Query" 1 [libraryRoot]) libraryRoot

/-- The makers of discs and what is selected for them are deleted there. -/
theorem librarySchema_pruned :
    ∃ (whole part : Operation) (after last : Array Event),
      (libraryGenerationWith true).Returns #[] whole after ∧
      (libraryGenerationWith false).Returns #[] part last ∧
      part.document.PrunedFrom whole.document ∧
      part.document.trails.Sublist whole.document.trails ∧
      part.document.trails.length = 6 ∧ whole.document.trails.length = 8 := by
  have offered : librarySchema.Offers libraryRoot :=
    Schema.offers_of_root? libraryRoot_declared.1 libraryRoot_declared.2
  have never : (libraryGenerationWith true).Faultless :=
    Generation.faultless_operation librarySchema_checked.closed offered
  obtain ⟨whole, after, returned⟩ := never.returns #[]
  obtain ⟨part, last, once, pruned, trails⟩ := Generation.exists_prunedFrom_of_repeating returned
  have count (repeatEdges : Bool) : ((libraryGenerationWith repeatEdges).run.run #[]).1.toOption.map
      (·.document.trails.length) = some (if repeatEdges then 8 else 6) := by
    cases repeatEdges <;> decide
  have fewer := count false
  have all := count true
  have ranOnce : (libraryGenerationWith false).run.run #[] = (.ok part, last) := once
  have ran : (libraryGenerationWith true).run.run #[] = (.ok whole, after) := returned
  rw [ranOnce] at fewer
  rw [ran] at all
  exact ⟨whole, part, after, last, returned, once, pruned, trails, Option.some.inj fewer,
    Option.some.inj all⟩

end SchemaUnfolding
