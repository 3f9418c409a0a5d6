import SchemaUnfolding.Proofs.Arguments.Binding
import SchemaUnfolding.Proofs.Edges.Repeated
import SchemaUnfolding.Proofs.Suppression.Pruned

/-!
# Leaving out repeated edges only prunes

An operation that repeats no edges is pruned from the one that repeats them. Which edges are
repeated depends on all that was expanded before, and so do the names of variables, but a field that
is admitted when edges may not be repeated is admitted when they may: whatever the progress so far,
one expansion follows the other and deletes from it.
-/

namespace SchemaUnfolding

open Expansion Selection

/-- The same choices but for whether edges may be repeated. -/
def Config.repeating (config : Config) (repeatEdges : Bool) : Config := { config with repeatEdges }

/-- What is selected below a type before its fragments is pruned from itself. -/
theorem TypeDef.allPrunedFrom_typenames (type : TypeDef) :
    AllPrunedFrom type.typenames type.typenames := by
  rw [typenames]
  split
  · exact .keep .typename .nil
  · exact .nil

/-- The arguments of a field are for its parameters in order. -/
theorem Variables.map_fst_of_bindAll {scope next : Variables} {parameters : List Parameter}
    {arguments : List (String × String)} (bound : scope.bindAll parameters = (arguments, next)) :
    arguments.map Prod.fst = parameters.map Parameter.name := by
  obtain ⟨added, _, rfl, rfl⟩ := grows_of_bindAll bound
  rw [List.map_map, List.map_map]
  rfl

variable {schema : Schema} {config : Config}

/-- Whether edges may be repeated does not matter for the fragments below a field. -/
theorem Expansion.branches?_repeating (repeatEdges : Bool) (type : TypeDef) :
    branches? schema (config.repeating repeatEdges) type = branches? schema config type := by
  have members : ∀ names, memberBranches? schema (config.repeating repeatEdges) names =
      memberBranches? schema config names := by
    intro names
    induction names with
    | nil => rfl
    | cons member rest ih =>
      rw [memberBranches?, ih]
      rfl
  cases type with
  | union union => exact members _
  | _ => rfl

/-- A field that is left out although edges may be repeated stands too deep, so it is left out when
they may not. -/
theorem Expansion.exists_omission?_of_repeating {edges : Edges} {site : Site} {field : Field}
    {event : Event} (omitted : omission? (config.repeating true) edges site field = some event)
    (others : Edges) :
    ∃ other, omission? (config.repeating false) others site field = some other := by
  apply Option.ne_none_iff_exists'.mp
  intro admitted
  have allowed : site.countedDepth ≤ config.depthLimit := (omission?_eq_none_iff.mp admitted).2
  have shown : omission? (config.repeating true) edges site field = none :=
    omission?_eq_none_iff.mpr ⟨.inl rfl, allowed⟩
  rw [omitted] at shown
  cases shown

/-- A shown field is left out, or shown with what is left below it. -/
theorem Expands.exists_pruned_of_shown {label : Option String} {site : Site} {field : Field}
    {type : TypeDef} {own fragments : List Selection} {arguments : List (String × String)}
    {scope next : Variables} {branches : List Branch}
    (found : schema.type? field.type.name = some type)
    (ownPruned : ∀ start, ∃ part last,
      ExpandsAll schema (config.repeating false) (site.below field.name)
        ((ownFields config type).map fun inner => (none, inner)) start part last ∧
      AllPrunedFrom part own)
    (passed : scope.bindAll field.parameters.values = (arguments, next))
    (branched : branches? schema config type = some branches)
    (fragmentsPruned : ∀ start, ∃ part last,
      ExpandsBranches schema (config.repeating false) (site.inFragmentBelow field.name) branches
        start part last ∧
      AllPrunedFrom part fragments)
    (start : Progress) :
    ∃ part last, Expands schema (config.repeating false) label site field start part last ∧
      AllPrunedFrom part.toList
        [.field label field.name arguments (own ++ (type.typenames ++ fragments))] := by
  by_cases admitted : type.isComposite = true →
      omission? (config.repeating false) start.edges site field = none
  · obtain ⟨ownPart, middle, ownExpanded, ownLeft⟩ := ownPruned (start.admitting site field type)
    rcases bound : middle.scope.bindAll field.parameters.values with ⟨others, last⟩
    obtain ⟨fragmentsPart, after, fragmentsExpanded, fragmentsLeft⟩ :=
      fragmentsPruned (middle.binding last)
    have parameters : others.map Prod.fst = arguments.map Prod.fst := by
      rw [Variables.map_fst_of_bindAll bound, Variables.map_fst_of_bindAll passed]
    have below := ownLeft.append (type.allPrunedFrom_typenames.append fragmentsLeft)
    rw [← branches?_repeating false] at branched
    exact ⟨_, _, .shown found admitted ownExpanded bound branched fragmentsExpanded,
      .keep (.field parameters below) .nil⟩
  · obtain ⟨composite, refused⟩ := Classical.not_imp.mp admitted
    obtain ⟨event, omitted⟩ := Option.ne_none_iff_exists'.mp refused
    exact ⟨_, _, .leftOut found composite omitted, .of_nil _⟩

mutual

/-- What the expansion of a field without repeated edges returns is pruned from what it returns with
them, whatever was expanded before in each case. -/
theorem Expands.exists_pruned {label : Option String} {site : Site} {field : Field}
    {before after : Progress} {whole : Option Selection}
    (expanded : Expands schema (config.repeating true) label site field before whole after)
    (start : Progress) :
    ∃ part last, Expands schema (config.repeating false) label site field start part last ∧
      AllPrunedFrom part.toList whole.toList := by
  match expanded with
  | .leftOut found composite omitted =>
    obtain ⟨event, leftOut⟩ := exists_omission?_of_repeating omitted start.edges
    exact ⟨_, _, .leftOut found composite leftOut, .nil⟩
  | .shown found _ own passed branched fragments =>
    rw [branches?_repeating] at branched
    exact Expands.exists_pruned_of_shown found own.exists_pruned passed branched
      fragments.exists_pruned start

/-- The same for fields that are expanded one after the other. -/
theorem ExpandsAll.exists_pruned {site : Site} {entries : List (Option String × Field)}
    {before after : Progress} {whole : List Selection}
    (expanded : ExpandsAll schema (config.repeating true) site entries before whole after)
    (start : Progress) :
    ∃ part last, ExpandsAll schema (config.repeating false) site entries start part last ∧
      AllPrunedFrom part whole := by
  match expanded with
  | .nil => exact ⟨_, _, .nil, .nil⟩
  | .cons first others =>
    obtain ⟨head, middle, headPart, headPruned⟩ := first.exists_pruned start
    obtain ⟨rest, last, restPart, restPruned⟩ := others.exists_pruned middle
    exact ⟨_, _, .cons headPart restPart, headPruned.append restPruned⟩

/-- The same for fragments; one in which nothing is left is deleted. -/
theorem ExpandsBranches.exists_pruned {site : Site} {branches : List Branch}
    {before after : Progress} {whole : List Selection}
    (expanded : ExpandsBranches schema (config.repeating true) site branches before whole after)
    (start : Progress) :
    ∃ part last, ExpandsBranches schema (config.repeating false) site branches start part last ∧
      AllPrunedFrom part whole := by
  match expanded with
  | .nil => exact ⟨_, _, .nil, .nil⟩
  | .cons first others =>
    obtain ⟨inside, middle, insidePart, insidePruned⟩ := first.exists_pruned start
    obtain ⟨rest, last, restPart, restPruned⟩ := others.exists_pruned middle
    exact ⟨_, _, .cons insidePart restPart, (insidePruned.fragment? _).append restPruned⟩

end

end SchemaUnfolding
