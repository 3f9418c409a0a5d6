import SchemaUnfolding.Proofs.Edges.Shown

/-!
# Accounting for edges

An expansion remembers the keys of the edges that it shows outside fragments, and no others. When
edges may not be repeated, it shows no two with one key and none that was remembered before. Each
report of a repeated edge names a key that is remembered.
-/

namespace SchemaUnfolding

open Expansion

/-- A report of a repeated edge names a key among some edges. -/
def Event.RepeatsOnly (edges : Edges) (event : Event) : Prop :=
  ∀ {type name : String} {depth : Nat} {key : String},
    event = .edgeRepeated type name depth key → edges.contains key = true

namespace Progress

/-- From one progress to another some edges were shown: their keys outside fragments were
remembered, and reports of repeated edges speak of remembered keys. -/
structure Adds (config : Config) (before after : Progress) (shown : List Edge) : Prop where
  remembered : ∀ key, after.edges.contains key = true ↔
    before.edges.contains key = true ∨ key ∈ Edge.keysOutside shown
  distinct : config.repeatEdges = false → (Edge.keysOutside shown).Nodup
  fresh : config.repeatEdges = false →
    ∀ key ∈ Edge.keysOutside shown, before.edges.contains key = false
  reported : ∀ event ∈ after.events, event ∈ before.events ∨ event.RepeatsOnly after.edges

variable {config : Config} {before middle after : Progress} {first second : List Edge}

theorem Adds.refl (config : Config) (progress : Progress) : progress.Adds config progress [] where
  remembered := by simp
  distinct := by simp
  fresh := by simp
  reported := fun _ member => .inl member

theorem Adds.trans (adds : before.Adds config middle first)
    (next : middle.Adds config after second) : before.Adds config after (first ++ second) where
  remembered := by
    intro key
    rw [next.remembered, adds.remembered, Edge.keysOutside_append, List.mem_append, or_assoc]
  distinct := by
    intro once
    rw [Edge.keysOutside_append, List.nodup_append']
    refine ⟨adds.distinct once, next.distinct once, ?_⟩
    intro key early late
    -- The first edges left the key remembered, but it is new to the later ones.
    have known := (adds.remembered key).mpr (.inr early)
    rw [next.fresh once key late] at known
    cases known
  fresh := by
    intro once key member
    rw [Edge.keysOutside_append, List.mem_append] at member
    rcases member with early | late
    · exact adds.fresh once key early
    · have unknown := next.fresh once key late
      rw [Bool.eq_false_iff] at unknown ⊢
      intro known
      exact unknown ((adds.remembered key).mpr (.inl known))
  reported := by
    intro event member
    rcases next.reported event member with old | repeats
    · rcases adds.reported event old with older | repeats
      · exact .inl older
      · right
        intro _ _ _ _ same
        exact (next.remembered _).mpr (.inl (repeats same))
    · exact .inr repeats

end Progress

section Steps

variable {schema : Schema} {config : Config} {site : Site} {field : Field} {progress : Progress}

/-- Leaving a field out shows nothing, and what is reported is so. -/
theorem Progress.adds_noting {event : Event}
    (omitted : omission? config progress.edges site field = some event) :
    progress.Adds config (progress.noting event) [] where
  remembered := by simp
  distinct := by simp
  fresh := by simp
  reported := by
    intro other member
    rcases Array.mem_push.mp member with old | rfl
    · exact .inl old
    · right
      intro _ _ _ _ same
      subst same
      exact (edgeRepeated_of_omission? omitted).2.2.2.2

theorem Progress.adds_binding (config : Config) (progress : Progress) (scope : Variables) :
    progress.Adds config (progress.binding scope) [] where
  remembered := by simp
  distinct := by simp
  fresh := by simp
  reported := fun _ member => .inl member

/-- Admitting a field outside fragments remembers its edge, which is new or may be repeated. -/
theorem Progress.adds_admitting {type : TypeDef} (holder : String)
    (found : schema.type? field.type.name = some type)
    (admitted : type.isComposite = true → omission? config progress.edges site field = none) :
    progress.Adds config (progress.admitting site field type)
      (schema.edgeOf site.container holder site.inFragment field) := by
  by_cases composite : type.isComposite = true
  · have shown : schema.edgeOf site.container holder site.inFragment field =
        [⟨site.container, holder, field.name, site.inFragment⟩] := by
      simp [Schema.edgeOf, found, composite]
    rw [shown, Progress.admitting_of_isComposite _ _ _ composite]
    obtain ⟨unseen, _⟩ := omission?_eq_none_iff.mp (admitted composite)
    by_cases below : site.inFragment = true
    · rw [below, if_pos rfl]
      constructor
      · simp [Edge.keysOutside]
      · simp [Edge.keysOutside]
      · simp [Edge.keysOutside]
      · exact fun _ member => .inl member
    · rw [Bool.not_eq_true] at below
      rw [below, if_neg (by simp)]
      constructor
      · intro key
        simp [Edge.keysOutside, Edge.key, or_comm]
      · simp [Edge.keysOutside]
      · intro once key member
        rw [once] at unseen
        have same : key = Edges.key site.container field.name := by
          simpa [Edge.keysOutside, Edge.key] using member
        rw [same]
        simpa using unseen
      · exact fun _ member => .inl member
  · rw [Bool.not_eq_true] at composite
    have shown : schema.edgeOf site.container holder site.inFragment field = [] := by
      simp [Schema.edgeOf, found, composite]
    rw [shown, Progress.admitting_of_isComposite_eq_false _ _ _ composite]
    exact .refl config progress

end Steps

variable {schema : Schema} {config : Config}

mutual

/-- The expansion of a field shows the edges that it adds. -/
theorem Expands.adds {label : Option String} {site : Site} {field : Field}
    {before after : Progress} {result : Option Selection}
    (expanded : Expands schema config label site field before result after)
    (wellFormed : schema.WellFormed) {type : String}
    (findable : schema.fieldOf? type field.name = some field) :
    before.Adds config after
      (Selection.edgesOfAll schema type site.container site.inFragment result.toList) := by
  match expanded with
  | .leftOut _ _ omitted => simpa using Progress.adds_noting omitted
  | .shown found admitted ownExpanded _ known expanded =>
    have own := ownExpanded.adds wellFormed (wellFormed.fieldOf?_of_mem_ownFields found)
    have fragments := expanded.adds wellFormed rfl (wellFormed.fieldOf?_of_branches? known)
      field.type.name site.inFragment
    have here := Progress.adds_admitting type found admitted
    have whole := ((here.trans own).trans (Progress.adds_binding ..)).trans fragments
    rw [Option.toList_some, Selection.edgesOfAll_field findable]
    simpa [Site.below, Site.inFragmentBelow] using whole

/-- The expansion of fields shows the edges that it adds. -/
theorem ExpandsAll.adds {site : Site} {entries : List (Option String × Field)}
    {before after : Progress} {selections : List Selection}
    (expanded : ExpandsAll schema config site entries before selections after)
    (wellFormed : schema.WellFormed) {type : String}
    (findable : ∀ entry ∈ entries, schema.fieldOf? type entry.2.name = some entry.2) :
    before.Adds config after
      (Selection.edgesOfAll schema type site.container site.inFragment selections) := by
  match expanded with
  | .nil => simpa using Progress.Adds.refl config before
  | .cons first others =>
    rw [Selection.edgesOfAll_append]
    exact (first.adds wellFormed (findable _ (List.mem_cons_self ..))).trans
      (others.adds wellFormed fun entry member => findable entry (List.mem_cons_of_mem _ member))

/-- The expansion of fragments shows the edges that it adds. -/
theorem ExpandsBranches.adds {site : Site} {branches : List Branch} {before after : Progress}
    {fragments : List Selection}
    (expanded : ExpandsBranches schema config site branches before fragments after)
    (wellFormed : schema.WellFormed) (below : site.inFragment = true)
    (findable : ∀ branch ∈ branches, ∀ entry ∈ branch.fields,
      schema.fieldOf? branch.type entry.2.name = some entry.2)
    (type : String) (inFragment : Bool) :
    before.Adds config after
      (Selection.edgesOfAll schema type site.container inFragment fragments) := by
  match expanded with
  | .nil => simpa using Progress.Adds.refl config before
  | .cons first others =>
    rw [Selection.edgesOfAll_append, Selection.edgesOfAll_fragment?]
    have head := first.adds wellFormed (findable _ (List.mem_cons_self ..))
    have tail := others.adds wellFormed below
      (fun branch member => findable branch (List.mem_cons_of_mem _ member)) type inFragment
    rw [below] at head
    exact head.trans tail

end

end SchemaUnfolding
