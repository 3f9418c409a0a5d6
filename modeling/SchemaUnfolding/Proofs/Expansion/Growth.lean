import SchemaUnfolding.Proofs.Expansion.Derivation

/-!
# Growth of progress

An expansion forgets nothing: the events that were reported and the edges that were remembered
before are still there afterwards. Each event that it adds tells why a field was left out, and the
edges that were remembered when it was are among those that are remembered in the end. Inside
fragments no edge is remembered at all.
-/

namespace SchemaUnfolding

open Expansion

/-- An event tells why a field was left out at a site when only edges among some were remembered. -/
def Event.IsOmission (config : Config) (last : Edges) (event : Event) : Prop :=
  ∃ edges site field, omission? config edges site field = some event ∧
    ∀ key, edges.contains key = true → last.contains key = true

namespace Progress

/-- From one progress to another no event and no edge was lost, and only omissions were reported. -/
structure Grows (config : Config) (before after : Progress) : Prop where
  events : ∀ event ∈ before.events, event ∈ after.events
  edges : ∀ key, before.edges.contains key = true → after.edges.contains key = true
  omissions : ∀ event ∈ after.events, event ∈ before.events ∨ event.IsOmission config after.edges

variable {config : Config} {before middle after : Progress}

theorem Grows.refl (config : Config) (progress : Progress) : progress.Grows config progress where
  events _ member := member
  edges _ known := known
  omissions _ member := .inl member

theorem Grows.trans (first : before.Grows config middle) (second : middle.Grows config after) :
    before.Grows config after where
  events event member := second.events event (first.events event member)
  edges key known := second.edges key (first.edges key known)
  omissions := by
    intro event member
    rcases second.omissions event member with early | late
    · rcases first.omissions event early with old | ⟨edges, site, field, omitted, among⟩
      · exact .inl old
      · exact .inr ⟨edges, site, field, omitted, fun key known =>
          second.edges key (among key known)⟩
    · exact .inr late

theorem grows_noting {progress : Progress} {site : Site} {field : Field} {event : Event}
    (omitted : omission? config progress.edges site field = some event) :
    progress.Grows config (progress.noting event) where
  events _ member := Array.mem_push_of_mem _ member
  edges _ known := known
  omissions := by
    intro other member
    rcases Array.mem_push.mp member with old | rfl
    · exact .inl old
    · exact .inr ⟨progress.edges, site, field, omitted, fun _ known => known⟩

theorem grows_admitting (config : Config) (progress : Progress) (site : Site) (field : Field)
    (type : TypeDef) : progress.Grows config (progress.admitting site field type) where
  events := by simp
  edges := by
    intro key known
    rw [admitting]
    split
    · simp [known]
    · exact known
  omissions := by
    intro event member
    rw [admitting_events] at member
    exact .inl member

theorem grows_binding (config : Config) (progress : Progress) (scope : Variables) :
    progress.Grows config (progress.binding scope) where
  events _ member := member
  edges _ known := known
  omissions _ member := .inl member

end Progress

variable {schema : Schema} {config : Config}

mutual

/-- The expansion of a field makes progress grow. -/
theorem Expands.grows {label : Option String} {site : Site} {field : Field} :
    ∀ {before after : Progress} {result : Option Selection},
      Expands schema config label site field before result after → before.Grows config after
  | _, _, _, .leftOut _ _ omitted => Progress.grows_noting omitted
  | _, _, _, .shown _ _ own _ _ fragments =>
    (((Progress.grows_admitting ..).trans own.grows).trans
      (Progress.grows_binding ..)).trans fragments.grows

theorem ExpandsAll.grows {site : Site} :
    ∀ {entries : List (Option String × Field)} {before after : Progress}
      {selections : List Selection},
      ExpandsAll schema config site entries before selections after → before.Grows config after
  | _, _, _, _, .nil => .refl config _
  | _, _, _, _, .cons first others => first.grows.trans others.grows

theorem ExpandsBranches.grows {site : Site} :
    ∀ {branches : List Branch} {before after : Progress} {fragments : List Selection},
      ExpandsBranches schema config site branches before fragments after →
        before.Grows config after
  | _, _, _, _, .nil => .refl config _
  | _, _, _, _, .cons first others => first.grows.trans others.grows

end

/-! ## Edges inside fragments -/

theorem Progress.admitting_of_inFragment (progress : Progress) {site : Site}
    (below : site.inFragment = true) (field : Field) (type : TypeDef) :
    progress.admitting site field type = progress := by
  simp [admitting, below]

mutual

/-- Inside fragments the expansion of a field remembers no edge. -/
theorem Expands.edges_eq {label : Option String} {site : Site} {field : Field} :
    ∀ {before after : Progress} {result : Option Selection},
      Expands schema config label site field before result after → site.inFragment = true →
        after.edges = before.edges
  | _, _, _, .leftOut _ _ _, _ => rfl
  | _, _, _, .shown _ _ own _ _ fragments, below => by
    rw [fragments.edges_eq rfl, Progress.binding_edges, own.edges_eq below,
      Progress.admitting_of_inFragment _ below]

theorem ExpandsAll.edges_eq {site : Site} :
    ∀ {entries : List (Option String × Field)} {before after : Progress}
      {selections : List Selection},
      ExpandsAll schema config site entries before selections after → site.inFragment = true →
        after.edges = before.edges
  | _, _, _, _, .nil, _ => rfl
  | _, _, _, _, .cons first others, below => by
    rw [others.edges_eq below, first.edges_eq below]

theorem ExpandsBranches.edges_eq {site : Site} :
    ∀ {branches : List Branch} {before after : Progress} {fragments : List Selection},
      ExpandsBranches schema config site branches before fragments after →
        site.inFragment = true → after.edges = before.edges
  | _, _, _, _, .nil, _ => rfl
  | _, _, _, _, .cons first others, below => by
    rw [others.edges_eq below, first.edges_eq below]

end

end SchemaUnfolding
