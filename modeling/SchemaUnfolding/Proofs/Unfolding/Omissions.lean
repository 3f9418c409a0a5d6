import SchemaUnfolding.Proofs.Expansion.Growth
import SchemaUnfolding.Proofs.Generation.Operations
import SchemaUnfolding.Proofs.Unfolding.Distinct

/-!
# Fields that are left out

A document leaves a field out where it selects the field above and not the field itself. Each such
place is reported while the document is generated, as a repeated edge or as too deep, and nothing
else is reported as either. So what the reports say about edges, they say about the document.
-/

namespace SchemaUnfolding

open Expansion

/-! ## Places -/

/-- A path goes from a stop to another stop. -/
inductive Stop.GoesTo (schema : Schema) (config : Config) : Stop → List Step → Stop → Prop
  | here {stop : Stop} : GoesTo schema config stop [stop.step] stop
  | onward {stop next last : Stop} {path : List Step} :
      Continues schema config stop next → GoesTo schema config next path last →
      GoesTo schema config stop (stop.step :: path) last

/-- The name of the field above the end of a path, or a name for what is above all of the path. -/
def containerAbove (root : String) (path : List Step) : String :=
  path.dropLast.getLast?.elim root Step.field

/-- Some spots leave out the stop that a path goes to: the path is not among theirs, but what comes
before its last step is. -/
structure Stop.LeftOut (schema : Schema) (config : Config) (start : Stop) (spots : List Spot)
    (path : List Step) (stop : Stop) : Prop where
  goes : start.GoesTo schema config path stop
  above : path.dropLast ≠ [] → path.dropLast ∈ spots.map Spot.path
  missing : path ∉ spots.map Spot.path

/-- A document for a field of a root type leaves out the stop that a path goes to. -/
def Document.LeavesOut (document : Document) (schema : Schema) (config : Config) (field : Field)
    (path : List Step) (stop : Stop) : Prop :=
  (Stop.start field).LeftOut schema config document.spots path stop

/-- Some spots leave out a field at a site, to which a path goes from a stop below a container. -/
def Stop.Omits (schema : Schema) (config : Config) (container : String) (start : Stop)
    (spots : List Spot) (site : Site) (field : Field) : Prop :=
  ∃ path stop, start.LeftOut schema config spots path stop ∧
    site = ⟨containerAbove container path, stop.depth, stop.inFragment⟩ ∧ field = stop.field

theorem containerAbove_cons (root : String) (step : Step) {path : List Step}
    (occupied : path ≠ []) :
    containerAbove root (step :: path) = containerAbove step.field path := by
  obtain ⟨head, tail, rfl⟩ := List.exists_cons_of_ne_nil occupied
  rw [containerAbove, containerAbove, List.dropLast_cons_cons, List.getLast?_cons]
  cases (head :: tail).dropLast.getLast? <;> rfl

namespace Stop

variable {schema : Schema} {config : Config} {start stop last : Stop} {path : List Step}
  {container : String} {first second spots inner : List Spot} {site : Site} {field : Field}

theorem GoesTo.head?_path (goes : start.GoesTo schema config path last) :
    path.head? = some start.step := by
  cases goes <;> rfl

theorem GoesTo.ne_nil (goes : start.GoesTo schema config path last) : path ≠ [] := by
  rintro rfl
  cases goes.head?_path

/-! ## Recursion -/

/-- Where nothing is selected, the field itself is left out. -/
theorem omits_nil_iff {condition : Option String} {reached : Site} {shown : Field} :
    (ofSite condition reached shown).Omits schema config reached.container [] site field ↔
      site = reached ∧ field = shown := by
  constructor
  · rintro ⟨path, stop, ⟨goes, above, _⟩, rfl, rfl⟩
    cases goes with
    | here => exact ⟨rfl, rfl⟩
    | onward _ goes =>
      obtain ⟨head, tail, rfl⟩ := List.exists_cons_of_ne_nil goes.ne_nil
      cases above (List.cons_ne_nil _ _)
  · rintro ⟨rfl, rfl⟩
    exact ⟨_, _, ⟨.here, fun longer => absurd rfl longer, List.not_mem_nil⟩, rfl, rfl⟩

/-- Where a field is selected, what is left out is left out below a stop at which paths continue. -/
theorem omits_under_iff {below : List Sibling} :
    stop.Omits schema config container
        (⟨[stop.step], below⟩ :: inner.map (Spot.under stop.step)) site field ↔
      ∃ next, Continues schema config stop next ∧
        next.Omits schema config stop.field.name inner site field := by
  have paths : ∀ path, path ≠ [] →
      (stop.step :: path ∈ (⟨[stop.step], below⟩ :: inner.map (Spot.under stop.step)).map
        Spot.path ↔ path ∈ inner.map Spot.path) := by
    intro path occupied
    simp [Spot.under, occupied]
  constructor
  · rintro ⟨path, last, ⟨goes, above, missing⟩, rfl, rfl⟩
    cases goes with
    | here => exact absurd (List.mem_cons_self ..) missing
    | @onward _ next _ path continued goes =>
      have occupied := goes.ne_nil
      refine ⟨next, continued, path, last, ⟨goes, fun longer => ?_, ?_⟩, ?_, rfl⟩
      · rw [List.dropLast_cons_of_ne_nil occupied] at above
        exact (paths _ longer).mp (above (List.cons_ne_nil _ _))
      · exact fun present => missing ((paths _ occupied).mpr present)
      · rw [containerAbove_cons _ _ occupied]
        rfl
  · rintro ⟨next, continued, path, last, ⟨goes, above, missing⟩, rfl, rfl⟩
    have occupied := goes.ne_nil
    refine ⟨_, last, ⟨.onward continued goes, fun _ => ?_, ?_⟩, ?_, rfl⟩
    · rw [List.dropLast_cons_of_ne_nil occupied]
      by_cases longer : path.dropLast = []
      · rw [longer]
        exact List.mem_cons_self ..
      · exact (paths _ longer).mpr (above longer)
    · exact fun present => missing ((paths _ occupied).mp present)
    · rw [containerAbove_cons _ _ occupied]
      rfl

/-! ## Spots that matter -/

/-- What is left out below a stop depends on the paths that start with it. -/
theorem Omits.congr (same : ∀ path : List Step, path.head? = some start.step →
      (path ∈ first.map Spot.path ↔ path ∈ second.map Spot.path))
    (omits : start.Omits schema config container first site field) :
    start.Omits schema config container second site field := by
  obtain ⟨path, last, ⟨goes, above, missing⟩, reached, shown⟩ := omits
  have starts := goes.head?_path
  refine ⟨path, last, ⟨goes, fun longer => ?_, ?_⟩, reached, shown⟩
  · refine (same _ ?_).mp (above longer)
    rw [← starts]
    obtain ⟨head, tail, rfl⟩ := List.exists_cons_of_ne_nil goes.ne_nil
    cases tail with
    | nil => exact absurd rfl longer
    | cons => rfl
  · exact fun present => missing ((same _ starts).mpr present)

theorem omits_append_left_iff
    (apart : ∀ spot ∈ second, spot.path.head? ≠ some start.step) :
    start.Omits schema config container (first ++ second) site field ↔
      start.Omits schema config container first site field := by
  have same : ∀ path : List Step, path.head? = some start.step →
      (path ∈ (first ++ second).map Spot.path ↔ path ∈ first.map Spot.path) := by
    intro path starts
    rw [List.map_append, List.mem_append, or_iff_left]
    intro present
    obtain ⟨spot, listed, rfl⟩ := List.mem_map.mp present
    exact apart spot listed starts
  exact ⟨Omits.congr same, Omits.congr fun path starts => (same path starts).symm⟩

theorem omits_append_right_iff
    (apart : ∀ spot ∈ first, spot.path.head? ≠ some start.step) :
    start.Omits schema config container (first ++ second) site field ↔
      start.Omits schema config container second site field := by
  refine Iff.trans ?_ (omits_append_left_iff apart)
  have same : ∀ path : List Step, path ∈ (first ++ second).map Spot.path ↔
      path ∈ (second ++ first).map Spot.path := by
    intro path
    rw [List.map_append, List.map_append, List.mem_append, List.mem_append, or_comm]
  exact ⟨Omits.congr fun path _ => same path, Omits.congr fun path _ => (same path).symm⟩

end Stop

/-! ## Reports -/

/-- From some events to others, the fields that are left out at their sites were reported as such,
and nothing else was reported. -/
structure Event.Reported (config : Config) (before after : Array Event)
    (omitted : Site → Field → Prop) : Prop where
  kept : ∀ event ∈ before, event ∈ after
  complete : ∀ site field, omitted site field →
    ∃ edges event, omission? config edges site field = some event ∧ event ∈ after
  sound : ∀ event ∈ after, event ∈ before ∨
    ∃ site field, omitted site field ∧ ∃ edges, omission? config edges site field = some event

namespace Event.Reported

variable {config : Config} {before middle after : Array Event}
  {first second : Site → Field → Prop}

theorem nothing (events : Array Event) : Reported config events events fun _ _ => False where
  kept _ member := member
  complete _ _ absent := absent.elim
  sound _ member := .inl member

theorem push {edges : Edges} {site : Site} {field : Field} {event : Event} (events : Array Event)
    (omitted : omission? config edges site field = some event) :
    Reported config events (events.push event) fun other inner => other = site ∧ inner = field where
  kept _ member := Array.mem_push_of_mem _ member
  complete := by
    rintro _ _ ⟨rfl, rfl⟩
    exact ⟨edges, event, omitted, Array.mem_push_self⟩
  sound := by
    intro other member
    rcases Array.mem_push.mp member with old | rfl
    · exact .inl old
    · exact .inr ⟨site, field, ⟨rfl, rfl⟩, edges, omitted⟩

theorem trans (early : Reported config before middle first)
    (late : Reported config middle after second) :
    Reported config before after fun site field => first site field ∨ second site field where
  kept event member := late.kept event (early.kept event member)
  complete := by
    rintro site field (omitted | omitted)
    · obtain ⟨edges, event, told, member⟩ := early.complete site field omitted
      exact ⟨edges, event, told, late.kept event member⟩
    · exact late.complete site field omitted
  sound := by
    intro event member
    rcases late.sound event member with old | ⟨site, field, omitted, told⟩
    · rcases early.sound event old with older | ⟨site, field, omitted, told⟩
      · exact .inl older
      · exact .inr ⟨site, field, .inl omitted, told⟩
    · exact .inr ⟨site, field, .inr omitted, told⟩

theorem congr (reported : Reported config before after first)
    (same : ∀ site field, first site field ↔ second site field) :
    Reported config before after second := by
  have equal : first = second := funext fun site => funext fun field => propext (same site field)
  exact equal ▸ reported

end Event.Reported

/-! ## Expansions -/

section Expansions

variable {schema : Schema} {config : Config}

mutual

/-- The expansion of a field reports what its result leaves out. -/
theorem Expands.reported {label : Option String} {site : Site} {field : Field}
    {before after : Progress} {result : Option Selection}
    (expanded : Expands schema config label site field before result after)
    (wellFormed : schema.WellFormed) (condition : Option String) :
    Event.Reported config before.events after.events
      ((Stop.ofSite condition site field).Omits schema config site.container
        (Selection.spotsOfAll condition result.toList)) := by
  match expanded with
  | .leftOut _ _ omitted =>
    exact (Event.Reported.push before.events omitted).congr fun _ _ => Stop.omits_nil_iff.symm
  | .shown found _ ownExpanded _ known expanded =>
    rename_i middle type own fragments arguments scope branches _ _
    have ownReported := ownExpanded.reported wellFormed
      (wellFormed.nodup_ownFields (Schema.mem_values_of_type? found) config) none
    have branchesReported := expanded.reported wellFormed (wellFormed.nodup_branches known)
      (wellFormed.nodup_branch_fields known)
    rw [Progress.admitting_events] at ownReported
    rw [Progress.binding_events] at branchesReported
    refine (ownReported.trans branchesReported).congr fun other inner => ?_
    have spots : Selection.spotsOfAll none (own ++ (type.typenames ++ fragments)) =
        Selection.spotsOfAll none own ++ Selection.spotsOfAll none fragments := by
      rw [Selection.spotsOfAll_append, Selection.spotsOfAll_append,
        Selection.spotsOfAll_typenames, List.nil_append]
    have whole : Selection.spotsOfAll condition
        (some (Selection.field label field.name arguments
          (own ++ (type.typenames ++ fragments)))).toList =
        ⟨[(Stop.ofSite condition site field).step],
          (own ++ (type.typenames ++ fragments)).map Selection.sibling⟩ ::
          (Selection.spotsOfAll none own ++ Selection.spotsOfAll none fragments).map
            (Spot.under (Stop.ofSite condition site field).step) := by
      rw [Option.toList_some, Selection.spotsOfAll_cons, Selection.spotsOfAll_nil, List.append_nil,
        Selection.spots, spots]
      rfl
    rw [whole, Stop.omits_under_iff, exists_continues_iff found known]
    -- The own fields start paths without a type, those in fragments paths with one.
    have ownApart : ∀ shown : Field, ∀ spot ∈ Selection.spotsOfAll none fragments,
        spot.path.head? ≠ some (Stop.ofSite none (site.below field.name) shown).step := by
      intro shown spot listed same
      obtain ⟨_, _, _, starts⟩ := expanded.head?_path listed
      cases starts.symm.trans same
    have branchApart : ∀ (branch : Branch) (shown : Field),
        ∀ spot ∈ Selection.spotsOfAll none own, spot.path.head? ≠
          some (Stop.ofSite (some branch.type) (site.inFragmentBelow field.name) shown).step := by
      intro branch shown spot listed same
      obtain ⟨_, _, starts⟩ := ownExpanded.head?_path listed
      cases starts.symm.trans same
    have container : (Stop.ofSite condition site field).field.name = field.name := rfl
    simp only [container, Stop.omits_append_left_iff (ownApart _),
      Stop.omits_append_right_iff (branchApart _ _)]
    simp [Site.below, Site.inFragmentBelow]

/-- The expansion of fields with different names reports what its result leaves out of them. -/
theorem ExpandsAll.reported {site : Site} {entries : List (Option String × Field)}
    {before after : Progress} {selections : List Selection}
    (expanded : ExpandsAll schema config site entries before selections after)
    (wellFormed : schema.WellFormed) (distinct : (entries.map (·.2.name)).Nodup)
    (condition : Option String) :
    Event.Reported config before.events after.events fun other inner =>
      ∃ entry ∈ entries, (Stop.ofSite condition site entry.2).Omits schema config site.container
        (Selection.spotsOfAll condition selections) other inner := by
  match expanded with
  | .nil => exact (Event.Reported.nothing _).congr fun _ _ => by simp
  | .cons first others =>
    rename_i label field rest middle result selections
    rw [List.map_cons, List.nodup_cons] at distinct
    have head := first.reported wellFormed condition
    have tail := others.reported wellFormed distinct.2 condition
    refine (head.trans tail).congr fun other inner => ?_
    rw [Selection.spotsOfAll_append, List.exists_mem_cons_iff]
    have headApart : ∀ spot ∈ Selection.spotsOfAll condition selections,
        spot.path.head? ≠ some (Stop.ofSite condition site field).step := by
      intro spot listed same
      obtain ⟨name, member, starts⟩ := others.head?_path listed
      cases starts.symm.trans same
      exact distinct.1 member
    have tailApart : ∀ entry ∈ rest, ∀ spot ∈ Selection.spotsOfAll condition result.toList,
        spot.path.head? ≠ some (Stop.ofSite condition site entry.2).step := by
      intro entry member spot listed same
      have names := (first.head?_path listed).symm.trans same
      rw [Option.some.injEq, Stop.step, Step.mk.injEq] at names
      exact distinct.1 (names.2 ▸ List.mem_map_of_mem member)
    refine or_congr (Stop.omits_append_left_iff headApart).symm ?_
    refine exists_congr fun entry => and_congr_right fun member => ?_
    exact (Stop.omits_append_right_iff (tailApart entry member)).symm

/-- The expansion of fragments for different types reports what its result leaves out of them. -/
theorem ExpandsBranches.reported {site : Site} {branches : List Branch}
    {before after : Progress} {fragments : List Selection}
    (expanded : ExpandsBranches schema config site branches before fragments after)
    (wellFormed : schema.WellFormed) (distinct : (branches.map Branch.type).Nodup)
    (fields : ∀ branch ∈ branches, (branch.fields.map (·.2.name)).Nodup) :
    Event.Reported config before.events after.events fun other inner =>
      ∃ branch ∈ branches, ∃ entry ∈ branch.fields,
        (Stop.ofSite (some branch.type) site entry.2).Omits schema config site.container
          (Selection.spotsOfAll none fragments) other inner := by
  match expanded with
  | .nil => exact (Event.Reported.nothing _).congr fun _ _ => by simp
  | .cons first others =>
    rename_i branch rest middle selections fragments
    rw [List.map_cons, List.nodup_cons] at distinct
    have head := first.reported wellFormed (fields _ (List.mem_cons_self ..)) (some branch.type)
    have tail := others.reported wellFormed distinct.2 fun other member =>
      fields other (List.mem_cons_of_mem _ member)
    refine (head.trans tail).congr fun other inner => ?_
    rw [Selection.spotsOfAll_append, Selection.spotsOfAll_fragment?, List.exists_mem_cons_iff]
    have headApart : ∀ shown : Field, ∀ spot ∈ Selection.spotsOfAll none fragments,
        spot.path.head? ≠ some (Stop.ofSite (some branch.type) site shown).step := by
      intro shown spot listed same
      obtain ⟨type, member, _, starts⟩ := others.head?_path listed
      have types := starts.symm.trans same
      rw [Option.some.injEq, Stop.step, Step.mk.injEq] at types
      exact distinct.1 (Option.some.inj types.1 ▸ member)
    have tailApart : ∀ later ∈ rest, ∀ shown : Field,
        ∀ spot ∈ Selection.spotsOfAll (some branch.type) selections,
          spot.path.head? ≠ some (Stop.ofSite (some later.type) site shown).step := by
      intro later member shown spot listed same
      obtain ⟨_, _, starts⟩ := first.head?_path listed
      have types := starts.symm.trans same
      rw [Option.some.injEq, Stop.step, Step.mk.injEq] at types
      exact distinct.1 (Option.some.inj types.1 ▸ List.mem_map_of_mem member)
    refine or_congr ?_ ?_
    · exact exists_congr fun entry => and_congr_right fun _ =>
        (Stop.omits_append_left_iff (headApart _)).symm
    · exact exists_congr fun later => and_congr_right fun member =>
        exists_congr fun entry => and_congr_right fun _ =>
          (Stop.omits_append_right_iff (tailApart later member _)).symm

end

end Expansions

/-! ## Documents -/

/-- Whatever was loaded: a repeated edge that is reported for a document is that of a field which
the document leaves out, and each field that it leaves out is reported, as a repeated edge or as too
deep. -/
theorem Schema.Built.left_out_reported {schema : Schema} (built : schema.Built) {config : Config}
    {kind : OperationKind} {root : FieldedType} {field : Field} {before reported : Array Event}
    {operation : Operation}
    (returned : (Generation.operation schema config kind root field).Returns before operation
      (before ++ reported)) :
    (∀ {type name : String} {depth : Nat} {key : String},
      Event.edgeRepeated type name depth key ∈ reported →
      ∃ path stop, operation.document.LeavesOut schema config field path stop ∧
        stop.field.parent = type ∧ stop.field.name = name ∧ stop.depth = depth ∧
        key = Edges.key (containerAbove root.name path) name) ∧
    ∀ path stop, operation.document.LeavesOut schema config field path stop →
      .edgeRepeated stop.field.parent stop.field.name stop.depth
          (Edges.key (containerAbove root.name path) stop.field.name) ∈ reported ∨
        config.depthLimit < stop.countedDepth ∧
          .limitExceeded stop.field.parent stop.field.name stop.countedDepth config.depthLimit ∈
            reported := by
  obtain ⟨selection, progress, expanded, rfl, ended⟩ :=
    Generation.returns_operation_iff.mp returned
  rw [Array.append_assoc, Array.append_right_inj] at ended
  have told := expanded.reported built.wellFormed none
  subst ended
  constructor
  · intro type name depth key member
    have during : Event.edgeRepeated type name depth key ∈ progress.events := by
      rcases Array.mem_append.mp member with during | closing
      · exact during
      · exact absurd (List.mem_toArray.mp closing) Generation.not_edgeRepeated_of_mem_closingEvents
    obtain ⟨_, _, ⟨path, stop, left, rfl, rfl⟩, edges, omitted⟩ :=
      (told.sound _ during).resolve_left (Array.not_mem_empty _)
    rcases event_of_omission? omitted with same | ⟨_, ⟨⟩⟩
    cases same
    exact ⟨path, stop, left, rfl, rfl, rfl, rfl⟩
  · intro path stop left
    obtain ⟨edges, event, omitted, member⟩ := told.complete _ _ ⟨path, stop, left, rfl, rfl⟩
    rcases event_of_omission? omitted with rfl | ⟨deep, rfl⟩
    · exact .inl (Array.mem_append_left _ member)
    · exact .inr ⟨deep, Array.mem_append_left _ member⟩

end SchemaUnfolding
