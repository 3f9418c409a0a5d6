import SchemaUnfolding.Proofs.Generation.Safety
import SchemaUnfolding.Proofs.Unfolding.Distinct

/-!
# Documents are unfoldings

When edges may be repeated, the spots of a document are exactly the paths into which its root field
unfolds, each once and with the same selections below it. The depth limit alone decides then which
fields are left out, so what was expanded before makes no difference.
-/

namespace SchemaUnfolding

open Expansion

variable {schema : Schema} {config : Config}

/-! ## Being allowed -/

/-- A field whose type is no input type makes an allowed stop unless it is a composite that stands
too deep. -/
theorem Stop.isAllowed_iff {condition : Option String} {site : Site} {field : Field}
    {type : TypeDef} (found : schema.type? field.type.name = some type)
    (output : ∀ input, type ≠ .input input) :
    (Stop.ofSite condition site field).isAllowed schema config = true ↔
      (type.isComposite = true → site.countedDepth ≤ config.depthLimit) := by
  have resolved : schema.type? (Stop.ofSite condition site field).field.type.name = some type :=
    found
  have counted : decide ((Stop.ofSite condition site field).countedDepth ≤ config.depthLimit) =
      true ↔ site.countedDepth ≤ config.depthLimit :=
    decide_eq_true_iff
  rw [Stop.isAllowed]
  rw [resolved]
  cases type with
  | input input => exact absurd rfl (output input)
  | object _ | interface _ => simpa [TypeDef.isComposite, TypeDef.isLeaf] using counted
  | union union =>
    cases empty : union.members.isEmpty with
    | true => simp [TypeDef.isComposite, empty]
    | false => simpa [TypeDef.isComposite, empty] using counted
  | _ => simp [TypeDef.isComposite, TypeDef.isLeaf]

theorem Expansion.omission?_eq_none_iff_of_repeatEdges (repeating : config.repeatEdges = true)
    {edges : Edges} {site : Site} {field : Field} :
    omission? config edges site field = none ↔ site.countedDepth ≤ config.depthLimit := by
  simp [omission?_eq_none_iff, repeating]

section Unfolding

variable (closed : schema.Closed) (repeating : config.repeatEdges = true)
include closed repeating

/-- A field is left out exactly when the stop that it makes is not allowed. -/
theorem Expands.isSome_eq_isAllowed {label : Option String} {site : Site} {field : Field}
    {before after : Progress} {result : Option Selection} (offered : schema.Offers field)
    (expanded : Expands schema config label site field before result after)
    (condition : Option String) :
    result.isSome = (Stop.ofSite condition site field).isAllowed schema config := by
  rcases offered with ⟨holder, member, fields, declares, declared⟩
  rcases closed.fields holder member fields declares field declared with ⟨type, found, output⟩
  rw [Bool.eq_iff_iff, Stop.isAllowed_iff found output]
  cases expanded with
  | leftOut same composite omitted =>
    cases found.symm.trans same
    have deep : ¬ site.countedDepth ≤ config.depthLimit := by
      rw [← omission?_eq_none_iff_of_repeatEdges repeating, omitted]
      rintro ⟨⟩
    simp [composite, deep]
  | shown same admitted _ _ _ _ =>
    cases found.symm.trans same
    have allowed : type.isComposite = true → site.countedDepth ≤ config.depthLimit :=
      fun composite => (omission?_eq_none_iff_of_repeatEdges repeating).mp (admitted composite)
    simpa using allowed

/-! ## Selections below a field -/

theorem Expands.map_sibling {label : Option String} {site : Site} {field : Field}
    {before after : Progress} {result : Option Selection} (offered : schema.Offers field)
    (expanded : Expands schema config label site field before result after)
    (condition : Option String) :
    result.toList.map Selection.sibling =
      if (Stop.ofSite condition site field).isAllowed schema config then [.field field.name]
      else [] := by
  rw [← Expands.isSome_eq_isAllowed closed repeating offered expanded]
  cases expanded <;> rfl

theorem ExpandsAll.map_sibling {site : Site} {entries : List (Option String × Field)}
    {before after : Progress} {selections : List Selection}
    (offered : ∀ entry ∈ entries, schema.Offers entry.2)
    (expanded : ExpandsAll schema config site entries before selections after)
    (condition : Option String) :
    selections.map Selection.sibling =
      (Stop.shown schema config (.ofSite condition site) (entries.map Prod.snd)).map .field := by
  induction entries generalizing before selections with
  | nil =>
    rw [(expandsAll_nil_iff.mp expanded).1]
    rfl
  | cons entry rest ih =>
    rcases expanded with _ | ⟨first, others⟩
    have head := first.map_sibling closed repeating (offered _ (List.mem_cons_self ..)) condition
    have tail := ih (fun entry member => offered entry (List.mem_cons_of_mem _ member)) others
    rw [List.map_append, head, tail]
    unfold Stop.shown
    rw [List.map_cons, List.filter_cons]
    split <;> rfl

/-- The names of the fields that are shown of some entries at a site. -/
theorem ExpandsAll.filterMap_fieldName? {site : Site} {entries : List (Option String × Field)}
    {before after : Progress} {selections : List Selection}
    (offered : ∀ entry ∈ entries, schema.Offers entry.2)
    (expanded : ExpandsAll schema config site entries before selections after)
    (condition : Option String) :
    selections.filterMap Selection.fieldName? =
      Stop.shown schema config (.ofSite condition site) (entries.map Prod.snd) := by
  have named : ∀ selection : Selection,
      selection.fieldName? = selection.sibling.fieldName? := by
    intro selection
    cases selection <;> rfl
  have gathered : selections.filterMap Selection.fieldName? =
      (selections.map Selection.sibling).filterMap Sibling.fieldName? := by
    rw [List.filterMap_map]
    exact List.filterMap_congr fun selection _ => named selection
  rw [gathered, expanded.map_sibling closed repeating offered condition, List.filterMap_map]
  exact (congrFun List.filterMap_eq_map _).trans (List.map_id _)

theorem ExpandsBranches.map_sibling {site : Site} {branches : List Branch}
    {before after : Progress} {fragments : List Selection}
    (offered : ∀ branch ∈ branches, ∀ entry ∈ branch.fields, schema.Offers entry.2)
    (expanded : ExpandsBranches schema config site branches before fragments after) :
    fragments.map Selection.sibling =
      branches.flatMap fun branch => Stop.fragmentOf branch.type
        (Stop.shown schema config (.ofSite (some branch.type) site)
          (branch.fields.map Prod.snd)) := by
  induction branches generalizing before fragments with
  | nil =>
    rw [(expandsBranches_nil_iff.mp expanded).1]
    rfl
  | cons branch rest ih =>
    rcases expanded with _ | ⟨first, others⟩
    rename_i selections fragments
    have known := offered branch (List.mem_cons_self ..)
    have shown := first.filterMap_fieldName? closed repeating known (some branch.type)
    have tail := ih (fun other member => offered other (List.mem_cons_of_mem _ member)) others
    rw [List.map_append, tail, List.flatMap_cons, ← shown]
    have both : selections.isEmpty = (selections.filterMap Selection.fieldName?).isEmpty := by
      rw [shown, ← List.isEmpty_map (f := Selection.sibling),
        first.map_sibling closed repeating known (some branch.type), List.isEmpty_map]
    have head : (fragment? branch.type selections).toList.map Selection.sibling =
        Stop.fragmentOf branch.type (selections.filterMap Selection.fieldName?) := by
      rw [fragment?, Stop.fragmentOf]
      rw [← both]
      split <;> rfl
    rw [head]

end Unfolding

theorem FieldedType.fieldsBeyond_eq (interface type : FieldedType) :
    interface.fieldsBeyond type =
      type.fields.values.filter fun field => field.name ∉ interface.fields.names := by
  rw [FieldedType.fieldsBeyond]
  apply List.filter_congr
  intro field _
  rw [Bool.eq_iff_iff]
  simp [← Table.contains_iff]

theorem Expansion.map_snd_implementorBranch (interface type : FieldedType)
    (possible : List FieldedType) :
    (implementorBranch config interface possible type).fields.map Prod.snd =
      (type.fields.values.filter fun field => field.name ∉ interface.fields.names).filter
        config.includes := by
  simp [implementorBranch, FieldedType.fieldsBeyond_eq, Function.comp_def]

theorem Expansion.map_snd_memberBranch (member : String) :
    (memberBranch schema config member).fields.map Prod.snd =
      (schema.fieldsOf member).filter config.includes := by
  simp [memberBranch, Function.comp_def]

/-- What an expansion follows below a field, of that what is allowed, is what stands below the stop
that the field makes. -/
theorem siblings_ofSite {condition : Option String} {site : Site} {field : Field} {type : TypeDef}
    {branches : List Branch} (found : schema.type? field.type.name = some type)
    (known : branches? schema config type = some branches) :
    (Stop.ofSite condition site field).siblings schema config =
      (Stop.shown schema config (.ofSite none (site.below field.name))
          (ownFields config type)).map .field ++
        (type.typenames.map Selection.sibling ++ branches.flatMap fun branch =>
          Stop.fragmentOf branch.type (Stop.shown schema config
            (.ofSite (some branch.type) (site.inFragmentBelow field.name))
            (branch.fields.map Prod.snd))) := by
  have resolved : schema.type? (Stop.ofSite condition site field).field.type.name = some type :=
    found
  rw [Stop.siblings]
  rw [resolved]
  cases type with
  | object type =>
    cases known
    exact (List.append_nil _).symm
  | interface interface =>
    cases known
    simp only [List.flatMap_map, Expansion.map_snd_implementorBranch]
    rfl
  | union union =>
    cases empty : union.members.isEmpty with
    | true =>
      cases known.symm.trans (branches?_of_isComposite_eq_false (by
        simp [TypeDef.isComposite, empty]))
      simp [TypeDef.typenames, TypeDef.isPolymorphic, ownFields, TypeDef.fields?, Stop.shown, empty]
    | false =>
      have marked : (TypeDef.union union).typenames = [.typename] := by
        simp [TypeDef.typenames, TypeDef.isPolymorphic, empty]
      rw [memberBranches?_eq_some known, marked]
      simp only [List.flatMap_map, Expansion.map_snd_memberBranch, empty]
      rfl
  | _ =>
    cases known
    rfl

/-- The selections below a field that is shown are what stands below its stop. -/
theorem Expands.map_sibling_below {site : Site} {field : Field}
    {type : TypeDef} {branches : List Branch} {before middle start after : Progress}
    {own fragments : List Selection} (closed : schema.Closed)
    (repeating : config.repeatEdges = true) (found : schema.type? field.type.name = some type)
    (known : branches? schema config type = some branches)
    (ownExpanded : ExpandsAll schema config (site.below field.name)
      ((ownFields config type).map fun inner => (none, inner)) before own middle)
    (expanded : ExpandsBranches schema config (site.inFragmentBelow field.name) branches start
      fragments after)
    (condition : Option String) :
    (own ++ (type.typenames ++ fragments)).map Selection.sibling =
      (Stop.ofSite condition site field).siblings schema config := by
  have offeredOwn := Schema.offers_of_ownFields (Schema.mem_values_of_type? found) config
  have named : ((ownFields config type).map fun inner => ((none : Option String), inner)).map
      Prod.snd = ownFields config type := by
    simp [Function.comp_def]
  rw [siblings_ofSite found known, List.map_append, List.map_append,
    ownExpanded.map_sibling closed repeating offeredOwn none, named,
    expanded.map_sibling closed repeating (Schema.offers_of_branches? known)]

/-! ## Spots and paths -/

mutual

/-- The spots of an expanded field are the paths of the stop that it makes. -/
theorem Expands.mem_spots_iff {label : Option String} {site : Site} {field : Field}
    {before after : Progress} {result : Option Selection}
    (expanded : Expands schema config label site field before result after)
    (closed : schema.Closed) (repeating : config.repeatEdges = true)
    (offered : schema.Offers field) (condition : Option String) (spot : Spot) :
    spot ∈ Selection.spotsOfAll condition result.toList ↔
      Unfolds schema config (.ofSite condition site field) spot := by
  have allowed := expanded.isSome_eq_isAllowed closed repeating offered condition
  rw [unfolds_iff, ← allowed]
  match expanded with
  | .leftOut _ _ _ => simp
  | .shown found _ ownExpanded _ known expanded =>
    rename_i middle type own fragments arguments scope branches _ _
    have resolved := Schema.mem_values_of_type? found
    have ownSpots : ∀ inner, inner ∈ Selection.spotsOfAll none own ↔
        ∃ other ∈ ownFields config type,
          Unfolds schema config (.ofSite none (site.below field.name) other) inner := by
      intro inner
      have spots := ownExpanded.mem_spots_iff closed repeating
        (Schema.offers_of_ownFields resolved config) none inner
      simpa using spots
    have branchSpots := expanded.mem_spots_iff closed repeating (Schema.offers_of_branches? known)
    have inside : ∀ inner,
        inner ∈ Selection.spotsOfAll none (own ++ (type.typenames ++ fragments)) ↔
          ∃ next, Continues schema config (.ofSite condition site field) next ∧
            Unfolds schema config next inner := by
      intro inner
      rw [exists_continues_iff found known, Selection.spotsOfAll_append,
        Selection.spotsOfAll_append, Selection.spotsOfAll_typenames, List.nil_append,
        List.mem_append, ownSpots, branchSpots]
    rw [Option.toList_some, Selection.spotsOfAll_cons, Selection.spotsOfAll_nil, List.append_nil,
      Selection.mem_spots_field_iff,
      Expands.map_sibling_below closed repeating found known ownExpanded expanded condition]
    simp only [inside]
    constructor
    · rintro (rfl | ⟨inner, ⟨next, continued, unfolded⟩, rfl⟩)
      · exact ⟨rfl, .inl rfl⟩
      · exact ⟨rfl, .inr ⟨next, inner, continued, unfolded, rfl⟩⟩
    · rintro ⟨_, rfl | ⟨next, inner, continued, unfolded, rfl⟩⟩
      · exact .inl rfl
      · exact .inr ⟨inner, ⟨next, continued, unfolded⟩, rfl⟩

/-- The spots of expanded fields are the paths of the stops that they make. -/
theorem ExpandsAll.mem_spots_iff {site : Site} {entries : List (Option String × Field)}
    {before after : Progress} {selections : List Selection}
    (expanded : ExpandsAll schema config site entries before selections after)
    (closed : schema.Closed) (repeating : config.repeatEdges = true)
    (offered : ∀ entry ∈ entries, schema.Offers entry.2) (condition : Option String)
    (spot : Spot) :
    spot ∈ Selection.spotsOfAll condition selections ↔
      ∃ entry ∈ entries, Unfolds schema config (.ofSite condition site entry.2) spot := by
  match expanded with
  | .nil => simp
  | .cons first others =>
    have offeredFirst := offered _ (List.mem_cons_self ..)
    have head := first.mem_spots_iff closed repeating offeredFirst condition spot
    have tail := others.mem_spots_iff closed repeating
      (fun entry member => offered entry (List.mem_cons_of_mem _ member)) condition spot
    simp only [Selection.spotsOfAll_append, List.mem_append, head, tail, List.mem_cons,
      exists_eq_or_imp]

/-- The spots of expanded fragments are the paths of the stops that their fields make. -/
theorem ExpandsBranches.mem_spots_iff {site : Site} {branches : List Branch}
    {before after : Progress} {fragments : List Selection}
    (expanded : ExpandsBranches schema config site branches before fragments after)
    (closed : schema.Closed) (repeating : config.repeatEdges = true)
    (offered : ∀ branch ∈ branches, ∀ entry ∈ branch.fields, schema.Offers entry.2)
    (spot : Spot) :
    spot ∈ Selection.spotsOfAll none fragments ↔
      ∃ branch ∈ branches, ∃ entry ∈ branch.fields,
        Unfolds schema config (.ofSite (some branch.type) site entry.2) spot := by
  match expanded with
  | .nil => simp
  | .cons first others =>
    have offeredFirst := offered _ (List.mem_cons_self ..)
    have head := fun type => first.mem_spots_iff closed repeating offeredFirst (some type) spot
    have tail := others.mem_spots_iff closed repeating
      (fun other member => offered other (List.mem_cons_of_mem _ member)) spot
    simp only [Selection.spotsOfAll_append, Selection.spotsOfAll_fragment?, List.mem_append, head,
      tail, List.mem_cons, exists_eq_or_imp]

end

/-! ## Documents -/

/-- When edges may be repeated, the document of a root field of a checked schema has a spot exactly
for each path into which the field unfolds, with what stands below the path's end, and no path
twice. -/
theorem Schema.Checked.spots_exact {schema : Schema} (checked : schema.Checked) (config : Config)
    (repeating : config.repeatEdges = true) {kind : OperationKind} {root : FieldedType}
    (rooted : schema.root? kind = some root) {field : Field}
    (declared : field ∈ root.fields.values) (before : Array Event) :
    ∃ operation after,
      (Generation.operation schema config kind root field).Returns before operation after ∧
        (operation.document.spots.map Spot.path).Nodup ∧
        ∀ spot, spot ∈ operation.document.spots ↔ Unfolds schema config (.start field) spot := by
  have closed := checked.closed
  have offered := Schema.offers_of_root? rooted declared
  have never : (Generation.operation schema config kind root field).Faultless :=
    Generation.faultless_operation closed offered
  rcases never.returns before with ⟨operation, after, returned⟩
  rcases Generation.returns_operation_iff.mp returned with
    ⟨selection, progress, expanded, rfl, _⟩
  refine ⟨_, after, returned, ?_, fun spot => ?_⟩
  · exact expanded.nodup_paths checked.built.wellFormed none
  · exact expanded.mem_spots_iff closed repeating offered none spot

/-! ## A limit, and a deprecated field -/

theorem type?_retiredSchema : retiredSchema.type? "Item" = some
    (.object (retiredItem [("name", retiredName), ("code", retiredCode)])) := by
  decide

theorem values_retiredItem :
    (retiredItem [("name", retiredName), ("code", retiredCode)]).fields.values =
      [retiredName, retiredCode] :=
  rfl

/-- Below the root field of the schema with a deprecated field, there is a path to that field
exactly when deprecated fields are asked for. -/
theorem unfolds_retiredCode_iff {config : Config} (within : 1 ≤ config.depthLimit) :
    Unfolds retiredSchema config (.start retiredRootField)
        ⟨[⟨none, "item"⟩, ⟨none, "code"⟩], []⟩ ↔ config.includeDeprecated = true := by
  constructor
  · intro unfolded
    rcases (unfolds_iff.mp unfolded).2 with short | ⟨next, inner, continued, onward, long⟩
    · cases short
    · have step : (⟨none, "code"⟩ : Step) = next.step := by
        have path : [⟨none, "code"⟩] = inner.path := (List.cons.inj (congrArg Spot.path long)).2
        have starts := onward.head?_path
        rw [← path] at starts
        exact Option.some.inj starts
      have deprecated : next.field.deprecation = some "Gone" := by
        have name : next.field.name = "code" := (congrArg Step.field step).symm
        cases continued with
        | own found fields member _ =>
          obtain rfl := Option.some.inj (type?_retiredSchema.symm.trans found)
          cases fields
          rw [values_retiredItem, List.mem_pair] at member
          rcases member with rfl | rfl
          · exact absurd name (by decide)
          · rfl
        | possible found => cases type?_retiredSchema.symm.trans found
        | member found => cases type?_retiredSchema.symm.trans found
      simpa [deprecated] using continued.included
  · intro asked
    have allowed : Stop.isAllowed retiredSchema config (.start retiredRootField) = true :=
      decide_eq_true within
    have included : config.includes retiredCode = true := Config.includes_iff.mpr (.inr asked)
    have continued : Continues retiredSchema config (.start retiredRootField)
        (.below (.start retiredRootField) retiredCode) :=
      .own type?_retiredSchema rfl (by decide) included
    exact .onward allowed continued (.here rfl)

/-- The document of the small schema's root field selects a field of that name in a fragment below,
and there the limit of two ends it. A deprecated field has its spot exactly when such fields are
asked for. -/
theorem sampleSchema_spots_exact :
    (∃ operation after, (Generation.operation sampleSchema { depthLimit := 2, repeatEdges := true }
        .query sampleQuery (sampleField "Query" 14 16)).Returns #[] operation after ∧
      ⟨[⟨none, "n"⟩, ⟨some "C", "n"⟩], [.field "k", .typename]⟩ ∈ operation.document.spots) ∧
    ∀ includeDeprecated, ∃ operation after,
      (Generation.operation retiredSchema { repeatEdges := true, includeDeprecated } .query
        retiredQuery retiredRootField).Returns #[] operation after ∧
      (⟨[⟨none, "item"⟩, ⟨none, "code"⟩], []⟩ ∈ operation.document.spots ↔
        includeDeprecated = true) := by
  constructor
  · have rooted : sampleSchema.root? .query = some sampleQuery := by decide
    have declared : sampleField "Query" 14 16 ∈ sampleQuery.fields.values := by decide
    rcases sampleSchema_checked.spots_exact { depthLimit := 2, repeatEdges := true } rfl rooted
      declared #[] with ⟨operation, after, returned, _, exact⟩
    refine ⟨operation, after, returned, (exact _).mpr ?_⟩
    have resolved : sampleSchema.type? "N" = some (.interface sampleInterface) := by decide
    have possible : sampleImplementor ∈ sampleSchema.possibleTypes "N" := by decide
    have inside : sampleField "C" 78 80 ∈ sampleImplementor.fields.values := by decide
    have beyond : "n" ∉ sampleInterface.fields.names := by decide
    have continued : Continues sampleSchema { depthLimit := 2, repeatEdges := true }
        (.start (sampleField "Query" 14 16))
        (.branch (.start (sampleField "Query" 14 16)) "C" (sampleField "C" 78 80)) :=
      .possible resolved possible inside beyond rfl
    have inner : Unfolds sampleSchema { depthLimit := 2, repeatEdges := true }
        (.branch (.start (sampleField "Query" 14 16)) "C" (sampleField "C" 78 80))
        ⟨[⟨some "C", "n"⟩], [.field "k", .typename]⟩ := by
      have siblings : Stop.siblings sampleSchema { depthLimit := 2, repeatEdges := true }
          (.branch (.start (sampleField "Query" 14 16)) "C" (sampleField "C" 78 80)) =
          [.field "k", .typename] := by
        decide
      rw [← siblings]
      exact .here (by decide)
    exact .onward (by decide) continued inner
  · intro includeDeprecated
    have rooted : retiredSchema.root? .query = some retiredQuery := by decide
    have declared : retiredRootField ∈ retiredQuery.fields.values := by decide
    rcases retiredSchema_checked.spots_exact { repeatEdges := true, includeDeprecated } rfl rooted
      declared #[] with ⟨operation, after, returned, _, exact⟩
    exact ⟨operation, after, returned, (exact _).trans (unfolds_retiredCode_iff (by simp))⟩

end SchemaUnfolding
