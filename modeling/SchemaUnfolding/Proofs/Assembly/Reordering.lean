import SchemaUnfolding.Proofs.Assembly.Contents

/-!
# Reordered definitions

The order in which definitions are loaded, and how they are cut into sources, decides the order
inside a schema and nothing else: not whether the schema can be built, and not what it holds.
-/

namespace SchemaUnfolding

/-! ## Schemas from sources -/

/-- Definitions that were read from sources, source by source. -/
abbrev Sources := List (Option String × List Sdl.Definition)

/-- The script that sources make. -/
def Sources.script (sources : Sources) : Script :=
  sources.flatMap fun source => source.2.map (source.1, ·)

/-- Enter the definitions of sources, source by source. -/
def SchemaBuilder.enterSources (builder : SchemaBuilder) (sources : Sources) :
    Except BuildError SchemaBuilder :=
  sources.foldlM (fun builder source => (builder.addAll source.1 source.2).2) builder

/-- The schema that is built from sources. -/
def Schema.ofSources (assumeValid : Bool) (sources : Sources) : Except BuildError Schema := do
  let builder ← SchemaBuilder.enterSources { assumeValid } sources
  builder.build

/-- Entering sources is entering the script that they make, wherever it is cut. -/
theorem SchemaBuilder.enterSources_eq_enter {builder : SchemaBuilder} {sources : Sources} :
    builder.enterSources sources = builder.enter sources.script := by
  induction sources generalizing builder with
  | nil => rfl
  | cons source rest ih =>
    rw [enterSources, List.foldlM_cons, Sources.script, List.flatMap_cons, enter,
      List.foldlM_append, addAll_snd]
    exact congrArg _ (funext fun _ => ih)

/-! ## The same but for the order -/

/-- Two types are the same but for the order of what they hold. -/
structure TypeDef.Reordered (type other : TypeDef) : Prop where
  kind : type.kind = other.kind
  name : type.name = other.name
  location : type.location = other.location
  description : type.description = other.description
  fields : type.fieldEntries.Perm other.fieldEntries
  interfaces : type.declaredInterfaces.Perm other.declaredInterfaces
  members : type.memberEntries.Perm other.memberEntries
  values : type.valueEntries.Perm other.valueEntries
  inputs : type.inputEntries.Perm other.inputEntries

/-- Two tables have the same types but for the order. -/
structure TypesReordered (types others : Table TypeDef) : Prop where
  names : types.names.Perm others.names
  types : ∀ name type other, types.get? name = some type → others.get? name = some other →
    type.Reordered other

/-- Two schemas are the same but for the order of types and of what they hold. -/
structure Schema.Reordered (schema other : Schema) : Prop where
  roots : ∀ operation, schema.rootRef? operation = other.rootRef? operation
  types : TypesReordered schema.types other.types

namespace TypeDef.Reordered

variable {type other : TypeDef}

theorem refl (type : TypeDef) : type.Reordered type :=
  ⟨rfl, rfl, rfl, rfl, .rfl, .rfl, .rfl, .rfl, .rfl⟩

theorem symm (same : type.Reordered other) : other.Reordered type :=
  ⟨same.kind.symm, same.name.symm, same.location.symm, same.description.symm, same.fields.symm,
    same.interfaces.symm, same.members.symm, same.values.symm, same.inputs.symm⟩

/-- A type gathers the same from parts in any order. -/
theorem gather {definition : Part} {parts others : List Part}
    (compatible : Part.Compatible definition parts) (same : parts.Perm others) :
    (TypeDef.gather definition parts).Reordered (.gather definition others) := by
  have compatible' := compatible.perm same
  constructor
  · rw [kind_gather, kind_gather]
  · rw [name_gather, name_gather]
  · rw [location_gather, location_gather]
  · rw [description_gather, description_gather]
  · rw [compatible.fieldEntries_gather, compatible'.fieldEntries_gather]
    exact same.flatMap_right _
  · rw [compatible.declaredInterfaces_gather, compatible'.declaredInterfaces_gather]
    exact same.flatMap_right _
  · rw [compatible.memberEntries_gather, compatible'.memberEntries_gather]
    exact same.flatMap_right _
  · rw [compatible.valueEntries_gather, compatible'.valueEntries_gather]
    exact same.flatMap_right _
  · rw [compatible.inputEntries_gather, compatible'.inputEntries_gather]
    exact same.flatMap_right _

end TypeDef.Reordered

theorem TypeDef.Reordered.lawful {types : Table TypeDef} {type other : TypeDef}
    (same : type.Reordered other) (lawful : type.Lawful types) : other.Lawful types where
  fields entry member := lawful.fields entry (same.fields.mem_iff.mpr member)
  interfaces ref member := lawful.interfaces ref (same.interfaces.mem_iff.mpr member)
  members entry member := lawful.members entry (same.members.mem_iff.mpr member)
  inputs entry member := lawful.inputs entry (same.inputs.mem_iff.mpr member)
  valued enum empty := lawful.valued (same.kind.trans enum) (empty ▸ same.values).eq_nil
  peopled union empty := lawful.peopled (same.kind.trans union) (empty ▸ same.members).eq_nil

/-! ## Reordered tables -/

namespace TypesReordered

variable {types others : Table TypeDef}

theorem symm (same : TypesReordered types others) : TypesReordered others types where
  names := same.names.symm
  types name type other found found' := (same.types name other type found' found).symm

theorem exists_of_get? (same : TypesReordered types others) {name : String} {type : TypeDef}
    (found : types.get? name = some type) :
    ∃ other, others.get? name = some other ∧ type.Reordered other := by
  have known : name ∈ others.names := same.names.mem_iff.mp (Table.mem_names_of_get? found)
  rcases Option.isSome_iff_exists.mp (Table.contains_iff.mpr known) with ⟨other, found'⟩
  exact ⟨other, found', same.types name type other found found'⟩

/-- A name leads to a type of the same kind. -/
theorem kindAt_eq_some (same : TypesReordered types others) {name : String} {kind : TypeKind}
    (known : kindAt types name = some kind) : kindAt others name = some kind := by
  rcases Option.map_eq_some_iff.mp known with ⟨type, found, rfl⟩
  rcases same.exists_of_get? found with ⟨other, found', related⟩
  exact Option.map_eq_some_iff.mpr ⟨other, found', related.kind.symm⟩

theorem exists_object (same : TypesReordered types others) {name : String} {object : FieldedType}
    (found : types.get? name = some (.object object)) :
    ∃ other, others.get? name = some (.object other) ∧ other.location = object.location := by
  rcases same.exists_of_get? found with ⟨other, found', related⟩
  cases other with
  | object other => exact ⟨other, found', related.location.symm⟩
  | _ => cases related.kind

theorem isInputAt (same : TypesReordered types others) {name : String}
    (known : IsInputAt types name) : IsInputAt others name := by
  rcases known with ⟨kind, found, input⟩
  exact ⟨kind, same.kindAt_eq_some found, input⟩

theorem lawful_field (same : TypesReordered types others) {field : Field}
    (lawful : field.Lawful types) : field.Lawful others where
  result := by
    rcases lawful.result with ⟨kind, found, other⟩
    exact ⟨kind, same.kindAt_eq_some found, other⟩
  parameters parameter member := same.isInputAt (lawful.parameters parameter member)

theorem lawful (same : TypesReordered types others) {type : TypeDef}
    (lawful : type.Lawful types) : type.Lawful others where
  fields entry member := same.lawful_field (lawful.fields entry member)
  interfaces ref member := same.kindAt_eq_some (lawful.interfaces ref member)
  members entry member := same.kindAt_eq_some (lawful.members entry member)
  inputs entry member := same.isInputAt (lawful.inputs entry member)
  valued := lawful.valued
  peopled := lawful.peopled

/-- A schema breaks no rule in one order when it breaks none in another. -/
theorem violations_eq_nil (same : TypesReordered types others)
    {roots : List (OperationKind × NamedRef)} (valid : violations types roots = []) :
    violations others roots = [] := by
  rw [violations_eq_nil_iff] at valid ⊢
  rcases valid with ⟨rooted, lawful⟩
  constructor
  · exact fun choice member => same.kindAt_eq_some (rooted choice member)
  · intro other member
    rcases Table.mem_values_iff.mp member with ⟨name, entered⟩
    rcases same.symm.exists_of_get? (Table.get?_eq_some_iff.mpr entered) with
      ⟨type, found, related⟩
    exact same.lawful (related.symm.lawful (lawful type (Table.mem_values_of_get? found)))

/-- Definitions in another order make the same types in another order. -/
theorem of_assembled {definitions definitions' : List Part}
    {extended extended' : String → List Part}
    (assembled : Assembled definitions extended types)
    (assembled' : Assembled definitions' extended' others)
    (same : definitions.Perm definitions')
    (extensions : ∀ name, (extended name).Perm (extended' name)) : TypesReordered types others where
  names := by
    rw [assembled.names, assembled'.names]
    exact (same.map _).append_left _
  types name type other found found' := by
    rcases assembled.mem_names_iff.mp (Table.mem_names_of_get? found) with
      builtIn | ⟨definition, known, rfl⟩
    · rcases List.mem_map.mp builtIn with ⟨entry, member, rfl⟩
      have first := found.symm.trans (assembled.builtIns entry member)
      have second := found'.symm.trans (assembled'.builtIns entry member)
      cases Option.some.inj (first.trans second.symm)
      exact .refl type
    -- Both tables have the type of this definition, gathered from the same parts in two orders.
    · have first := found.symm.trans (assembled.found definition known)
      have second := found'.symm.trans (assembled'.found definition (same.mem_iff.mp known))
      rw [Option.some.inj first, Option.some.inj second]
      exact .gather (assembled.compatible definition known) ((extensions _).cons definition)

end TypesReordered

namespace SchemaBuilder

variable {script other : Script} {builder next : SchemaBuilder} {schema : Schema}

/-- The root types of a builder depend on its script only but for the order. -/
theorem Entered.root_eq_some {types others : Table TypeDef} {operation : OperationKind}
    {root : NamedRef} (entered : Entered script builder) (entered' : Entered other next)
    (same : script.Perm other) (reordered : TypesReordered types others)
    (known : builder.root types operation = some root) :
    next.root others operation = some root := by
  have picks : script.picks.Perm other.picks := same.flatMap_right _
  rw [root_eq_some_iff] at known ⊢
  rcases known with chosen | ⟨unchosen, object, found, rfl⟩
  · have member := (entered.chosen.chosen operation root).mp chosen
    exact .inl ((entered'.chosen.chosen operation root).mpr (picks.mem_iff.mp member))
  · rcases reordered.exists_object found with ⟨other, found', located⟩
    refine .inr ⟨?_, other, found', by rw [located]⟩
    rw [entered'.chosen.chosen_eq_none_iff]
    exact fun root member => entered.chosen.chosen_eq_none_iff.mp unchosen root
      (picks.mem_iff.mpr member)

/-! ## Building -/

theorem assumeValid_of_add {file : Option String} {definition : Sdl.Definition}
    (added : builder.add file definition = .ok next) : next.assumeValid = builder.assumeValid := by
  cases definition with
  | schema block => exact (sameTypes_of_enterBlock added).assumeValid
  | type decl =>
    rcases (define_eq_ok_iff (file, decl)).mp added with ⟨_, _, _, rfl⟩
    rfl
  | extension decl =>
    rw [add, extend] at added
    split at added
    · rcases map_eq_ok_iff.mp added with ⟨types, _, rfl⟩
      rfl
    · cases added
      rfl
  | directive name =>
    cases added
    rfl

theorem assumeValid_of_enter (succeeded : builder.enter script = .ok next) :
    next.assumeValid = builder.assumeValid := by
  let kept (later : SchemaBuilder) : Prop := later.assumeValid = builder.assumeValid
  have whole : kept next := foldlM_preserves succeeded rfl fun _ _ _ _ known added =>
    (assumeValid_of_add added).trans known
  exact whole

/-- The schema with the types of a table and the root types that a builder settles on. -/
def settled (builder : SchemaBuilder) (types : Table TypeDef) : Schema where
  query := builder.root types .query
  mutation := builder.root types .mutation
  subscription := builder.root types .subscription
  types := types

theorem rootRef?_settled (builder : SchemaBuilder) (types : Table TypeDef)
    (operation : OperationKind) :
    (builder.settled types).rootRef? operation = builder.root types operation := by
  cases operation <;> rfl

/-- A schema is built when the waiting extensions can be applied and no rule is broken after that,
unless the rules are taken for granted. -/
theorem build_of_apply {types : Table TypeDef}
    (applied : builder.pending.foldlM (fun types (file, decl) => extendIn types file decl)
      builder.types = .ok types)
    (valid : builder.assumeValid = false → violations types (builder.settled types).roots = []) :
    builder.build = .ok (builder.settled types) := by
  refine bind_eq_ok_iff.mpr ⟨types, applied, ?_⟩
  dsimp only
  split
  · rfl
  · rename_i strict
    have unbroken := valid (Bool.eq_false_of_not_eq_true strict)
    simp only [Schema.roots, rootRef?_settled] at unbroken
    rw [unbroken]
    rfl

/-- What can be built from a script can be built from it in another order, and is then the same but
for the order. -/
theorem Entered.exists_build (entered : Entered script builder) (entered' : Entered other next)
    (same : script.Perm other) (assuming : next.assumeValid = builder.assumeValid)
    (built : builder.build = .ok schema) :
    ∃ schema', next.build = .ok schema' ∧ schema.Reordered schema' := by
  rcases entered.of_build built with ⟨acceptable, assembled⟩
  rcases parts_of_build built with ⟨_, roots, valid⟩
  rcases entered'.exists_apply (acceptable.perm same) with ⟨types, applied⟩
  have assembled' := (entered'.of_apply applied).2
  have extensions (name : String) : (script.later name ++ script.earlier name).Perm
      (other.later name ++ other.earlier name) := by
    apply List.perm_append_comm.trans
    rw [Script.earlier_append_later]
    apply (Script.extensionsOf_perm same name).trans
    rw [← Script.earlier_append_later]
    exact List.perm_append_comm
  have reordered := TypesReordered.of_assembled assembled assembled' (same.filterMap _) extensions
  have rooted (operation : OperationKind) :
      schema.rootRef? operation = (next.settled types).rootRef? operation := by
    rw [roots operation, rootRef?_settled]
    ext root
    exact ⟨entered.root_eq_some entered' same reordered,
      entered'.root_eq_some entered same.symm reordered.symm⟩
  refine ⟨next.settled types, build_of_apply applied fun strict => ?_, rooted, reordered⟩
  have chosen : (next.settled types).roots = schema.roots := by
    simp only [Schema.roots, rooted]
  rw [chosen]
  exact reordered.violations_eq_nil (valid (assuming.symm.trans strict))

end SchemaBuilder

variable {sources others : Sources} {assumeValid : Bool} {schema : Schema}

/-- A schema is built from sources when their script can be entered and built. -/
theorem Schema.ofSources_eq_ok_iff :
    ofSources assumeValid sources = .ok schema ↔ ∃ builder,
      SchemaBuilder.enter { assumeValid } sources.script = .ok builder ∧
        builder.build = .ok schema := by
  rw [ofSources, SchemaBuilder.enterSources_eq_enter, bind_eq_ok_iff]

theorem Schema.exists_ofSources (same : sources.script.Perm others.script)
    (built : ofSources assumeValid sources = .ok schema) :
    ∃ schema', ofSources assumeValid others = .ok schema' ∧ schema.Reordered schema' := by
  rcases ofSources_eq_ok_iff.mp built with ⟨builder, succeeded, built⟩
  have start : SchemaBuilder.Entered [] { assumeValid } :=
    SchemaBuilder.Entered.nil.assuming assumeValid
  have entered := start.of_enter succeeded
  have acceptable := (entered.of_build built).1.perm same
  rcases start.exists_enter acceptable with ⟨next, succeeded'⟩
  have assuming : next.assumeValid = builder.assumeValid :=
    (SchemaBuilder.assumeValid_of_enter succeeded').trans
      (SchemaBuilder.assumeValid_of_enter succeeded).symm
  rcases entered.exists_build (start.of_enter succeeded') same assuming built with
    ⟨schema', built', reordered⟩
  exact ⟨schema', ofSources_eq_ok_iff.mpr ⟨next, succeeded', built'⟩, reordered⟩

/-- When the definitions of two lists of sources are the same but for their order and for where they
are cut into sources, a schema can be built from both or from neither, and the two schemas are then
the same but for the order of their types and of what these hold. -/
theorem Schema.ofSources_perm (same : sources.script.Perm others.script) (assumeValid : Bool) :
    ((∃ schema, ofSources assumeValid sources = .ok schema) ↔
        ∃ schema, ofSources assumeValid others = .ok schema) ∧
      ∀ schema other, ofSources assumeValid sources = .ok schema →
        ofSources assumeValid others = .ok other → schema.Reordered other := by
  refine ⟨⟨?_, ?_⟩, ?_⟩
  · rintro ⟨schema, built⟩
    rcases exists_ofSources same built with ⟨other, built', _⟩
    exact ⟨other, built'⟩
  · rintro ⟨schema, built⟩
    rcases exists_ofSources same.symm built with ⟨other, built', _⟩
    exact ⟨other, built'⟩
  · intro schema other built built'
    rcases exists_ofSources same built with ⟨found, built'', reordered⟩
    cases Except.ok.inj (built'.symm.trans built'')
    exact reordered

/-! ## Three files in two orders -/

/-- A definition between two extensions. -/
def scatteredSources : Sources :=
  [(some "early.graphql", [.extension (scatteredPart 8 "b" 21)]),
    (some "base.graphql", [.type (scatteredPart 1 "a" 14)]),
    (some "late.graphql", [.extension (scatteredPart 8 "c" 21)])]

/-- The same definition before the two extensions. -/
def sortedSources : Sources :=
  [(some "base.graphql", [.type (scatteredPart 1 "a" 14)]),
    (some "early.graphql", [.extension (scatteredPart 8 "b" 21)]),
    (some "late.graphql", [.extension (scatteredPart 8 "c" 21)])]

/-- The schema of the three files is built in either order, with its fields in another order. -/
theorem scatteredSources_ofSources_perm :
    scatteredSources.script.Perm sortedSources.script ∧
      Schema.ofSources false scatteredSources = .ok scatteredSchema ∧
      ∃ schema, Schema.ofSources false sortedSources = .ok schema ∧
        scatteredSchema.Reordered schema := by
  have same : scatteredSources.script.Perm sortedSources.script := .swap _ _ _
  have built : Schema.ofSources false scatteredSources = .ok scatteredSchema := by cbv
  rcases Schema.ofSources_perm same false with ⟨buildable, reordered⟩
  rcases buildable.mp ⟨scatteredSchema, built⟩ with ⟨schema, built'⟩
  exact ⟨same, built, schema, built', reordered scatteredSchema schema built built'⟩

end SchemaUnfolding
