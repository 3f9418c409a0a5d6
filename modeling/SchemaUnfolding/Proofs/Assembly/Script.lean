import SchemaUnfolding.Proofs.Assembly.Parts
import SchemaUnfolding.Proofs.Schema.Loaded

/-!
# Scripts

A script is all that was loaded into a builder, definition by definition, over all sources. This
file says what a script holds: type definitions, extensions of types and choices of root types. The
extensions of a type stand earlier or later than its definition, which makes a difference to the
builder.
-/

namespace SchemaUnfolding

/-- Definitions in the order of their loading, each with the file that it is in. -/
abbrev Script := List (Option String × Sdl.Definition)

namespace Script

/-! ## What a script holds -/

/-- The type definitions of a script. -/
def definitions (script : Script) : List Part :=
  script.filterMap fun
    | (file, .type decl) => some (file, decl)
    | _ => none

/-- The extensions of types in a script. -/
def extensions (script : Script) : List Part :=
  script.filterMap fun
    | (file, .extension decl) => some (file, decl)
    | _ => none

/-- The extensions of the type of a name. -/
def extensionsOf (name : String) (script : Script) : List Part :=
  script.extensions.filter fun part => part.name = name

/-- The choice of a root type. -/
def pick (location : Location) (operation : OperationKind) :
    Option String → List (OperationKind × NamedRef)
  | none => []
  | some name => [(operation, ⟨name, location⟩)]

/-- The root types that a schema block chooses. -/
def picksOf (file : Option String) (block : Sdl.SchemaBlock) : List (OperationKind × NamedRef) :=
  let location := Location.source file block.position
  pick location .query block.query ++ pick location .mutation block.mutation ++
    pick location .subscription block.subscription

/-- The root types that the schema blocks of a script choose. -/
def picks (script : Script) : List (OperationKind × NamedRef) :=
  script.flatMap fun
    | (file, .schema block) => picksOf file block
    | _ => []

variable {script rest before after : Script} {name : String}

@[simp]
theorem definitions_append :
    (script ++ rest).definitions = script.definitions ++ rest.definitions :=
  List.filterMap_append

@[simp]
theorem extensions_append : (script ++ rest).extensions = script.extensions ++ rest.extensions :=
  List.filterMap_append

@[simp]
theorem extensionsOf_append :
    (script ++ rest).extensionsOf name = script.extensionsOf name ++ rest.extensionsOf name := by
  simp [extensionsOf]

@[simp]
theorem picks_append : (script ++ rest).picks = script.picks ++ rest.picks :=
  List.flatMap_append

/-! ## Earlier and later extensions -/

/-- Whether an entry of a script defines the type of a name. -/
def defines (name : String) : Option String × Sdl.Definition → Bool
  | (_, .type decl) => decl.name = name
  | _ => false

/-- The extensions of a type that stand before its definition, or all if it has none. -/
def earlier (name : String) (script : Script) : List Part :=
  extensionsOf name (script.takeWhile fun entry => !defines name entry)

/-- The extensions of a type that stand after its definition. -/
def later (name : String) (script : Script) : List Part :=
  extensionsOf name (script.dropWhile fun entry => !defines name entry)

theorem earlier_append_later :
    script.earlier name ++ script.later name = script.extensionsOf name := by
  rw [earlier, later, ← extensionsOf_append, List.takeWhile_append_dropWhile]

theorem later_sublist (name : String) (script : Script) :
    (script.later name).Sublist (script.extensionsOf name) := by
  rw [← earlier_append_later]
  exact List.sublist_append_right ..

theorem mem_names_definitions_iff :
    name ∈ script.definitions.map Part.name ↔ ∃ entry ∈ script, defines name entry = true := by
  constructor
  · intro known
    rcases List.mem_map.mp known with ⟨part, defined, rfl⟩
    rcases List.mem_filterMap.mp defined with ⟨⟨file, definition⟩, member, same⟩
    cases definition with
    | type decl =>
      cases same
      exact ⟨_, member, decide_eq_true rfl⟩
    | _ => cases same
  · rintro ⟨⟨file, definition⟩, member, known⟩
    cases definition with
    | type decl =>
      exact List.mem_map.mpr ⟨(file, decl), List.mem_filterMap.mpr ⟨_, member, rfl⟩,
        of_decide_eq_true known⟩
    | _ => cases known

theorem defines_eq_false_of_not_mem (undefined : name ∉ script.definitions.map Part.name) :
    ∀ entry ∈ script, (!defines name entry) = true := by
  intro entry member
  cases known : defines name entry with
  | false => rfl
  | true => exact absurd (mem_names_definitions_iff.mpr ⟨entry, member, known⟩) undefined

theorem earlier_append_of_undefined (undefined : name ∉ script.definitions.map Part.name) :
    (script ++ rest).earlier name = script.extensionsOf name ++ rest.earlier name := by
  have skipped := defines_eq_false_of_not_mem undefined
  rw [earlier, List.takeWhile_append_of_pos skipped, extensionsOf_append, earlier]

theorem later_append_of_undefined (undefined : name ∉ script.definitions.map Part.name) :
    (script ++ rest).later name = rest.later name := by
  have skipped := defines_eq_false_of_not_mem undefined
  rw [later, List.dropWhile_append_of_pos skipped, later]

theorem later_append_of_defined (defined : name ∈ script.definitions.map Part.name) :
    (script ++ rest).later name = script.later name ++ rest.extensionsOf name := by
  have found : script.dropWhile (fun entry => !defines name entry) ≠ [] := by
    rw [ne_eq, List.dropWhile_eq_nil_iff]
    intro skipped
    rcases mem_names_definitions_iff.mp defined with ⟨entry, member, known⟩
    simpa [known] using skipped entry member
  rw [later, List.dropWhile_append, if_neg (by simpa using found), extensionsOf_append, later]

theorem earlier_append_of_defined (defined : name ∈ script.definitions.map Part.name) :
    (script ++ rest).earlier name = script.earlier name := by
  have whole : (script ++ rest).earlier name ++ (script ++ rest).later name =
      script.earlier name ++ (script ++ rest).later name := by
    rw [earlier_append_later, later_append_of_defined defined, ← List.append_assoc,
      earlier_append_later, extensionsOf_append]
  exact List.append_cancel_right whole

theorem later_of_undefined (undefined : name ∉ script.definitions.map Part.name) :
    script.later name = [] := by
  have none : (script ++ []).later name = [] := later_append_of_undefined undefined
  rwa [List.append_nil] at none

theorem earlier_of_undefined (undefined : name ∉ script.definitions.map Part.name) :
    script.earlier name = script.extensionsOf name := by
  rw [← earlier_append_later, later_of_undefined undefined, List.append_nil]

/-- What does not extend a type leaves its extensions where they are. -/
theorem earlier_append_of_extensionless (none : rest.extensionsOf name = []) :
    (script ++ rest).earlier name = script.earlier name := by
  by_cases defined : name ∈ script.definitions.map Part.name
  · exact earlier_append_of_defined defined
  · have absent : rest.earlier name = [] :=
      (List.append_eq_nil_iff.mp (earlier_append_later.trans none)).1
    rw [earlier_append_of_undefined defined, earlier_of_undefined defined, absent,
      List.append_nil]

theorem later_append_of_extensionless (none : rest.extensionsOf name = []) :
    (script ++ rest).later name = script.later name := by
  have whole : script.earlier name ++ (script ++ rest).later name =
      script.earlier name ++ script.later name := by
    rw [← earlier_append_of_extensionless none, earlier_append_later, extensionsOf_append, none,
      List.append_nil, earlier_append_of_extensionless none, earlier_append_later]
  exact List.append_cancel_left whole

end Script

/-! ## Loading -/

namespace SchemaBuilder

/-- Enter a script, up to the first definition that cannot be entered. -/
def enter (builder : SchemaBuilder) (script : Script) : Except BuildError SchemaBuilder :=
  script.foldlM (fun builder entry => builder.add entry.1 entry.2) builder

/-- Entering the definitions of a source is entering the script that they make. -/
theorem addAll_snd {builder : SchemaBuilder} {file : Option String}
    {definitions : List Sdl.Definition} :
    (builder.addAll file definitions).2 = builder.enter (definitions.map (file, ·)) := by
  induction definitions generalizing builder with
  | nil => rfl
  | cons definition rest ih =>
    rw [addAll, enter, List.map_cons, List.foldlM_cons]
    split
    · rename_i error failed
      rw [failed]
      rfl
    · rename_i next entered
      rw [entered]
      exact ih

/-- A builder that came about by loading sources one after the other, with the script that their
definitions make. -/
inductive LoadedFrom : Script → SchemaBuilder → Prop
  | empty : LoadedFrom [] .empty
  | assuming {script : Script} {builder : SchemaBuilder} (assumeValid : Bool) :
      LoadedFrom script builder → LoadedFrom script { builder with assumeValid }
  | load {script : Script} {builder next : SchemaBuilder} {file : Option String} {source : String}
      {definitions : List Sdl.Definition} {events : List Event} :
      LoadedFrom script builder → Sdl.definitions source = .ok definitions →
      builder.load file source = (events, .ok next) →
      LoadedFrom (script ++ definitions.map (file, ·)) next

theorem LoadedFrom.loaded {script : Script} {builder : SchemaBuilder}
    (known : LoadedFrom script builder) : builder.Loaded := by
  induction known with
  | empty => exact .empty
  | assuming assumeValid _ ih => exact ih.assuming assumeValid
  | load _ _ succeeded ih => exact ih.load succeeded

/-- A source that is loaded has definitions, which go on with the script. -/
theorem LoadedFrom.exists_definitions {script : Script} {builder next : SchemaBuilder}
    {file : Option String} {source : String} {events : List Event}
    (known : LoadedFrom script builder)
    (succeeded : builder.load file source = (events, .ok next)) :
    ∃ definitions, Sdl.definitions source = .ok definitions ∧
      LoadedFrom (script ++ definitions.map (file, ·)) next := by
  have read := succeeded
  rw [SchemaBuilder.load] at read
  split at read
  · cases read
  · rename_i definitions parsed
    exact ⟨definitions, parsed, known.load parsed succeeded⟩

/-- Whatever was loaded, it makes a script. -/
theorem Loaded.exists_script {builder : SchemaBuilder} (loaded : builder.Loaded) :
    ∃ script, LoadedFrom script builder := by
  induction loaded with
  | empty => exact ⟨[], .empty⟩
  | assuming assumeValid _ ih =>
    rcases ih with ⟨script, known⟩
    exact ⟨script, known.assuming assumeValid⟩
  | load _ succeeded ih =>
    rcases ih with ⟨script, known⟩
    rcases known.exists_definitions succeeded with ⟨definitions, _, longer⟩
    exact ⟨_, longer⟩

theorem enter_of_load {builder next : SchemaBuilder} {file : Option String} {source : String}
    {definitions : List Sdl.Definition} {events : List Event}
    (parsed : Sdl.definitions source = .ok definitions)
    (loaded : builder.load file source = (events, .ok next)) :
    builder.enter (definitions.map (file, ·)) = .ok next := by
  rw [load, parsed] at loaded
  rw [← addAll_snd]
  exact congrArg Prod.snd loaded

end SchemaBuilder

/-! ## A type in three files -/

/-- A part of the type `Query` that declares one field. -/
def scatteredPart (column : Nat) (name : String) (fieldColumn : Nat) : Sdl.TypeDecl :=
  ⟨⟨1, column⟩, none, "Query", [],
    .object [] [⟨⟨1, fieldColumn⟩, none, name, [], .named "Int", []⟩]⟩

/-- A definition between two extensions, each in a file of its own. -/
def scatteredScript : Script :=
  [(some "early.graphql", .extension (scatteredPart 8 "b" 21)),
    (some "base.graphql", .type (scatteredPart 1 "a" 14)),
    (some "late.graphql", .extension (scatteredPart 8 "c" 21))]

/-- The field that a part of the type `Query` declares. -/
def scatteredField (file name : String) (column : Nat) : String × Field :=
  let location := Location.source (some file) ⟨1, column⟩
  (name, ⟨location, none, none, name, .empty, "Query", .named true ⟨"Int", location⟩⟩)

/-- The type `Query` with some fields. -/
def scatteredQuery (fields : List (String × Field)) : TypeDef :=
  .object ⟨.source (some "base.graphql") ⟨1, 1⟩, none, .ofList fields, [], "Query"⟩

/-- The builder after the first of the three files: the extension waits. -/
def scatteredWaiting : SchemaBuilder where
  pending := [(some "early.graphql", scatteredPart 8 "b" 21)]

/-- The builder after two files. -/
def scatteredDefined : SchemaBuilder where
  types := TypeDef.builtIns.insert "Query" (scatteredQuery [scatteredField "base.graphql" "a" 14])
  pending := scatteredWaiting.pending

/-- The builder after all three files. -/
def scatteredBuilder : SchemaBuilder where
  types := TypeDef.builtIns.insert "Query" (scatteredQuery
    [scatteredField "base.graphql" "a" 14, scatteredField "late.graphql" "c" 21])
  pending := scatteredWaiting.pending

/-- The schema in the three files. -/
def scatteredSchema : Schema where
  query := some ⟨"Query", .source (some "base.graphql") ⟨1, 1⟩⟩
  mutation := none
  subscription := none
  types := TypeDef.builtIns.insert "Query" (scatteredQuery
    [scatteredField "base.graphql" "a" 14, scatteredField "late.graphql" "c" 21,
      scatteredField "early.graphql" "b" 21])

theorem loadedFrom_scatteredScript : SchemaBuilder.LoadedFrom scatteredScript scatteredBuilder := by
  have early : Sdl.definitions "extend type Query { b: Int }" =
      .ok [.extension (scatteredPart 8 "b" 21)] := by cbv
  have base : Sdl.definitions "type Query { a: Int }" =
      .ok [.type (scatteredPart 1 "a" 14)] := by cbv
  have late : Sdl.definitions "extend type Query { c: Int }" =
      .ok [.extension (scatteredPart 8 "c" 21)] := by cbv
  have first : SchemaBuilder.empty.load (some "early.graphql") "extend type Query { b: Int }" =
      ([], .ok scatteredWaiting) := by cbv
  have second : scatteredWaiting.load (some "base.graphql") "type Query { a: Int }" =
      ([], .ok scatteredDefined) := by cbv
  have third : scatteredDefined.load (some "late.graphql") "extend type Query { c: Int }" =
      ([], .ok scatteredBuilder) := by cbv
  exact .load (.load (.load .empty early first) base second) late third

theorem build_scatteredBuilder : scatteredBuilder.build = .ok scatteredSchema := by
  cbv

end SchemaUnfolding
