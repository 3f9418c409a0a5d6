import SchemaUnfolding.Operation.Generation
import SchemaUnfolding.Proofs.Assembly.Origins
import SchemaUnfolding.Proofs.Json.Schemas
import SchemaUnfolding.Proofs.Sdl.Positions

/-!
# Built schemas are read back

A schema that was built from sources is what is read from the text of its JSON, down to the order of
its tables, and so it has the same operations. Brackets are nested too little in any source to reach
the limit for nesting in JSON. Positions are read when they are numbers of 64 bits, which those in
sources of less than 2⁶⁰ characters always are.
-/

namespace SchemaUnfolding

/-- A built schema with addressable positions is read back from its JSON as it is, and the schema
that is read has the same operations. -/
theorem Schema.Built.read_back {schema : Schema} (built : schema.Built)
    (addressable : ∀ location ∈ schema.locations, location.IsAddressable) :
    ∃ read, ofJsonText? schema.toJson.text = some read ∧ read = schema ∧
      ∀ config, Generation.all read config = Generation.all schema config := by
  have shallow : ∀ ref ∈ schema.references, ref.depth ≤ TypeRef.readableDepth :=
    fun ref member => (built.depth_le ref member).trans (by decide)
  exact ⟨schema, ofJsonText?_text addressable shallow, rfl, fun _ => rfl⟩

/-! ## A schema with lists and texts -/

/-- The source of a schema with nested lists and with texts that JSON spells with escapes. -/
def noteSource : String :=
  "\"A \\\"root\\\"\" type Query \x7b notes(of: [[ID!]] = [[\"a\"]]): [String!]! " ++
    "@deprecated(reason: \"\\n\") \x7d"

/-- A place in the source of the schema with lists. -/
def noteAt (column : Nat) : Location := .source (some "notes.graphql") ⟨1, column⟩

/-- The parameter of the field `notes`. -/
def noteParameter : Parameter where
  location := noteAt 33
  default := some "[[\"a\"]]"
  description := none
  name := "of"
  type := .list true (.list true (.named false ⟨"ID", noteAt 33⟩) (noteAt 33)) (noteAt 33)

/-- The field `notes`. -/
def noteField : Field where
  location := noteAt 27
  deprecation := some "\n"
  description := none
  name := "notes"
  parameters := .ofList [("of", noteParameter)]
  parent := "Query"
  type := .list false (.named false ⟨"String", noteAt 27⟩) (noteAt 27)

/-- The schema with lists. -/
def noteSchema : Schema where
  query := some ⟨"Query", noteAt 14⟩
  mutation := none
  subscription := none
  types := TypeDef.builtIns.insertAll [("Query", .object
    ⟨noteAt 14, some "A \"root\"", .ofList [("notes", noteField)], [], "Query"⟩)]

theorem load_noteSource : SchemaBuilder.empty.load (some "notes.graphql") noteSource =
    ([], .ok { types := noteSchema.types }) := by
  refine (SchemaBuilder.load_of_toList
    (toList_append_of_toList String.toList_ofList String.toList_ofList)).trans ?_
  cbv

theorem noteSchema_built : noteSchema.Built := by
  refine ⟨{ types := noteSchema.types }, .load .empty load_noteSource, ?_⟩
  cbv

/-- The schema with lists is read back as it is. -/
theorem noteSchema_read_back :
    noteSchema.Built ∧ (∀ location ∈ noteSchema.locations, location.IsAddressable) ∧
      ∃ read, Schema.ofJsonText? noteSchema.toJson.text = some read ∧ read = noteSchema ∧
        ∀ config, Generation.all read config = Generation.all noteSchema config := by
  have addressable : ∀ location ∈ noteSchema.locations, location.IsAddressable := by
    decide
  exact ⟨noteSchema_built, addressable, noteSchema_built.read_back addressable⟩

/-! ## Sources of a reasonable size -/

/-- The builder after sources were loaded one after the other, each from a file or not. -/
def SchemaBuilder.loadTexts (builder : SchemaBuilder) (sources : List (Option String × String)) :
    Except BuildError SchemaBuilder :=
  sources.foldlM (fun builder source => (builder.load source.1 source.2).2) builder

/-- How many characters of a source are certain to have addressable positions. -/
def Position.addressableLength : Nat := 2 ^ 60

theorem Position.Reached.isAddressable {position : Position} {read : Nat}
    (reached : position.Reached read) (small : read < addressableLength) :
    position.IsAddressable := by
  have line := reached.line
  have column := reached.column
  rw [addressableLength] at small
  constructor <;> omega

/-- All places in a source of a reasonable size are addressable. -/
theorem allows_of_length_lt {file : Option String} {source : String}
    {tokens : List (Position × Sdl.Token)} (scanned : Sdl.tokens source = .ok tokens)
    (small : source.length < Position.addressableLength) :
    Allows Location.IsAddressable file tokens := by
  rintro position (rfl | ⟨token, member⟩)
  · exact Position.reached_start.isAddressable (by decide)
  · exact (Sdl.reached_of_tokens scanned _ member).isAddressable small

theorem SchemaBuilder.exists_script_of_loadTexts {builder : SchemaBuilder} {assumeValid : Bool}
    {sources : List (Option String × String)}
    (loaded : loadTexts { assumeValid } sources = .ok builder)
    (small : ∀ source ∈ sources, source.2.length < Position.addressableLength) :
    ∃ script, LoadedFrom script builder ∧
      script.Within Location.IsAddressable Sdl.Item.nestingLimit := by
  let kept (later : SchemaBuilder) : Prop := ∃ script, LoadedFrom script later ∧
    script.Within Location.IsAddressable Sdl.Item.nestingLimit
  have start : kept { assumeValid } := ⟨[], .assuming assumeValid .empty, fun _ => nofun⟩
  have whole : kept builder := by
    refine foldlM_preserves loaded start ?_
    rintro former ⟨file, source⟩ next member ⟨script, known, within⟩ succeeded
    obtain ⟨definitions, parsed, longer⟩ := known.exists_definitions (Prod.ext rfl succeeded)
    exact ⟨_, longer, within.append parsed fun tokens scanned =>
      allows_of_length_lt scanned (small _ member)⟩
  exact whole

/-- A schema that is built from sources of a reasonable size has addressable positions only. -/
theorem Schema.isAddressable_of_loadTexts {schema : Schema} {builder : SchemaBuilder}
    {assumeValid : Bool} {sources : List (Option String × String)}
    (loaded : SchemaBuilder.loadTexts { assumeValid } sources = .ok builder)
    (small : ∀ source ∈ sources, source.2.length < Position.addressableLength)
    (built : builder.build = .ok schema) :
    ∀ location ∈ schema.locations, location.IsAddressable := by
  obtain ⟨script, known, within⟩ := SchemaBuilder.exists_script_of_loadTexts loaded small
  exact (known.within built within).locations

end SchemaUnfolding
