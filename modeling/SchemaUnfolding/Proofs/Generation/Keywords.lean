import SchemaUnfolding.Proofs.Executable.Exact

/-!
# Keywords that open documents

A document opens with a keyword that is looked for in the name of the root type, and not with that
of the kind it is generated for. The two are the same exactly when the name contains no keyword of a
kind that is looked for before.
-/

namespace SchemaUnfolding

/-! ## Kinds that a name contains -/

namespace OperationKind

/-- The name of a root type contains the keyword of a kind, in any case of letters. -/
def IsNamedIn (kind : OperationKind) (root : String) : Prop :=
  Text.contains (Text.lowerAscii root) kind.keyword = true

instance (kind : OperationKind) (root : String) : Decidable (kind.IsNamedIn root) :=
  inferInstanceAs (Decidable (_ = true))

/-- The kinds that are looked for before a kind. -/
def earlier : OperationKind → List OperationKind
  | query => []
  | mutation => [query]
  | subscription => [query, mutation]

/-- A name contains no kind that is looked for before the one that is found. -/
theorem named?_eq_some_iff {root : String} {kind : OperationKind} :
    named? root = some kind ↔
      kind.IsNamedIn root ∧ ∀ other ∈ kind.earlier, ¬ other.IsNamedIn root := by
  have chosen : named? root =
      if query.IsNamedIn root then some query
      else if mutation.IsNamedIn root then some mutation
      else if subscription.IsNamedIn root then some subscription else none := by
    simp only [named?, all, List.find?_cons, IsNamedIn]
    repeat' split <;> simp_all
  rw [chosen]
  cases kind <;> simp only [earlier] <;> grind

/-- The keywords start with different letters. -/
theorem eq_of_keyword_append_eq {kind other : OperationKind} {rest others : String}
    (same : kind.keyword ++ rest = other.keyword ++ others) : kind = other := by
  have letters := congrArg (fun text => text.toList.head?) same
  simp only [String.toList_append] at letters
  cases kind <;> cases other <;> first | rfl | simp [keyword] at letters

end OperationKind

/-! ## Openings -/

/-- The text of an operation starts with a word and the name of its field. -/
def Operation.OpensWith (operation : Operation) (word : String) : Prop :=
  ∃ rest, operation.text = word ++ " " ++ operation.field ++ rest

theorem Document.exists_text (document : Document) :
    ∃ rest, document.text = document.keyword ++ " " ++ document.name ++ rest := by
  rw [text_eq_append, header]
  exact ⟨_, String.append_assoc ..⟩

/-- A text opens with one keyword at most. -/
theorem Operation.OpensWith.unique {operation : Operation} {kind other : OperationKind}
    (first : operation.OpensWith kind.keyword) (second : operation.OpensWith other.keyword) :
    kind = other := by
  obtain ⟨rest, text⟩ := first
  obtain ⟨others, same⟩ := second
  rw [text] at same
  simp only [String.append_assoc] at same
  exact OperationKind.eq_of_keyword_append_eq same

namespace Generation

variable {schema : Schema} {config : Config} {kind : OperationKind} {root : FieldedType}
  {field : Field} {before after : Array Event} {result : Operation}

/-- An operation opens with the keyword that is found in the name of its root type. -/
theorem opensWith_of_named? {first : OperationKind}
    (found : OperationKind.named? root.name = some first)
    (returned : (operation schema config kind root field).Returns before result after) :
    result.OpensWith first.keyword := by
  obtain ⟨selection, progress, _, rfl, _⟩ := returns_operation_iff.mp returned
  have keyword : operationKeyword root.name = first.keyword := by
    rw [operationKeyword, found]
    rfl
  obtain ⟨rest, opened⟩ := Document.exists_text (.ofExpansion root field selection progress)
  exact ⟨rest, by rw [← keyword]; exact opened⟩

/-- Where the name of a root type contains the keyword of its kind, a document opens with the first
keyword that is found in the name. That is the keyword of the kind exactly when the name contains
none that is looked for before. In a checked schema there is such a document for each field. -/
theorem opensWith_keyword_iff (rooted : schema.root? kind = some root)
    (declared : field ∈ root.fields.values) (worded : kind.IsNamedIn root.name) :
    (schema.Checked → ∀ before, ∃ result after,
      (operation schema config kind root field).Returns before result after) ∧
    ∀ {before after : Array Event} {result : Operation},
      (operation schema config kind root field).Returns before result after →
      (∃ first : OperationKind, first.IsNamedIn root.name ∧
        (∀ other ∈ first.earlier, ¬ other.IsNamedIn root.name) ∧
        result.OpensWith first.keyword) ∧
      (result.OpensWith kind.keyword ↔ ∀ other ∈ kind.earlier, ¬ other.IsNamedIn root.name) := by
  constructor
  · intro checked
    have never : (operation schema config kind root field).Faultless :=
      faultless_operation checked.closed (Schema.offers_of_root? rooted declared)
    exact never.returns
  · intro before after result returned
    obtain ⟨first, found⟩ := Option.isSome_iff_exists.mp (OperationKind.isSome_named? worded)
    have opened := opensWith_of_named? found returned
    obtain ⟨contained, none⟩ := OperationKind.named?_eq_some_iff.mp found
    refine ⟨⟨first, contained, none, opened⟩, ?_⟩
    constructor
    · intro own
      rwa [own.unique opened]
    · intro alone
      have own := OperationKind.named?_eq_some_iff.mpr ⟨worded, alone⟩
      exact opensWith_of_named? own returned

end Generation

/-! ## A schema with a root type that is named for two kinds -/

/-- The source of a schema with a root type for mutations that is named for queries too. -/
def mixedSource : String :=
  "schema { mutation: QueryMutation } type Query { a: Int } " ++
  "type QueryMutation { a: Int } type Subscription { a: Int }"

/-- The only field of a root type of that schema. -/
def mixedField (holder : String) (column : Nat) : Field :=
  ⟨sampleAt column, none, none, "a", .empty, holder, .named true ⟨"Int", sampleAt column⟩⟩

/-- A root type of that schema. -/
def mixedRoot (name : String) (column fieldColumn : Nat) : FieldedType :=
  ⟨sampleAt column, none, .ofList [("a", mixedField name fieldColumn)], [], name⟩

/-- The root type for mutations of that schema. -/
def mixedMutation : FieldedType := mixedRoot "QueryMutation" 58 79

/-- The root type for subscriptions of that schema. -/
def mixedSubscription : FieldedType := mixedRoot "Subscription" 88 108

/-- That schema. -/
def mixedSchema : Schema where
  query := some ⟨"Query", sampleAt 36⟩
  mutation := some ⟨"QueryMutation", sampleAt 1⟩
  subscription := some ⟨"Subscription", sampleAt 88⟩
  types := TypeDef.builtIns.insertAll
    [("Query", .object (mixedRoot "Query" 36 49)), ("QueryMutation", .object mixedMutation),
      ("Subscription", .object mixedSubscription)]

/-- The builder after that source. -/
def mixedBuilder : SchemaBuilder where
  types := mixedSchema.types
  mutation := mixedSchema.mutation

theorem load_mixedSource :
    SchemaBuilder.empty.load none mixedSource = ([], .ok mixedBuilder) := by
  refine (SchemaBuilder.load_of_toList
    (toList_append_of_toList String.toList_ofList String.toList_ofList)).trans ?_
  cbv

theorem mixedSchema_checked : mixedSchema.Checked := by
  refine ⟨mixedBuilder, .load .empty load_mixedSource, rfl, ?_⟩
  cbv

/-- What is generated for a field of a root type of that schema. -/
def mixedGeneration (kind : OperationKind) (root : FieldedType) (field : Field) :
    Generation Operation :=
  Generation.operation mixedSchema {} kind root field

/-- The document for a subscription opens with the keyword of subscriptions, because no other
keyword is found in the name of the root type. -/
theorem mixedSchema_opens_alike :
    mixedSchema.Checked ∧ mixedSchema.root? .subscription = some mixedSubscription ∧
      OperationKind.subscription.IsNamedIn mixedSubscription.name ∧
      ∃ field ∈ mixedSubscription.fields.values, ∃ operation after,
        (mixedGeneration .subscription mixedSubscription field).Returns #[] operation after ∧
          operation.OpensWith OperationKind.subscription.keyword := by
  have rooted : mixedSchema.root? .subscription = some mixedSubscription := by decide
  have declared : mixedField "Subscription" 108 ∈ mixedSubscription.fields.values := by
    decide
  have worded : OperationKind.subscription.IsNamedIn mixedSubscription.name := by decide +kernel
  have alone : ∀ other ∈ OperationKind.subscription.earlier,
      ¬ other.IsNamedIn mixedSubscription.name := by
    decide +kernel
  have ⟨exist, opens⟩ := @Generation.opensWith_keyword_iff _ {} _ _ _ rooted declared worded
  obtain ⟨operation, after, returned⟩ := exist mixedSchema_checked #[]
  exact ⟨mixedSchema_checked, rooted, worded, _, declared, operation, after, returned,
    (opens returned).2.mpr alone⟩

/-- The document for a mutation opens with the keyword of queries. -/
theorem mixedSchema_opens_otherwise :
    mixedSchema.Built ∧ mixedSchema.root? .mutation = some mixedMutation ∧
      OperationKind.mutation.IsNamedIn mixedMutation.name ∧
      ∃ field ∈ mixedMutation.fields.values, ∃ operation after,
        (mixedGeneration .mutation mixedMutation field).Returns #[] operation after ∧
          operation.text = "query a\x7b\n    a\n\x7d" ∧
          ¬ operation.OpensWith OperationKind.mutation.keyword := by
  have rooted : mixedSchema.root? .mutation = some mixedMutation := by decide
  have declared : mixedField "QueryMutation" 79 ∈ mixedMutation.fields.values := by
    decide
  have worded : OperationKind.mutation.IsNamedIn mixedMutation.name := by decide +kernel
  have found : OperationKind.named? mixedMutation.name = some .query := by decide +kernel
  have never : (mixedGeneration .mutation mixedMutation
      (mixedField "QueryMutation" 79)).Faultless :=
    Generation.faultless_operation mixedSchema_checked.closed
      (Schema.offers_of_root? rooted declared)
  obtain ⟨operation, after, returned⟩ := never.returns #[]
  have evaluated : ((mixedGeneration .mutation mixedMutation
      (mixedField "QueryMutation" 79)).run.run #[]).1.toOption.map Operation.text =
        some "query a\x7b\n    a\n\x7d" := by
    decide +kernel
  have ran : (mixedGeneration .mutation mixedMutation
      (mixedField "QueryMutation" 79)).run.run #[] = (.ok operation, after) := returned
  rw [ran] at evaluated
  refine ⟨mixedSchema_checked.built, rooted, worded, _, declared, operation, after, returned,
    Option.some.inj evaluated, ?_⟩
  intro own
  cases own.unique (Generation.opensWith_of_named? found returned)

end SchemaUnfolding
