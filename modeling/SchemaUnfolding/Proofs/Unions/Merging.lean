import SchemaUnfolding.Proofs.Unions.Fragments

/-!
# Fields of one name in the fragments for a union

Unlike the fields that types have beyond an interface, the fields of the members of a union go by
their own names also where their types differ. So the fragments below a field whose type is a union
agree exactly when the members themselves do, as far as their fields are included and not left out.
-/

namespace SchemaUnfolding

open Expansion

/-! ## Agreement -/

namespace Node

/-- Fields that answer by one name in the fragments for different types have equivalent types. -/
def FragmentsAgree (schema : Schema) (node : Node) : Prop :=
  ∀ first ∈ node.inside, ∀ second ∈ node.inside, first.type ≠ second.type →
    first.response = second.response →
      ∃ field other, schema.fieldOf? first.type first.name = some field ∧
        schema.fieldOf? second.type second.name = some other ∧
        field.type.equivalent other.type = true

/-- In one of the fragments a field of a name stands whose type is a composite. -/
def ShowsComposite (schema : Schema) (node : Node) (name : String) : Prop :=
  ∃ inside ∈ node.inside, inside.name = name ∧
    ∃ field, schema.fieldOf? inside.type name = some field ∧ schema.IsCompositeField field

end Node

/-- Included fields of one name of different members have equivalent types, unless one of them is a
composite and the fields of that name that are composites are left out. -/
def UnionType.MembersAgree (schema : Schema) (config : Config) (node : Node) (union : UnionType) :
    Prop :=
  ∀ first ∈ union.members.names, ∀ second ∈ union.members.names, first ≠ second →
    ∀ field ∈ schema.fieldsOf first, ∀ other ∈ schema.fieldsOf second,
      config.includes field = true → config.includes other = true → field.name = other.name →
      (schema.IsCompositeField field ∨ schema.IsCompositeField other →
        node.ShowsComposite schema field.name) →
      field.type.equivalent other.type = true

section Merging

variable {schema : Schema} {config : Config} {node : Node} {union : UnionType} {edges : Edges}
  {site : Site}

/-- What is left out is so by its name, so a field stands in the fragments if it is no composite or
if a composite of its name does. -/
theorem Node.SelectsMembers.standsAt (selects : node.SelectsMembers schema config union edges site)
    (wellFormed : schema.WellFormed) {field : Field}
    (shown : schema.IsCompositeField field → node.ShowsComposite schema field.name) :
    field.StandsAt schema config edges site := by
  intro composite
  obtain ⟨inside, member, named, known, found, knownComposite⟩ := shown composite
  obtain ⟨_, _, other, declared, otherNamed, _, stands⟩ := (selects inside).mp member
  have same := wellFormed.fieldOf?_of_mem_fieldsOf declared
  rw [otherNamed, named, found, Option.some.injEq] at same
  rw [← same] at stands otherNamed
  rw [omission?_eq_none_congr (named.symm.trans otherNamed.symm)]
  exact stands knownComposite

/-- Where the fragments agree, the members do. -/
theorem Node.SelectsMembers.membersAgree
    (selects : node.SelectsMembers schema config union edges site) (wellFormed : schema.WellFormed)
    (agree : node.FragmentsAgree schema) : union.MembersAgree schema config node := by
  intro first firstMember second secondMember different field declared other otherDeclared included
    otherIncluded named shown
  have stands := selects.standsAt wellFormed fun composite => shown (.inl composite)
  have otherStands : other.StandsAt schema config edges site :=
    selects.standsAt wellFormed fun composite => named ▸ shown (.inr composite)
  have inside : ⟨first, none, field.name⟩ ∈ node.inside :=
    (selects _).mpr ⟨rfl, firstMember, field, declared, rfl, included, stands⟩
  have otherInside : ⟨second, none, other.name⟩ ∈ node.inside :=
    (selects _).mpr ⟨rfl, secondMember, other, otherDeclared, rfl, otherIncluded, otherStands⟩
  obtain ⟨_, _, found, otherFound, equivalent⟩ := agree _ inside _ otherInside different named
  cases (wellFormed.fieldOf?_of_mem_fieldsOf declared).symm.trans found
  cases (wellFormed.fieldOf?_of_mem_fieldsOf otherDeclared).symm.trans otherFound
  exact equivalent

/-- Where the members agree, the fragments do. -/
theorem Node.SelectsMembers.fragmentsAgree
    (selects : node.SelectsMembers schema config union edges site) (wellFormed : schema.WellFormed)
    (agree : union.MembersAgree schema config node) : node.FragmentsAgree schema := by
  intro first firstInside second secondInside different answer
  obtain ⟨unlabelled, member, field, declared, named, included, _⟩ := (selects first).mp firstInside
  obtain ⟨otherUnlabelled, otherMember, other, otherDeclared, otherNamed, otherIncluded, _⟩ :=
    (selects second).mp secondInside
  have sameName : first.name = second.name := by
    simpa [Inside.response, unlabelled, otherUnlabelled] using answer
  have found : schema.fieldOf? first.type first.name = some field :=
    named ▸ wellFormed.fieldOf?_of_mem_fieldsOf declared
  have otherFound : schema.fieldOf? second.type second.name = some other :=
    otherNamed ▸ wellFormed.fieldOf?_of_mem_fieldsOf otherDeclared
  refine ⟨field, other, found, otherFound, ?_⟩
  refine agree _ member _ otherMember different field declared other otherDeclared included
    otherIncluded (named.trans (sameName.trans otherNamed.symm)) ?_
  rintro (composite | composite)
  · exact ⟨first, firstInside, named.symm, field, named ▸ found, composite⟩
  · have answers : second.name = field.name := sameName.symm.trans named.symm
    exact ⟨second, secondInside, answers, other, answers ▸ otherFound, composite⟩

/-- The fragments below a node whose type is a union agree exactly when the members do. -/
theorem Node.IsExpanded.fragmentsAgree_iff (known : node.IsExpanded schema config)
    (wellFormed : schema.WellFormed) {field : Field}
    (found : schema.fieldOf? node.holder node.name = some field)
    (typed : schema.type? field.type.name = some (.union union)) :
    node.FragmentsAgree schema ↔ union.MembersAgree schema config node := by
  obtain ⟨edges, site, selects⟩ := known.exists_selectsMembers found typed
  exact ⟨selects.membersAgree wellFormed, selects.fragmentsAgree wellFormed⟩

end Merging

/-! ## Documents -/

/-- Whatever was loaded: below a field of a document whose type is a union, fields that answer by
one name in the fragments for different members have equivalent types exactly when the fields of
those members do, of those that are included and not left out. -/
theorem Schema.Built.fragmentsAgree_iff_membersAgree {schema : Schema} (built : schema.Built)
    {config : Config} {kind : OperationKind} {root : FieldedType} {field : Field}
    (rooted : schema.root? kind = some root) (declared : field ∈ root.fields.values)
    {before after : Array Event} {operation : Operation}
    (returned : (Generation.operation schema config kind root field).Returns before operation
      after) {node : Node} (member : node ∈ operation.document.nodes schema root.name)
    {shown : Field} (found : schema.fieldOf? node.holder node.name = some shown)
    {union : UnionType} (typed : schema.type? shown.type.name = some (.union union)) :
    node.FragmentsAgree schema ↔ union.MembersAgree schema config node := by
  have wellFormed := built.wellFormed
  have expanded := wellFormed.nodes_expanded rooted declared returned node member
  exact expanded.fragmentsAgree_iff wellFormed found typed

/-! ## Two unions -/

/-- The source of a schema with two unions. Fields of one name have different types in the members
of the first one and the same type in those of the second one. -/
def choiceSource : String :=
  "type Query { u: U v: V } union U = A | B union V = A | C " ++
  "type A { x: Int } type B { x: String } type C { x: Int }"

/-- A field of a type of that schema. -/
def choiceField (holder name type : String) (column : Nat) : Field :=
  ⟨sampleAt column, none, none, name, .empty, holder, .named true ⟨type, sampleAt column⟩⟩

/-- An object type of that schema. -/
def choiceType (name : String) (column : Nat) (fields : List Field) : FieldedType :=
  ⟨sampleAt column, none, .ofList (fields.map fun field => (field.name, field)), [], name⟩

/-- A union of that schema. -/
def choiceUnion (name : String) (column : Nat) (members : List String) : UnionType :=
  ⟨sampleAt column, none, name,
    .ofList (members.map fun member => (member, ⟨member, sampleAt column⟩))⟩

/-- The root type of that schema. -/
def choiceQuery : FieldedType :=
  choiceType "Query" 1 [choiceField "Query" "u" "U" 14, choiceField "Query" "v" "V" 19]

/-- The other object types of that schema. -/
def choiceObjects : List FieldedType :=
  [choiceType "A" 58 [choiceField "A" "x" "Int" 67],
    choiceType "B" 76 [choiceField "B" "x" "String" 85],
    choiceType "C" 97 [choiceField "C" "x" "Int" 106]]

/-- That schema. -/
def choiceSchema : Schema where
  query := some ⟨"Query", sampleAt 1⟩
  mutation := none
  subscription := none
  types := TypeDef.builtIns.insertAll
    (("Query", .object choiceQuery) :: ("U", .union (choiceUnion "U" 26 ["A", "B"])) ::
      ("V", .union (choiceUnion "V" 42 ["A", "C"])) ::
      choiceObjects.map fun type => (type.name, .object type))

theorem load_choiceSource :
    SchemaBuilder.empty.load none choiceSource = ([], .ok { types := choiceSchema.types }) := by
  refine (SchemaBuilder.load_of_toList
    (toList_append_of_toList String.toList_ofList String.toList_ofList)).trans ?_
  cbv

theorem choiceSchema_checked : choiceSchema.Checked := by
  refine ⟨{ types := choiceSchema.types }, .load .empty load_choiceSource, rfl, ?_⟩
  cbv

theorem choiceSchema_rooted : choiceSchema.root? .query = some choiceQuery := by decide

/-- What is generated for a field of the root type of that schema. -/
def choiceGeneration (field : Field) : Generation Operation :=
  Generation.operation choiceSchema {} .query choiceQuery field

/-- What stands in the fragments below the first node that evaluation finds stands in those below
a node of the document. -/
theorem exists_choice_node {field : Field} (declared : field ∈ choiceQuery.fields.values)
    (inside : List Inside)
    (evaluated : ((choiceGeneration field).run.run #[]).1.toOption.bind (fun operation =>
      (operation.document.nodes choiceSchema "Query").head?.map fun node =>
        (node.holder, node.name, node.inside)) = some ("Query", field.name, inside)) :
    ∃ operation after, (choiceGeneration field).Returns #[] operation after ∧
      ∃ node ∈ operation.document.nodes choiceSchema "Query",
        choiceSchema.fieldOf? node.holder node.name = some field ∧ node.inside = inside := by
  have never : (choiceGeneration field).Faultless :=
    Generation.faultless_operation choiceSchema_checked.closed
      (Schema.offers_of_root? choiceSchema_rooted declared)
  obtain ⟨operation, after, returned⟩ := never.returns #[]
  exact ⟨operation, after, returned,
    choiceSchema_checked.built.wellFormed.exists_node_of_eval choiceSchema_rooted declared returned
      evaluated⟩

/-- Below the field whose type is the first union two fields of different types answer by one name
in the fragments for different members. -/
theorem choiceSchema_fragments_disagree :
    choiceSchema.Checked ∧ ∃ operation after,
      (choiceGeneration (choiceField "Query" "u" "U" 14)).Returns #[] operation after ∧
      ∃ node ∈ operation.document.nodes choiceSchema "Query",
        choiceSchema.fieldOf? node.holder node.name = some (choiceField "Query" "u" "U" 14) ∧
        choiceSchema.type? "U" = some (.union (choiceUnion "U" 26 ["A", "B"])) ∧
        ¬ node.FragmentsAgree choiceSchema := by
  have declared : choiceField "Query" "u" "U" 14 ∈ choiceQuery.fields.values := by decide
  obtain ⟨operation, after, returned, node, member, found, inside⟩ :=
    exists_choice_node declared [⟨"A", none, "x"⟩, ⟨"B", none, "x"⟩] (by decide)
  refine ⟨choiceSchema_checked, operation, after, returned, node, member, found, by decide,
    ?_⟩
  intro agree
  obtain ⟨field, other, declared, otherDeclared, equivalent⟩ :=
    agree ⟨"A", none, "x"⟩ (by simp [inside]) ⟨"B", none, "x"⟩ (by simp [inside]) (by decide) rfl
  have first : choiceSchema.fieldOf? "A" "x" = some (choiceField "A" "x" "Int" 67) := by
    decide
  have second : choiceSchema.fieldOf? "B" "x" = some (choiceField "B" "x" "String" 85) := by
    decide
  cases first.symm.trans declared
  cases second.symm.trans otherDeclared
  exact absurd equivalent (by decide)

/-- Below the other field they agree, because the members do. -/
theorem choiceSchema_fragments_agree :
    ∃ operation after,
      (choiceGeneration (choiceField "Query" "v" "V" 19)).Returns #[] operation after ∧
      ∃ node ∈ operation.document.nodes choiceSchema "Query",
        node.inside = [⟨"A", none, "x"⟩, ⟨"C", none, "x"⟩] ∧ node.FragmentsAgree choiceSchema := by
  have declared : choiceField "Query" "v" "V" 19 ∈ choiceQuery.fields.values := by decide
  obtain ⟨operation, after, returned, node, member, found, inside⟩ :=
    exists_choice_node declared [⟨"A", none, "x"⟩, ⟨"C", none, "x"⟩] (by decide)
  have typed : choiceSchema.type? "V" = some (.union (choiceUnion "V" 42 ["A", "C"])) := by
    decide
  have equivalent : ∀ first ∈ (choiceUnion "V" 42 ["A", "C"]).members.names,
      ∀ second ∈ (choiceUnion "V" 42 ["A", "C"]).members.names,
      ∀ field ∈ choiceSchema.fieldsOf first, ∀ other ∈ choiceSchema.fieldsOf second,
        field.type.equivalent other.type = true := by
    decide
  have agree : (choiceUnion "V" 42 ["A", "C"]).MembersAgree choiceSchema {} node := by
    intro first firstMember second secondMember _ field declared other otherDeclared _ _ _ _
    exact equivalent first firstMember second secondMember field declared other otherDeclared
  exact ⟨operation, after, returned, node, member, inside,
    (choiceSchema_checked.built.fragmentsAgree_iff_membersAgree choiceSchema_rooted declared
      returned member found typed).mpr agree⟩

end SchemaUnfolding
