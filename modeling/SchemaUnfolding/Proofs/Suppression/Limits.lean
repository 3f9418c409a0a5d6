import Mathlib.Data.Set.Card
import SchemaUnfolding.Proofs.Edges.Repeated
import SchemaUnfolding.Proofs.Expansion.Growth
import SchemaUnfolding.Proofs.Interfaces.Standing

/-!
# Limits that no expansion comes to

Where no interface and no union is reached from a root field, leaving out repeated edges ends the
expansion by itself. The keys of the edges above a field that is met are different and remembered,
so a field whose own key is new stands no deeper than there are keys. Above this number the depth
limit changes nothing.
-/

namespace SchemaUnfolding

open Expansion

/-- The same choices but for the depth limit. -/
def Config.limitedTo (config : Config) (limit : Nat) : Config := { config with depthLimit := limit }

/-! ## Objects that are reached -/

namespace Schema

/-- The keys of the edges to the fields reached from a root field whose type is an object. -/
def objectKeys (schema : Schema) (config : Config) (root : String) (start : Field) : Set String :=
  { key | ∃ container field object, schema.Reaches config root start container field ∧
    schema.type? field.type.name = some (.object object) ∧ key = Edges.key container field.name }

/-- No field reached from a root field has a type that may stand for several types. -/
def IsMonomorphicFrom (schema : Schema) (config : Config) (root : String) (start : Field) : Prop :=
  ∀ container field, schema.Reaches config root start container field →
    ∀ type, schema.type? field.type.name = some type → type.isPolymorphic = false

/-- Every field reached from a root field that has fields of its own has an object type. -/
def ReachesObjects (schema : Schema) (config : Config) (root : String) (start : Field) : Prop :=
  ∀ container field, schema.Reaches config root start container field →
    ∀ type, schema.type? field.type.name = some type → type.isComposite = true →
      ∃ object, type = .object object

/-- All fields that can be reached from a root field, and maybe more. -/
def fieldsFrom (schema : Schema) (config : Config) (start : Field) : List Field :=
  start :: schema.types.values.flatMap (ownFields config)

section Reaching

variable {schema : Schema} {config : Config} {root : String} {start : Field}

theorem Reaches.mem_fieldsFrom {container : String} {field : Field}
    (reaches : schema.Reaches config root start container field) :
    field ∈ schema.fieldsFrom config start := by
  cases reaches with
  | start => exact List.mem_cons_self ..
  | onward _ found own =>
    exact List.mem_cons_of_mem _ (List.mem_flatMap_of_mem (mem_values_of_type? found) own)

theorem Reaches.container_mem {container : String} {field : Field}
    (reaches : schema.Reaches config root start container field) :
    container ∈ root :: (schema.fieldsFrom config start).map Field.name := by
  cases reaches with
  | start => exact List.mem_cons_self ..
  | onward above => exact List.mem_cons_of_mem _ (List.mem_map_of_mem above.mem_fieldsFrom)

theorem Reaches.offers {container : String} {field : Field}
    (reaches : schema.Reaches config root start container field) (offered : schema.Offers start) :
    schema.Offers field := by
  cases reaches with
  | start => exact offered
  | onward _ found own => exact offers_of_mem_ownFields (mem_values_of_type? found) own

/-- Pairs of a container and a field among which those that the fields lead to are again hold all
that is reached. -/
theorem Reaches.mem_of_closed {pairs : List (String × Field)} (first : (root, start) ∈ pairs)
    (closed : ∀ pair ∈ pairs, ∀ inner ∈ (schema.type? pair.2.type.name).elim [] (ownFields config),
      (pair.2.name, inner) ∈ pairs) {container : String} {field : Field}
    (reaches : schema.Reaches config root start container field) : (container, field) ∈ pairs := by
  induction reaches with
  | start => exact first
  | onward _ found own ih =>
    refine closed _ ih _ ?_
    rw [found]
    exact own

theorem finite_objectKeys (schema : Schema) (config : Config) (root : String) (start : Field) :
    (schema.objectKeys config root start).Finite := by
  let fields := schema.fieldsFrom config start
  refine ((List.finite_toSet (root :: fields.map Field.name)).image2
    (fun container field => Edges.key container field.name) (List.finite_toSet fields)).subset ?_
  rintro key ⟨container, field, _, reaches, _, rfl⟩
  exact ⟨container, reaches.container_mem, field, reaches.mem_fieldsFrom, rfl⟩

/-- In a closed schema no field has an input type, so what is left beside interfaces and unions are
the objects. -/
theorem IsMonomorphicFrom.reachesObjects (single : schema.IsMonomorphicFrom config root start)
    (closed : schema.Closed) (offered : schema.Offers start) :
    schema.ReachesObjects config root start := by
  intro container field reaches type found composite
  obtain ⟨holder, member, fields, declares, declared⟩ := reaches.offers offered
  obtain ⟨target, same, noInput⟩ := closed.fields holder member fields declares field declared
  cases found.symm.trans same
  have alone := single container field reaches type found
  cases type with
  | object object => exact ⟨object, rfl⟩
  | interface interface => cases alone
  | union union => exact absurd (composite.symm.trans alone) Bool.noConfusion
  | input input => exact absurd rfl (noInput input)
  | _ => cases composite

end Reaching

/-! ## The way down -/

/-- How an expansion meets a field outside fragments: the field is reached from the root field, and
there are as many remembered keys of reached objects above it as levels. -/
structure Meets (schema : Schema) (config : Config) (root : String) (start : Field) (edges : Edges)
    (site : Site) (field : Field) : Prop where
  reaches : schema.Reaches config root start site.container field
  outside : site.inFragment = false
  above : ∃ above : Finset String, site.depth = above.card + 1 ∧
    ∀ key ∈ above, key ∈ schema.objectKeys config root start ∧ edges.contains key = true

section Meeting

variable {schema : Schema} {config : Config} {root : String} {start : Field} {edges : Edges}
  {site : Site} {field : Field}

theorem meets_root (schema : Schema) (config : Config) (root : String) (start : Field)
    (edges : Edges) : schema.Meets config root start edges (.root root) start :=
  ⟨.start, rfl, ∅, rfl, by simp⟩

theorem Meets.mono (meets : schema.Meets config root start edges site field) {later : Edges}
    (kept : ∀ key, edges.contains key = true → later.contains key = true) :
    schema.Meets config root start later site field := by
  obtain ⟨reaches, outside, above, depth, known⟩ := meets
  exact ⟨reaches, outside, above, depth, fun key member =>
    ⟨(known key member).1, kept key (known key member).2⟩⟩

/-- With the key of a field whose type is an object, all keys above it are remembered keys again. -/
theorem Meets.exists_insert (meets : schema.Meets config root start edges site field)
    {object : FieldedType} (found : schema.type? field.type.name = some (.object object))
    (new : edges.contains (Edges.key site.container field.name) = false) :
    ∃ keys : Finset String, keys.card = site.depth ∧
      ∀ key ∈ keys, key ∈ schema.objectKeys config root start ∧
        (edges.insert (Edges.key site.container field.name)).contains key = true := by
  obtain ⟨above, depth, known⟩ := meets.above
  have fresh : Edges.key site.container field.name ∉ above := by
    intro member
    have remembered := (known _ member).2
    rw [new] at remembered
    cases remembered
  refine ⟨insert (Edges.key site.container field.name) above, ?_, ?_⟩
  · rw [Finset.card_insert_of_notMem fresh, depth]
  · intro key member
    rcases Finset.mem_insert.mp member with rfl | older
    · exact ⟨⟨_, _, _, meets.reaches, found, rfl⟩, by simp⟩
    · exact ⟨(known key older).1, by simp [(known key older).2]⟩

/-- A field whose type is an object and whose key is new stands no deeper than there are keys. -/
theorem Meets.depth_le (meets : schema.Meets config root start edges site field)
    {object : FieldedType} (found : schema.type? field.type.name = some (.object object))
    (new : edges.contains (Edges.key site.container field.name) = false) :
    site.depth ≤ (schema.objectKeys config root start).ncard := by
  obtain ⟨keys, depth, known⟩ := meets.exists_insert found new
  have among : (keys : Set String) ⊆ schema.objectKeys config root start :=
    fun key member => (known key member).1
  calc site.depth = (keys : Set String).ncard := by rw [Set.ncard_coe_finset, depth]
    _ ≤ (schema.objectKeys config root start).ncard :=
      Set.ncard_le_ncard among (schema.finite_objectKeys config root start)

/-- Below such a field its own fields are met. -/
theorem Meets.below (meets : schema.Meets config root start edges site field)
    {object : FieldedType} (found : schema.type? field.type.name = some (.object object))
    (new : edges.contains (Edges.key site.container field.name) = false) {inner : Field}
    (own : inner ∈ ownFields config (.object object)) :
    schema.Meets config root start (edges.insert (Edges.key site.container field.name))
      (site.below field.name) inner := by
  obtain ⟨keys, depth, known⟩ := meets.exists_insert found new
  refine ⟨.onward meets.reaches found own, meets.outside, keys, ?_, known⟩
  rw [depth]
  rfl

end Meeting

end Schema

/-! ## Limits -/

section Limits

variable {schema : Schema} {config : Config} {root : String} {start : Field} {limit other : Nat}

/-- When edges may not be repeated, the edge to a field that is not left out is new. -/
theorem Expansion.contains_eq_false_of_admitted {edges : Edges} {site : Site} {field : Field}
    (once : config.repeatEdges = false)
    (admitted : omission? (config.limitedTo limit) edges site field = none) :
    edges.contains (Edges.key site.container field.name) = false :=
  (omission?_eq_none_iff.mp admitted).1.resolve_left (by simp [Config.limitedTo, once])

/-- Limits of as many levels as there are keys leave out the same fields for the same reason. -/
theorem Schema.Meets.omission?_eq {edges : Edges} {site : Site} {field : Field}
    (meets : schema.Meets config root start edges site field) (once : config.repeatEdges = false)
    {object : FieldedType} (found : schema.type? field.type.name = some (.object object))
    (enough : (schema.objectKeys config root start).ncard ≤ limit) :
    omission? (config.limitedTo limit) edges site field =
      if edges.contains (Edges.key site.container field.name) then
        some (.edgeRepeated field.parent field.name site.depth
          (Edges.key site.container field.name))
      else none := by
  cases seen : edges.contains (Edges.key site.container field.name) with
  | true => simp [omission?, verdict, Config.limitedTo, once, seen]
  | false =>
    have shallow : site.depth ≤ limit := (meets.depth_le found seen).trans enough
    have allowed : site.countedDepth ≤ limit := by
      simpa [Site.countedDepth, meets.outside] using shallow
    rw [if_neg Bool.false_ne_true, omission?_eq_none_iff]
    exact ⟨.inr seen, allowed⟩

/-- Below a field that is not left out its own fields are met. -/
theorem Schema.Meets.onward {progress : Progress} {site : Site} {field : Field}
    (meets : schema.Meets config root start progress.edges site field)
    (objects : schema.ReachesObjects config root start) (once : config.repeatEdges = false)
    {type : TypeDef} (found : schema.type? field.type.name = some type)
    (admitted : type.isComposite = true →
      omission? (config.limitedTo limit) progress.edges site field = none) :
    ∀ entry ∈ (ownFields config type).map fun inner => ((none : Option String), inner),
      schema.Meets config root start (progress.admitting site field type).edges
        (site.below field.name) entry.2 := by
  intro entry listed
  obtain ⟨inner, own, rfl⟩ := List.mem_map.mp listed
  cases composite : type.isComposite with
  | false =>
    rw [ownFields_of_isComposite_eq_false composite] at own
    cases own
  | true =>
    obtain ⟨object, rfl⟩ := objects _ _ meets.reaches type found composite
    have new := contains_eq_false_of_admitted once (admitted composite)
    rw [Progress.admitting_of_isComposite _ _ _ composite, meets.outside]
    exact meets.below found new own

/-- Below a field that is met there are no fragments. -/
theorem Schema.ReachesObjects.branches?_eq (objects : schema.ReachesObjects config root start)
    {container : String} {field : Field}
    (reaches : schema.Reaches config root start container field) {type : TypeDef}
    (found : schema.type? field.type.name = some type) (choices : Config) :
    branches? schema choices type = some [] := by
  cases composite : type.isComposite with
  | false => exact branches?_of_isComposite_eq_false composite
  | true =>
    obtain ⟨object, rfl⟩ := objects _ _ reaches type found composite
    rfl

mutual

/-- What the expansion of a field returns at one limit it returns at the other. -/
theorem Expands.at_limit {label : Option String} {site : Site} {field : Field}
    {before after : Progress} {result : Option Selection}
    (expanded : Expands schema (config.limitedTo limit) label site field before result after)
    (objects : schema.ReachesObjects config root start) (once : config.repeatEdges = false)
    (enough : (schema.objectKeys config root start).ncard ≤ limit)
    (enoughOther : (schema.objectKeys config root start).ncard ≤ other)
    (meets : schema.Meets config root start before.edges site field) :
    Expands schema (config.limitedTo other) label site field before result after := by
  -- At neither limit is a field left out for its depth: one that stands so deep has a known key.
  have same {type : TypeDef} (found : schema.type? field.type.name = some type)
      (composite : type.isComposite = true) :
      omission? (config.limitedTo other) before.edges site field =
        omission? (config.limitedTo limit) before.edges site field := by
    obtain ⟨object, rfl⟩ := objects _ _ meets.reaches type found composite
    rw [meets.omission?_eq once found enough, meets.omission?_eq once found enoughOther]
  match expanded with
  | .leftOut found composite omitted =>
    exact .leftOut found composite ((same found composite).trans omitted)
  | .shown found admitted own passed branched fragments =>
    have ownOther := own.at_limit objects once enough enoughOther
      (meets.onward objects once found admitted)
    have unbranched := objects.branches?_eq meets.reaches found
    cases branched.symm.trans (unbranched _)
    cases fragments with
    | nil =>
      exact .shown found (fun composite => (same found composite).trans (admitted composite))
        ownOther passed (unbranched _) .nil

/-- The same for fields that are expanded one after the other. -/
theorem ExpandsAll.at_limit {site : Site} {entries : List (Option String × Field)}
    {before after : Progress} {selections : List Selection}
    (expanded : ExpandsAll schema (config.limitedTo limit) site entries before selections after)
    (objects : schema.ReachesObjects config root start) (once : config.repeatEdges = false)
    (enough : (schema.objectKeys config root start).ncard ≤ limit)
    (enoughOther : (schema.objectKeys config root start).ncard ≤ other)
    (meets : ∀ entry ∈ entries, schema.Meets config root start before.edges site entry.2) :
    ExpandsAll schema (config.limitedTo other) site entries before selections after := by
  match expanded with
  | .nil => exact .nil
  | .cons first others =>
    refine .cons (first.at_limit objects once enough enoughOther (meets _ (List.mem_cons_self ..)))
      (others.at_limit objects once enough enoughOther fun entry member => ?_)
    exact (meets entry (List.mem_cons_of_mem _ member)).mono first.grows.edges

end

/-! ## Depths -/

/-- A node shows a field with fields of its own. -/
def Node.IsComposite (schema : Schema) (node : Node) : Prop :=
  ∃ field, schema.fieldOf? node.holder node.name = some field ∧ schema.IsCompositeField field

mutual

/-- The nodes with fields of their own of what the expansion of a field returns stand no deeper than
there are keys. -/
theorem Expands.depth_le {label : Option String} {site : Site} {field : Field}
    {before after : Progress} {result : Option Selection}
    (expanded : Expands schema (config.limitedTo limit) label site field before result after)
    (objects : schema.ReachesObjects config root start) (once : config.repeatEdges = false)
    (wellFormed : schema.WellFormed)
    (meets : schema.Meets config root start before.edges site field) {holder : String}
    (findable : schema.fieldOf? holder field.name = some field) :
    ∀ node ∈ Selection.nodesOfAll schema holder site.depth site.inFragment result.toList,
      node.IsComposite schema → node.depth ≤ (schema.objectKeys config root start).ncard := by
  match expanded with
  | .leftOut _ _ _ => simp
  | .shown found admitted own _ branched fragments =>
    have inner := own.depth_le objects once wellFormed (meets.onward objects once found admitted)
      (wellFormed.fieldOf?_of_mem_ownFields found)
    cases branched.symm.trans (objects.branches?_eq meets.reaches found _)
    cases fragments with
    | nil =>
      intro node member composite
      simp only [Option.toList_some, Selection.nodesOfAll, Selection.nodes, findable, Option.elim,
        Selection.nodesOfAll_append, Selection.nodesOfAll_typenames, List.append_nil,
        List.mem_cons] at member
      rcases member with rfl | below
      · obtain ⟨shown, same, type, typed, leaves⟩ := composite
        cases findable.symm.trans same
        cases found.symm.trans typed
        obtain ⟨object, rfl⟩ := objects _ _ meets.reaches _ found leaves
        exact meets.depth_le found (contains_eq_false_of_admitted once (admitted leaves))
      · exact inner node below composite

/-- The same for fields that are expanded one after the other. -/
theorem ExpandsAll.depth_le {site : Site} {entries : List (Option String × Field)}
    {before after : Progress} {selections : List Selection}
    (expanded : ExpandsAll schema (config.limitedTo limit) site entries before selections after)
    (objects : schema.ReachesObjects config root start) (once : config.repeatEdges = false)
    (wellFormed : schema.WellFormed)
    (meets : ∀ entry ∈ entries, schema.Meets config root start before.edges site entry.2)
    {holder : String}
    (findable : ∀ entry ∈ entries, schema.fieldOf? holder entry.2.name = some entry.2) :
    ∀ node ∈ Selection.nodesOfAll schema holder site.depth site.inFragment selections,
      node.IsComposite schema → node.depth ≤ (schema.objectKeys config root start).ncard := by
  match expanded with
  | .nil => simp
  | .cons first others =>
    have head := first.depth_le objects once wellFormed (meets _ (List.mem_cons_self ..))
      (findable _ (List.mem_cons_self ..))
    have tail := others.depth_le objects once wellFormed
      (fun entry member => (meets entry (List.mem_cons_of_mem _ member)).mono first.grows.edges)
      fun entry member => findable entry (List.mem_cons_of_mem _ member)
    intro node member
    rw [Selection.nodesOfAll_append] at member
    rcases List.mem_append.mp member with early | late
    · exact head node early
    · exact tail node late

end

end Limits

/-! ## Operations -/

/-- When edges may not be repeated and no interface and no union is reached from a root field, one
operation is generated for it at all limits of as many levels as there are keys of reached fields
whose type is an object. No field with fields of its own stands deeper in it than there are keys.
Only included fields are reached. -/
theorem Schema.Checked.operation_at_all_limits {schema : Schema} (checked : schema.Checked)
    (config : Config) (once : config.repeatEdges = false) {kind : OperationKind}
    {root : FieldedType} (rooted : schema.root? kind = some root) {field : Field}
    (declared : field ∈ root.fields.values)
    (single : schema.IsMonomorphicFrom config root.name field) (before : Array Event) :
    ∃ operation after,
      (∀ limit, (schema.objectKeys config root.name field).ncard ≤ limit →
        (Generation.operation schema (config.limitedTo limit) kind root field).Returns before
          operation after) ∧
      ∀ node ∈ operation.document.nodes schema root.name, node.IsComposite schema →
        node.depth ≤ (schema.objectKeys config root.name field).ncard := by
  have wellFormed := checked.built.wellFormed
  have offered := Schema.offers_of_root? rooted declared
  have objects := single.reachesObjects checked.closed offered
  -- The operation is taken from the least of the limits and carried over to the others.
  let least := config.limitedTo (schema.objectKeys config root.name field).ncard
  have never : (Generation.operation schema least kind root field).Faultless :=
    Generation.faultless_operation checked.closed offered
  obtain ⟨operation, after, returned⟩ := never.returns before
  obtain ⟨selection, progress, expanded, rfl, ended⟩ :=
    Generation.returns_operation_iff.mp returned
  have meets : schema.Meets config root.name field Edges.empty (.root root.name) field :=
    schema.meets_root ..
  refine ⟨⟨kind, field.name, .ofExpansion root field selection progress⟩, after, ?_, ?_⟩
  · intro limit enough
    have same := expanded.at_limit objects once (Nat.le_refl _) enough meets
    exact Generation.returns_operation_iff.mpr ⟨selection, progress, same, rfl, ended⟩
  · have found := wellFormed.type?_of_root? rooted
    exact expanded.depth_le objects once wellFormed meets
      (wellFormed.fieldOf?_of_mem found rfl declared)

/-! ## A schema with a cycle -/

/-- The source of a schema in which two types lead to each other. -/
def cyclicSource : String :=
  "type Query { root: A } type A { name: String b: B } type B { name: String a: A }"

/-- The field of the root type of that schema. -/
def cyclicRoot : Field := libraryField "Query" "root" "A" 14

/-- The types of that schema. -/
def cyclicTypes : List FieldedType :=
  [libraryType "Query" 1 [cyclicRoot],
    libraryType "A" 24 [libraryField "A" "name" "String" 33, libraryField "A" "b" "B" 46],
    libraryType "B" 53 [libraryField "B" "name" "String" 62, libraryField "B" "a" "A" 75]]

/-- That schema. -/
def cyclicSchema : Schema where
  query := some ⟨"Query", sampleAt 1⟩
  mutation := none
  subscription := none
  types := TypeDef.builtIns.insertAll (cyclicTypes.map fun type => (type.name, .object type))

theorem load_cyclicSource :
    SchemaBuilder.empty.load none cyclicSource = ([], .ok { types := cyclicSchema.types }) := by
  refine (SchemaBuilder.load_of_toList String.toList_ofList).trans ?_
  cbv

theorem cyclicSchema_checked : cyclicSchema.Checked := by
  refine ⟨{ types := cyclicSchema.types }, .load .empty load_cyclicSource, rfl, ?_⟩
  cbv

theorem cyclicRoot_declared :
    cyclicSchema.root? .query = some (libraryType "Query" 1 [cyclicRoot]) ∧
      cyclicRoot ∈ (libraryType "Query" 1 [cyclicRoot]).fields.values := by
  decide

/-- The fields that are reached in that schema, with their containers. -/
def cyclicReached : List (String × Field) :=
  [("Query", cyclicRoot), ("root", libraryField "A" "name" "String" 33),
    ("root", libraryField "A" "b" "B" 46), ("b", libraryField "B" "name" "String" 62),
    ("b", libraryField "B" "a" "A" 75), ("a", libraryField "A" "name" "String" 33),
    ("a", libraryField "A" "b" "B" 46)]

theorem mem_cyclicReached {container : String} {field : Field}
    (reaches : cyclicSchema.Reaches {} "Query" cyclicRoot container field) :
    (container, field) ∈ cyclicReached :=
  reaches.mem_of_closed (by decide) (by decide)

theorem cyclicSchema_isMonomorphicFrom : cyclicSchema.IsMonomorphicFrom {} "Query" cyclicRoot := by
  intro container field reaches type found
  have single : ∀ pair ∈ cyclicReached,
      (cyclicSchema.type? pair.2.type.name).any TypeDef.isPolymorphic = false := by
    decide
  have alone := single _ (mem_cyclicReached reaches)
  rw [found] at alone
  exact alone

theorem ncard_cyclic_objectKeys_le : (cyclicSchema.objectKeys {} "Query" cyclicRoot).ncard ≤ 4 := by
  let keys : Finset String := {"QueryTorootKey", "rootTobKey", "bToaKey", "aTobKey"}
  have listed : ∀ pair ∈ cyclicReached,
      (cyclicSchema.type? pair.2.type.name).any TypeDef.isComposite = true →
        Edges.key pair.1 pair.2.name ∈ keys := by
    decide
  have among : cyclicSchema.objectKeys {} "Query" cyclicRoot ⊆ keys := by
    rintro key ⟨container, field, object, reaches, found, rfl⟩
    apply listed _ (mem_cyclicReached reaches)
    rw [found]
    rfl
  calc (cyclicSchema.objectKeys {} "Query" cyclicRoot).ncard ≤ (keys : Set String).ncard :=
      Set.ncard_le_ncard among keys.finite_toSet
    _ = keys.card := Set.ncard_coe_finset keys
    _ ≤ 4 := Finset.card_le_four

/-- In that schema one operation is generated at a limit of four levels and at any greater one, and
no field of an object type stands deeper in it. -/
theorem cyclicSchema_at_all_limits :
    ∃ operation after,
      (∀ limit, 4 ≤ limit →
        (Generation.operation cyclicSchema (({} : Config).limitedTo limit) .query
          (libraryType "Query" 1 [cyclicRoot]) cyclicRoot).Returns #[] operation after) ∧
      ∀ node ∈ operation.document.nodes cyclicSchema "Query", node.IsComposite cyclicSchema →
        node.depth ≤ 4 := by
  obtain ⟨operation, after, returned, shallow⟩ :=
    cyclicSchema_checked.operation_at_all_limits {} rfl cyclicRoot_declared.1 cyclicRoot_declared.2
      cyclicSchema_isMonomorphicFrom #[]
  have few := ncard_cyclic_objectKeys_le
  exact ⟨operation, after, fun limit enough => returned limit (few.trans enough),
    fun node member composite => (shallow node member composite).trans few⟩

end SchemaUnfolding
