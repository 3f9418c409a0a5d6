import SchemaUnfolding.Proofs.Arguments.Printed
import SchemaUnfolding.Proofs.Generation.Safety

/-!
# Exactness of arguments

The variables that an expansion adds are those that its text passes, each of them once, for the
parameter that the variable is bound to. They come in the order of binding, and declarations give
them the types of their parameters. This holds of every expansion in a session, in which many share
their variables, so it holds of every document.
-/

namespace SchemaUnfolding

open Sdl (IsName)

/-! ## Sessions -/

namespace Expansion

/-- What a sequence of expansions that start from nothing may leave behind. None of them ends with a
fault, and each has its own limits, site and field. -/
inductive Session (schema : Schema) : Progress → Prop
  | start : Session schema {}
  | call {config : Config} {site : Site} {type : TypeDef} {name : String} {before after : Progress}
      {result : Option Selection} :
      Session schema before → type ∈ schema.types.values →
      (expandNamed schema config site type name).Returns before result after →
      Session schema after

/-- The text of what an expansion at a site returns. -/
def textAt (site : Site) (result : Option Selection) : List Char :=
  (result.elim "" (Selection.text site.depth)).toList

variable {schema : Schema} {config : Config} {site : Site} {type : TypeDef} {name : String}
  {before after : Progress} {result : Option Selection}

/-- A field that is expanded by its name is one of the type's. -/
theorem field_of_returns_expandNamed
    (returned : (expandNamed schema config site type name).Returns before result after) :
    ∃ field, type.fields?.bind (·.get? name) = some field ∧
      Expands schema config none site field before result after := by
  rw [expandNamed] at returned
  split at returned
  · rename_i field found
    exact ⟨field, found, returns_expand_iff.mp returned⟩
  · exact absurd returned ExceptT.not_returns_throw

theorem offers_of_bind_get? (known : type ∈ schema.types.values) {field : Field}
    (found : type.fields?.bind (·.get? name) = some field) : schema.Offers field := by
  obtain ⟨fields, declares, held⟩ := Option.bind_eq_some_iff.mp found
  exact ⟨type, known, fields, declares, Table.mem_values_of_get? held⟩

end Expansion

theorem Schema.WellFormed.findable {schema : Schema} (wellFormed : schema.WellFormed)
    {type : TypeDef} (known : type ∈ schema.types.values) {name : String} {field : Field}
    (found : type.fields?.bind (·.get? name) = some field) :
    type.fields?.bind (·.get? field.name) = some field := by
  obtain ⟨fields, declares, held⟩ := Option.bind_eq_some_iff.mp found
  have keyed := (wellFormed.fields_holds known declares).keyed
  rw [(keyed.get?_eq_some_iff.mp held).2]
  exact found

open Expansion

/-! ## Accounts -/

/-- All variables and the types that they are declared with have names. -/
def Variables.Named (scope : Variables) : Prop :=
  ∀ declaration ∈ scope.declarations, IsName declaration.1 ∧ IsName declaration.2.name

theorem Variables.named_empty : Variables.Named {} := by
  intro declaration member
  cases member

theorem Variables.Binds.named_after {before after : Variables} {arguments : List (String × String)}
    {added : List (String × Parameter)} (binds : before.Binds after arguments added)
    (named : before.Named) : after.Named := by
  intro declaration member
  obtain ⟨entry, held, rfl⟩ := List.mem_map.mp member
  rw [binds.grows.entries] at held
  rcases List.mem_append.mp held with old | new
  · exact named _ (List.mem_map.mpr ⟨entry, old, rfl⟩)
  · have wellFormed := binds.wellFormed entry new
    exact ⟨binds.grows.names entry new wellFormed.name.isName, wellFormed.type⟩

/-- Some variables were added, and they are accounted for: by the arguments that were read in a
text, by the declarations that were read in one, and by the result that the texts show. -/
structure Expansion.Accounts (schema : Schema) (find : String → Option Field)
    (before after : Variables) (result : Option Selection)
    (arguments declarations : List (String × String)) (added : List (String × Parameter)) :
    Prop where
  grown : after.bound.entries = before.bound.entries ++ added
  passed : arguments.Perm (added.map Variables.argument)
  once : (arguments.map Prod.snd).Nodup
  declared : declarations = after.bound.entries.map fun entry => (entry.1, entry.2.type.text)
  distinct : (declarations.map Prod.fst).Nodup
  ordered : added.map Variables.argument = Selection.bindingsOf false result.toList
  rendered : Selection.RendersAll schema after.bound find result.toList

section Accounts

variable {schema : Schema} {config : Config} {site : Site} {field : Field}
  {before after : Progress} {result : Option Selection}

/-- An expansion is accounted for by texts that are read as what it returns and as all variables. -/
theorem Expands.accounts (expanded : Expands schema config none site field before result after)
    (wellFormed : schema.WellFormed) (offered : schema.Offers field)
    {find : String → Option Field} (findable : find field.name = some field)
    {arguments declarations : List (String × String)}
    (read : arguments = Selection.argumentsOfAll result.toList)
    (declared : declarations = after.scope.declarations.map fun declaration =>
      (declaration.1, declaration.2.text)) :
    ∃ added, Accounts schema find before.scope after.scope result arguments declarations added := by
  obtain ⟨noFragment, added, binds⟩ := expanded.binds wellFormed offered
  have passed : arguments.Perm (added.map Variables.argument) := by
    have orders := Selection.bindingsOf_perm result.toList
    rw [noFragment, List.append_nil, binds.passed, ← read] at orders
    exact orders.symm
  have names : (added.map Variables.argument).map Prod.snd = added.map Prod.fst := by
    rw [List.map_map]
    rfl
  have fresh : (added.map Prod.fst).Nodup := by
    have nodup := after.scope.bound.nodup
    rw [binds.grows.entries, List.map_append] at nodup
    exact nodup.of_append_right
  have listed : declarations = after.scope.bound.entries.map fun entry =>
      (entry.1, entry.2.type.text) := by
    rw [declared, Variables.declarations, List.map_map]
    rfl
  refine ⟨added, ?_⟩
  constructor
  · exact binds.grows.entries
  · exact passed
  · rw [(passed.map Prod.snd).nodup_iff, names]
    exact fresh
  · exact listed
  · rw [listed, List.map_map]
    exact after.scope.bound.nodup
  · exact binds.passed.symm
  · exact (expanded.renders wellFormed offered (by simp) findable fun _ member => member).1

/-- The selections that an expansion returns are named. -/
theorem Expands.named (expanded : Expands schema config none site field before result after)
    (wellFormed : schema.WellFormed) (offered : schema.Offers field) :
    ∀ selection ∈ result, selection.Named := by
  intro selection returned
  let find : String → Option Field := fun _ => some field
  have findable : find field.name = some field := rfl
  have named := (expanded.renders wellFormed offered (by simp) findable fun _ member => member).2
  rw [Option.mem_def.mp returned, Option.toList_some, Selection.NamedAll] at named
  exact named.1

theorem Expands.variables_named
    (expanded : Expands schema config none site field before result after)
    (wellFormed : schema.WellFormed) (offered : schema.Offers field)
    (named : before.scope.Named) : after.scope.Named := by
  obtain ⟨_, _, binds⟩ := expanded.binds wellFormed offered
  exact binds.named_after named

theorem Expands.argumentsIn_textAt
    (expanded : Expands schema config none site field before result after)
    (wellFormed : schema.WellFormed) (offered : schema.Offers field) :
    argumentsIn (textAt site result) = Selection.argumentsOfAll result.toList := by
  cases returned : result with
  | none => rfl
  | some selection =>
    have named := expanded.named wellFormed offered selection returned
    simp [textAt, Selection.argumentsOfAll, Selection.argumentsIn_text named]

end Accounts

/-- In every session all variables are named. -/
theorem Expansion.Session.named {schema : Schema} {progress : Progress}
    (session : Session schema progress) (wellFormed : schema.WellFormed) :
    progress.scope.Named := by
  induction session with
  | start => exact Variables.named_empty
  | call _ known returned ih =>
    obtain ⟨field, found, expanded⟩ := field_of_returns_expandNamed returned
    exact expanded.variables_named wellFormed (offers_of_bind_get? known found) ih

/-! ## Documents -/

theorem OperationKind.isName_keyword (kind : OperationKind) : IsName kind.keyword := by
  cases kind <;> decide

theorem isName_operationKeyword {root : String} (isName : IsName root) :
    IsName (operationKeyword root) := by
  rw [operationKeyword]
  cases OperationKind.named? root with
  | none => exact isName
  | some kind => exact kind.isName_keyword

theorem Document.named_ofExpansion {root : FieldedType} {field : Field}
    {selection : Option Selection} {progress : Progress} (isName : IsName root.name)
    (fieldName : IsName field.name) (bound : progress.scope.Named)
    (shown : ∀ other ∈ selection, other.Named) :
    (Document.ofExpansion root field selection progress).Named where
  keyword := isName_operationKeyword isName
  name := fieldName
  declarations := bound
  selection := shown

/-- The document of a root field is named. -/
theorem Expands.document_named {schema : Schema} {config : Config} {kind : OperationKind}
    {root : FieldedType} {field : Field} {progress : Progress} {selection : Option Selection}
    (expanded : Expands schema config none (.root root.name) field {} selection progress)
    (wellFormed : schema.WellFormed) (rooted : schema.root? kind = some root)
    (declared : field ∈ root.fields.values) :
    (Document.ofExpansion root field selection progress).Named := by
  have held := Schema.object_mem_of_root? rooted
  have offered := Schema.offers_of_root? rooted declared
  have fieldWellFormed := (wellFormed.fields_holds held rfl).values field declared
  exact Document.named_ofExpansion (wellFormed.types.name_of_mem held).isName
    fieldWellFormed.name.isName
    (expanded.variables_named wellFormed offered Variables.named_empty)
    (expanded.named wellFormed offered)

/-! ## Exactness -/

/-- When nothing was bound before, the same variables are passed and declared. -/
theorem Expansion.Accounts.balanced {schema : Schema} {find : String → Option Field}
    {after : Variables} {result : Option Selection}
    {arguments declarations : List (String × String)} {added : List (String × Parameter)}
    (accounts : Accounts schema find .empty after result arguments declarations added) :
    (arguments.map Prod.snd).Perm (declarations.map Prod.fst) := by
  have all : after.bound.entries = added := accounts.grown
  have names := accounts.passed.map Prod.snd
  rw [List.map_map] at names
  rw [accounts.declared, all, List.map_map]
  exact names

/-- Whatever was loaded and however the limits are set: in every session each expansion accounts for
the variables that it adds, by its own text and the declarations of all variables so far, and the
document of a root field does so by itself, so it declares just the variables that it passes. -/
theorem Schema.Built.arguments_exact {schema : Schema} (built : schema.Built) :
    (∀ {config : Config} {site : Site} {type : TypeDef} {name : String} {before after : Progress}
      {result : Option Selection},
      Session schema before → type ∈ schema.types.values →
      (expandNamed schema config site type name).Returns before result after →
      ∃ added, Accounts schema (fun name => type.fields?.bind (·.get? name)) before.scope
        after.scope result (argumentsIn (textAt site result))
        (declarationsIn (declarationsText after.scope.declarations).toList) added) ∧
    (∀ {config : Config} {kind : OperationKind} {root : FieldedType} {field : Field}
      {before after : Array Event} {operation : Operation},
      schema.root? kind = some root → field ∈ root.fields.values →
      (Generation.operation schema config kind root field).Returns before operation after →
      ∃ scope added, Accounts schema root.fields.get? .empty scope operation.document.selection
          (argumentsInDocument operation.text) (declarationsInDocument operation.text) added ∧
        ((argumentsInDocument operation.text).map Prod.snd).Perm
          ((declarationsInDocument operation.text).map Prod.fst)) := by
  have wellFormed := built.wellFormed
  constructor
  · intro config site type name before after result session known returned
    obtain ⟨field, found, expanded⟩ := field_of_returns_expandNamed returned
    have offered := offers_of_bind_get? known found
    have named := expanded.variables_named wellFormed offered (session.named wellFormed)
    exact expanded.accounts wellFormed offered (wellFormed.findable known found)
      (expanded.argumentsIn_textAt wellFormed offered) (readsListed_declarations named).map_dollars
  · intro config kind root field before after operation rooted declared returned
    obtain ⟨selection, progress, expanded, rfl, _⟩ :=
      Generation.returns_operation_iff.mp returned
    have held := Schema.object_mem_of_root? rooted
    have offered := Schema.offers_of_root? rooted declared
    have fields := wellFormed.fields_holds held rfl
    have bound := expanded.variables_named wellFormed offered Variables.named_empty
    have named : (Document.ofExpansion root field selection progress).Named :=
      Document.named_ofExpansion (wellFormed.types.name_of_mem held).isName
        (fields.values field declared).name.isName bound (expanded.named wellFormed offered)
    have findable : root.fields.get? field.name = some field :=
      fields.keyed.get?_eq_some_iff.mpr ⟨declared, rfl⟩
    have reading := named.reading
    obtain ⟨added, accounts⟩ := expanded.accounts wellFormed offered findable reading.2 reading.1
    exact ⟨progress.scope, added, accounts, accounts.balanced⟩

/-- In the small schema, the field below the fragment gets a variable of its own, and the document
declares what it passes. -/
theorem sampleSchema_arguments_exact :
    (∃ result after,
      (expandNamed sampleSchema { depthLimit := 1 } (.root "Query") (.object sampleQuery)
        "n").Returns {} result after ∧
      (argumentsIn (textAt (.root "Query") result)).Perm [("k", "k"), ("k", "k1")]) ∧
    ∃ operation after,
      (Generation.operation sampleSchema { depthLimit := 1 } .query sampleQuery
        (sampleField "Query" 14 16)).Returns #[] operation after ∧
      ((argumentsInDocument operation.text).map Prod.snd).Perm
        ((declarationsInDocument operation.text).map Prod.fst) := by
  have closed := sampleSchema_checked.closed
  have rooted : sampleSchema.root? .query = some sampleQuery := by decide
  have declared : sampleField "Query" 14 16 ∈ sampleQuery.fields.values := by decide
  have offered := Schema.offers_of_root? rooted declared
  have exact := sampleSchema_checked.built.arguments_exact
  constructor
  · let call :=
      expandNamed sampleSchema { depthLimit := 1 } (.root "Query") (.object sampleQuery) "n"
    obtain ⟨result, after, returned⟩ : ∃ result after, call.Returns {} result after :=
      (faultless_expand closed offered (.root "Query")).returns {}
    have known : .object sampleQuery ∈ sampleSchema.types.values :=
      Schema.object_mem_of_root? rooted
    obtain ⟨added, accounts⟩ := exact.1 .start known returned
    refine ⟨result, after, returned, ?_⟩
    have grown := accounts.grown
    have final : after = (call.run.run {}).2 := by rw [returned]
    have bound : (call.run.run {}).2.scope.bound.entries.map Variables.argument =
        [("k", "k"), ("k", "k1")] := by
      decide
    rw [← bound, ← final, grown]
    exact accounts.passed
  · have never : (Generation.operation sampleSchema { depthLimit := 1 } .query sampleQuery
        (sampleField "Query" 14 16)).Faultless :=
      Generation.faultless_operation closed offered
    obtain ⟨operation, after, returned⟩ := never.returns #[]
    obtain ⟨_, _, _, balanced⟩ := exact.2 rooted declared returned
    exact ⟨operation, after, returned, balanced⟩

end SchemaUnfolding
