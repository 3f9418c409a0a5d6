import SchemaUnfolding.Operation.Document
import SchemaUnfolding.Operation.Expansion

/-!
# Generating operations

One operation for each root field. Each starts without variables and without expanded edges, so what
is generated for a field does not depend on the fields before it.
-/

namespace SchemaUnfolding

/-- A generated operation. -/
structure Operation where
  kind : OperationKind
  field : String
  document : Document

namespace Operation

/-- The names of the variables of an operation in order. -/
def variableNames (operation : Operation) : List String :=
  operation.document.declarations.map Prod.fst

/-- The text of an operation. -/
def text (operation : Operation) : String := operation.document.text

end Operation

/-- What was generated from a schema, and the kinds of operation without a root type. -/
structure Report where
  operations : List Operation := []
  missing : List OperationKind := []

namespace Report

/-- Put what was generated for a kind in front of a report. -/
def enter (report : Report) (kind : OperationKind) : Option (List Operation) → Report
  | some operations => { report with operations := operations ++ report.operations }
  | none => { report with missing := kind :: report.missing }

end Report

/-- Why there is no operation for the name of a root field. -/
inductive RequestError
  | missingRoot (kind : OperationKind)
  | undefinedField (kind : OperationKind) (root field : String)
deriving DecidableEq, Repr

/-- The wording of a reason. -/
def RequestError.message : RequestError → String
  | missingRoot kind => Event.rootMissingMessage kind
  | undefinedField kind root field =>
    s!"The {kind.keyword} root type `{root}` has no field named `{field}`"

/-- A computation that generates operations. Events are kept also when a fault ends it. -/
abbrev Generation : Type → Type := ExceptT Fault (StateM (Array Event))

namespace Generation

/-- Report events. -/
def report (reported : List Event) : Generation Unit :=
  modify fun events => reported.foldl Array.push events

/-- Generate the operation of a root field. -/
def operation (schema : Schema) (config : Config) (kind : OperationKind) (root : FieldedType)
    (field : Field) : Generation Operation := do
  let (result, progress) :=
    (Expansion.expand schema config (.root root.name) field).run.run {}
  report progress.events.toList
  match result with
  | .error fault => throw fault
  | .ok selection =>
    let document : Document :=
      { keyword := operationKeyword root.name
        name := field.name
        declarations := progress.scope.declarations
        selection }
    report (keywordEvents root.name)
    report [.generated kind field.name document.declarations.length progress.edges.size]
    return { kind, field := field.name, document }

/-- Generate the operations of some root fields in order. -/
def operations (schema : Schema) (config : Config) (kind : OperationKind) (root : FieldedType) :
    List Field → Generation (List Operation)
  | [] => return []
  | field :: rest => do
    let first ← operation schema config kind root field
    let others ← operations schema config kind root rest
    return first :: others

/-- Generate the operations of a kind, if it has a root type. -/
def ofKind (schema : Schema) (config : Config) (kind : OperationKind) :
    Generation (Option (List Operation)) := do
  match schema.root? kind with
  | none =>
    report [.rootMissing kind]
    return none
  | some root =>
    return some (← operations schema config kind root (root.fields.values.filter config.includes))

/-- Generate the operations of several kinds in order. -/
def ofKinds (schema : Schema) (config : Config) : List OperationKind → Generation Report
  | [] => return {}
  | kind :: rest => do
    let operations ← ofKind schema config kind
    let report ← ofKinds schema config rest
    return report.enter kind operations

/-- Generate the operations of all kinds. -/
def all (schema : Schema) (config : Config) : Generation Report :=
  ofKinds schema config OperationKind.all

/-- Generate the operation of the root field of a name, also when it is deprecated. -/
def named (schema : Schema) (config : Config) (kind : OperationKind) (field : String) :
    Generation (Except RequestError Operation) := do
  match schema.root? kind with
  | none => return .error (.missingRoot kind)
  | some root =>
    match root.fields.get? field with
    | none => return .error (.undefinedField kind root.name field)
    | some field => return .ok (← operation schema config kind root field)

end Generation

end SchemaUnfolding
