import SchemaUnfolding.Operation.Generation
import SchemaUnfolding.Operation.Index
import SchemaUnfolding.Operation.Sink

/-!
# Publishing operations

The operations of each kind are generated and then written to a sink, followed by the index of the
kind; at the end comes the index of the kinds. The first write that is refused ends everything.
-/

namespace SchemaUnfolding

/-- Why a publication ended early. -/
inductive PublicationError
  | fault (cause : Fault)
  | refused (write : Write) (reason : String)
deriving DecidableEq, Repr

/-- The wording of a reason. -/
def PublicationError.message : PublicationError → String
  | fault cause => cause.message
  | refused write reason => "Failed to persist `" ++ write.path ++ "`: " ++ reason

/-- A computation that writes to a sink with states `σ`. The sink's state and the events are kept
also when it ends early. -/
abbrev Publication (σ : Type) : Type → Type :=
  ExceptT PublicationError (StateM (σ × Array Event))

namespace Publication

variable {σ : Type}

/-- Generate within a publication. -/
def ofGeneration {α : Type} (generation : Generation α) : Publication σ α := do
  let (state, events) ← get
  let (result, events) := generation.run.run events
  set (state, events)
  match result with
  | .ok value => return value
  | .error fault => throw (.fault fault)

/-- Hand a write to a sink. -/
def deliver (sink : Sink σ) (write : Write) : Publication σ Unit := do
  let (state, events) ← get
  let reply := sink.accept state write
  set (reply.state, reply.events.foldl Array.push events)
  match reply.refusal with
  | some reason => throw (.refused write reason)
  | none => return

/-- Hand writes to a sink in order. -/
def deliverAll (sink : Sink σ) : List Write → Publication σ Unit
  | [] => return
  | write :: rest => do
    deliver sink write
    deliverAll sink rest

/-- The writes of the operations of a kind: the documents and then their index. -/
def writesOf (extension : String) (kind : OperationKind) (operations : List Operation) :
    List Write :=
  operations.map (fun operation => .document kind operation.field extension operation.text) ++
    [.kindIndex kind (kindIndex extension (operations.map Operation.field))]

/-- Publish the operations of several kinds in order. -/
def ofKinds (sink : Sink σ) (schema : Schema) (config : Config) :
    List OperationKind → Publication σ (Report × List OperationKind)
  | [] => return ({}, [])
  | kind :: rest => do
    let operations ← ofGeneration (Generation.ofKind schema config kind)
    if let some operations := operations then
      deliverAll sink (writesOf config.extension kind operations)
    let (report, indexed) ← ofKinds sink schema config rest
    return (report.enter kind operations, if operations.isSome then kind :: indexed else indexed)

/-- Publish the operations of all kinds. -/
def all (sink : Sink σ) (schema : Schema) (config : Config) : Publication σ Report := do
  let (report, indexed) ← ofKinds sink schema config OperationKind.all
  deliver sink (.rootIndex (rootIndex indexed))
  return report

end Publication

end SchemaUnfolding
