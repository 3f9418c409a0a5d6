import SchemaUnfolding.Event
import SchemaUnfolding.OperationKind
import SchemaUnfolding.Table

/-!
# Where documents go

Documents and indexes are handed to a sink one write at a time, and a sink may refuse a write. An
archive is a sink that keeps everything and refuses nothing; a recorder also lists the writes it was
asked for and may refuse one of them.
-/

namespace SchemaUnfolding

/-- One thing to be written. -/
inductive Write
  | document (kind : OperationKind) (field extension text : String)
  | kindIndex (kind : OperationKind) (text : String)
  | rootIndex (text : String)
deriving DecidableEq, Repr

/-- The path of a write below the directory that holds everything. -/
def Write.path : Write → String
  | document kind field extension _ => kind.directory ++ "/" ++ field ++ "." ++ extension
  | kindIndex kind _ => kind.directory ++ "/index.js"
  | rootIndex _ => "index.js"

/-- What a sink does with a write: its next state, and the reason when it refuses. -/
structure Reply (σ : Type) where
  state : σ
  refusal : Option String
  events : List Event := []

/-- A sink with states `σ`. -/
structure Sink (σ : Type) where
  accept : σ → Write → Reply σ

/-! ## Archives -/

/-- What an archive holds of one kind of operation. -/
structure Shelf where
  documents : Option (Table String) := none
  index : Option String := none

/-- Documents by kind and field, and the indexes. -/
structure Archive where
  queries : Shelf := {}
  mutations : Shelf := {}
  subscriptions : Shelf := {}
  root : Option String := none

namespace Archive

/-- The shelf of a kind. -/
def shelf (archive : Archive) : OperationKind → Shelf
  | .query => archive.queries
  | .mutation => archive.mutations
  | .subscription => archive.subscriptions

/-- Replace the shelf of a kind. -/
def setShelf (archive : Archive) (shelf : Shelf) : OperationKind → Archive
  | .query => { archive with queries := shelf }
  | .mutation => { archive with mutations := shelf }
  | .subscription => { archive with subscriptions := shelf }

/-- The document of a field, if there is one. -/
def document? (archive : Archive) (kind : OperationKind) (field : String) : Option String :=
  (archive.shelf kind).documents.bind (·.get? field)

/-- Keep a write. A later document of the same field takes the place of an earlier one. -/
def keep (archive : Archive) : Write → Archive
  | .document kind field _ text =>
    let shelf := archive.shelf kind
    let documents := (shelf.documents.getD .empty).insert field text
    archive.setShelf { shelf with documents := some documents } kind
  | .kindIndex kind text =>
    archive.setShelf { archive.shelf kind with index := some text } kind
  | .rootIndex text => { archive with root := some text }

/-- The sink that keeps everything. -/
def sink : Sink Archive where
  accept archive write := ⟨archive.keep write, none, []⟩

end Archive

/-! ## Recorders -/

/-- An archive with the list of the writes it was asked for. -/
structure Recorder where
  archive : Archive := {}
  asked : List Write := []

/-- The sink that records writes and refuses the one with a number, counted from zero. -/
def Recorder.sink (refused : Option Nat) (reason : String) : Sink Recorder where
  accept recorder write :=
    let asked := recorder.asked ++ [write]
    if refused = some recorder.asked.length then ⟨{ recorder with asked }, some reason, []⟩
    else ⟨{ archive := recorder.archive.keep write, asked }, none, []⟩

end SchemaUnfolding
