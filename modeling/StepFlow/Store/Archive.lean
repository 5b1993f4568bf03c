import StepFlow.Store.Basic
import StepFlow.Workflow.Decode
import StepFlow.Workflow.Encode
import StepFlow.Json.Printer

/-!
# Archives

An archive is a store whose content consists of texts alone, so that it outlives the program. It is a
list of rows, in which a name occurs once at most. A workflow is written out as a document and read
back when it is loaded, and a moment is written and read by a codec.

* `Row`: a record as texts, with `Row.ofRecord` and `Row.record?`;
* `Archive`: the store, with `save`, `load`, `delete` and `names`;
* `Archive.encode`, `Archive.decode?`: an archive as a document.
-/

namespace StepFlow

/-- A record as texts. -/
structure Row where
  name : String
  source : String
  workflow : String
  created : String

namespace Row

def ofRecord (codec : MomentCodec) (record : WorkflowRecord) : Row :=
  ⟨record.name, record.source, record.workflow.encode.render, codec.write record.created⟩

/-- The record of a row, if its texts read as a workflow and as a moment. Documents that nest too deep
are written but not read. -/
def record? (codec : MomentCodec) (row : Row) : Option WorkflowRecord := do
  let document ← Json.read? row.workflow
  let workflow ← (Workflow.decode document).toOption
  return ⟨row.name, row.source, workflow, ← codec.read? row.created⟩

end Row

/-- Rows in the order in which their names were first saved. -/
structure Archive (codec : MomentCodec) where
  rows : List Row

namespace Archive

variable {codec : MomentCodec}

def empty : Archive codec := ⟨[]⟩

def row? (name : String) (archive : Archive codec) : Option Row :=
  archive.rows.find? fun row => row.name = name

/-- Keeps a record: in a row of its own, or in the row that has its name. -/
def save (record : WorkflowRecord) (replace : Bool) (archive : Archive codec) :
    Except StoreError (Archive codec) :=
  let row := Row.ofRecord codec record
  match archive.row? record.name, replace with
  | none, _ => .ok ⟨archive.rows ++ [row]⟩
  | some _, true => .ok ⟨archive.rows.map fun r => if r.name = record.name then row else r⟩
  | some _, false => .error (.alreadyExists record.name)

/-- The record under a name. -/
def load (name : String) (archive : Archive codec) : Except StoreError WorkflowRecord :=
  match archive.row? name with
  | none => .error (.notFound name)
  | some row =>
    match row.record? codec with
    | some record => .ok record
    | none => .error (.unreadable name)

def delete (name : String) (archive : Archive codec) : Except StoreError (Archive codec) :=
  let kept := archive.rows.filter fun row => row.name ≠ name
  if kept.length = archive.rows.length then .error (.notFound name) else .ok ⟨kept⟩

def names (archive : Archive codec) : List String :=
  (archive.rows.map Row.name).mergeSort

instance : WorkflowStore (Archive codec) := ⟨empty, save, load, delete, names⟩

/-! ## Archives as documents -/

def encodeRow (row : Row) : Json :=
  .arr [.str row.name, .str row.source, .str row.workflow, .str row.created]

def encode (archive : Archive codec) : Json := .arr (archive.rows.map encodeRow)

/-- The row that a document describes. -/
def decodeRow? : Json → Option Row
  | .arr [.str name, .str source, .str workflow, .str created] =>
    some ⟨name, source, workflow, created⟩
  | _ => none

/-- The archive that a document describes. -/
def decode? (document : Json) : Option (Archive codec) := do
  return ⟨← (← document.items?).mapM decodeRow?⟩

end Archive

end StepFlow
