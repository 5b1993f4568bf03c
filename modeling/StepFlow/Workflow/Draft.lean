import StepFlow.Policy

/-!
# Drafts

A draft holds the members of a document as they were written, each of the right kind but not yet
understood.

* `DocumentDraft`: the members of a document;
* `StateDraft`: the members that any type of state may have;
* `CatcherDraft`: the members of a catcher.
-/

namespace StepFlow

open Json

/-! ## Documents -/

/-- The members of a document. -/
structure DocumentDraft where
  comment : Option String := none
  startAt : Option String := none
  version : Option String := none
  timeoutSeconds : Option Nat := none
  states : Option (Keyed Json) := none

namespace DocumentDraft

/-- Reads one member into a draft; members that are not known are left out. -/
def put (d : DocumentDraft) (field : String × Json) : Except ReadError DocumentDraft := do
  match field.1 with
  | "Comment" => return { d with comment := ← optional asText field.2 }
  | "StartAt" => return { d with startAt := ← optional asText field.2 }
  | "Version" => return { d with version := ← optional asText field.2 }
  | "TimeoutSeconds" => return { d with timeoutSeconds := ← optional asNat64 field.2 }
  | "States" => return { d with states := ← optional asTable field.2 }
  | _ => return d

/-- The fields of a document in the order of declaration. -/
def fieldNames : List String := ["Comment", "StartAt", "Version", "TimeoutSeconds", "States"]

/-- The draft that a value describes, as an object or as an array of all the fields. -/
def read : Json → Except ReadError DocumentDraft
  | .obj members => members.foldlM put {}
  | .arr items => do
    let d ← (fieldNames.zip items).foldlM put {}
    if items.length < fieldNames.length then
      throw (.length items.length "struct RawDocument with 5 elements")
    Json.allRead items (items.drop fieldNames.length)
    return d
  | j => j.mismatch "struct RawDocument"

end DocumentDraft

/-! ## Catchers -/

/-- A member that may be missing, or present and `null`. -/
inductive Nullable (α : Type) where
  | absent
  | null
  | given (a : α)

/-- A member that is present. -/
def Nullable.read {α : Type} (read : Json → Except ReadError α) (j : Json) :
    Except ReadError (Nullable α) := do
  match ← optional read j with
  | some a => return .given a
  | none => return .null

/-- The members of a catcher. -/
structure CatcherDraft where
  errorEquals : Option (List String) := none
  next : Option String := none
  resultPath : Nullable String := .absent

/-- A catcher whose members are all of the right kind. -/
structure CatcherText where
  errorEquals : List String
  next : String
  resultPath : Nullable String

namespace CatcherDraft

/-- Reads one member into a draft; members that are not known are left out. -/
def put (d : CatcherDraft) (field : String × Json) : Except ReadError CatcherDraft := do
  match field.1 with
  | "ErrorEquals" => return { d with errorEquals := some (← asTexts field.2) }
  | "Next" => return { d with next := some (← asText field.2) }
  | "ResultPath" => return { d with resultPath := ← Nullable.read asText field.2 }
  | _ => return d

/-- The fields of a catcher in the order of declaration. -/
def fieldNames : List String := ["ErrorEquals", "Next", "ResultPath"]

/-- The members that a catcher has to have. -/
def finish (d : CatcherDraft) : Except ReadError CatcherText :=
  match d.errorEquals, d.next with
  | none, _ => .error (.missing "ErrorEquals")
  | some _, none => .error (.missing "Next")
  | some names, some next => .ok ⟨names, next, d.resultPath⟩

/-- The catcher that a value describes, as an object or as an array of its fields. -/
def read : Json → Except ReadError CatcherText
  | .obj members => do (← members.foldlM put {}).finish
  | .arr items => do
    let d ← (fieldNames.zip items).foldlM put {}
    if items.length < 2 then throw (.length items.length "struct RawCatcher with 3 elements")
    Json.allRead items (items.drop fieldNames.length)
    d.finish
  | j => j.mismatch "struct RawCatcher"

end CatcherDraft

/-! ## States -/

/-- The members that any type of state may have. -/
structure StateDraft where
  comment : Option String := none
  next : Option String := none
  isEnd : Option Bool := none
  inputPath : Nullable String := .absent
  outputPath : Nullable String := .absent
  resultPath : Nullable String := .absent
  parameters : Option Json := none
  resultSelector : Option Json := none
  result : Option Json := none
  retry : Option (List Json) := none
  catchers : Option (List CatcherText) := none
  resource : Option String := none
  timeoutSeconds : Option Nat := none
  choices : Option (List Json) := none
  default : Option String := none
  seconds : Option Nat := none
  timestamp : Option String := none
  secondsPath : Option String := none
  timestampPath : Option String := none
  error : Option String := none
  cause : Option String := none
  branches : Option (List Json) := none
  iterator : Option Json := none
  itemsPath : Option String := none
  maxConcurrency : Option Nat := none

namespace StateDraft

def asAny (j : Json) : Except ReadError Json := .ok j

def asCatchers (j : Json) : Except ReadError (List CatcherText) := do
  (← asList j).mapM CatcherDraft.read

/-- Reads one member into a draft; members that are not known are left out. -/
def put (d : StateDraft) (field : String × Json) : Except ReadError StateDraft := do
  let j := field.2
  match field.1 with
  | "Comment" => return { d with comment := ← optional asText j }
  | "Next" => return { d with next := ← optional asText j }
  | "End" => return { d with isEnd := ← optional asFlag j }
  | "InputPath" => return { d with inputPath := ← Nullable.read asText j }
  | "OutputPath" => return { d with outputPath := ← Nullable.read asText j }
  | "ResultPath" => return { d with resultPath := ← Nullable.read asText j }
  | "Parameters" => return { d with parameters := ← optional asAny j }
  | "ResultSelector" => return { d with resultSelector := ← optional asAny j }
  | "Result" => return { d with result := ← optional asAny j }
  | "Retry" => return { d with retry := ← optional asList j }
  | "Catch" => return { d with catchers := ← optional asCatchers j }
  | "Resource" => return { d with resource := ← optional asText j }
  | "TimeoutSeconds" => return { d with timeoutSeconds := ← optional asNat64 j }
  | "Choices" => return { d with choices := ← optional asList j }
  | "Default" => return { d with default := ← optional asText j }
  | "Seconds" => return { d with seconds := ← optional asNat64 j }
  | "Timestamp" => return { d with timestamp := ← optional asText j }
  | "SecondsPath" => return { d with secondsPath := ← optional asText j }
  | "TimestampPath" => return { d with timestampPath := ← optional asText j }
  | "Error" => return { d with error := ← optional asText j }
  | "Cause" => return { d with cause := ← optional asText j }
  | "Branches" => return { d with branches := ← optional asList j }
  | "Iterator" => return { d with iterator := ← optional asAny j }
  | "ItemsPath" => return { d with itemsPath := ← optional asText j }
  | "MaxConcurrency" => return { d with maxConcurrency := ← optional asCount j }
  | _ => return d

def read (members : Keyed Json) : Except ReadError StateDraft := members.foldlM put {}

end StateDraft

end StepFlow
