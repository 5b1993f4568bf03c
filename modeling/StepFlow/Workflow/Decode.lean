import StepFlow.Workflow.Encode

/-!
# Reading stored workflows

The inverse of storing. A stored workflow is taken as it is: what compiling checks is not checked
again. The type of a state decides how its other fields are read, so that they are kept until it is
known, and what is read from there is read more leniently: an alternative without content may have an
empty object, and the type of a state within a state may be given by its number.

* `Catcher.decode`, `Condition.decode`: the parts of states;
* `Workflow.decode`: a workflow.
-/

namespace StepFlow

open Json

/-! ## Parts of states -/

/-- A path. -/
def decodePath (j : Json) : Except ReadError Path := do
  match Path.parse (← asText j) with
  | .ok p => return p
  | .error e => throw (.content e.message)

/-- A reference path. -/
def decodeReferencePath (j : Json) : Except ReadError ReferencePath := do
  match ReferencePath.parse (← asText j) with
  | .ok p => return p
  | .error e => throw (.content e.message)

/-- A path field. -/
def PathSpec.decode {P : Type} (lenient : Bool) (read : Json → Except ReadError P) (j : Json) :
    Except ReadError (PathSpec P) := do
  let (name, rest) ← asAlternative j
  match name with
  | "Path" => return .path (← content read rest)
  | "Discard" =>
    noContent lenient rest
    return .discard
  | _ => throw (.variant name ["Path", "Discard"])

/-- A transition. -/
def Transition.decode (j : Json) : Except ReadError Transition := do
  let (name, rest) ← asAlternative j
  match name with
  | "Next" => return .next (← content asText rest)
  | "End" =>
    noContent true rest
    return .done
  | _ => throw (.variant name ["Next", "End"])

/-- The paths of a state. -/
def DataPaths.decode (j : Json) : Except ReadError DataPaths := do
  let r ← asRecord "DataPaths" ["input_path", "output_path"] j
  let input ← allowed r "input_path" (PathSpec.decode true decodePath)
  let output ← allowed r "output_path" (PathSpec.decode true decodePath)
  return ⟨input, output⟩

def decodeAny (j : Json) : Except ReadError Json := .ok j

/-- The handling of a result. -/
def ResultHandling.decode (j : Json) : Except ReadError ResultHandling := do
  let r ← asRecord "ResultHandling" ["result_path", "parameters"] j
  let resultPath ← allowed r "result_path" (PathSpec.decode true decodeReferencePath)
  let parameters ← allowed r "parameters" decodeAny
  return ⟨resultPath, parameters⟩

/-- A list of things that are read alike. -/
def decodeList {α : Type} (read : Json → Except ReadError α) (j : Json) :
    Except ReadError (List α) := do
  (← asList j).mapM read

/-- A catcher whose fields have been read so far. -/
structure StoredCatcher where
  errorEquals : Option (List String) := none
  next : Option String := none
  resultPath : Option (PathSpec ReferencePath) := none

/-- Reads one field of a catcher; fields that are not known are left out. -/
def StoredCatcher.put (lenient : Bool) (c : StoredCatcher) (field : String × Json) :
    Except ReadError StoredCatcher := do
  match field.1 with
  | "error_equals" => return { c with errorEquals := some (← asTexts field.2) }
  | "next" => return { c with next := some (← asText field.2) }
  | "result_path" =>
    return { c with resultPath := ← optional (PathSpec.decode lenient decodeReferencePath) field.2 }
  | _ => return c

/-- The fields that a catcher has to have. -/
def StoredCatcher.finish (c : StoredCatcher) : Except ReadError Catcher :=
  match c.errorEquals, c.next with
  | none, _ => .error (.missing "error_equals")
  | some _, none => .error (.missing "next")
  | some names, some next => .ok ⟨names, next, c.resultPath⟩

/-- A catcher. -/
def Catcher.decode (lenient : Bool) : Json → Except ReadError Catcher
  | .obj members => do (← members.foldlM (StoredCatcher.put lenient) {}).finish
  | .arr items => do
    let fields := ["error_equals", "next", "result_path"]
    let c ← (fields.zip items).foldlM (StoredCatcher.put lenient) {}
    if items.length < 3 then throw (.length items.length "struct Catcher with 3 elements")
    allRead items (items.drop 3)
    c.finish
  | j => mismatch "struct Catcher" j

/-- The recovery of a state. -/
def Recovery.decode (j : Json) : Except ReadError Recovery := do
  let r ← asRecord "Recovery" ["result_selector", "retry", "catch"] j
  let selector ← allowed r "result_selector" decodeAny
  let retriers ← required r "retry" (decodeList Retrier.read)
  let catchers ← required r "catch" (decodeList (Catcher.decode true))
  return ⟨selector, retriers, catchers⟩

/-- A resource. -/
def TaskResource.decode (j : Json) : Except ReadError TaskResource := do
  let r ← asRecord "TaskResource" ["Type", "Path"] j
  let resourceType ← required r "Type" asText
  let path ← required r "Path" asText
  return ⟨resourceType, path⟩

/-! ## Conditions -/

/-- The right side of a comparison. -/
def Reference.decode (j : Json) : Except ReadError Reference := do
  let (name, rest) ← asAlternative j
  match name with
  | "Literal" => return .literal (← content decodeAny rest)
  | "Path" => return .path (← content decodePath rest)
  | _ => throw (.variant name ["Literal", "Path"])

/-- The kinds of values of comparisons. -/
def ValueKind.all : List ValueKind := [.string, .numeric, .boolean, .timestamp]

/-- The relations of comparisons. -/
def Relation.all : List Relation :=
  [.equals, .lessThan, .lessThanEquals, .greaterThan, .greaterThanEquals]

/-- The fields of a comparison. -/
def decodeCompare (j : Json) : Except ReadError Condition := do
  let r ← asRecord "Compare" ["kind", "op", "variable", "operand"] j
  let kind ← required r "kind" (asOneOf true ValueKind.all ValueKind.name)
  let relation ← required r "op" (asOneOf true Relation.all Relation.name)
  let left ← required r "variable" decodePath
  let right ← required r "operand" Reference.decode
  return .compare kind relation left right

/-- The fields of a match with a pattern. -/
def decodeStringMatches (j : Json) : Except ReadError Condition := do
  let r ← asRecord "StringMatches" ["variable", "pattern"] j
  let subject ← required r "variable" decodePath
  let pattern ← required r "pattern" asText
  return .stringMatches subject pattern

/-- The fields of a test on a kind. -/
def decodeTest (j : Json) : Except ReadError Condition := do
  let r ← asRecord "Test" ["test", "variable", "expected"] j
  let test ← required r "test" (asOneOf true typeTests TypeTest.name)
  let subject ← required r "variable" decodePath
  let expected ← required r "expected" asFlag
  return .test test subject expected

/-- A condition, given how to read the conditions within it. -/
def decodeConditionWith (nested : Json → Except ReadError Condition) (j : Json) :
    Except ReadError Condition := do
  let (name, rest) ← asAlternative j
  match name with
  | "And" => return .and (← content (decodeList nested) rest)
  | "Or" => return .or (← content (decodeList nested) rest)
  | "Not" => return .not (← content nested rest)
  | "Compare" => content decodeCompare rest
  | "StringMatches" => content decodeStringMatches rest
  | "Test" => content decodeTest rest
  | _ => throw (.variant name ["And", "Or", "Not", "Compare", "StringMatches", "Test"])

/-- A condition with conditions nested less than `depth` deep. -/
def Condition.decodeAt : (depth : Nat) → Json → Except ReadError Condition
  | 0, _ => .error (.content "the condition nests too deep")
  | depth + 1, j => decodeConditionWith (decodeAt depth) j

/-- A condition. No condition nests deeper than its value does. -/
def Condition.decode (j : Json) : Except ReadError Condition := decodeAt (j.depth + 1) j

/-- A rule of a choice. -/
def ChoiceRule.decode (j : Json) : Except ReadError ChoiceRule := do
  let r ← asRecord "ChoiceRule" ["condition", "next"] j
  let condition ← required r "condition" Condition.decode
  let next ← required r "next" asText
  return ⟨condition, next⟩

/-! ## States -/

/-- A timestamp. -/
def Timestamp.decode (j : Json) : Except ReadError Timestamp := do
  match Timestamp.parse (← asText j) with
  | .ok t => return t
  | .error fault => throw (.content fault.message)

/-- The duration of a wait. -/
def WaitDuration.decode (j : Json) : Except ReadError WaitDuration := do
  let (name, rest) ← asAlternative j
  match name with
  | "Seconds" => return .seconds (← content asNat64 rest)
  | "Timestamp" => return .timestamp (← content Timestamp.decode rest)
  | "SecondsPath" => return .secondsPath (← content decodeReferencePath rest)
  | "TimestampPath" => return .timestampPath (← content decodeReferencePath rest)
  | _ => throw (.variant name ["Seconds", "Timestamp", "SecondsPath", "TimestampPath"])

/-- The type of a state, given by its name, or by its number where that is allowed. -/
def StateKind.decode (lenient : Bool) : Json → Except ReadError StateKind
  | .str given =>
    match StateKind.ofName? given with
    | some kind => .ok kind
    | none => .error (.variant given (StateKind.all.map StateKind.name))
  | .num (.int i) =>
    if lenient && 0 ≤ i then
      match StateKind.all[i.toNat]? with
      | some kind => .ok kind
      | none => .error (.range i "variant index 0 <= i < 8")
    else mismatch "variant identifier" (.num (.int i))
  | j => mismatch "variant identifier" j

/-- The type of a state and its other fields: `Type` is a member of an object or the first item of an
array. -/
def taggedState (lenient : Bool) : Json → Except ReadError (StateKind × Json)
  | .obj members => do
    let kind ← required members "Type" (StateKind.decode lenient)
    return (kind, .obj (Keyed.erase "Type" members))
  | .arr (tag :: items) => do return (← StateKind.decode lenient tag, .arr items)
  | .arr [] => .error (.missing "Type")
  | j => mismatch "internally tagged enum State" j

section Decode

variable {W : Type} (nested : Json → Except ReadError W)

/-- A `Pass` state. -/
def PassState.decode (j : Json) : Except ReadError PassState := do
  let r ← asRecord "PassState" ["name", "comment", "paths", "handling", "result", "transition"] j
  let name ← required r "name" asText
  let comment ← allowed r "comment" asText
  let paths ← required r "paths" DataPaths.decode
  let handling ← required r "handling" ResultHandling.decode
  let result ← allowed r "result" decodeAny
  let transition ← required r "transition" Transition.decode
  return ⟨name, comment, paths, handling, result, transition⟩

/-- A `Task` state. -/
def TaskState.decode (j : Json) : Except ReadError TaskState := do
  let r ← asRecord "TaskState" ["name", "comment", "paths", "handling", "recovery", "resource",
    "timeout_seconds", "transition"] j
  let name ← required r "name" asText
  let comment ← allowed r "comment" asText
  let paths ← required r "paths" DataPaths.decode
  let handling ← required r "handling" ResultHandling.decode
  let recovery ← required r "recovery" Recovery.decode
  let resource ← required r "resource" TaskResource.decode
  let timeoutSeconds ← required r "timeout_seconds" asNat64
  let transition ← required r "transition" Transition.decode
  return ⟨name, comment, paths, handling, recovery, resource, timeoutSeconds, transition⟩

/-- A `Choice` state. -/
def ChoiceState.decode (j : Json) : Except ReadError ChoiceState := do
  let r ← asRecord "ChoiceState" ["name", "comment", "paths", "choices", "default"] j
  let name ← required r "name" asText
  let comment ← allowed r "comment" asText
  let paths ← required r "paths" DataPaths.decode
  let choices ← required r "choices" (decodeList ChoiceRule.decode)
  let default ← allowed r "default" asText
  return ⟨name, comment, paths, choices, default⟩

/-- A `Wait` state. -/
def WaitState.decode (j : Json) : Except ReadError WaitState := do
  let r ← asRecord "WaitState" ["name", "comment", "paths", "duration", "transition"] j
  let name ← required r "name" asText
  let comment ← allowed r "comment" asText
  let paths ← required r "paths" DataPaths.decode
  let duration ← required r "duration" WaitDuration.decode
  let transition ← required r "transition" Transition.decode
  return ⟨name, comment, paths, duration, transition⟩

/-- A `Succeed` state. -/
def SucceedState.decode (j : Json) : Except ReadError SucceedState := do
  let r ← asRecord "SucceedState" ["name", "comment", "paths"] j
  let name ← required r "name" asText
  let comment ← allowed r "comment" asText
  let paths ← required r "paths" DataPaths.decode
  return ⟨name, comment, paths⟩

/-- A `Fail` state. -/
def FailState.decode (j : Json) : Except ReadError FailState := do
  let r ← asRecord "FailState" ["name", "comment", "error", "cause"] j
  let name ← required r "name" asText
  let comment ← allowed r "comment" asText
  let error ← allowed r "error" asText
  let cause ← allowed r "cause" asText
  return ⟨name, comment, error, cause⟩

/-- A `Parallel` state. -/
def ParallelState.decode (j : Json) : Except ReadError (ParallelState W) := do
  let r ← asRecord "ParallelState" ["name", "comment", "paths", "handling", "recovery", "branches",
    "transition"] j
  let name ← required r "name" asText
  let comment ← allowed r "comment" asText
  let paths ← required r "paths" DataPaths.decode
  let handling ← required r "handling" ResultHandling.decode
  let recovery ← required r "recovery" Recovery.decode
  let branches ← required r "branches" (decodeList nested)
  let transition ← required r "transition" Transition.decode
  return ⟨name, comment, paths, handling, recovery, branches, transition⟩

/-- A `Map` state. -/
def MapState.decode (j : Json) : Except ReadError (MapState W) := do
  let r ← asRecord "MapState" ["name", "comment", "paths", "handling", "recovery", "iterator",
    "items_path", "max_concurrency", "transition"] j
  let name ← required r "name" asText
  let comment ← allowed r "comment" asText
  let paths ← required r "paths" DataPaths.decode
  let handling ← required r "handling" ResultHandling.decode
  let recovery ← required r "recovery" Recovery.decode
  let iterator ← required r "iterator" nested
  let itemsPath ← required r "items_path" decodeReferencePath
  let maxConcurrency ← required r "max_concurrency" asCount
  let transition ← required r "transition" Transition.decode
  return ⟨name, comment, paths, handling, recovery, iterator, itemsPath, maxConcurrency, transition⟩

/-- A state of a given type. -/
def decodeStored (j : Json) : StateKind → Except ReadError (State W)
  | .pass => .pass <$> PassState.decode j
  | .task => .task <$> TaskState.decode j
  | .choice => .choice <$> ChoiceState.decode j
  | .wait => .wait <$> WaitState.decode j
  | .succeed => .succeed <$> SucceedState.decode j
  | .fail => .fail <$> FailState.decode j
  | .parallel => .parallel <$> ParallelState.decode nested j
  | .map => .map <$> MapState.decode nested j

def State.decode (lenient : Bool) (j : Json) : Except ReadError (State W) := do
  let (kind, fields) ← taggedState lenient j
  decodeStored nested fields kind

end Decode

/-! ## Workflows -/

/-- The place of a state. -/
def Position.decode (j : Json) : Except ReadError Position := do
  let r ← asRecord "StatePosition" ["branch", "offset"] j
  let branch ← required r "branch" asCount
  let offset ← required r "offset" asCount
  return ⟨branch, offset⟩

def decodeIndex (j : Json) : Except ReadError (Keyed Position) := do
  (← asTable j).mapM fun e => do return (e.1, ← Position.decode e.2)

/-- A workflow, given how to read the workflows within it. -/
def decodeWorkflowWith (lenient : Bool) (nested : Json → Except ReadError Workflow) (j : Json) :
    Except ReadError Workflow := do
  let r ← asRecord "Workflow" ["comment", "start_at", "version", "timeout_seconds", "branches",
    "index"] j
  let comment ← allowed r "comment" asText
  let startAt ← required r "start_at" asText
  let version ← required r "version" asText
  let timeoutSeconds ← required r "timeout_seconds" asNat64
  let branches ← required r "branches" (decodeList (decodeList (State.decode nested lenient)))
  let index ← required r "index" decodeIndex
  return ⟨⟨comment, startAt, version, timeoutSeconds⟩, branches, index⟩

namespace Workflow

/-- A workflow with workflows nested less than `depth` deep, of which it is itself one if `isNested`. -/
def decodeAt : (depth : Nat) → (isNested : Bool) → Json → Except ReadError Workflow
  | 0, _, _ => .error (.content "the workflow nests too deep")
  | depth + 1, isNested, j => decodeWorkflowWith isNested (decodeAt depth true) j

/-- A workflow. No workflow nests deeper than its value does. -/
def decode (j : Json) : Except ReadError Workflow := decodeAt (j.depth + 1) false j

end Workflow

end StepFlow
