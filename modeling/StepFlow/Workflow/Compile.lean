import StepFlow.Workflow.Draft
import StepFlow.Workflow.Partition
import StepFlow.Condition.Rule

/-!
# Compiling documents

A document is compiled by reading its members, reading every declared state, checking that every
state it may lead to is declared, and splitting the states into branches. The first fault that is met
rejects the document as a whole.

* `CompileError`: the faults;
* `decodeState`: one state, given how to compile the workflows within it;
* `Workflow.compile`, `Workflow.compileText`: a whole document.
-/

namespace StepFlow

/-- Why a document is rejected. -/
inductive CompileError where
  | unreadable (error : ReadError)
  | malformed
  | noStartAt
  | noStates
  | startAtNotFound (name : String)
  | noType (state : String)
  | unknownType (state typeName : String)
  | invalidState (state message : String)
  | unreadableState (state : String) (error : ReadError)
  | invalidTimestamp (state text : String) (fault : TimestampFault)
  | invalidResource (state resource : String)
  | invalidRule (state : String) (index : Nat) (fault : RuleFault)
  | invalidPath (state field : String) (error : PathError)
  | unknownTransition (state target : String)
  | ambiguousTransition (state : String)
  | noTransition (state : String)
  | invalidRetrier (state : String) (fault : PolicyFault)
  | invalidCatcher (state : String) (fault : PolicyFault)
  | invalidBranch (state : String) (error : CompileError)
deriving Inhabited

namespace CompileError

/-- The wording of a fault of a state as a whole. -/
def wordState (state message : String) : String :=
  s!"state '{state}' is invalid: {message}"

/-- The wording of a rejection. -/
def message : CompileError → String
  | .unreadable error =>
    let cause := error.message
    s!"invalid document: {cause}"
  | .malformed => "invalid document: the text is not a document"
  | .noStartAt => "document has no StartAt"
  | .noStates => "document has no States"
  | .startAtNotFound name => s!"StartAt '{name}' is not a declared state"
  | .noType state => s!"state '{state}' has no Type"
  | .unknownType state typeName => s!"state '{state}' has unknown Type '{typeName}'"
  | .invalidState state message => wordState state message
  | .unreadableState state error => wordState state error.message
  | .invalidTimestamp state text fault =>
    let cause := fault.message
    wordState state s!"Timestamp '{text}': {cause}"
  | .invalidResource state resource => s!"state '{state}' has invalid task resource '{resource}'"
  | .invalidRule state index fault =>
    let cause := fault.message
    s!"state '{state}' has malformed choice rule {index}: {cause}"
  | .invalidPath state field error =>
    let cause := error.message
    s!"state '{state}' has invalid {field}: {cause}"
  | .unknownTransition state target =>
    s!"state '{state}' transitions to unknown state '{target}'"
  | .ambiguousTransition state => s!"state '{state}' declares both Next and End"
  | .noTransition state => s!"state '{state}' declares neither Next nor End"
  | .invalidRetrier state fault =>
    let cause := fault.message
    s!"state '{state}' has invalid retrier: {cause}"
  | .invalidCatcher state fault =>
    let cause := fault.message
    s!"state '{state}' has invalid catcher: {cause}"
  | .invalidBranch state error =>
    let cause := error.message
    s!"state '{state}' has invalid sub-workflow: {cause}"

end CompileError

/-! ## Parts of states -/

namespace StateDraft

/-- The path in a field of a state. -/
def path (state field text : String) : Except CompileError Path :=
  match Path.parse text with
  | .ok p => .ok p
  | .error e => .error (.invalidPath state field e)

/-- The reference path in a field of a state. -/
def referencePath (state field text : String) : Except CompileError ReferencePath :=
  match ReferencePath.parse text with
  | .ok p => .ok p
  | .error e => .error (.invalidPath state field e)

/-- What a path field holds, with its text read by `read`. -/
def spec {P : Type} (read : String → Except CompileError P) :
    Nullable String → Except CompileError (Option (PathSpec P))
  | .absent => .ok none
  | .null => .ok (some .discard)
  | .given text => (read text).map fun p => some (.path p)

/-- Where input and output are cut out. -/
def dataPaths (d : StateDraft) (state : String) : Except CompileError DataPaths := do
  let input ← spec (path state "InputPath") d.inputPath
  let output ← spec (path state "OutputPath") d.outputPath
  return ⟨input, output⟩

/-- A template has to be an object. -/
def template (state field : String) : Option Json → Except CompileError (Option Json)
  | some (.obj members) => .ok (some (.obj members))
  | some _ => .error (.invalidState state (field ++ " must be an object"))
  | none => .ok none

/-- What a state makes of its input, and where its result goes. -/
def handling (d : StateDraft) (state : String) : Except CompileError ResultHandling := do
  let parameters ← template state "Parameters" d.parameters
  let resultPath ← spec (referencePath state "ResultPath") d.resultPath
  return ⟨resultPath, parameters⟩

/-- A retrier of a state. -/
def retrier (state : String) (j : Json) : Except CompileError Retrier :=
  match Retrier.read j with
  | .error e => .error (.invalidRetrier state (.unreadable e))
  | .ok r =>
    match r.check with
    | .ok _ => .ok r
    | .error fault => .error (.invalidRetrier state fault)

/-- A catcher of a state. -/
def catcher (state : String) (c : CatcherText) : Except CompileError Catcher :=
  match checkErrors c.errorEquals with
  | .error fault => .error (.invalidCatcher state fault)
  | .ok _ => do
    let resultPath ← spec (referencePath state "Catch.ResultPath") c.resultPath
    return ⟨c.errorEquals, c.next, resultPath⟩

/-- What is picked from a result, and what happens after a failure. -/
def recovery (d : StateDraft) (state : String) : Except CompileError Recovery := do
  let selector ← template state "ResultSelector" d.resultSelector
  let retriers ← (d.retry.getD []).mapM (retrier state)
  match checkAllIsLast (retriers.map Retrier.errorEquals) with
  | .ok _ => pure ()
  | .error fault => throw (.invalidRetrier state fault)
  let catchers ← (d.catchers.getD []).mapM (catcher state)
  match checkAllIsLast (catchers.map Catcher.errorEquals) with
  | .ok _ => pure ()
  | .error fault => throw (.invalidCatcher state fault)
  return ⟨selector, retriers, catchers⟩

/-- Exactly one of `Next` and `End` is given. -/
def transition (d : StateDraft) (state : String) : Except CompileError Transition :=
  match d.next, d.isEnd.getD false with
  | some _, true => .error (.ambiguousTransition state)
  | some next, false => .ok (.next next)
  | none, true => .ok .done
  | none, false => .error (.noTransition state)

/-- A rule of a choice. -/
def choiceRule (state : String) (index : Nat) (rule : Json) : Except CompileError ChoiceRule :=
  match rule with
  | .obj members =>
    match Keyed.find? "Next" members with
    | some (.str next) =>
      match Condition.ofRule members with
      | .ok condition => .ok ⟨condition, next⟩
      | .error fault => .error (.invalidRule state index fault)
    | _ => .error (.invalidRule state index .noNext)
  | _ => .error (.invalidRule state index .ruleKind)

/-- The rules of a choice from position `index` on. -/
def choiceRules (state : String) (index : Nat) : List Json → Except CompileError (List ChoiceRule)
  | [] => .ok []
  | rule :: rest => do
    let first ← choiceRule state index rule
    return first :: (← choiceRules state (index + 1) rest)

/-- The rules of a choice, of which there is at least one. -/
def choiceList (d : StateDraft) (state : String) : Except CompileError (List ChoiceRule) :=
  match d.choices with
  | none => .error (.invalidState state "Choices is required")
  | some [] => .error (.invalidState state "Choices must not be empty")
  | some rules => choiceRules state 0 rules

/-- The source of the duration of a wait, of which there is exactly one. -/
def duration (d : StateDraft) (state : String) : Except CompileError WaitDuration :=
  match d.seconds, d.timestamp, d.secondsPath, d.timestampPath with
  | none, none, none, none =>
    .error (.invalidState state
      "one of Seconds, Timestamp, SecondsPath or TimestampPath is required")
  | some n, none, none, none => .ok (.seconds n)
  | none, some text, none, none =>
    match Timestamp.parse text with
    | .ok t => .ok (.timestamp t)
    | .error fault => .error (.invalidTimestamp state text fault)
  | none, none, some text, none => (referencePath state "SecondsPath" text).map .secondsPath
  | none, none, none, some text => (referencePath state "TimestampPath" text).map .timestampPath
  | _, _, _, _ =>
    .error (.invalidState state
      "only one of Seconds, Timestamp, SecondsPath or TimestampPath may be set")

end StateDraft

/-! ## States -/

section Decode

variable {W : Type} (compile : Json → Except CompileError W)

/-- A workflow within a state. -/
def nestedWorkflow (state : String) (document : Json) : Except CompileError W :=
  match compile document with
  | .ok w => .ok w
  | .error e => .error (.invalidBranch state e)

/-- The type of a state. -/
def stateKind (state : String) (j : Json) : Except CompileError StateKind :=
  match j.member? "Type" with
  | some (.str typeName) =>
    match StateKind.ofName? typeName with
    | some kind => .ok kind
    | none => .error (.unknownType state typeName)
  | some _ => .error (.invalidState state "Type must be a string")
  | none => .error (.noType state)

/-- A `Pass` state. -/
def decodePass (state : String) (d : StateDraft) : Except CompileError PassState := do
  let paths ← d.dataPaths state
  let handling ← d.handling state
  let transition ← d.transition state
  return ⟨state, d.comment, paths, handling, d.result, transition⟩

/-- The resource of a task. -/
def decodeResource (state : String) (d : StateDraft) : Except CompileError TaskResource :=
  match d.resource with
  | none => .error (.invalidState state "Resource is required")
  | some text =>
    match TaskResource.parse? text with
    | some resource => .ok resource
    | none => .error (.invalidResource state text)

/-- A `Task` state. -/
def decodeTask (state : String) (d : StateDraft) : Except CompileError TaskState := do
  let resource ← decodeResource state d
  let paths ← d.dataPaths state
  let handling ← d.handling state
  let recovery ← d.recovery state
  let transition ← d.transition state
  return ⟨state, d.comment, paths, handling, recovery, resource, d.timeoutSeconds.getD 0, transition⟩

/-- A `Choice` state. -/
def decodeChoice (state : String) (d : StateDraft) : Except CompileError ChoiceState := do
  let paths ← d.dataPaths state
  let choices ← d.choiceList state
  return ⟨state, d.comment, paths, choices, d.default⟩

/-- A `Wait` state. -/
def decodeWait (state : String) (d : StateDraft) : Except CompileError WaitState := do
  let paths ← d.dataPaths state
  let duration ← d.duration state
  let transition ← d.transition state
  return ⟨state, d.comment, paths, duration, transition⟩

/-- A `Parallel` state. -/
def decodeParallel (state : String) (d : StateDraft) :
    Except CompileError (ParallelState W) := do
  let documents ← match d.branches with
    | none => throw (.invalidState state "Branches is required")
    | some [] => throw (.invalidState state "Branches must not be empty")
    | some documents => pure documents
  let branches ← documents.mapM (nestedWorkflow compile state)
  let paths ← d.dataPaths state
  let handling ← d.handling state
  let recovery ← d.recovery state
  let transition ← d.transition state
  return ⟨state, d.comment, paths, handling, recovery, branches, transition⟩

/-- The path of the items of a map. -/
def decodeItemsPath (state : String) (d : StateDraft) : Except CompileError ReferencePath :=
  match d.itemsPath with
  | some text => StateDraft.referencePath state "ItemsPath" text
  | none => .ok .root

/-- A `Map` state. -/
def decodeMap (state : String) (d : StateDraft) : Except CompileError (MapState W) := do
  let document ← match d.iterator with
    | none => throw (.invalidState state "Iterator is required")
    | some document => pure document
  let itemsPath ← decodeItemsPath state d
  let iterator ← nestedWorkflow compile state document
  let paths ← d.dataPaths state
  let handling ← d.handling state
  let recovery ← d.recovery state
  let transition ← d.transition state
  return ⟨state, d.comment, paths, handling, recovery, iterator, itemsPath, d.maxConcurrency.getD 0,
    transition⟩

/-- The state of a type that a draft describes. -/
def decodeKind (state : String) (d : StateDraft) : StateKind → Except CompileError (State W)
  | .pass => .pass <$> decodePass state d
  | .task => .task <$> decodeTask state d
  | .choice => .choice <$> decodeChoice state d
  | .wait => .wait <$> decodeWait state d
  | .succeed => do return .succeed ⟨state, d.comment, ← d.dataPaths state⟩
  | .fail => .ok (.fail ⟨state, d.comment, d.error, d.cause⟩)
  | .parallel => .parallel <$> decodeParallel compile state d
  | .map => .map <$> decodeMap compile state d

/-- The members of a state as a draft. -/
def draftOf (state : String) (j : Json) : Except CompileError StateDraft :=
  match StateDraft.read (j.members?.getD []) with
  | .ok d => .ok d
  | .error e => .error (.unreadableState state e)

/-- The state that a declaration describes; its type is read first. -/
def decodeState (state : String) (j : Json) : Except CompileError (State W) := do
  let kind ← stateKind state j
  decodeKind compile state (← draftOf state j) kind

/-- The declared states in key order; the first fault counts. -/
def decodeStates : Keyed Json → Except CompileError (Keyed (State W))
  | [] => .ok []
  | (name, j) :: rest => do
    let s ← decodeState compile name j
    return (name, s) :: (← decodeStates rest)

/-- The first transition that leads to a state that is not declared. -/
def danglingTransition? (states : Keyed (State W)) : Option (String × String) :=
  states.findSome? fun e =>
    (e.2.successors.find? fun t => (Keyed.find? t states).isNone).map fun t => (e.2.name, t)

/-- The declared states of a document whose transitions lead to declared states. -/
def checkedStates (startAt : String) (declared : Keyed Json) :
    Except CompileError (Keyed (State W)) := do
  let states ← decodeStates compile declared
  if (Keyed.find? startAt states).isNone then throw (.startAtNotFound startAt)
  match danglingTransition? states with
  | some (state, target) => throw (.unknownTransition state target)
  | none => return states

end Decode

/-! ## Documents -/

/-- The version of a document that gives none. -/
def defaultVersion : String := "1.0"

/-- The workflow of a document, given how to compile the documents within it. -/
def compileWith (compile : Json → Except CompileError Workflow) (document : Json) :
    Except CompileError Workflow := do
  let d ← match DocumentDraft.read document with
    | .ok d => pure d
    | .error e => throw (.unreadable e)
  match d.startAt, d.states with
  | none, _ => throw .noStartAt
  | some _, none => throw .noStates
  | some startAt, some declared =>
    let states ← checkedStates compile startAt declared
    let p := partition startAt states
    return ⟨⟨d.comment, startAt, d.version.getD defaultVersion, d.timeoutSeconds.getD 0⟩,
      p.branches, p.index⟩

namespace Workflow

/-- The workflow of a document within which documents nest less than `depth` deep. -/
def compileAt : (depth : Nat) → Json → Except CompileError Workflow
  | 0, _ => .error .malformed
  | depth + 1, document => compileWith (compileAt depth) document

/-- The workflow of a document. No document nests deeper than its value does. -/
def compile (document : Json) : Except CompileError Workflow :=
  compileAt (document.depth + 1) document

/-- The workflow of the document that a text spells. -/
def compileText (text : String) : Except CompileError Workflow :=
  match Json.read? text with
  | some document => compile document
  | none => .error .malformed

end Workflow

end StepFlow
