import StepFlow.Workflow.Basic
import StepFlow.Condition.Rule

/-!
# Stored workflows

A workflow is stored as a document: records become objects with the names of their fields, a missing
value becomes `null`, and an alternative with content becomes an object with the name of the
alternative as its only key. Paths and timestamps become texts.

* `Retrier.encode`, `Catcher.encode`, `Condition.encode`: the parts of states;
* `State.encode`, `Workflow.encode`: states and workflows.
-/

namespace StepFlow

open Json

/-- A value or `null`. -/
def encodeOption {α : Type} (encode : α → Json) : Option α → Json
  | some a => encode a
  | none => .null

/-- A text or `null`. -/
def encodeText : Option String → Json := encodeOption .str

/-- A value or `null`, as it is. -/
def encodeValue : Option Json → Json := encodeOption id

def tagged (name : String) (content : Json) : Json := .obj [(name, content)]

def PathSpec.encode {P : Type} (text : P → String) : PathSpec P → Json
  | .path p => tagged "Path" (.str (text p))
  | .discard => .str "Discard"

def Transition.encode : Transition → Json
  | .next name => tagged "Next" (.str name)
  | .done => .str "End"

def DataPaths.encode (p : DataPaths) : Json :=
  ofMembers [("input_path", encodeOption (PathSpec.encode Path.source) p.inputPath),
    ("output_path", encodeOption (PathSpec.encode Path.source) p.outputPath)]

def ResultHandling.encode (h : ResultHandling) : Json :=
  ofMembers [("parameters", encodeValue h.parameters),
    ("result_path", encodeOption (PathSpec.encode ReferencePath.source) h.resultPath)]

/-- A retrier. -/
def Retrier.encode (r : Retrier) : Json :=
  ofMembers [("BackoffRate", .num (.float r.backoffRate)),
    ("ErrorEquals", .arr (r.errorEquals.map .str)), ("IntervalSeconds", .nat r.intervalSeconds),
    ("MaxAttempts", .nat r.maxAttempts)]

def Catcher.encode (c : Catcher) : Json :=
  ofMembers [("error_equals", .arr (c.errorEquals.map .str)), ("next", .str c.next),
    ("result_path", encodeOption (PathSpec.encode ReferencePath.source) c.resultPath)]

def Recovery.encode (r : Recovery) : Json :=
  ofMembers [("catch", .arr (r.catchers.map Catcher.encode)),
    ("result_selector", encodeValue r.resultSelector), ("retry", .arr (r.retriers.map Retrier.encode))]

def TaskResource.encode (r : TaskResource) : Json :=
  ofMembers [("Path", .str r.path), ("Type", .str r.resourceType)]

/-- The right side of a comparison. -/
def Reference.encode : Reference → Json
  | .literal value => tagged "Literal" value
  | .path p => tagged "Path" (.str p.source)

mutual

/-- A condition. -/
def Condition.encode : Condition → Json
  | .and children => tagged "And" (.arr (encodeConditions children))
  | .or children => tagged "Or" (.arr (encodeConditions children))
  | .not child => tagged "Not" child.encode
  | .compare kind relation left right =>
    tagged "Compare" (ofMembers [("kind", .str kind.name), ("op", .str relation.name),
      ("operand", right.encode), ("variable", .str left.source)])
  | .stringMatches subject pattern =>
    tagged "StringMatches" (ofMembers [("pattern", .str pattern), ("variable", .str subject.source)])
  | .test test subject expected =>
    tagged "Test" (ofMembers [("expected", .bool expected), ("test", .str test.name),
      ("variable", .str subject.source)])

def encodeConditions : List Condition → List Json
  | [] => []
  | c :: rest => c.encode :: encodeConditions rest

end

def ChoiceRule.encode (r : ChoiceRule) : Json :=
  ofMembers [("condition", r.condition.encode), ("next", .str r.next)]

/-- The duration of a wait. -/
def WaitDuration.encode : WaitDuration → Json
  | .seconds n => tagged "Seconds" (.nat n)
  | .timestamp t => tagged "Timestamp" (.str t.render)
  | .secondsPath p => tagged "SecondsPath" (.str p.source)
  | .timestampPath p => tagged "TimestampPath" (.str p.source)

def Position.encode (p : Position) : Json :=
  ofMembers [("branch", .nat p.branch), ("offset", .nat p.offset)]

/-- The fields that every state has, and its type. -/
def encodeStateWith (kind : StateKind) (name : String) (comment : Option String)
    (fields : List (String × Json)) : Json :=
  ofMembers ([("Type", .str kind.name), ("comment", encodeText comment), ("name", .str name)] ++
    fields)

mutual

/-- A workflow. -/
def Workflow.encode : Workflow → Json
  | .mk header branches index =>
    ofMembers [("branches", .arr (encodeBranches branches)),
      ("comment", encodeText header.comment),
      ("index", ofMembers (index.map fun e => (e.1, e.2.encode))),
      ("start_at", .str header.startAt), ("timeout_seconds", .nat header.timeoutSeconds),
      ("version", .str header.version)]

def encodeBranches : List (List (State Workflow)) → List Json
  | [] => []
  | b :: rest => .arr (encodeStates b) :: encodeBranches rest

def encodeStates : List (State Workflow) → List Json
  | [] => []
  | s :: rest => encodeState s :: encodeStates rest

/-- A state. -/
def encodeState : State Workflow → Json
  | .pass s =>
    encodeStateWith .pass s.name s.comment [("handling", s.handling.encode),
      ("paths", s.paths.encode), ("result", encodeValue s.result),
      ("transition", s.transition.encode)]
  | .task s =>
    encodeStateWith .task s.name s.comment [("handling", s.handling.encode),
      ("paths", s.paths.encode), ("recovery", s.recovery.encode), ("resource", s.resource.encode),
      ("timeout_seconds", .nat s.timeoutSeconds), ("transition", s.transition.encode)]
  | .choice s =>
    encodeStateWith .choice s.name s.comment [("choices", .arr (s.choices.map ChoiceRule.encode)),
      ("default", encodeText s.default), ("paths", s.paths.encode)]
  | .wait s =>
    encodeStateWith .wait s.name s.comment [("duration", s.duration.encode),
      ("paths", s.paths.encode), ("transition", s.transition.encode)]
  | .succeed s => encodeStateWith .succeed s.name s.comment [("paths", s.paths.encode)]
  | .fail s =>
    encodeStateWith .fail s.name s.comment [("cause", encodeText s.cause),
      ("error", encodeText s.error)]
  | .parallel s => encodeParallel s
  | .map s => encodeMap s

/-- A `Parallel` state. -/
def encodeParallel : ParallelState Workflow → Json
  | ⟨name, comment, paths, handling, recovery, branches, transition⟩ =>
    encodeStateWith .parallel name comment [("branches", .arr (encodeWorkflows branches)),
      ("handling", handling.encode), ("paths", paths.encode), ("recovery", recovery.encode),
      ("transition", transition.encode)]

/-- A `Map` state. -/
def encodeMap : MapState Workflow → Json
  | ⟨name, comment, paths, handling, recovery, iterator, itemsPath, maxConcurrency, transition⟩ =>
    encodeStateWith .map name comment [("handling", handling.encode), ("items_path", .str itemsPath.source),
      ("iterator", iterator.encode), ("max_concurrency", .nat maxConcurrency),
      ("paths", paths.encode), ("recovery", recovery.encode), ("transition", transition.encode)]

def encodeWorkflows : List Workflow → List Json
  | [] => []
  | w :: rest => w.encode :: encodeWorkflows rest

end

end StepFlow
