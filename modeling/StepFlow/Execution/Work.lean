import StepFlow.Execution.Process

/-!
# The work of a state

One attempt of a state of each type, from its input to a step. Each is a part that computes, between
the parts that ask something of the surroundings.

* `PassState.step`, `ChoiceState.step`, `SucceedState.step`: the states that only compute;
* `TaskState.request`, `TaskState.settle`: before and after the task;
* `WaitState.pause`, `WaitState.resume`: before and after the wait;
* `ParallelState.jobs`, `MapState.jobs`: what runs side by side;
* `State.work`: the attempt of any state.
-/

namespace StepFlow

/-- What a template makes of a value, with the part of the supply that payloads have. -/
def ResultHandling.payload (handling : ResultHandling) (context : Context) (supply : Supply)
    (value : Json) : Except Trouble Json :=
  reshape handling.parameters context (supply.branch 0) value

/-- The part of the supply that the selection of a result has. -/
def selectionSupply (supply : Supply) : Supply := supply.branch 1

/-- A failure that comes of the data. -/
def dataFailure (cause : String) : Failure := ⟨.runtime, cause⟩

/-- The value at a path; if there is none, the data are to blame. -/
def readData (p : Path) (context : Context) (value : Json) : Except Trouble Json :=
  match p.read context.value value with
  | .ok part => .ok part
  | .error e => .error (e.trouble (dataFailure e.message))

/-! ## States that only compute -/

/-- A pass state puts a literal or its payload into the input. -/
def PassState.step (s : PassState) (context : Context) (supply : Supply) (input : Json) :
    Except Trouble Step := do
  let effective ← s.paths.effectiveInput context input
  let result ← match s.result with
    | some literal => .ok literal
    | none => s.handling.payload context supply effective
  complete s.paths s.handling none s.transition context supply input result

/-- The target of the first rule whose condition holds. -/
def chosen? (context : Context) (input : Json) : List ChoiceRule → Except Trouble (Option String)
  | [] => .ok none
  | rule :: rest =>
    match rule.condition.evaluate context.value input with
    | .error e => .error (e.trouble (dataFailure e.message))
    | .ok true => .ok (some rule.next)
    | .ok false => chosen? context input rest

/-- A choice state goes where the first rule that holds says, or to its default. -/
def ChoiceState.step (s : ChoiceState) (context : Context) (input : Json) : Except Trouble Step := do
  let effective ← s.paths.effectiveInput context input
  match (← chosen? context effective s.choices).or s.default with
  | some next => return ⟨.next next, ← s.paths.output context effective⟩
  | none =>
    let name := s.name
    throw (.failure ⟨.noChoiceMatched, s!"no choice rule of '{name}' matched and no Default is set"⟩)

/-- A succeed state passes its input on and is done. -/
def SucceedState.step (s : SucceedState) (context : Context) (input : Json) : Except Trouble Step := do
  let effective ← s.paths.effectiveInput context input
  return ⟨.done, ← s.paths.output context effective⟩

/-! ## Tasks -/

namespace TaskState

/-- What the state asks for. -/
def request (s : TaskState) (context : Context) (supply : Supply) (input : Json) :
    Except Trouble TaskRequest := do
  let effective ← s.paths.effectiveInput context input
  return ⟨s.resource, ← s.handling.payload context supply effective⟩

/-- How long the state waits for an answer. -/
def limit (s : TaskState) : Option Duration :=
  if s.timeoutSeconds > 0 then some (.seconds s.timeoutSeconds) else none

/-- The error of a task that got no answer in time. -/
def timeoutFailure (s : TaskState) : Failure :=
  let resource := s.resource.text
  let seconds := s.timeoutSeconds
  ⟨.timeout, s!"task '{resource}' timed out after {seconds}s"⟩

/-- The result of a task. A name that the task gives to its error is kept; any other failure has the
name that stands for failed tasks. -/
def result (s : TaskState) : Reply → Except Stop Json
  | .timedOut => .error (.failure s.timeoutFailure)
  | .answered (.ok value) => .ok value
  | .answered (.error .cancelled) => .error .cancelled
  | .answered (.error (.failed (some name) cause)) => .error (.failure ⟨.ofText name, cause⟩)
  | .answered (.error e) => .error (.failure ⟨.taskFailed, e.message⟩)

/-- The step after the result of the task. -/
def settle (s : TaskState) (context : Context) (supply : Supply) (input result : Json) :
    Except Trouble Step :=
  complete s.paths s.handling s.recovery.resultSelector s.transition context (selectionSupply supply)
    input result

end TaskState

/-! ## Waits -/

/-- The time from `now` to a timestamp; none if it is past. -/
def Timestamp.after (t now : Timestamp) : Duration :=
  .seconds (t.epochSeconds - now.epochSeconds).toNat

/-- The number of seconds that a value gives. -/
def Json.seconds? : Json → Option Nat
  | .num (.int i) => if 0 ≤ i then some i.toNat else none
  | _ => none

/-- The timestamp that a value gives. -/
def Json.time? : Json → Option Timestamp
  | .str text => Timestamp.parse? text
  | _ => none

namespace WaitDuration

/-- How long a wait takes for an input. -/
def length (context : Context) (now : Timestamp) (input : Json) :
    WaitDuration → Except Trouble Duration
  | .seconds n => .ok (.seconds n)
  | .timestamp t => .ok (t.after now)
  | .secondsPath p => do
    let value ← readData p.path context input
    match value.seconds? with
    | some n => return .seconds n
    | none =>
      let shown := value.render
      throw (.failure (dataFailure s!"SecondsPath value {shown} is not a non-negative integer"))
  | .timestampPath p => do
    let value ← readData p.path context input
    match value.time? with
    | some t => return t.after now
    | none =>
      let shown := value.render
      throw (.failure (dataFailure s!"TimestampPath value {shown} is not a timestamp"))

end WaitDuration

/-- What is passed on after a wait, and how long it takes. -/
def WaitState.pause (s : WaitState) (context : Context) (now : Timestamp) (input : Json) :
    Except Trouble (Json × Duration) := do
  let effective ← s.paths.effectiveInput context input
  return (effective, ← s.duration.length context now effective)

def WaitState.resume (s : WaitState) (context : Context) (effective : Json) : Except Trouble Step := do
  return ⟨s.transition, ← s.paths.output context effective⟩

/-! ## Workflows side by side -/

/-- Every branch runs on the same payload. -/
def ParallelState.jobs (s : ParallelState Workflow) (context : Context) (supply : Supply)
    (input : Json) : Except Trouble (List Job) := do
  let effective ← s.paths.effectiveInput context input
  let payload ← s.handling.payload context supply effective
  return s.branches.map fun w => ⟨w, payload, context⟩

/-- The step after all branches. -/
def ParallelState.settle (s : ParallelState Workflow) (context : Context) (supply : Supply)
    (input : Json) (outputs : List Json) : Except Trouble Step :=
  complete s.paths s.handling s.recovery.resultSelector s.transition context (selectionSupply supply)
    input (.arr outputs)

namespace MapState

/-- The items that the state goes through. -/
def items (s : MapState Workflow) (context : Context) (effective : Json) :
    Except Trouble (List Json) := do
  match ← readData s.itemsPath.path context effective with
  | .arr items => return items
  | other =>
    let path := s.itemsPath.source
    let shown := other.render
    throw (.failure (dataFailure s!"ItemsPath '{path}' selected {shown}, expected an array"))

/-- The job for one item, whose context holds the item and its index. -/
def job (s : MapState Workflow) (context : Context) (supply : Supply) (effective : Json) (index : Nat)
    (item : Json) : Except Trouble Job := do
  let here := context.atItem index item
  match s.handling.parameters with
  | none => return ⟨s.iterator, item, here⟩
  | some template =>
    return ⟨s.iterator, ← Payload.resolve .parameterPathFailure here effective
      (supply.branch index) template, here⟩

/-- The jobs for the items from position `index` on. -/
def jobsFrom (s : MapState Workflow) (context : Context) (supply : Supply) (effective : Json)
    (index : Nat) : List Json → Except Trouble (List Job)
  | [] => .ok []
  | item :: rest => do
    let first ← s.job context supply effective index item
    return first :: (← s.jobsFrom context supply effective (index + 1) rest)

/-- The iterator runs once for every item. -/
def jobs (s : MapState Workflow) (context : Context) (supply : Supply) (input : Json) :
    Except Trouble (List Job) := do
  let effective ← s.paths.effectiveInput context input
  let items ← s.items context effective
  s.jobsFrom context (supply.branch 0) effective 0 items

/-- The step after all items. -/
def settle (s : MapState Workflow) (context : Context) (supply : Supply) (input : Json)
    (outputs : List Json) : Except Trouble Step :=
  complete s.paths s.handling s.recovery.resultSelector s.transition context (selectionSupply supply)
    input (.arr outputs)

end MapState

/-! ## Any state -/

/-- One attempt of a state. -/
def State.work (s : State Workflow) (context : Context) (present : Present) (input : Json) :
    Activity Step :=
  let supply := present.supply
  match s with
  | .pass s => .attempt (s.step context supply input)
  | .choice s => .attempt (s.step context input)
  | .succeed s => .attempt (s.step context input)
  | .fail s => .ofExcept (.error (.failState s.error s.cause))
  | .task s => do
    let request ← Activity.attempt (s.request context supply input)
    let reply ← Activity.call request s.limit
    let result ← Activity.ofExcept (s.result reply)
    Activity.attempt (s.settle context supply input result)
  | .wait s => do
    let (effective, duration) ← Activity.attempt (s.pause context present.time input)
    Activity.sleep duration
    Activity.attempt (s.resume context effective)
  | .parallel s => do
    let jobs ← Activity.attempt (s.jobs context supply input)
    let outputs ← Activity.fork jobs 0
    Activity.attempt (s.settle context supply input outputs)
  | .map s => do
    let jobs ← Activity.attempt (s.jobs context supply input)
    let outputs ← Activity.fork jobs s.maxConcurrency
    Activity.attempt (s.settle context supply input outputs)

end StepFlow
