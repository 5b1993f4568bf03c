import StepFlow.Execution.Schedule

/-!
# Executing a workflow

* `Status`, `RunError`, `Outcome`: how an execution can end;
* `Outcome.close?`: the last event of an execution;
* `Report`: what comes of an execution;
* `Workflow.execute`: the execution of a workflow.
-/

namespace StepFlow

/-- How a workflow ended that came to an end of its own. -/
inductive Status where
  | succeeded (output : Json)
  /-- A state was reached that ends the workflow with an error. -/
  | failed (error cause : Option String)

/-- Why an execution did not come to an end of its own. -/
inductive RunError where
  | cancelled
  | timedOut (limit : Duration)
  | noState (state : String)
  /-- A state raised an error that it neither retried nor caught. -/
  | stateFailed (state : String) (failure : Failure)
  /-- A state broke off. -/
  | brokenOff

/-- The wording of an error. -/
def RunError.message : RunError → String
  | .cancelled => "execution cancelled"
  | .timedOut limit =>
    let seconds := limit.wholeSeconds
    s!"execution timed out after {seconds}s"
  | .noState state => s!"state '{state}' not found"
  | .stateFailed state failure =>
    let text := failure.text
    s!"state '{state}' failed: {text}"
  | .brokenOff => "the execution broke off"

abbrev Outcome : Type := Except RunError Status

namespace Outcome

/-- The outcome when the workflow ends. -/
def ofEnding : Ending → Outcome
  | .ok output => .ok (.succeeded output)
  | .error (.failState error cause) => .ok (.failed error cause)
  | .error (.unhandled state failure) => .error (.stateFailed state failure)
  | .error (.noState name) => .error (.noState name)
  | .error .cancelled => .error .cancelled
  | .error (.brokenOff _) => .error .brokenOff

/-- The last event of an execution. There is none if the execution breaks off. -/
def close? : Outcome → Option Event
  | .ok (.succeeded output) => some (.succeeded output)
  | .ok (.failed error cause) =>
    let error := error.getD ""
    let cause := cause.getD ""
    some (.failed s!"{error}: {cause}")
  | .error .brokenOff => none
  | .error e => some (.failed e.message)

end Outcome

/-- What comes of an execution. -/
structure Report (σ : Type) where
  outcome : Outcome
  /-- The run at its end. -/
  run : Run σ
  events : List Event

/-- The tighter one of two limits. -/
def tighter : Option Duration → Option Duration → Option Duration
  | some a, some b => some ⟨min a.nanoseconds b.nanoseconds⟩
  | a, b => a.or b

namespace Workflow

/-- The time that a workflow gives itself. -/
def declaredLimit (w : Workflow) : Option Duration :=
  if w.header.timeoutSeconds > 0 then some (.seconds w.header.timeoutSeconds) else none

/-- The events of a run, in order. -/
def eventsOf {σ : Type} (r : Run σ) : List Event :=
  r.journal.reverse.filterMap fun entry => entry.note.event?

/-- The report on a run of a workflow that has come to its end. -/
def reportOn {σ : Type} (w : Workflow) (r : Run σ) (outcome : Outcome) : Report σ :=
  ⟨outcome, r, .started w.startAt :: eventsOf r ++ outcome.close?.toList⟩

/-- The execution of a workflow in at most `fuel` moves: under a time limit, on top of the one that the
workflow gives itself, and possibly with a time at which it is cancelled. -/
def executeWithin {σ : Type} (fuel : Nat) (setting : Setting σ) (memory : σ) (identifier : String)
    (limit : Option Duration) (cancelAt : Option Nat) (w : Workflow) (input : Json) :
    Option (Report σ) :=
  let limit := tighter w.declaredLimit limit
  let first := Run.start setting memory identifier w input
  let first := if cancelAt = some 0 then first.apply setting .cancel else first
  match Run.drive setting ⟨limit.map Duration.ticks, cancelAt.map (min farAway)⟩ fuel first with
  | none => none
  | some (r, .ended ending) => some (w.reportOn r (.ofEnding ending))
  | some (r, .cutOff) => some (w.reportOn r (.error (.timedOut (limit.getD ⟨0⟩))))

/-- More moves than any execution makes that comes to an end in practice: `2 ^ 60`. -/
def ampleFuel : Nat := 1152921504606846976

/-- The execution of a workflow, if it comes to an end. -/
def execute {σ : Type} (setting : Setting σ) (memory : σ) (identifier : String)
    (limit : Option Duration) (cancelAt : Option Nat) (w : Workflow) (input : Json) :
    Option (Report σ) :=
  w.executeWithin ampleFuel setting memory identifier limit cancelAt input

end Workflow

end StepFlow
