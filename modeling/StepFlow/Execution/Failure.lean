import StepFlow.Condition.Basic
import StepFlow.ErrorName
import StepFlow.Intrinsic.Evaluation

/-!
# Failures of a run

* `Failure`: a named error with its cause, as retriers and catchers see it;
* `Trouble`: why something cannot be computed, which is a failure unless a slice runs out of range;
* `Stop`: why a state came to no output;
* `Halt`: why a workflow came to no output, and `Halt.ofStop`: how a state stops its workflow;
* `Halt.raise`: how a workflow that runs in a lane of a state stops that state.
-/

namespace StepFlow

/-- A run-time error. -/
structure Failure where
  name : ErrorName
  cause : String
deriving DecidableEq, Repr, Inhabited

namespace Failure

/-- The wording of a failure. -/
def text (f : Failure) : String :=
  let name := f.name.text
  let cause := f.cause
  s!"{name}: {cause}"

/-- The failure as a value, for the state that a catcher leads to. -/
def document (f : Failure) : Json :=
  .ofMembers [("Error", .str f.name.text), ("Cause", .str f.cause)]

end Failure

/-- Why something cannot be computed. -/
inductive Trouble where
  | failure (failure : Failure)
  /-- A slice in a path has run out of range, and nothing can recover from that. -/
  | overrun
deriving DecidableEq, Repr, Inhabited

/-- The trouble with a path that cannot be followed: a failure, unless a slice has run out of range. -/
def PathError.trouble (failure : Failure) : PathError → Trouble
  | .overrun _ => .overrun
  | _ => .failure failure

/-- The trouble with a call that cannot be evaluated. -/
def IntrinsicError.trouble (failure : Failure) : IntrinsicError → Trouble
  | .unresolved e => e.trouble failure
  | _ => .failure failure

/-- The trouble with a condition that cannot be evaluated. -/
def ConditionError.trouble (failure : Failure) : ConditionError → Trouble
  | .path e => e.trouble failure
  | _ => .failure failure

/-- Why a state came to no output. -/
inductive Stop where
  /-- An error, which may be retried or caught. -/
  | failure (failure : Failure)
  /-- The state is one that ends its workflow with an error. -/
  | failState (error cause : Option String)
  /-- The run was cancelled. -/
  | cancelled
  /-- The state broke off: it asked for more lanes at one time than there can be, a slice in one of its
  paths ran out of range, or there was one retry more than can be counted. -/
  | brokenOff
deriving DecidableEq, Repr, Inhabited

/-- How a state stops that has run into trouble. -/
def Stop.ofTrouble : Trouble → Stop
  | .failure f => .failure f
  | .overrun => .brokenOff

/-- Why a workflow came to no output. -/
inductive Halt where
  /-- An error that a state neither retried nor caught. -/
  | unhandled (state : String) (failure : Failure)
  /-- A state was reached that ends the workflow with an error. -/
  | failState (error cause : Option String)
  /-- There is no state with this name. -/
  | noState (name : String)
  /-- The run was cancelled. -/
  | cancelled
  /-- A state broke off. The report is what a state is told in one of whose lanes the workflow ran. -/
  | brokenOff (report : String)
deriving DecidableEq, Repr, Inhabited

namespace Halt

/-- How a workflow ends when one of its states stops, with the report of it if it breaks off. -/
def ofStop (state report : String) : Stop → Halt
  | .failure f => .unhandled state f
  | .failState error cause => .failState error cause
  | .cancelled => .cancelled
  | .brokenOff => .brokenOff report

/-- How a state stops when the workflow in one of its lanes halts. Cancellation is passed on, and
everything else becomes an error of the state. -/
def raise (lane : Nat) : Halt → Stop
  | .cancelled => .cancelled
  | .unhandled state failure =>
    let cause := failure.text
    .failure ⟨.branchFailed, s!"branch {lane} failed at state '{state}': {cause}"⟩
  | .failState error cause =>
    let error := error.getD ""
    let cause := cause.getD ""
    .failure ⟨.branchFailed, s!"branch {lane} reached a Fail state: {error}: {cause}"⟩
  | .noState name => .failure ⟨.branchFailed, s!"branch {lane} has no state '{name}'"⟩
  | .brokenOff report => .failure ⟨.runtime, report⟩

end Halt

end StepFlow
