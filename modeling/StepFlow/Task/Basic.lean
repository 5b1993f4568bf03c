import StepFlow.Json.Basic
import StepFlow.Duration
import StepFlow.Workflow.State

/-!
# Tasks

A task state asks for the work of a resource. What does the work is not part of a workflow: it is a
function that says how long a piece of work takes and how it ends.

* `TaskError`: the ways in which a task can fail;
* `TaskRequest`, `Performance`: what a state asks for, and what comes of it;
* `Performer`: what does the work, with a memory of its own;
* `Performer.ofTable`: the performer that chooses by the type of the resource.
-/

namespace StepFlow

/-- A failure of a task. -/
inductive TaskError where
  /-- The run was cancelled while the task was under way. -/
  | cancelled
  /-- Nothing does the work of this type of resource. -/
  | unknownType (resourceType : String)
  /-- The input does not have the shape that the work needs. -/
  | invalidInput (message : String)
  /-- The program could not be started. -/
  | spawn (program cause : String)
  /-- The task ran and failed, possibly with a name for the error. -/
  | failed (name : Option String) (cause : String)
deriving DecidableEq, Repr, Inhabited

/-- The wording of a failure. -/
def TaskError.message : TaskError → String
  | .cancelled => "task cancelled"
  | .unknownType resourceType => s!"unknown resource type '{resourceType}'"
  | .invalidInput message => s!"invalid task input: {message}"
  | .spawn program cause => s!"failed to start '{program}': {cause}"
  | .failed _ cause => s!"task failed: {cause}"

/-- What a state asks for. -/
structure TaskRequest where
  resource : TaskResource
  input : Json
deriving Inhabited

/-- How a piece of work goes: how long it takes, and how it ends unless it is cancelled before. -/
structure Performance where
  duration : Duration
  result : Except TaskError Json
deriving Inhabited

def Performance.immediate (result : Except TaskError Json) : Performance := ⟨⟨0⟩, result⟩

/-- How a piece of work ends that starts when the run is cancelled already: work that takes time is cut
off. -/
def Performance.whenCancelled (p : Performance) : Except TaskError Json :=
  if p.duration.nanoseconds = 0 then p.result else .error .cancelled

/-- What does the work, with a memory of type `σ` from one request to the next. -/
abbrev Performer (σ : Type) : Type := TaskRequest → σ → Performance × σ

/-- The performer that chooses by the type of the resource. -/
def Performer.ofTable {σ : Type} (table : Keyed (Performer σ)) : Performer σ := fun request memory =>
  match Keyed.find? request.resource.resourceType table with
  | some performer => performer request memory
  | none => (.immediate (.error (.unknownType request.resource.resourceType)), memory)

end StepFlow
