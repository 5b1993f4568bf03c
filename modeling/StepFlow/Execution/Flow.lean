import StepFlow.Execution.Payload
import StepFlow.Execution.Sections
import StepFlow.Workflow.State

/-!
# The flow of data through a state

The input of a state is cut down by `InputPath` and reshaped by `Parameters`. A result is reshaped by
`ResultSelector`, written into the input by `ResultPath`, and cut down by `OutputPath`.

* `DataPaths.effectiveInput`, `DataPaths.output`: the two cuts;
* `ResultHandling.payload`, `ResultHandling.merge`: what goes into the work, and where its result goes;
* `Step`: the output of a state, and where it goes;
* `complete`: the way from a result to a step.
-/

namespace StepFlow

/-- The part of a value that a path field selects: all of it without the field, and nothing with
`null`. -/
def cut (field : String) (spec : Option (PathSpec Path)) (context : Context) (value : Json) :
    Except Trouble Json :=
  match spec with
  | none => .ok value
  | some .discard => .ok (.obj [])
  | some (.path p) =>
    match p.read context.value value with
    | .ok part => .ok part
    | .error e =>
      let cause := e.message
      .error (e.trouble ⟨.runtime, s!"{field}: {cause}"⟩)

/-- The part of the input that a state sees. -/
def DataPaths.effectiveInput (paths : DataPaths) (context : Context) (input : Json) :
    Except Trouble Json :=
  cut "InputPath" paths.inputPath context input

/-- The part of the data that a state passes on. -/
def DataPaths.output (paths : DataPaths) (context : Context) (value : Json) : Except Trouble Json :=
  cut "OutputPath" paths.outputPath context value

/-- The input with a result written at a path: the result alone without a path, and the input alone
with `null`. There are no slices in the path, so that nothing can break off. -/
def merge (spec : Option (PathSpec ReferencePath)) (context : Context) (input result : Json) :
    Except Failure Json :=
  match spec with
  | none => .ok result
  | some .discard => .ok input
  | some (.path p) =>
    match p.path.merge context.value input result with
    | .ok value => .ok value
    | .error e => .error ⟨.resultPathMatchFailure, e.message⟩

/-- A value, or what a template makes of it. -/
def reshape (template : Option Json) (context : Context) (supply : Supply) (value : Json) :
    Except Trouble Json :=
  match template with
  | none => .ok value
  | some t => Payload.resolve .parameterPathFailure context value supply t

/-- The output of a state, and where it goes. -/
structure Step where
  transition : Transition
  output : Json
deriving Inhabited

/-- The step from a result: selected, merged into the input, and cut down. -/
def complete (paths : DataPaths) (handling : ResultHandling) (selector : Option Json)
    (transition : Transition) (context : Context) (supply : Supply) (input result : Json) :
    Except Trouble Step := do
  let selected ← reshape selector context supply result
  let joined ← (merge handling.resultPath context input selected).mapError .failure
  return ⟨transition, ← paths.output context joined⟩

end StepFlow
