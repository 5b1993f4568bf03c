/-!
# Names of run-time errors

* `ErrorName`: the names that the library itself gives, and all others;
* `ErrorName.text`, `ErrorName.ofText`: a name and its text determine each other;
* `ErrorName.isRetriedByDefault`: the errors that the matcher `States.ALL` of a retrier covers.
-/

namespace StepFlow

/-- The name of a run-time error. -/
inductive ErrorName where
  | timeout
  | heartbeatTimeout
  | taskFailed
  | permissions
  | resultPathMatchFailure
  | parameterPathFailure
  | branchFailed
  | noChoiceMatched
  | intrinsicFailure
  | runtime
  | custom (name : String)
deriving DecidableEq, Repr, Inhabited

/-- The matcher that stands for every error. -/
def matchAll : String := "States.ALL"

namespace ErrorName

/-- The text of a name. -/
def text : ErrorName → String
  | .timeout => "States.Timeout"
  | .heartbeatTimeout => "States.HeartbeatTimeout"
  | .taskFailed => "States.TaskFailed"
  | .permissions => "States.Permissions"
  | .resultPathMatchFailure => "States.ResultPathMatchFailure"
  | .parameterPathFailure => "States.ParameterPathFailure"
  | .branchFailed => "States.BranchFailed"
  | .noChoiceMatched => "States.NoChoiceMatched"
  | .intrinsicFailure => "States.IntrinsicFailure"
  | .runtime => "States.Runtime"
  | .custom name => name

/-- The names that the library itself gives. -/
def builtins : List ErrorName :=
  [.timeout, .heartbeatTimeout, .taskFailed, .permissions, .resultPathMatchFailure,
    .parameterPathFailure, .branchFailed, .noChoiceMatched, .intrinsicFailure, .runtime]

def ofText (name : String) : ErrorName :=
  (builtins.find? fun e => e.text = name).getD (.custom name)

theorem text_ofText (name : String) : (ofText name).text = name := by
  unfold ofText
  cases h : builtins.find? fun e => e.text = name with
  | none => rfl
  | some e => simpa using List.find?_some h

/-- Failures of data flow, choice and evaluation are retried only where a retrier names them. -/
def isRetriedByDefault : ErrorName → Bool
  | .resultPathMatchFailure | .parameterPathFailure | .noChoiceMatched | .intrinsicFailure
  | .runtime => false
  | _ => true

end ErrorName

end StepFlow
