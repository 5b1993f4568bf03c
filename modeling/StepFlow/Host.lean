import StepFlow.Execution.Basic
import StepFlow.Moment
import StepFlow.Task.Script

/-!
# Hosts

A host is what workflows are started on: it launches programs, tells the time and names the
executions. On a host the tasks that are always there are the only ones.

* `inputOfText`: the input that a text spells;
* `Host`, `Host.start`: the execution of a workflow on a host;
* `Status.verdict`: the output of a workflow, or the text of its failure.
-/

namespace StepFlow

/-- The input that a text spells, of which a blank one spells an object without members. -/
def inputOfText (text : String) : Option Json :=
  if (Text.trim text.toList).isEmpty then some (.obj []) else Json.read? text

/-- What workflows are started on. -/
structure Host where
  launcher : Launcher
  /-- The time of day at a time of the execution. -/
  clock : Nat → Timestamp
  /-- The moment at which a record is made. -/
  moment : Moment
  /-- The identifier of the execution. -/
  identifier : String
  /-- The identifiers that are drawn in the execution. -/
  draw : List Nat → String
  /-- The reports of threads of the execution that break off. -/
  report : (thread : Nat) → String

namespace Host

/-- The setting of an execution on the host. -/
def setting (host : Host) : Setting Unit :=
  ⟨.ofTable (builtinTasks host.launcher), host.clock, host.draw, host.report⟩

/-- How a workflow ends that is started on the host, if it comes to an end. -/
def start (host : Host) (limit : Option Duration) (cancelled : Bool) (w : Workflow) (input : Json) :
    Option Outcome :=
  let cancelAt := if cancelled then some 0 else none
  (w.execute host.setting () host.identifier limit cancelAt input).map Report.outcome

end Host

/-- The output of a workflow, or the text of its failure. -/
def Status.verdict : Status → Except String Json
  | .succeeded output => .ok output
  | .failed error cause =>
    let error := error.getD "Fail"
    let cause := cause.getD ""
    .error s!"{error}: {cause}"

end StepFlow
