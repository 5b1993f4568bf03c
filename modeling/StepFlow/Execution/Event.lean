import StepFlow.Execution.Failure
import StepFlow.Execution.Sections
import StepFlow.Duration

/-!
# Events of a run

* `Event`: what a run announces;
* `Event.encode`: an event as a value, in which the run is named by its identifier;
* `Note`: an event, or the start of an attempt of a state.
-/

namespace StepFlow

/-- What a run announces. -/
inductive Event where
  | started (startAt : String)
  | entered (state : String) (input : Json)
  | exited (state : String) (output : Json)
  /-- A state failed and will be run again after a delay; attempts are counted from one. -/
  | retried (state : String) (failure : Failure) (attempt : Nat) (delay : Duration)
  /-- A state failed, and a catcher leads on to another one. -/
  | caught (state : String) (failure : Failure) (next : String)
  | succeeded (output : Json)
  | failed (message : String)

namespace Event

/-- The name of an event. -/
def name : Event → String
  | .started _ => "ExecutionStarted"
  | .entered _ _ => "StateEntered"
  | .exited _ _ => "StateExited"
  | .retried _ _ _ _ => "StateRetried"
  | .caught _ _ _ => "StateCaught"
  | .succeeded _ => "ExecutionSucceeded"
  | .failed _ => "ExecutionFailed"

/-- What an event says, apart from the run that it belongs to. A delay counts whole milliseconds and
stays within 64 bits. -/
def content : Event → List (String × Json)
  | .started startAt => [("start_at", .str startAt)]
  | .entered state input => [("state", .str state), ("input", input)]
  | .exited state output => [("state", .str state), ("output", output)]
  | .retried state failure attempt delay =>
    [("state", .str state), ("error", .str failure.text), ("attempt", .nat attempt),
      ("delay_ms", .nat (min delay.wholeMilliseconds 18446744073709551615))]
  | .caught state failure next =>
    [("state", .str state), ("error", .str failure.text), ("next", .str next)]
  | .succeeded output => [("output", output)]
  | .failed message => [("error", .str message)]

/-- An event as a value, in which the run is named by its identifier. -/
def encode (identifier : String) (e : Event) : Json :=
  .ofMembers [(e.name, .ofMembers (("execution_id", .str identifier) :: e.content))]

end Event

/-- One run of the work of a state. -/
structure Attempt where
  state : String
  /-- How often the state was retried before. -/
  retries : Nat
  input : Json
  context : Context

/-- What is written down about a run. -/
inductive Note where
  | event (event : Event)
  | attempt (attempt : Attempt)

def Note.event? : Note → Option Event
  | .event e => some e
  | .attempt _ => none

end StepFlow
