import StepFlow.Execution.Event
import StepFlow.Execution.Flow
import StepFlow.Task.Basic
import StepFlow.Workflow.Basic

/-!
# Processes

A process is what a state does, seen from outside: a tree in which every node is a thing that the
process does or asks for, with one branch for every answer. A tree is finite along every branch, so a
process ends whatever the answers are.

* `Process`: the trees, and `Process.bind`: one process after another;
* `Activity`: a process that may stop without a value;
* `Job`: a workflow that is to run in a lane of its own.
-/

namespace StepFlow

/-- A workflow that is to run in a lane of its own. -/
structure Job where
  workflow : Workflow
  input : Json
  context : Context

/-- What the surroundings give to an attempt: the time, and a source of fresh identifiers. -/
structure Present where
  time : Timestamp
  supply : Supply
deriving Inhabited

/-- How a sleep ends. -/
inductive Wake where
  | elapsed
  /-- The run was cancelled. -/
  | interrupted
deriving DecidableEq, Repr, Inhabited

/-- How the request for a task ends. -/
inductive Reply where
  | answered (result : Except TaskError Json)
  | timedOut

/-- A process that ends in a value of type `α`. -/
inductive Process (α : Type) : Type where
  /-- The process has ended. -/
  | done (value : α)
  /-- Writes a note. -/
  | note (note : Note) (rest : Process α)
  /-- Looks at the surroundings. -/
  | look (rest : Present → Process α)
  /-- Sleeps until a time has elapsed or the run is cancelled. -/
  | sleep (duration : Duration) (rest : Wake → Process α)
  /-- Asks for a task, for a limited time if there is a limit. -/
  | call (request : TaskRequest) (limit : Option Duration) (rest : Reply → Process α)
  /-- Runs jobs side by side, at most `limit` at one time unless the limit is zero. -/
  | fork (jobs : List Job) (limit : Nat) (rest : Except Stop (List Json) → Process α)

namespace Process

variable {α β : Type}

/-- One process after another, which depends on the value of the first. -/
def bind (p : Process α) (f : α → Process β) : Process β :=
  match p with
  | done a => f a
  | note n rest => note n (rest.bind f)
  | look rest => look fun present => (rest present).bind f
  | sleep d rest => sleep d fun wake => (rest wake).bind f
  | call request limit rest => call request limit fun reply => (rest reply).bind f
  | fork jobs limit rest => fork jobs limit fun results => (rest results).bind f

instance : Monad Process where
  pure := done
  bind := bind

end Process

/-- A process that may stop without a value. -/
abbrev Activity (α : Type) : Type := ExceptT Stop Process α

namespace Activity

variable {α : Type}

def ofProcess (p : Process (Except Stop α)) : Activity α := ExceptT.mk p

/-- Stops unless there is a value. -/
def ofExcept (r : Except Stop α) : Activity α := ofProcess (.done r)

def attempt (r : Except Trouble α) : Activity α := ofExcept (r.mapError .ofTrouble)

/-- Sleeps, and stops if the run is cancelled. -/
def sleep (duration : Duration) : Activity Unit :=
  ofProcess (.sleep duration fun
    | .elapsed => .done (.ok ())
    | .interrupted => .done (.error .cancelled))

def call (request : TaskRequest) (limit : Option Duration) : Activity Reply :=
  ofProcess (.call request limit fun reply => .done (.ok reply))

/-- Runs jobs side by side and gives their outputs in the order of the jobs. -/
def fork (jobs : List Job) (limit : Nat) : Activity (List Json) :=
  ofProcess (.fork jobs limit .done)

end Activity

end StepFlow
