import StepFlow.Workflow.State
import StepFlow.Json.Keyed

/-!
# Workflows

A workflow holds its states in branches, which are straight runs of states linked by their
transitions, and an index that says where each state stands.

* `Position`, `Workflow`: the type, in which states hold workflows again;
* `Workflow.state?`: the state with a name, found through the index;
* `Workflow.states`: all states, branch by branch.
-/

namespace StepFlow

/-- Where a state stands in the branches of a workflow. -/
structure Position where
  branch : Nat
  offset : Nat
deriving DecidableEq, Repr, Inhabited

/-- What a workflow says about itself as a whole. -/
structure Header where
  comment : Option String
  startAt : String
  version : String
  /-- The bound on a run, where zero means that there is none. -/
  timeoutSeconds : Nat
deriving DecidableEq, Inhabited

/-- A workflow. -/
inductive Workflow where
  | mk (header : Header) (branches : List (List (State Workflow)))
    (index : List (String × Position))

namespace Workflow

instance : Inhabited Workflow := ⟨⟨default, [], []⟩⟩

/-- What the workflow says about itself as a whole. -/
def header : Workflow → Header
  | mk h _ _ => h

def branches : Workflow → List (List (State Workflow))
  | mk _ bs _ => bs

def index : Workflow → Keyed Position
  | mk _ _ i => i

def startAt (w : Workflow) : String := w.header.startAt

def state? (w : Workflow) (name : String) : Option (State Workflow) :=
  (Keyed.find? name w.index).bind fun p =>
    (w.branches[p.branch]?).bind fun branch => branch[p.offset]?

def start? (w : Workflow) : Option (State Workflow) := w.state? w.startAt

/-- All states, branch by branch. -/
def states (w : Workflow) : List (State Workflow) := w.branches.flatten

def size (w : Workflow) : Nat := w.index.length

end Workflow

end StepFlow
