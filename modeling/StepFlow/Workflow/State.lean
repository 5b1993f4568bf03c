import StepFlow.Condition.Basic
import StepFlow.Policy

/-!
# States

A state does one thing and says where to go on. The types of states share groups of fields: where
input and output are cut out of the data, how a result is put in, and what happens after a failure.
States that run workflows of their own are parametrised by the type `W` of these workflows.

* `State`: the eight types;
* `State.next?`, `State.branchTargets`, `State.successors`: where a state may lead.
-/

namespace StepFlow

/-- Where a state goes once it is done. -/
inductive Transition where
  | next (name : String)
  | done
deriving DecidableEq, Repr, Inhabited

/-- Which part of the data a state sees, and which part it passes on. -/
structure DataPaths where
  inputPath : Option (PathSpec Path)
  outputPath : Option (PathSpec Path)
deriving Inhabited

/-- What a state makes of its input, and where its result goes. -/
structure ResultHandling where
  resultPath : Option (PathSpec ReferencePath)
  parameters : Option Json
deriving Inhabited

/-- What is picked from a result, and what happens after a failure. -/
structure Recovery where
  resultSelector : Option Json
  retriers : List Retrier
  catchers : List Catcher
deriving Inhabited

/-- The type of a state. -/
inductive StateKind where
  | pass | task | choice | wait | succeed | fail | parallel | map
deriving DecidableEq, Repr, Inhabited

namespace StateKind

/-- The name of a type. -/
def name : StateKind → String
  | .pass => "Pass"
  | .task => "Task"
  | .choice => "Choice"
  | .wait => "Wait"
  | .succeed => "Succeed"
  | .fail => "Fail"
  | .parallel => "Parallel"
  | .map => "Map"

def all : List StateKind := [.pass, .task, .choice, .wait, .succeed, .fail, .parallel, .map]

def ofName? (name : String) : Option StateKind := all.find? fun k => k.name = name

end StateKind

/-- What a task calls: a type of resource, and a path that the type understands. -/
structure TaskResource where
  resourceType : String
  path : String
deriving DecidableEq, Repr, Inhabited

/-- The resource that a text spells: a type and a path with one colon between them. -/
def TaskResource.parse? (text : String) : Option TaskResource :=
  let cs := text.toList
  let kind := cs.takeWhile (· ≠ ':')
  match cs.dropWhile (· ≠ ':') with
  | [] => none
  | _ :: path =>
    if kind.isEmpty || path.isEmpty || path.contains ':' then none
    else some ⟨String.ofList kind, String.ofList path⟩

def TaskResource.text (r : TaskResource) : String := r.resourceType ++ ":" ++ r.path

/-- A condition and where to go if it holds. -/
structure ChoiceRule where
  condition : Condition
  next : String
deriving Inhabited

/-- How long a state waits. -/
inductive WaitDuration where
  | seconds (seconds : Nat)
  | timestamp (time : Timestamp)
  | secondsPath (path : ReferencePath)
  | timestampPath (path : ReferencePath)
deriving Inhabited

/-- A state that passes data on. -/
structure PassState where
  name : String
  comment : Option String
  paths : DataPaths
  handling : ResultHandling
  result : Option Json
  transition : Transition
deriving Inhabited

/-- A state that calls a resource. -/
structure TaskState where
  name : String
  comment : Option String
  paths : DataPaths
  handling : ResultHandling
  recovery : Recovery
  resource : TaskResource
  /-- The bound on one call, where zero means that there is none. -/
  timeoutSeconds : Nat
  transition : Transition
deriving Inhabited

/-- A state that chooses where to go. -/
structure ChoiceState where
  name : String
  comment : Option String
  paths : DataPaths
  choices : List ChoiceRule
  default : Option String
deriving Inhabited

/-- A state that waits. -/
structure WaitState where
  name : String
  comment : Option String
  paths : DataPaths
  duration : WaitDuration
  transition : Transition
deriving Inhabited

/-- A state that ends a workflow well. -/
structure SucceedState where
  name : String
  comment : Option String
  paths : DataPaths
deriving Inhabited

/-- A state that ends a workflow with an error. -/
structure FailState where
  name : String
  comment : Option String
  error : Option String
  cause : Option String
deriving Inhabited

/-- A state that runs workflows side by side. -/
structure ParallelState (W : Type) where
  name : String
  comment : Option String
  paths : DataPaths
  handling : ResultHandling
  recovery : Recovery
  branches : List W
  transition : Transition

/-- A state that runs a workflow once for every item of an array. -/
structure MapState (W : Type) where
  name : String
  comment : Option String
  paths : DataPaths
  handling : ResultHandling
  recovery : Recovery
  iterator : W
  itemsPath : ReferencePath
  /-- The number of runs at one time, where zero means that there is no bound. -/
  maxConcurrency : Nat
  transition : Transition

/-- A state. -/
inductive State (W : Type) where
  | pass (s : PassState)
  | task (s : TaskState)
  | choice (s : ChoiceState)
  | wait (s : WaitState)
  | succeed (s : SucceedState)
  | fail (s : FailState)
  | parallel (s : ParallelState W)
  | map (s : MapState W)

namespace State

variable {W : Type}

instance : Inhabited (State W) := ⟨.succeed default⟩

/-- The name of a state. -/
def name : State W → String
  | .pass s => s.name
  | .task s => s.name
  | .choice s => s.name
  | .wait s => s.name
  | .succeed s => s.name
  | .fail s => s.name
  | .parallel s => s.name
  | .map s => s.name

/-- The type of a state. -/
def kind : State W → StateKind
  | .pass _ => .pass
  | .task _ => .task
  | .choice _ => .choice
  | .wait _ => .wait
  | .succeed _ => .succeed
  | .fail _ => .fail
  | .parallel _ => .parallel
  | .map _ => .map

/-- The comment of a state. -/
def comment : State W → Option String
  | .pass s => s.comment
  | .task s => s.comment
  | .choice s => s.comment
  | .wait s => s.comment
  | .succeed s => s.comment
  | .fail s => s.comment
  | .parallel s => s.comment
  | .map s => s.comment

/-- Where input and output are cut out, for every type but `Fail`. -/
def paths? : State W → Option DataPaths
  | .pass s => some s.paths
  | .task s => some s.paths
  | .choice s => some s.paths
  | .wait s => some s.paths
  | .succeed s => some s.paths
  | .fail _ => none
  | .parallel s => some s.paths
  | .map s => some s.paths

/-- How a result is handled, for the types that have one. -/
def handling? : State W → Option ResultHandling
  | .pass s => some s.handling
  | .task s => some s.handling
  | .parallel s => some s.handling
  | .map s => some s.handling
  | _ => none

/-- What happens after a failure, for the types that can be retried and caught. -/
def recovery? : State W → Option Recovery
  | .task s => some s.recovery
  | .parallel s => some s.recovery
  | .map s => some s.recovery
  | _ => none

/-- The transition, for the types that have one. -/
def transition? : State W → Option Transition
  | .pass s => some s.transition
  | .task s => some s.transition
  | .wait s => some s.transition
  | .parallel s => some s.transition
  | .map s => some s.transition
  | _ => none

/-- The workflows that a state runs. -/
def nested : State W → List W
  | .parallel s => s.branches
  | .map s => [s.iterator]
  | _ => []

/-- The state that follows, if the transition names one. -/
def next? (s : State W) : Option String :=
  match s.transition? with
  | some (.next name) => some name
  | _ => none

/-- The targets of the rules of a choice and its default. -/
def choiceTargets : State W → List String
  | .choice s => s.choices.map ChoiceRule.next ++ s.default.toList
  | _ => []

/-- The targets of the catchers. -/
def catchTargets (s : State W) : List String :=
  match s.recovery? with
  | some r => r.catchers.map Catcher.next
  | none => []

/-- Every state that can follow other than by the transition, each one once. -/
def branchTargets (s : State W) : List String :=
  (s.choiceTargets ++ s.catchTargets).foldl
    (fun seen t => if seen.contains t then seen else seen ++ [t]) []

/-- Every state that can follow, each one once. -/
def successors (s : State W) : List String :=
  s.branchTargets.foldl (fun seen t => if seen.contains t then seen else seen ++ [t])
    s.next?.toList

end State

end StepFlow
