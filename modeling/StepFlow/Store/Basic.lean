import StepFlow.Moment
import StepFlow.Workflow.Compile

/-!
# Stores of workflows

A store keeps workflows under names. Along with each workflow it keeps the text that the workflow was
compiled from, so a workflow can be run without being compiled again and shown as it was written, and the
moment at which it was compiled.

* `WorkflowRecord`: what is kept under a name;
* `StoreError`: why a store refuses;
* `WorkflowStore`: the operations of a store;
* `StoreRequest`, `StoreReply`, `replies`: what a store answers to a series of requests.
-/

namespace StepFlow

/-- A workflow with its name, the text that it was compiled from, and the moment at which that was. -/
structure WorkflowRecord where
  name : String
  source : String
  workflow : Workflow
  created : Moment

/-- The record of a text that is compiled now. -/
def WorkflowRecord.compile (now : Moment) (name source : String) :
    Except CompileError WorkflowRecord := do
  return ⟨name, source, ← Workflow.compileText source, now⟩

/-- Why a store refuses. -/
inductive StoreError where
  | notFound (name : String)
  | alreadyExists (name : String)
  /-- What is kept under a name does not read as a workflow. -/
  | unreadable (name : String)
deriving DecidableEq

/-- The wording of a refusal. -/
def StoreError.message : StoreError → String
  | .notFound name => s!"workflow not found: {name}"
  | .alreadyExists name => s!"workflow already exists: {name}"
  | .unreadable name => s!"workflow not readable: {name}"

/-- A store of workflows. -/
class WorkflowStore (S : Type) where
  /-- The store that keeps nothing. -/
  empty : S
  /-- Keeps a record. What is already kept under its name is replaced only if `replace` is set. -/
  save (record : WorkflowRecord) (replace : Bool) : S → Except StoreError S
  /-- The record under a name. -/
  load (name : String) : S → Except StoreError WorkflowRecord
  /-- Forgets the record under a name. -/
  delete (name : String) : S → Except StoreError S
  /-- The names, in order. -/
  names : S → List String

/-- A request to a store. -/
inductive StoreRequest where
  | save (record : WorkflowRecord) (replace : Bool)
  | load (name : String)
  | delete (name : String)
  | names

/-- The answer to a request that a store does not refuse. -/
inductive StoreReply where
  | done
  | record (record : WorkflowRecord)
  | names (names : List String)

namespace WorkflowStore

variable {S : Type} [WorkflowStore S]

/-- The store after a change, which stays as it was if the change is refused. -/
def change (store : S) : Except StoreError S → Except StoreError StoreReply × S
  | .ok changed => (.ok .done, changed)
  | .error e => (.error e, store)

/-- The answer to a request, and the store after it. -/
def reply (store : S) : StoreRequest → Except StoreError StoreReply × S
  | .save record replace => change store (save record replace store)
  | .load name => (StoreReply.record <$> load name store, store)
  | .delete name => change store (delete name store)
  | .names => (.ok (.names (names store)), store)

/-- The answers to a series of requests. -/
def replies (store : S) : List StoreRequest → List (Except StoreError StoreReply)
  | [] => []
  | request :: rest =>
    let (answer, store) := reply store request
    answer :: replies store rest

end WorkflowStore

end StepFlow
