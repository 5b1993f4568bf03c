import StepFlow.Host
import StepFlow.Service.Order
import StepFlow.Store.Basic
import StepFlow.Json.Printer

/-!
# The service

The service lists the workflows of a store, and starts them on a host.

* `Request`: what a client sends;
* `ServiceReply`, `Refusal`: what the service answers, with `Refusal.status` and `Refusal.message`;
* `Resource`: what a path names;
* `Service.answer`: the answer to a request.
-/

namespace StepFlow

/-- What a client sends. -/
structure Request where
  method : String
  /-- The path, possibly with a query after it. -/
  path : String
  body : String

/-- What the service answers when it does what it is asked for. -/
inductive ServiceReply where
  | workflows (names : List String)
  | output (output : Json)
  /-- A success that has no content. -/
  | blank

/-- Why the service does not do what it is asked for. -/
inductive Refusal where
  | unknownPath
  | wrongMethod
  | badOrder (fault : OrderFault)
  | badInput
  | workflowNotFound (name : String)
  | unreadable (name : String)
  | executionFailed (message : String)

namespace ServiceReply

/-- The status code of a success. -/
def status (_ : ServiceReply) : Nat := 200

/-- The content of a success. -/
def body? : ServiceReply → Option Json
  | .workflows names => some (.obj [("workflows", .arr (names.map .str))])
  | .output result => some (.obj [("output", .str result.render)])
  | .blank => none

end ServiceReply

namespace Refusal

/-- The status code of a refusal. -/
def status : Refusal → Nat
  | .unknownPath => 404
  | .wrongMethod => 405
  | .badOrder .malformed => 400
  | .badOrder .unfit => 422
  | .badInput => 400
  | .workflowNotFound _ => 404
  | .unreadable _ => 500
  | .executionFailed _ => 422

/-- The wording of a refusal. One that concerns the request as such has none. -/
def message? : Refusal → Option String
  | .unknownPath => none
  | .wrongMethod => none
  | .badOrder _ => none
  | .badInput => some "invalid input: the text is not a document"
  | .workflowNotFound name => some (StoreError.notFound name).message
  | .unreadable name => some (StoreError.unreadable name).message
  | .executionFailed message => some s!"execution failed: {message}"

def body? (r : Refusal) : Option Json :=
  r.message?.map fun message => .obj [("error", .str message)]

/-- The refusal when a store refuses. -/
def ofStoreError : StoreError → Refusal
  | .notFound name => .workflowNotFound name
  | .alreadyExists name => .unreadable name
  | .unreadable name => .unreadable name

end Refusal

/-- What a path names. -/
inductive Resource where
  | executions
  | workflows

/-- The resource that a path names. What follows a question mark does not count. -/
def Resource.ofPath? (path : String) : Option Resource :=
  match String.ofList (path.toList.takeWhile fun c => c ≠ '?' && c ≠ '#') with
  | "/executions" => some .executions
  | "/workflows" => some .workflows
  | _ => none

/-- A store with a host for its workflows. -/
structure Service (S : Type) where
  store : S
  host : Host
  /-- Whether the service is closing down, so that executions are cancelled. -/
  closing : Bool

namespace Service

variable {S : Type} [WorkflowStore S]

/-- The input of an order and its workflow. The input is looked at first. -/
def prepare (service : Service S) (body : String) : Except Refusal (Json × Workflow) := do
  let order ← (Order.read body).mapError Refusal.badOrder
  let input ← match inputOfText order.input with
    | some input => pure input
    | none => throw .badInput
  let record ← (WorkflowStore.load order.workflowName service.store).mapError Refusal.ofStoreError
  return (input, record.workflow)

/-- What an outcome comes to. -/
def ofOutcome : Outcome → Except Refusal ServiceReply
  | .ok status =>
    match status.verdict with
    | .ok output => .ok (.output output)
    | .error message => .error (.executionFailed message)
  | .error e => .error (.executionFailed e.message)

/-- Starts the workflow of an order and waits for its end. There is no answer if it does not come to an
end. -/
def perform (service : Service S) (body : String) : Option (Except Refusal ServiceReply) :=
  match service.prepare body with
  | .error refusal => some (.error refusal)
  | .ok (input, w) => (service.host.start none service.closing w input).map ofOutcome

/-- The answer to a request. -/
def answer (service : Service S) (request : Request) : Option (Except Refusal ServiceReply) :=
  match Resource.ofPath? request.path, request.method with
  | some .executions, "POST" => service.perform request.body
  | some .workflows, "GET" => some (.ok (.workflows (WorkflowStore.names service.store)))
  | some .workflows, "HEAD" => some (.ok .blank)
  | some _, _ => some (.error .wrongMethod)
  | none, _ => some (.error .unknownPath)

end Service

end StepFlow
