import StepFlow.Execution.Failure
import StepFlow.Intrinsic.Evaluation
import StepFlow.Path.Context

/-!
# Payload templates

A template is a value in which members with a key that ends in `.$` stand for data: a path, the call
of a function, or a text as it is. The mark is taken off the key, and all else is copied.

* `Payload.dynamicName?`: the key without its mark;
* `Payload.resolveText`: what the text of a dynamic member stands for;
* `Payload.resolve`: a template with everything filled in.
-/

namespace StepFlow.Payload

/-- The mark of a dynamic member, at the end of its key. -/
def mark : List Char := ['.', '$']

/-- The key of a dynamic member without its mark. -/
def dynamicName? (key : String) : Option String :=
  let cs := key.toList
  if mark.isSuffixOf cs then some (String.ofList (cs.take (cs.length - mark.length))) else none

/-- What the text of the dynamic member at `key` stands for. A path that gives no value is a failure
with the name `failure`. -/
def resolveText (failure : ErrorName) (context : Context) (input : Json) (supply : Supply)
    (key text : String) : Except Trouble Json :=
  if text.startsWith "$" then
    match Path.parse text with
    | .error e => .error (.failure ⟨failure, e.message⟩)
    | .ok p =>
      match p.read context.value input with
      | .ok value => .ok value
      | .error e =>
        let cause := e.message
        .error (e.trouble ⟨failure, s!"'{key}': {cause}"⟩)
  else if isCall text then
    match Functions.evaluateText builtins context.value input supply text with
    | .ok value => .ok value
    | .error e => .error (e.trouble ⟨.intrinsicFailure, e.message⟩)
  else .ok (.str text)

/-- What a dynamic member stands for. -/
def resolveDynamic (failure : ErrorName) (context : Context) (input : Json) (supply : Supply)
    (key : String) : Json → Except Trouble Json
  | .str text => resolveText failure context input supply key text
  | _ => .error (.failure ⟨failure, s!"value of '{key}' must be a string"⟩)

mutual

/-- The template with everything filled in. -/
def resolve (failure : ErrorName) (context : Context) (input : Json) (supply : Supply) :
    Json → Except Trouble Json
  | .obj members => (resolveMembers failure context input supply 0 [] members).map .obj
  | .arr items => (resolveItems failure context input supply 0 items).map .arr
  | value => .ok value

/-- The members from position `i` on, put into a table one after the other. -/
def resolveMembers (failure : ErrorName) (context : Context) (input : Json) (supply : Supply) (i : Nat)
    (filled : Keyed Json) : List (String × Json) → Except Trouble (Keyed Json)
  | [] => .ok filled
  | (key, value) :: rest =>
    match dynamicName? key with
    | some name => do
      let content ← resolveDynamic failure context input (supply.branch i) key value
      resolveMembers failure context input supply (i + 1) (Keyed.insert name content filled) rest
    | none => do
      let content ← resolve failure context input (supply.branch i) value
      resolveMembers failure context input supply (i + 1) (Keyed.insert key content filled) rest

/-- The items from position `i` on. -/
def resolveItems (failure : ErrorName) (context : Context) (input : Json) (supply : Supply) (i : Nat) :
    List Json → Except Trouble (List Json)
  | [] => .ok []
  | value :: rest => do
    let content ← resolve failure context input (supply.branch i) value
    return content :: (← resolveItems failure context input supply (i + 1) rest)

end

end StepFlow.Payload
