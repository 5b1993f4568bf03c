import StepFlow.ErrorName
import StepFlow.Duration
import StepFlow.Json.Record
import StepFlow.Path.Basic

/-!
# Retrying and catching

* `Retrier`: which errors are retried, how often and after which delays;
* `Catcher`: which errors lead to another state;
* `PolicyFault`: what can be wrong with them;
* `Retrier.delay`: the delay before a retry grows by a factor from one to the next;
* `Retrier.read`: a retrier from a document.
-/

namespace StepFlow

/-- A path field of a state that may be set to `null`. -/
inductive PathSpec (P : Type) where
  | path (p : P)
  /-- The field was `null`. -/
  | discard

/-- What is retried, how often, and after which delays. -/
structure Retrier where
  errorEquals : List String
  intervalSeconds : Nat
  maxAttempts : Nat
  backoffRate : Float
deriving DecidableEq, Inhabited

/-- What is caught, and where it leads. -/
structure Catcher where
  errorEquals : List String
  next : String
  /-- Where the error is written into the state's input; the whole input if nothing is given. -/
  resultPath : Option (PathSpec ReferencePath)
deriving Inhabited

/-- What is wrong with a policy. -/
inductive PolicyFault where
  | noErrors
  | allNotAlone
  | allNotLast
  | lowRate (rate : Float)
  | noInterval
  | unreadable (error : ReadError)
deriving DecidableEq, Inhabited

/-- The wording of a fault. -/
def PolicyFault.message : PolicyFault → String
  | .noErrors => "ErrorEquals must not be empty"
  | .allNotAlone => s!"{matchAll} must appear alone in ErrorEquals"
  | .allNotLast => s!"{matchAll} must be in the last entry"
  | .lowRate rate =>
    let shown := renderPlain rate
    s!"BackoffRate must be at least 1.0, got {shown}"
  | .noInterval => "IntervalSeconds must be positive"
  | .unreadable error => error.message

/-! ## Which errors -/

/-- Whether a retrier applies to an error. The matcher for all errors leaves out those that have to be
named. -/
def Retrier.applies (r : Retrier) (error : ErrorName) : Bool :=
  r.errorEquals.any fun name =>
    if name = matchAll then error.isRetriedByDefault else name = error.text

/-- Whether a catcher applies to an error. -/
def Catcher.applies (c : Catcher) (error : ErrorName) : Bool :=
  c.errorEquals.any fun name => name = matchAll || name = error.text

/-- The matcher for all errors stands alone, and there is at least one name. -/
def checkErrors (names : List String) : Except PolicyFault Unit :=
  if names.isEmpty then .error .noErrors
  else if names.length > 1 && names.contains matchAll then .error .allNotAlone
  else .ok ()

/-- Only the last entry of a list has the matcher for all errors. -/
def checkAllIsLast (lists : List (List String)) : Except PolicyFault Unit :=
  if lists.dropLast.any fun names => names.contains matchAll then .error .allNotLast else .ok ()

/-! ## Delays -/

/-- The power of a double, by repeated squaring. The factor `r` collects the squares of the binary
digits of the exponent, from the lowest on. -/
def powerFrom (r a : Float) (exponent : Nat) : Float :=
  let r' := if exponent % 2 = 1 then r * a else r
  if h : exponent / 2 = 0 then r' else powerFrom r' (a * a) (exponent / 2)
termination_by exponent

def power (a : Float) (exponent : Nat) : Float := powerFrom 1 a exponent

/-- The greatest exponent of a delay: `2 ^ 31 - 1`. -/
def maxExponent : Nat := 2147483647

/-- The delay before retry number `attempt`, counted from zero. -/
def Retrier.delay (r : Retrier) (attempt : Nat) : Duration :=
  .ofSeconds (Float.ofNat r.intervalSeconds * power r.backoffRate (min attempt maxExponent))

/-- A retrier names errors, waits, and does not shorten its delays. -/
def Retrier.check (r : Retrier) : Except PolicyFault Unit := do
  checkErrors r.errorEquals
  if !(r.backoffRate ≥ 1 && r.backoffRate.isFinite) then throw (.lowRate r.backoffRate)
  if r.intervalSeconds = 0 then throw .noInterval

/-! ## Reading -/

/-- A retrier whose names of errors have not been read yet, with what holds unless it is given. -/
structure RetrierDraft where
  errorEquals : Option (List String) := none
  intervalSeconds : Nat := 1
  maxAttempts : Nat := 3
  backoffRate : Float := 2

/-- Reads one member into a draft; members that are not known are left out. -/
def RetrierDraft.put (d : RetrierDraft) (field : String × Json) :
    Except ReadError RetrierDraft := do
  match field.1 with
  | "ErrorEquals" => return { d with errorEquals := some (← field.2.asTexts) }
  | "IntervalSeconds" => return { d with intervalSeconds := ← field.2.asNat64 }
  | "MaxAttempts" => return { d with maxAttempts := ← field.2.asNat32 }
  | "BackoffRate" => return { d with backoffRate := ← field.2.asDouble }
  | _ => return d

/-- The retrier of a draft that has names of errors. -/
def RetrierDraft.finish (d : RetrierDraft) : Except ReadError Retrier :=
  match d.errorEquals with
  | some names => .ok ⟨names, d.intervalSeconds, d.maxAttempts, d.backoffRate⟩
  | none => .error (.missing "ErrorEquals")

/-- The fields of a retrier in the order of declaration. -/
def Retrier.fieldNames : List String :=
  ["ErrorEquals", "IntervalSeconds", "MaxAttempts", "BackoffRate"]

/-- The retrier that a value describes, as an object or as an array of its fields. -/
def Retrier.read : Json → Except ReadError Retrier
  | .obj members => do (← members.foldlM RetrierDraft.put {}).finish
  | .arr items => do
    if items.isEmpty then throw (.length 0 "struct Retrier with 4 elements")
    let draft ← (fieldNames.zip items).foldlM RetrierDraft.put {}
    Json.allRead items (items.drop fieldNames.length)
    draft.finish
  | j => j.mismatch "struct Retrier"

end StepFlow
