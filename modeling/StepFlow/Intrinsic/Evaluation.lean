import StepFlow.Intrinsic.Function

/-!
# Evaluating calls

* `IntrinsicError`: the ways in which a call can fail;
* `Functions.call`: a function applied to values;
* `Functions.evaluate`: a call whose paths are read and whose inner calls are evaluated first;
* `Functions.evaluateText`: the same for the text of a call.
-/

namespace StepFlow

/-- A failure of a call. -/
inductive IntrinsicError where
  | unreadable (expression : String) (fault : CallFault)
  | unknown (name : String)
  | rejected (function : String) (fault : ArgumentFault)
  | unresolved (error : PathError)
deriving DecidableEq, Repr, Inhabited

/-- The wording of a failure. -/
def IntrinsicError.message : IntrinsicError → String
  | .unreadable expression fault => wordExpression expression fault.message
  | .unknown name => s!"unknown intrinsic function '{name}'"
  | .rejected function fault =>
    let cause := fault.message
    s!"{function}: {cause}"
  | .unresolved error =>
    let cause := error.message
    s!"failed to resolve argument: {cause}"

/-- Functions under names; the first entry with a name counts. -/
abbrev Functions : Type := Keyed Function

namespace Functions

/-- Applies a function to values. -/
def call (fs : Functions) (supply : Supply) (name : String) (arguments : List Json) :
    Except IntrinsicError Json :=
  match Keyed.find? name fs with
  | none => .error (.unknown name)
  | some f =>
    match f supply arguments with
    | .ok j => .ok j
    | .error fault => .error (.rejected name fault)

mutual

/-- The value of an argument: a literal, the value at a path, or the result of a call. -/
def argumentValue (fs : Functions) (context input : Json) (supply : Supply) :
    Argument → Except IntrinsicError Json
  | .literal value => .ok value
  | .path p =>
    match p.read context input with
    | .ok j => .ok j
    | .error e => .error (.unresolved e)
  | .call name arguments => do
    fs.call supply name (← argumentValues fs context input supply 0 arguments)

/-- The values of the arguments from position `i` on; the first failure counts. -/
def argumentValues (fs : Functions) (context input : Json) (supply : Supply) (i : Nat) :
    List Argument → Except IntrinsicError (List Json)
  | [] => .ok []
  | argument :: rest => do
    let value ← argumentValue fs context input (supply.branch i) argument
    return value :: (← argumentValues fs context input supply (i + 1) rest)

end

/-- The result of a call, with paths read from `input`, or from `context` for context paths. -/
def evaluate (fs : Functions) (context input : Json) (supply : Supply) (c : Call) :
    Except IntrinsicError Json :=
  argumentValue fs context input supply (.call c.name c.arguments)

/-- The result of the call that a text spells. -/
def evaluateText (fs : Functions) (context input : Json) (supply : Supply) (expression : String) :
    Except IntrinsicError Json :=
  match Call.parse expression with
  | .ok c => fs.evaluate context input supply c
  | .error fault => .error (.unreadable expression fault)

end Functions

end StepFlow
