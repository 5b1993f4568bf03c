import StepFlow.Condition.Pattern
import StepFlow.Json.Printer
import StepFlow.Path.Basic
import StepFlow.Timestamp

/-!
# Conditions

A condition is a test on the input of a choice and on the context.

* `Condition`: the tests and their combinations;
* `ConditionError`: the ways in which an evaluation can fail;
* `Condition.evaluate`: `and` stops at the first test that fails, `or` evaluates all of its tests.
-/

namespace StepFlow

/-- The kind of value that a comparison works on. -/
inductive ValueKind where
  | string | numeric | boolean | timestamp
deriving DecidableEq, Repr, Inhabited

/-- A relation between two values of one kind. -/
inductive Relation where
  | equals | lessThan | lessThanEquals | greaterThan | greaterThanEquals
deriving DecidableEq, Repr, Inhabited

/-- The right side of a comparison. -/
inductive Reference where
  | literal (value : Json)
  | path (path : Path)
deriving Inhabited

/-- A test on the kind of a value. -/
inductive TypeTest where
  | isNull | isPresent | isNumeric | isString | isBoolean | isTimestamp
deriving DecidableEq, Repr, Inhabited

/-- A test on an input and a context. -/
inductive Condition where
  | and (children : List Condition)
  | or (children : List Condition)
  | not (child : Condition)
  | compare (kind : ValueKind) (relation : Relation) (left : Path) (right : Reference)
  | stringMatches (subject : Path) (pattern : String)
  | test (test : TypeTest) (subject : Path) (expected : Bool)
deriving Inhabited

/-- A failure of an evaluation. -/
inductive ConditionError where
  | path (error : PathError)
  | mismatch (source : String) (expected : ValueKind)
  | badPattern (pattern : String) (fault : PatternFault)
deriving DecidableEq, Repr, Inhabited

/-- The kind of a value with its article, as messages name it. -/
def ValueKind.withArticle : ValueKind → String
  | .string => "a string"
  | .numeric => "a number"
  | .boolean => "a boolean"
  | .timestamp => "a timestamp"

/-- The wording of a failure. -/
def ConditionError.message : ConditionError → String
  | .path error => error.message
  | .mismatch source expected =>
    let kind := expected.withArticle
    s!"value at '{source}' is not {kind}"
  | .badPattern pattern fault =>
    let cause := fault.message
    s!"invalid match pattern '{pattern}': {cause}"

/-- The right side of a comparison as messages name it. -/
def Reference.label : Reference → String
  | .literal value => value.render
  | .path p => p.source

/-! ## Comparing -/

/-- Whether a relation accepts an order. -/
def Relation.accepts : Relation → Ordering → Bool
  | .equals, o => o = .eq
  | .lessThan, o => o = .lt
  | .lessThanEquals, o => o ≠ .gt
  | .greaterThan, o => o = .gt
  | .greaterThanEquals, o => o ≠ .lt

def orderFloats (x y : Float) : Ordering :=
  if x < y then .lt else if x == y then .eq else if y < x then .gt else .lt

/-- The order of two truth values, with false before true. -/
def orderFlags (a b : Bool) : Ordering :=
  if a = b then .eq else if b then .lt else .gt

/-- The order of two texts by code points. -/
def orderTexts (a b : String) : Ordering :=
  if a < b then .lt else if a = b then .eq else .gt

/-- The timestamp that a value spells. -/
def Json.timestamp? (j : Json) : Option Timestamp := j.str?.bind Timestamp.parse?

/-- The double of a number value. -/
def Json.float? : Json → Option Float
  | .num n => some n.toFloat
  | _ => none

/-- Compares two values that are both read by `read`; the left one is checked first. -/
def compareBy {α : Type} (kind : ValueKind) (read : Json → Option α) (order : α → α → Ordering)
    (leftLabel rightLabel : String) (left right : Json) : Except ConditionError Ordering :=
  match read left, read right with
  | some a, some b => .ok (order a b)
  | none, _ => .error (.mismatch leftLabel kind)
  | some _, none => .error (.mismatch rightLabel kind)

/-- The order of two values of a kind. -/
def ValueKind.compare (kind : ValueKind) :
    (leftLabel rightLabel : String) → (left right : Json) → Except ConditionError Ordering :=
  match kind with
  | .string => compareBy kind Json.str? orderTexts
  | .numeric => compareBy kind Json.float? orderFloats
  | .boolean => compareBy kind Json.bool? orderFlags
  | .timestamp => compareBy kind Json.timestamp? Timestamp.order

/-- Whether a value passes a test on its kind. -/
def TypeTest.holds (value : Json) : TypeTest → Bool
  | .isNull => value.isNull
  | .isPresent => true
  | .isNumeric => value.float?.isSome
  | .isString => value.str?.isSome
  | .isBoolean => value.bool?.isSome
  | .isTimestamp => value.timestamp?.isSome

/-! ## Evaluating -/

/-- The value at a path. -/
def readSubject (context input : Json) (p : Path) : Except ConditionError Json :=
  match p.read context input with
  | .ok j => .ok j
  | .error e => .error (.path e)

/-- The value of the right side of a comparison. -/
def Reference.value (context input : Json) : Reference → Except ConditionError Json
  | .literal value => .ok value
  | .path p => readSubject context input p

/-- Whether a value is a text that a pattern describes. -/
def matchesPattern (source : String) (pattern : String) (value : Json) :
    Except ConditionError Bool :=
  match value.str? with
  | none => .error (.mismatch source .string)
  | some text =>
    match PatternToken.ofText pattern with
    | .ok tokens => .ok (matchPattern tokens text.toList)
    | .error fault => .error (.badPattern pattern fault)

/-- Whether the value at a path passes a test on its kind; only presence can be tested where there is
no value. -/
def testSubject (context input : Json) (test : TypeTest) (subject : Path) :
    Except ConditionError Bool :=
  match test, readSubject context input subject with
  | _, .ok value => .ok (test.holds value)
  | _, .error (.path (.overrun source)) => .error (.path (.overrun source))
  | .isPresent, .error _ => .ok false
  | _, .error e => .error e

namespace Condition

mutual

/-- Whether the condition holds. -/
def evaluate (context input : Json) : Condition → Except ConditionError Bool
  | .and children => evaluateAnd context input children
  | .or children => evaluateOr context input children
  | .not child => do return !(← child.evaluate context input)
  | .compare kind relation left right => do
    let a ← readSubject context input left
    let b ← right.value context input
    return relation.accepts (← kind.compare left.source right.label a b)
  | .stringMatches subject pattern => do
    matchesPattern subject.source pattern (← readSubject context input subject)
  | .test probe subject expected => do
    return (← testSubject context input probe subject) = expected

/-- Whether all conditions hold; those after the first that does not are not evaluated. -/
def evaluateAnd (context input : Json) : List Condition → Except ConditionError Bool
  | [] => .ok true
  | child :: rest => do
    if ← child.evaluate context input then evaluateAnd context input rest else return false

/-- Whether any condition holds; all of them are evaluated. -/
def evaluateOr (context input : Json) : List Condition → Except ConditionError Bool
  | [] => .ok false
  | child :: rest => do
    let first ← child.evaluate context input
    return first || (← evaluateOr context input rest)

end

end Condition

end StepFlow
