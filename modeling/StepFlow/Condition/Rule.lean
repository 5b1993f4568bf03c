import StepFlow.Condition.Basic

/-!
# Rules

A rule is the object that spells a condition: `Variable` and one operator with its argument, or `And`,
`Or` and `Not` with further rules.

* `operators`: the comparisons and their names;
* `RuleFault`: what can be wrong with a rule;
* `Condition.ofRule`: the condition that a rule spells.
-/

namespace StepFlow

/-- What is wrong with a rule. -/
inductive RuleFault where
  | noOperator
  | operators (names : List String)
  | notArray (operator : String)
  | empty (operator : String)
  | notObjects (operator : String)
  | notObject
  | badPath (error : PathError)
  | subjectKind
  | noSubject (operator : String)
  | notBoolean (operator : String)
  | patternKind
  | badPattern (pattern : String) (fault : PatternFault)
  | unknown (operator : String)
  | notPath (operator : String)
  | wrongOperand (operator : String)
  | ruleKind
  | noNext
deriving DecidableEq, Repr, Inhabited

/-- The wording of a fault. -/
def RuleFault.message : RuleFault → String
  | .noOperator => "rule has no operator"
  | .operators names => "rule has more than one operator: " ++ ", ".intercalate names
  | .notArray operator => s!"'{operator}' must be an array of rules"
  | .empty operator => s!"'{operator}' must not be empty"
  | .notObjects operator => s!"'{operator}' entries must be objects"
  | .notObject => "'Not' must be a rule object"
  | .badPath error => error.message
  | .subjectKind => "'Variable' must be a string"
  | .noSubject operator => s!"'{operator}' requires 'Variable'"
  | .notBoolean operator => s!"'{operator}' must be a boolean"
  | .patternKind => "'StringMatches' must be a string"
  | .badPattern pattern fault => (ConditionError.badPattern pattern fault).message
  | .unknown operator => s!"unknown operator '{operator}'"
  | .notPath operator => s!"'{operator}' must be a path string"
  | .wrongOperand operator => s!"'{operator}' has an operand of the wrong type"
  | .ruleKind => "rule must be an object"
  | .noNext => "rule must have a string Next"

/-! ## Names -/

/-- The name of a kind of value within an operator. -/
def ValueKind.name : ValueKind → String
  | .string => "String"
  | .numeric => "Numeric"
  | .boolean => "Boolean"
  | .timestamp => "Timestamp"

/-- The name of a relation within an operator. -/
def Relation.name : Relation → String
  | .equals => "Equals"
  | .lessThan => "LessThan"
  | .lessThanEquals => "LessThanEquals"
  | .greaterThan => "GreaterThan"
  | .greaterThanEquals => "GreaterThanEquals"

/-- The name of a test on the kind of a value. -/
def TypeTest.name : TypeTest → String
  | .isNull => "IsNull"
  | .isPresent => "IsPresent"
  | .isNumeric => "IsNumeric"
  | .isString => "IsString"
  | .isBoolean => "IsBoolean"
  | .isTimestamp => "IsTimestamp"

/-- The tests on the kind of a value. -/
def typeTests : List TypeTest :=
  [.isNull, .isPresent, .isNumeric, .isString, .isBoolean, .isTimestamp]

/-- A comparison as an operator: with a literal, or with the value at a path. -/
structure Operator where
  kind : ValueKind
  relation : Relation
  byPath : Bool
deriving DecidableEq, Repr

def Operator.name (o : Operator) : String :=
  o.kind.name ++ o.relation.name ++ (if o.byPath then "Path" else "")

/-- The relations between values of a kind; truth values are only ever equal. -/
def ValueKind.relations : ValueKind → List Relation
  | .boolean => [.equals]
  | _ => [.equals, .lessThan, .lessThanEquals, .greaterThan, .greaterThanEquals]

def operators : List Operator :=
  [ValueKind.string, .numeric, .boolean, .timestamp].flatMap fun kind =>
    kind.relations.flatMap fun relation => [⟨kind, relation, false⟩, ⟨kind, relation, true⟩]

/-- The members of a rule that are not operators. -/
def ruleFields : List String := ["Variable", "Next", "Comment"]

/-! ## Reading -/

/-- Whether a literal is of a kind. -/
def ValueKind.admits (value : Json) : ValueKind → Bool
  | .string => value.str?.isSome
  | .numeric => value.float?.isSome
  | .boolean => value.bool?.isSome
  | .timestamp => value.timestamp?.isSome

/-- The path that a text spells. -/
def rulePath (text : String) : Except RuleFault Path :=
  match Path.parse text with
  | .ok p => .ok p
  | .error e => .error (.badPath e)

/-- The path of the variable of a rule. -/
def ruleSubject (rule : Keyed Json) (operator : String) : Except RuleFault Path :=
  match Keyed.find? "Variable" rule with
  | some (.str text) => rulePath text
  | some _ => .error .subjectKind
  | none => .error (.noSubject operator)

/-- The right side that an argument spells. -/
def Operator.reference (o : Operator) (argument : Json) : Except RuleFault Reference :=
  if o.byPath then
    match argument.str? with
    | some text => (rulePath text).map .path
    | none => .error (.notPath o.name)
  else if o.kind.admits argument then .ok (.literal argument)
  else .error (.wrongOperand o.name)

/-- The condition of a rule with a variable. -/
def dataTest (rule : Keyed Json) (operator : String) (argument : Json) :
    Except RuleFault Condition := do
  let subject ← ruleSubject rule operator
  match typeTests.find? fun t => t.name = operator with
  | some test =>
    match argument.bool? with
    | some expected => return .test test subject expected
    | none => throw (.notBoolean operator)
  | none =>
    if operator = "StringMatches" then
      match argument.str? with
      | none => throw .patternKind
      | some pattern =>
        match PatternToken.ofText pattern with
        | .ok _ => return .stringMatches subject pattern
        | .error fault => throw (.badPattern pattern fault)
    else
      match operators.find? fun o => o.name = operator with
      | some o => return .compare o.kind o.relation subject (← o.reference argument)
      | none => throw (.unknown operator)

/-- The one operator of a rule and its argument. -/
def ruleOperator (rule : Keyed Json) : Except RuleFault (String × Json) :=
  match rule.filter fun e => !ruleFields.contains e.1 with
  | [e] => .ok e
  | [] => .error .noOperator
  | es => .error (.operators (es.map Prod.fst))

/-- The condition that a rule spells; `nested` reads the rules within it. -/
def ruleWith (nested : Keyed Json → Except RuleFault Condition) (rule : Keyed Json) :
    Except RuleFault Condition := do
  let (operator, argument) ← ruleOperator rule
  if operator = "And" || operator = "Or" then
    match argument with
    | .arr [] => throw (.empty operator)
    | .arr children =>
      let conditions ← children.mapM fun
        | .obj members => nested members
        | _ => throw (.notObjects operator)
      return if operator = "And" then .and conditions else .or conditions
    | _ => throw (.notArray operator)
  else if operator = "Not" then
    match argument with
    | .obj members => return .not (← nested members)
    | _ => throw .notObject
  else dataTest rule operator argument

/-- The condition that a rule spells, with rules nested less than `depth` deep. -/
def Condition.ofRuleAt : (depth : Nat) → Keyed Json → Except RuleFault Condition
  | 0, _ => .error .noOperator
  | depth + 1, rule => ruleWith (ofRuleAt depth) rule

/-- The condition that a rule spells. No rule nests deeper than its value does. -/
def Condition.ofRule (rule : Keyed Json) : Except RuleFault Condition :=
  ofRuleAt (Json.obj rule).depth rule

end StepFlow
