import StepFlow.Intrinsic.Call
import StepFlow.Json.Printer

/-!
# The built-in functions

* `ArgumentFault`: why a function rejects its arguments;
* `Template.fill`: the replacement of the holes of a template by values;
* `splitOn`: the parts of a text between the places of a separator;
* `Supply`: a source of fresh identifiers;
* `builtins`: the functions and their names.
-/

namespace StepFlow

/-- Why a function rejects its arguments. -/
inductive ArgumentFault where
  | count (expected actual : Nat)
  | noTemplate
  | holes (expected actual : Nat)
  | notScalar
  | notString
  | malformed
  | notArray
  | firstNotArray
  | notNumbers
  | overflow
  | notFinite
  | notStrings
  | emptyDelimiter
deriving DecidableEq, Repr, Inhabited

/-- The wording of a fault. -/
def ArgumentFault.message : ArgumentFault → String
  | .count expected actual => s!"expected {expected} argument(s), got {actual}"
  | .noTemplate => "first argument must be a string"
  | .holes expected actual =>
    s!"template has {expected} placeholder(s) but {actual} value(s) were given"
  | .notScalar => "cannot format arrays or objects"
  | .notString => "argument must be a string"
  | .malformed => "argument is not a document"
  | .notArray => "argument must be an array"
  | .firstNotArray => "first argument must be an array"
  | .notNumbers => "arguments must be numbers"
  | .overflow => "integer overflow"
  | .notFinite => "result is not a finite number"
  | .notStrings => "arguments must be strings"
  | .emptyDelimiter => "delimiter must not be empty"

/-! ## Templates -/

namespace Template

/-- The mark that stands for a value. -/
def hole : List Char := ['\x7b', '\x7d']

/-- The mark that is kept as it is. -/
def escapedHole : List Char := '\\' :: hole

/-- The number of places at which `word` stands in a text. -/
def occurrences (word : List Char) : List Char → Nat
  | [] => if word.isEmpty then 1 else 0
  | c :: cs => (if word.isPrefixOf (c :: cs) then 1 else 0) + occurrences word cs

/-- The number of values that a template takes. -/
def arity (template : List Char) : Nat :=
  occurrences hole template - occurrences escapedHole template

/-- The text of a scalar value. -/
def scalar? : Json → Option String
  | .str s => some s
  | .num n => some n.render
  | .bool b => some (if b then "true" else "false")
  | .null => some "null"
  | _ => none

/-- The template with each hole replaced by the text of the next value and everything else as it is;
none if a value has no text. -/
def fill : List Char → List Json → Option (List Char)
  | '\\' :: '\x7b' :: '\x7d' :: cs, values => (fill cs values).map (escapedHole ++ ·)
  | '\x7b' :: '\x7d' :: cs, value :: values =>
    match scalar? value with
    | some text => (fill cs values).map (text.toList ++ ·)
    | none => none
  | '\x7b' :: '\x7d' :: cs, [] => fill cs []
  | c :: cs, values => (fill cs values).map (c :: ·)
  | [], _ => some []

end Template

/-! ## Splitting -/

/-- The text before the first place of a separator, and the text behind it. -/
def cutAt? (separator : List Char) : List Char → Option (List Char × List Char)
  | [] => none
  | c :: cs =>
    if separator.isPrefixOf (c :: cs) then some ([], (c :: cs).drop separator.length)
    else (cutAt? separator cs).map fun p => (c :: p.1, p.2)

/-- The parts of a text between the places of a separator. The first argument bounds their number. -/
def splitOn (separator : List Char) : (bound : Nat) → List Char → List (List Char)
  | 0, text => [text]
  | bound + 1, text =>
    match cutAt? separator text with
    | some (part, rest) => part :: splitOn separator bound rest
    | none => [text]

/-! ## Fresh identifiers -/

/-- A source of fresh identifiers: which one is drawn depends on the part of the computation that draws
it, as a path whose last step comes first. -/
structure Supply where
  draw : List Nat → String
  place : List Nat
deriving Inhabited

/-- The source for part `i` of a computation. -/
def Supply.branch (s : Supply) (i : Nat) : Supply := { s with place := i :: s.place }

/-- The identifier that is drawn. -/
def Supply.identifier (s : Supply) : String := s.draw s.place

/-! ## Functions -/

/-- A function on values, which may draw an identifier. -/
abbrev Function : Type := Supply → List Json → Except ArgumentFault Json

namespace Function

/-- `States.Format`: a template with its holes filled. -/
def format : Function := fun _ arguments =>
  match arguments with
  | .str template :: values =>
    let text := template.toList
    if Template.arity text ≠ values.length then
      .error (.holes (Template.arity text) values.length)
    else match Template.fill text values with
      | some filled => .ok (.str (String.ofList filled))
      | none => .error .notScalar
  | _ => .error .noTemplate

/-- A function of one argument. -/
def unary (f : Json → Except ArgumentFault Json) : Function := fun _ arguments =>
  match arguments with
  | [a] => f a
  | _ => .error (.count 1 arguments.length)

/-- A function of two arguments. -/
def binary (f : Json → Json → Except ArgumentFault Json) : Function := fun _ arguments =>
  match arguments with
  | [a, b] => f a b
  | _ => .error (.count 2 arguments.length)

/-- `States.StringToJson`: the document that a text spells. -/
def stringToJson : Function := unary fun
  | .str text =>
    match Json.read? text with
    | some j => .ok j
    | none => .error .malformed
  | _ => .error .notString

/-- `States.JsonToString`: the text of a document. -/
def jsonToString : Function := unary fun j => .ok (.str j.render)

/-- `States.Array`: the arguments as an array. -/
def array : Function := fun _ arguments => .ok (.arr arguments)

/-- `States.ArrayLength`: the number of items. -/
def arrayLength : Function := unary fun
  | .arr items => .ok (.nat items.length)
  | _ => .error .notArray

/-- `States.ArrayContains`: whether an item equals a value. -/
def arrayContains : Function := binary fun
  | .arr items, value => .ok (.bool (items.any (· == value)))
  | _, _ => .error .firstNotArray

/-- The sum of two numbers. Two signed 64-bit integers have an exact sum or none; all other numbers
are added as doubles. -/
def add (a b : Number) : Except ArgumentFault Json :=
  let floats : Except ArgumentFault Json :=
    let sum := a.toFloat + b.toFloat
    if sum.isFinite then .ok (.num (.float sum)) else .error .notFinite
  match a, b with
  | .int i, .int j =>
    if Number.isSigned64 i && Number.isSigned64 j then
      if Number.isSigned64 (i + j) then .ok (.int (i + j)) else .error .overflow
    else floats
  | _, _ => floats

/-- `States.MathAdd`: the sum of two numbers. -/
def mathAdd : Function := binary fun
  | .num a, .num b => add a b
  | _, _ => .error .notNumbers

/-- `States.StringSplit`: the parts of a text between the places of a delimiter, without empty ones. -/
def stringSplit : Function := binary fun
  | .str text, .str delimiter =>
    if delimiter.isEmpty then .error .emptyDelimiter
    else
      let parts := splitOn delimiter.toList text.length text.toList
      .ok (.arr ((parts.filter fun p => !p.isEmpty).map fun p => .str (String.ofList p)))
  | _, _ => .error .notStrings

/-- `States.UUID`: a fresh identifier. -/
def uuid : Function := fun supply arguments =>
  if arguments.isEmpty then .ok (.str supply.identifier)
  else .error (.count 0 arguments.length)

end Function

/-- The functions and their names. -/
def builtins : List (String × Function) :=
  [("States.Format", Function.format),
    ("States.StringToJson", Function.stringToJson),
    ("States.JsonToString", Function.jsonToString),
    ("States.Array", Function.array),
    ("States.ArrayLength", Function.arrayLength),
    ("States.ArrayContains", Function.arrayContains),
    ("States.MathAdd", Function.mathAdd),
    ("States.StringSplit", Function.stringSplit),
    ("States.UUID", Function.uuid)]

end StepFlow
