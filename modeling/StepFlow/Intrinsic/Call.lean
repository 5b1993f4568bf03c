import StepFlow.Path.Basic

/-!
# Calls of intrinsic functions

A call is a name and arguments in parentheses. The arguments are separated at the commas that stand
outside quotes and inner parentheses; each is a literal, a path or a call.

* `Argument`, `Call`: the syntax;
* `splitArguments`: the cut at the commas;
* `Call.parse`: the call that a text spells, or its first fault.
-/

namespace StepFlow

open Text

/-- An argument of a call. -/
inductive Argument where
  | literal (value : Json)
  | path (path : Path)
  | call (name : String) (arguments : List Argument)
deriving Inhabited

/-- A call of an intrinsic function. -/
structure Call where
  name : String
  arguments : List Argument
deriving Inhabited

/-- What is wrong with a text that is no call. -/
inductive CallFault where
  | noOpening
  | noClosing
  | badName
  | unbalanced
  | emptyArgument
  | unterminated (argument : String)
  | badPath (error : PathError)
  | badCall (argument : String) (fault : CallFault)
deriving DecidableEq, Repr, Inhabited

/-- The wording of a fault within an expression. -/
def wordExpression (expression cause : String) : String :=
  s!"invalid intrinsic expression '{expression}': {cause}"

/-- The wording of a fault. -/
def CallFault.message : CallFault → String
  | .noOpening => "missing '('"
  | .noClosing => "missing closing ')'"
  | .badName => "invalid function name"
  | .unbalanced => "unbalanced quotes or parentheses"
  | .emptyArgument => "empty argument"
  | .unterminated argument => s!"unterminated string argument {argument}"
  | .badPath error => error.message
  | .badCall argument fault => wordExpression argument fault.message

/-! ## Cutting at the commas -/

/-- Where a scan of arguments stands: outside quotes, within them, or behind a backslash in them. -/
inductive Quoting where
  | outside | inside | escaped
deriving DecidableEq, Repr

/-- Where the scan stands after a character within quotes. -/
def Quoting.after (escaped : Bool) (c : Char) : Quoting :=
  if escaped then .inside
  else if c = '\\' then .escaped
  else if c = '\'' then .outside
  else .inside

/-- Puts a character in front of the first part. -/
def consFirst (c : Char) : List (List Char) → List (List Char)
  | [] => [[c]]
  | part :: parts => (c :: part) :: parts

/-- The parts of a text between the commas at depth zero, if quotes and parentheses are balanced. -/
def cutAtCommas : (depth : Nat) → Quoting → List Char → Option (List (List Char))
  | depth, .outside, [] => if depth = 0 then some [[]] else none
  | _, _, [] => none
  | depth, .inside, c :: cs => (cutAtCommas depth (.after false c) cs).map (consFirst c)
  | depth, .escaped, c :: cs => (cutAtCommas depth (.after true c) cs).map (consFirst c)
  | depth, .outside, c :: cs =>
    if c = '\'' then (cutAtCommas depth .inside cs).map (consFirst c)
    else if c = '(' then (cutAtCommas (depth + 1) .outside cs).map (consFirst c)
    else if c = ')' then
      match depth with
      | 0 => none
      | depth + 1 => (cutAtCommas depth .outside cs).map (consFirst c)
    else if c = ',' ∧ depth = 0 then (cutAtCommas 0 .outside cs).map ([] :: ·)
    else (cutAtCommas depth .outside cs).map (consFirst c)

/-- The arguments between the parentheses of a call: none if there are only blanks. -/
def splitArguments (text : List Char) : Option (List (List Char)) :=
  if (trim text).isEmpty then some [] else cutAtCommas 0 .outside text

/-! ## Arguments -/

/-- The text within quotes: a backslash before a quote or a backslash is taken away. -/
def unescape : List Char → List Char
  | '\\' :: '\'' :: cs => '\'' :: unescape cs
  | '\\' :: '\\' :: cs => '\\' :: unescape cs
  | c :: cs => c :: unescape cs
  | [] => []

/-- A sign in front of a number, and the rest. The sign is true for a minus. -/
def splitSign : List Char → Bool × List Char
  | '-' :: cs => (true, cs)
  | '+' :: cs => (false, cs)
  | cs => (false, cs)

/-- The integer that a text spells, if it fits signed 64-bit arithmetic. -/
def signedInteger? (text : List Char) : Option Int :=
  let (negative, ds) := splitSign text
  let n : Int := Reader.natOfDigits ds
  let i := if negative then -n else n
  if ds.isEmpty || !ds.all Char.isDigit || !Number.isSigned64 i then none else some i

/-- The exponent after a mantissa: none is zero, and a mark needs a sign or nothing and digits. -/
def exponent? : List Char → Option Int
  | [] => some 0
  | mark :: cs =>
    if mark = 'e' ∨ mark = 'E' then
      let (negative, ds) := splitSign cs
      let n : Int := Reader.natOfDigits ds
      if ds.isEmpty || !ds.all Char.isDigit then none else some (if negative then -n else n)
    else none

/-- The finite double that a text spells: digits with at most one point anywhere among them, and an
exponent. It is the nearest double. -/
def double? (text : List Char) : Option Float :=
  let (negative, cs) := splitSign text
  let whole := cs.takeWhile Char.isDigit
  let tail := cs.dropWhile Char.isDigit
  let (fraction, tail) := match tail with
    | '.' :: r => (r.takeWhile Char.isDigit, r.dropWhile Char.isDigit)
    | r => ([], r)
  if whole.isEmpty && fraction.isEmpty then none
  else
    (exponent? tail).bind fun e =>
      let x := Decimal.round ⟨Reader.natOfDigits (whole ++ fraction), e - fraction.length⟩
      if x.isFinite then some (if negative then -x else x) else none

/-- The value that a word spells, if it is a truth value, `null` or a number. -/
def wordValue? (word : List Char) : Option Json :=
  if word = ['t', 'r', 'u', 'e'] then some (.bool true)
  else if word = ['f', 'a', 'l', 's', 'e'] then some (.bool false)
  else if word = ['n', 'u', 'l', 'l'] then some .null
  else match signedInteger? word with
    | some i => some (.int i)
    | none => (double? word).map fun x => .num (.float x)

/-- The literal that a text in quotes spells. -/
def quotedArgument (text : List Char) : Except CallFault Argument :=
  if text.length < 2 || text.getLast? ≠ some '\'' then
    .error (.unterminated (String.ofList text))
  else .ok (.literal (.str (String.ofList (unescape text.tail.dropLast))))

/-- The path that a text spells. -/
def pathArgument (text : List Char) : Except CallFault Argument :=
  match Path.parse (String.ofList text) with
  | .ok p => .ok (.path p)
  | .error e => .error (.badPath e)

/-! ## Calls -/

/-- The parts of a call: its name and the text between its parentheses. -/
def callParts (expression : List Char) : Except CallFault (String × List Char) :=
  let text := trim expression
  let name := trim (text.takeWhile (· ≠ '('))
  match text.dropWhile (· ≠ '(') with
  | [] => .error .noOpening
  | _ :: inner =>
    if text.getLast? ≠ some ')' then .error .noClosing
    else if name.isEmpty || name.any isBlank then .error .badName
    else .ok (String.ofList name, inner.dropLast)

/-- The argument that a trimmed text spells; what is no literal and no path has to be a call, which
`nested` reads. -/
def argumentWith (nested : List Char → Except CallFault Call) (text : List Char) :
    Except CallFault Argument :=
  if text.head? = some '\'' then quotedArgument text
  else if text.head? = some '$' then pathArgument text
  else if text.isEmpty then .error .emptyArgument
  else match wordValue? text with
    | some value => .ok (.literal value)
    | none =>
      match nested text with
      | .ok call => .ok (.call call.name call.arguments)
      | .error fault => .error (.badCall (String.ofList text) fault)

/-- The call that a text spells, whose arguments `argument` reads; the first fault counts. -/
def callWith (argument : List Char → Except CallFault Argument) (expression : List Char) :
    Except CallFault Call := do
  let (name, inner) ← callParts expression
  match splitArguments inner with
  | none => throw .unbalanced
  | some parts => return ⟨name, ← parts.mapM fun part => argument (trim part)⟩

/-- A call that nests less than `depth` calls deep. -/
def parseCall : (depth : Nat) → List Char → Except CallFault Call
  | 0, _ => .error .noOpening
  | depth + 1, expression => callWith (argumentWith (parseCall depth)) expression

/-- The call that a text spells. No call nests deeper than the text is long. -/
def Call.parse (expression : String) : Except CallFault Call :=
  parseCall (expression.length + 1) expression.toList

/-- Whether a text has the shape of a call: something before an opening parenthesis, and a closing one
at the end. -/
def isCall (text : String) : Bool :=
  let cs := trim text.toList
  cs.getLast? = some ')' && cs.contains '(' && cs.head? ≠ some '('

end StepFlow
