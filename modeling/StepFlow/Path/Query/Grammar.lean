import StepFlow.Path.Query
import StepFlow.Json.Reader

/-!
# The grammar of queries

A query is `$` or `@` followed by segments: `.name`, `.*`, `[n]`, `['name']`, `[*]`, unions with `,`,
slices with `:` and filters `[?(…)]`. Names in quotes may hold any character, with a backslash before
the quote and the backslash.

* `SyntaxFault`: what can be wrong with a text, and its wording;
* `Grammar.filter`: filters, under a bound on how deep they nest;
* `Query.parse`: a whole text, or the place and the cause of its first fault.
-/

namespace StepFlow

open Text (Scanner Fault isBlank)

/-- What is wrong with a text that is no query. -/
inductive SyntaxFault where
  | noAnchor
  | unexpected (c : Char)
  | recursiveDescent
  | noMemberName
  | expected (c : Char)
  | noSelector
  | noIndex
  | zeroStep
  | badInteger (text : String)
  | unterminated
  | noOperand
  | trailing
deriving DecidableEq, Repr, Inhabited

/-- The wording of a fault. -/
def SyntaxFault.message : SyntaxFault → String
  | .noAnchor => "path must start with '$' or '@'"
  | .unexpected c => s!"unexpected character '{c}'"
  | .recursiveDescent => "recursive descent is not supported"
  | .noMemberName => "expected a member name"
  | .expected c => s!"expected '{c}'"
  | .noSelector => "expected an index, name or slice"
  | .noIndex => "expected an index"
  | .zeroStep => "slice step must not be zero"
  | .badInteger text => s!"invalid integer '{text}'"
  | .unterminated => "unterminated string"
  | .noOperand => "expected a path or literal"
  | .trailing => "unexpected trailing input"

namespace Grammar

open Text.Scanner

/-- A reader of a part of a query. -/
abbrev Part (α : Type) : Type := Scanner SyntaxFault α

/-- Requires the character `c`. -/
def require (c : Char) : Part Unit := do
  unless ← eat c do
    fault (.expected c)

/-! ## Integers and names -/

/-- The integer that a sign and digits spell, if it fits signed 64-bit arithmetic. -/
def integer? (text : List Char) : Option Int :=
  let (negative, ds) := match text with
    | '-' :: ds => (true, ds)
    | ds => (false, ds)
  let n : Int := Reader.natOfDigits ds
  let i := if negative then -n else n
  if ds.isEmpty || !Number.isSigned64 i then none else some i

/-- An integer, if there is a minus or a digit. -/
def integer : Part (Option Int) := do
  let start ← rest
  let minus ← eat '-'
  let ds ← takeWhile Char.isDigit
  let text := if minus then '-' :: ds else ds
  if text.isEmpty then return none
  match integer? text with
  | some i => return some i
  | none => faultAt start (.badInteger (String.ofList text))

/-- One round of a quoted name: its end, or a character more. The characters are gathered in
reverse. -/
def quotedRound (mark : Char) (acc : List Char) : Part (List Char ⊕ List Char) := do
  match ← next? with
  | none => fault .unterminated
  | some c =>
    if c = '\\' then
      match ← next? with
      | some d => return .inl (d :: acc)
      | none => fault .unterminated
    else if c = mark then return .inr acc
    else return .inl (c :: acc)

/-- A quoted name, up to the next unescaped `mark`. -/
def quoted (mark : Char) : Part String := do
  let _ ← eat mark
  let acc ← iterate (quotedRound mark) id []
  return String.ofList acc.reverse

/-- Whether `c` is a quotation mark of a name. -/
def isMark (c : Char) : Bool := c = '\'' || c = '"'

/-- Whether `c` ends a plain name within a filter. -/
def endsNestedName (c : Char) : Bool :=
  isBlank c || c = '=' || c = '!' || c = '<' || c = '>' || c = '&' || c = '|' || c = ')' ||
    c = ']' || c = ','

/-- Whether `c` belongs to a plain name. -/
def isNameChar (nested : Bool) (c : Char) : Bool :=
  !(c = '.' || c = '[' || nested && endsNestedName c)

/-! ## Segments -/

/-- The segment after a dot. -/
def dotSegment (nested : Bool) : Part Segment := do
  match ← peek with
  | some '.' => fault .recursiveDescent
  | some '*' =>
    let _ ← next?
    return .wildcard
  | _ =>
    let name ← takeWhile (isNameChar nested)
    if name.isEmpty then fault .noMemberName else return .child (String.ofList name)

/-- The end and the step of a slice, after its first colon. -/
def sliceFrom (start : Option Int) : Part Segment := do
  skipBlanks
  let stop ← integer
  skipBlanks
  let step ← if ← eat ':' then do
      skipBlanks
      pure ((← integer).getD 1)
    else pure 1
  if step = 0 then fault .zeroStep else return .slice start stop step

/-- A choice of a union after the first. -/
def choice : Part Selector := do
  match ← peek with
  | some c =>
    if isMark c then return .name (← quoted c)
    match ← integer with
    | some i => return .index i
    | none => fault .noIndex
  | none => fault .noIndex

/-- One round of a union: its end, or a comma and a choice more. -/
def choicesRound (acc : List Selector) : Part (List Selector ⊕ List Selector) := do
  skipBlanks
  if ← eat ',' then
    skipBlanks
    return .inl ((← choice) :: acc)
  else return .inr acc

/-- The segment for a list of choices: a single one is a member or an item. -/
def segmentOf : List Selector → Segment
  | [.name name] => .child name
  | [.index i] => .index i
  | choices => .union choices

/-- The choices of a union, of which the first one has been read. -/
def unionFrom (first : Selector) : Part Segment := do
  let acc ← iterate choicesRound id [first]
  return segmentOf acc.reverse

/-- A name, an index, a union or a slice. -/
def selectors : Part Segment := do
  match ← peek with
  | some c =>
    if isMark c then return ← unionFrom (.name (← quoted c))
  | none => pure ()
  let start ← integer
  skipBlanks
  if ← eat ':' then sliceFrom start
  else match start with
    | some i => unionFrom (.index i)
    | none => fault .noSelector

/-- The segment after an opening bracket; `inner` reads what stands between the parentheses of a
filter. -/
def bracket (inner : Part Filter) : Part Segment := do
  skipBlanks
  let segment ← match ← peek with
    | some '*' => do
      let _ ← next?
      pure Segment.wildcard
    | some '?' => do
      let _ ← next?
      skipBlanks
      require '('
      let test ← inner
      skipBlanks
      require ')'
      pure (Segment.filter test)
    | _ => selectors
  skipBlanks
  require ']'
  return segment

/-- One round of the segments: their end, or a segment more. Within a filter they end at the first
character that starts no segment. -/
def segmentsRound (inner : Part Filter) (nested : Bool) (acc : List Segment) :
    Part (List Segment ⊕ List Segment) := do
  match ← peek with
  | some '.' =>
    let _ ← next?
    return .inl ((← dotSegment nested) :: acc)
  | some '[' =>
    let _ ← next?
    return .inl ((← bracket inner) :: acc)
  | none => return .inr acc
  | some c => if nested then return .inr acc else fault (.unexpected c)

/-- The anchor of a query. -/
def anchor : Part Anchor := do
  if ← eat '$' then return .root
  else if ← eat '@' then return .current
  else fault .noAnchor

/-- An anchor and its segments. -/
def path (inner : Part Filter) (nested : Bool) : Part (Anchor × List Segment) := do
  let a ← anchor
  let acc ← iterate (segmentsRound inner nested) id []
  return (a, acc.reverse)

/-! ## Filters -/

/-- Whether `c` belongs to an unquoted literal. -/
def isWordChar (c : Char) : Bool :=
  c.isAlphanum || c = '-' || c = '+' || c = '.'

/-- The value that an unquoted literal spells. -/
def literal? (word : List Char) : Option Json :=
  if word = ['t', 'r', 'u', 'e'] then some (.bool true)
  else if word = ['f', 'a', 'l', 's', 'e'] then some (.bool false)
  else if word = ['n', 'u', 'l', 'l'] then some .null
  else (Number.read? word).map .num

/-- An operand: a query, a quoted text or a literal. -/
def operand (inner : Part Filter) : Part Operand := do
  let start ← rest
  match start.head? with
  | some c =>
    if c = '@' || c = '$' then
      let (a, segments) ← path inner true
      return .path a segments
    if isMark c then return .literal (.str (← quoted c))
  | none => pure ()
  match literal? (← takeWhile isWordChar) with
  | some value => return .literal value
  | none => faultAt start .noOperand

/-- A sign of comparison, if there is one. The longer signs are tried first. -/
def comparison : Part (Option Comparison) := do
  if ← eatAll ['=', '='] then return some .eq
  else if ← eatAll ['!', '='] then return some .ne
  else if ← eatAll ['<', '='] then return some .le
  else if ← eatAll ['>', '='] then return some .ge
  else if ← eat '<' then return some .lt
  else if ← eat '>' then return some .gt
  else return none

/-- A test in parentheses, a comparison, or an operand that has to be present. -/
def test (inner : Part Filter) : Part Filter := do
  skipBlanks
  if ← eat '(' then
    let f ← inner
    skipBlanks
    require ')'
    return f
  let left ← operand inner
  skipBlanks
  match ← comparison with
  | some c =>
    skipBlanks
    return .compare left c (← operand inner)
  | none => return .present left

/-- One round of a chain: its end, or an operator and a link more, joined to the left. -/
def chainRound (sign : List Char) (join : Filter → Filter → Filter) (link : Part Filter)
    (left : Filter) : Part (Filter ⊕ Filter) := do
  skipBlanks
  if ← eatAll sign then return .inl (join left (← link)) else return .inr left

def chain (sign : List Char) (join : Filter → Filter → Filter) (link : Part Filter) :
    Part Filter := do
  iterate (chainRound sign join link) id (← link)

/-- A filter that nests at most `depth` filters. -/
def filter : (depth : Nat) → Part Filter
  | 0 => fault .noOperand
  | depth + 1 => chain ['|', '|'] .or (chain ['&', '&'] .and (test (filter depth)))

/-- A query whose filters nest at most `depth` deep. -/
def query (depth : Nat) : Part (Anchor × List Segment) :=
  path (filter depth) false

end Grammar

/-- The query that a text spells. No filter nests deeper than the text is long. -/
def Query.parse (source : String) : Except (Fault SyntaxFault) Query := do
  let text := source.toList
  let (anchor, segments) ← Scanner.complete (Grammar.query text.length) .trailing text
  return ⟨source, anchor, segments⟩

end StepFlow
