import StepFlow.Json.Reader

/-!
# Orders

An order asks for an execution. It is a document with the name of a workflow and the text of an input,
which may be missing. It is read in one go from the front, and the first fault decides whether the text
is no document at all or a document of the wrong shape. Members of other names are passed over.

* `Order`, `OrderFault`: what is read, and why it is not;
* `passOver`: the grammar of values whose content does not count;
* `Order.read`: the order that a text spells.
-/

namespace StepFlow

open Text (Scanner)
open Reader hiding Part

/-- A wish for an execution. -/
structure Order where
  workflowName : String
  /-- The text of the input. -/
  input : String
deriving DecidableEq, Repr

/-- Why a text is not an order. -/
inductive OrderFault where
  /-- The text is not a document. -/
  | malformed
  /-- The document is not an order. -/
  | unfit
deriving DecidableEq, Repr

namespace Order

/-! ## Values that do not count -/

/-- What follows a backslash. -/
def passEscape : Reader.Part Unit := do
  match ← Scanner.next? with
  | some 'u' =>
    let _ ← unit16
  | some c => if ['"', '\\', '/', 'b', 'f', 'n', 'r', 't'].contains c then pure () else refuse
  | none => refuse

/-- One round of a string whose content does not count. -/
def passRound (_ : Unit) : Reader.Part (Unit ⊕ Unit) := do
  match ← Scanner.next? with
  | some '"' => pure (.inr ())
  | some '\\' => .inl <$> passEscape
  | some c => if c.toNat < 0x20 then refuse else pure (.inl ())
  | none => refuse

/-- A string whose content does not count. -/
def passString : Reader.Part Unit := do
  expect '"'
  Scanner.iterate passRound id ()

/-- A number whose size does not count. -/
def passNumber : Reader.Part Unit := do
  let _ ← Scanner.eat '-'
  let _ ← wholeDigits
  let _ ← fractionDigits
  let _ ← exponentPart

/-- A member whose key and value do not count. -/
def passMember (item : Reader.Part Unit) : Reader.Part Unit := do
  skipSpace
  passString
  skipSpace
  expect ':'
  item

/-- A value that nests at most `depth` deep, whose content does not count. -/
def passValue (depth : Nat) : Reader.Part Unit := do
  skipSpace
  match ← Scanner.peek with
  | some 'n' => expectAll ['n', 'u', 'l', 'l']
  | some 't' => expectAll ['t', 'r', 'u', 'e']
  | some 'f' => expectAll ['f', 'a', 'l', 's', 'e']
  | some '"' => passString
  | some '[' =>
    match depth with
    | 0 => refuse
    | depth + 1 =>
      expect '['
      let _ ← listOf (passValue depth) ']'
  | some '{' =>
    match depth with
    | 0 => refuse
    | depth + 1 =>
      expect '{'
      let _ ← listOf (passMember (passValue depth)) '}'
  | _ => passNumber

/-- A value whose content does not count. No value nests deeper than its text is long. -/
def passOver : Reader.Part Unit := do
  passValue (← Scanner.rest).length

/-! ## Orders -/

/-- A reader of a part of an order. -/
abbrev Piece (α : Type) : Type := Scanner OrderFault α

/-- A part of any document, as a part of an order. -/
def ofPart {α : Type} (part : Reader.Part α) : Piece α := fun cs =>
  match part cs with
  | .ok r => .ok r
  | .error f => .error ⟨.malformed, f.rest⟩

/-- The document is not an order. -/
def unfit {α : Type} : Piece α := Scanner.fault .unfit

/-- A value that is not what should stand here. Its text is checked as far as its kind is open: a
bracket tells the kind at once. -/
def misplaced {α : Type} : Piece α := do
  match ← Scanner.peek with
  | some 'n' => ofPart (expectAll ['n', 'u', 'l', 'l'])
  | some 't' => ofPart (expectAll ['t', 'r', 'u', 'e'])
  | some 'f' => ofPart (expectAll ['f', 'a', 'l', 's', 'e'])
  | some '"' => ofPart do
    expect '"'
    let _ ← stringBody
  | some '[' => pure ()
  | some '{' => pure ()
  | _ => ofPart do
    let _ ← number
  unfit

def textValue : Piece String := do
  ofPart skipSpace
  if ← Scanner.eat '"' then ofPart stringBody else misplaced

/-- What is known of an order. -/
structure Draft where
  workflowName : Option String
  input : Option String

/-- The order of a draft. The name is required, and the input is blank if it is missing. -/
def Draft.finish (d : Draft) : Piece Order :=
  match d.workflowName with
  | some name => pure ⟨name, d.input.getD ""⟩
  | none => unfit

/-- The value of a member that counts, which may not have one yet. -/
def fresh (known : Option String) : Piece String := do
  if known.isSome then unfit
  ofPart skipSpace
  ofPart (expect ':')
  textValue

/-- The draft with the value of the member whose key was just read. -/
def Draft.addMember (d : Draft) (key : String) : Piece Draft := do
  if key = "workflowName" then
    return { d with workflowName := some (← fresh d.workflowName) }
  else if key = "input" then
    return { d with input := some (← fresh d.input) }
  else
    ofPart skipSpace
    ofPart (expect ':')
    ofPart passOver
    return d

/-- One round of an order as an object: its end or a member more. -/
def memberRound (state : Draft × Bool) : Piece ((Draft × Bool) ⊕ Draft) := do
  let (d, first) := state
  ofPart skipSpace
  if ← Scanner.eat '}' then return .inr d
  unless first do
    ofPart (expect ',')
    ofPart skipSpace
  ofPart (expect '"')
  let key ← ofPart stringBody
  return .inl (← d.addMember key, false)

/-- An order as an object, after its opening bracket. -/
def ofObject : Piece Order := do
  let d ← Scanner.iterate memberRound Prod.fst (⟨none, none⟩, true)
  d.finish

/-- An order as an array of the name and the input, after its opening bracket. -/
def ofArray : Piece Order := do
  ofPart skipSpace
  if ← Scanner.eat ']' then unfit
  let name ← textValue
  ofPart skipSpace
  if ← Scanner.eat ']' then return ⟨name, ""⟩
  ofPart (expect ',')
  let input ← textValue
  ofPart skipSpace
  ofPart (expect ']')
  return ⟨name, input⟩

/-- An order. -/
def value : Piece Order := do
  ofPart skipSpace
  if ← Scanner.eat '{' then ofObject
  else if ← Scanner.eat '[' then ofArray
  else misplaced

/-- An order with space around it. -/
def whole : Piece Order := do
  let order ← value
  ofPart skipSpace
  pure order

/-- The order that a text spells. -/
def read (text : String) : Except OrderFault Order :=
  (Scanner.complete whole .malformed text.toList).mapError Text.Fault.cause

end Order

end StepFlow
