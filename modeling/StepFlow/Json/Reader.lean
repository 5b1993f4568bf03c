import StepFlow.Json.Basic
import StepFlow.Text.Scanner
import StepFlow.Decimal.Reading

/-!
# Reading documents

A text is a document if it follows the JSON grammar, nests at most `maxDepth` arrays and objects and
holds no number that is out of range. Of two members with one key the later one counts. What is wrong
with a text that is no document is not recorded.

* `number`: the numbers, exact where they are integers that fit 64 bits;
* `value`: a value under a bound on the nesting;
* `Json.read?`: a whole text.
-/

namespace StepFlow

open Text (Scanner)

namespace Reader

/-- A reader of a part of a document. -/
abbrev Part (α : Type) : Type := Scanner Unit α

/-- The deepest nesting of arrays and objects. -/
def maxDepth : Nat := 127

def refuse {α : Type} : Part α := Scanner.fault ()

/-- Space, tab, line feed and carriage return separate the parts of a document. -/
def isSpace (c : Char) : Bool :=
  c = ' ' || c = '\t' || c = '\n' || c = '\r'

/-- Skips the space before the next part. -/
def skipSpace : Part Unit := do
  let _ ← Scanner.takeWhile isSpace

/-- Requires the character `c`. -/
def expect (c : Char) : Part Unit := do
  if ← Scanner.eat c then pure () else refuse

/-- Requires the characters of `word`. -/
def expectAll (word : List Char) : Part Unit := do
  if ← Scanner.eatAll word then pure () else refuse

/-! ## Numbers -/

/-- The value of a decimal digit. -/
def digitValue (c : Char) : Nat := c.toNat - '0'.toNat

/-- The number that a row of digits spells. -/
def natOfDigits (ds : List Char) : Nat :=
  ds.foldl (fun n c => 10 * n + digitValue c) 0

def digits : Part (List Char) := do
  let ds ← Scanner.takeWhile Char.isDigit
  if ds.isEmpty then refuse else pure ds

/-- The digits before the point: a single zero, or a row that does not start with one. -/
def wholeDigits : Part (List Char) := do
  let ds ← digits
  if ds.length > 1 && ds.head? = some '0' then refuse else pure ds

/-- The digits after the point, if there is one. -/
def fractionDigits : Part (Option (List Char)) := do
  if ← Scanner.eat '.' then some <$> digits else pure none

/-- The exponent with its sign, if there is one. -/
def exponentPart : Part (Option (Bool × Nat)) := do
  let mark ← Scanner.peek
  if mark = some 'e' || mark = some 'E' then
    let _ ← Scanner.next?
    let negative ← Scanner.eat '-'
    unless negative do
      let _ ← Scanner.eat '+'
    return some (negative, natOfDigits (← digits))
  else
    return none

/-- Significands stay below this bound, `2 ^ 64`. -/
def significandBound : Nat := 18446744073709551616

/-- Appends digits to a significand as long as it stays below the bound. The answer has the number of
digits that were taken. -/
def takeSignificant (significand taken : Nat) : List Char → Nat × Nat
  | [] => (significand, taken)
  | c :: ds =>
    let next := 10 * significand + digitValue c
    if next < significandBound then takeSignificant next (taken + 1) ds else (significand, taken)

/-- The exponents of a written number stay in a signed 32-bit range. -/
def clampExponent (e : Int) : Int := max (-2147483648) (min 2147483647 e)

/-- The decimal of a written number: the leading digits that fit the significand, with the digits
before the point that do not fit counted in the exponent. -/
def significant (whole fraction : List Char) (exponent : Int) : Decimal :=
  let (w, taken) := takeSignificant 0 0 whole
  let (m, places) := takeSignificant w 0 fraction
  ⟨m, clampExponent ((whole.length : Int) - taken - places + exponent)⟩

/-- An exponent beyond 32 bits decides the number by itself: zero stays zero and all else is out of
range, or zero if the exponent is negative. -/
def floatOf (whole fraction : List Char) (negativeExponent : Bool) (exponent : Nat) :
    Option Float :=
  let d := significant whole fraction (if negativeExponent then -exponent else exponent)
  if exponent > 2147483647 then
    if d.digits ≠ 0 && !negativeExponent then none else some 0
  else d.scale?

/-- The number with the given parts. Without a point and an exponent it is an integer if it fits
64 bits; a minus before zero makes it the double `-0.0`. -/
def assemble (negative : Bool) (whole : List Char) (fraction : Option (List Char))
    (exponent : Option (Bool × Nat)) : Option Number :=
  let n := natOfDigits whole
  let i : Int := if negative then -n else n
  if fraction.isNone && exponent.isNone && Number.isExact i && !(negative && n = 0) then
    some (.int i)
  else
    let (negativeExponent, e) := exponent.getD (false, 0)
    match floatOf whole (fraction.getD []) negativeExponent e with
    | some x => some (.float (if negative then -x else x))
    | none => none

/-- A number. -/
def number : Part Number := do
  let negative ← Scanner.eat '-'
  let whole ← wholeDigits
  let fraction ← fractionDigits
  let exponent ← exponentPart
  match assemble negative whole fraction exponent with
  | some n => pure n
  | none => refuse

/-! ## Strings -/

/-- The value of a hexadecimal digit. -/
def hexValue? (c : Char) : Option Nat :=
  if '0' ≤ c && c ≤ '9' then some (c.toNat - '0'.toNat)
  else if 'a' ≤ c && c ≤ 'f' then some (c.toNat - 'a'.toNat + 10)
  else if 'A' ≤ c && c ≤ 'F' then some (c.toNat - 'A'.toNat + 10)
  else none

/-- One hexadecimal digit. -/
def hexDigit : Part Nat := do
  match (← Scanner.next?).bind hexValue? with
  | some n => pure n
  | none => refuse

/-- Four hexadecimal digits: a UTF-16 unit. -/
def unit16 : Part Nat := do
  let a ← hexDigit
  let b ← hexDigit
  let c ← hexDigit
  let d ← hexDigit
  pure (((a * 16 + b) * 16 + c) * 16 + d)

/-- The character of an escape with `u`: one unit, or a high and a low surrogate. A surrogate without
its partner is refused. -/
def unicodeEscape : Part Char := do
  let high ← unit16
  if 0xDC00 ≤ high && high ≤ 0xDFFF then refuse
  else if 0xD800 ≤ high && high ≤ 0xDBFF then
    expectAll ['\\', 'u']
    let low ← unit16
    if 0xDC00 ≤ low && low ≤ 0xDFFF then
      pure (Char.ofNat (0x10000 + (high - 0xD800) * 0x400 + (low - 0xDC00)))
    else refuse
  else pure (Char.ofNat high)

/-- The character that follows a backslash. -/
def escaped : Part Char := do
  match ← Scanner.next? with
  | some '"' => pure '"'
  | some '\\' => pure '\\'
  | some '/' => pure '/'
  | some 'b' => pure '\x08'
  | some 'f' => pure '\x0c'
  | some 'n' => pure '\n'
  | some 'r' => pure '\r'
  | some 't' => pure '\t'
  | some 'u' => unicodeEscape
  | _ => refuse

/-- One round of a string: its end, or a character more. The characters are gathered in reverse. -/
def stringRound (acc : List Char) : Part (List Char ⊕ List Char) := do
  match ← Scanner.next? with
  | some '"' => pure (.inr acc)
  | some '\\' => return .inl ((← escaped) :: acc)
  | some c => if c.toNat < 0x20 then refuse else pure (.inl (c :: acc))
  | none => refuse

/-- A string, after its opening quotation mark. -/
def stringBody : Part String := do
  let acc ← Scanner.iterate stringRound id []
  pure (String.ofList acc.reverse)

/-! ## Values -/

/-- One round of a list that `closing` ends: the end, or a comma and an item more. The items are
gathered in reverse. -/
def listRound {α : Type} (item : Part α) (closing : Char) (acc : List α) :
    Part (List α ⊕ List α) := do
  skipSpace
  if ← Scanner.eat closing then return .inr acc
  unless acc.isEmpty do
    expect ','
    skipSpace
  return .inl ((← item) :: acc)

/-- The items of a list that `closing` ends, separated by commas. -/
def listOf {α : Type} (item : Part α) (closing : Char) : Part (List α) := do
  return (← Scanner.iterate (listRound item closing) id []).reverse

/-- A member of an object: a key, a colon and a value. -/
def memberWith (item : Part Json) : Part (String × Json) := do
  skipSpace
  expect '"'
  let key ← stringBody
  skipSpace
  expect ':'
  return (key, ← item)

/-- A value whose first character is `next`. What an array or an object holds is read by `nested`, and
without that there must not be any. -/
def valueFrom (nested : Option (Part Json)) (next : Option Char) : Part Json :=
  match next with
  | some 'n' => do
    expectAll ['n', 'u', 'l', 'l']
    pure .null
  | some 't' => do
    expectAll ['t', 'r', 'u', 'e']
    pure (.bool true)
  | some 'f' => do
    expectAll ['f', 'a', 'l', 's', 'e']
    pure (.bool false)
  | some '"' => do
    expect '"'
    return .str (← stringBody)
  | some '[' =>
    match nested with
    | none => refuse
    | some item => do
      expect '['
      return .arr (← listOf item ']')
  | some '{' =>
    match nested with
    | none => refuse
    | some item => do
      expect '{'
      return Json.ofMembers (← listOf (memberWith item) '}')
  | _ => do return .num (← number)

/-- A value that nests at most as many arrays and objects as given. -/
def value : (depth : Nat) → Part Json
  | 0 => do
    skipSpace
    valueFrom none (← Scanner.peek)
  | depth + 1 => do
    skipSpace
    valueFrom (some (value depth)) (← Scanner.peek)

/-- A value with space around it. -/
def document : Part Json := do
  let j ← value maxDepth
  skipSpace
  pure j

end Reader

/-- The document that a text spells. -/
def Json.read? (text : String) : Option Json :=
  (Scanner.complete Reader.document () text.toList).toOption

/-- The number that a whole text spells. -/
def Number.read? (text : List Char) : Option Number :=
  (Scanner.complete Reader.number () text).toOption

end StepFlow
