import StepFlow.Text.Scanner
import StepFlow.Json.Reader

/-!
# Timestamps

A timestamp is a day and a time of day to the second, written `2024-03-01T12:00:00Z`. The sixtieth
second of any minute is accepted.

* `Timestamp`: a valid day and time;
* `Timestamp.parse`, `Timestamp.render`: reading and writing;
* `Timestamp.order`: the order in time;
* `Timestamp.epochSeconds`: the seconds since the start of 1970.
-/

namespace StepFlow

open Text Text.Scanner

namespace Calendar

/-- Whether a year has a 29th of February. -/
def isLeap (year : Int) : Bool :=
  year % 4 = 0 && (year % 100 ≠ 0 || year % 400 = 0)

/-- The number of days of a month. -/
def daysIn (year : Int) (month : Nat) : Nat :=
  if month = 2 then if isLeap year then 29 else 28
  else if month ∈ [4, 6, 9, 11] then 30 else 31

/-- The years that have timestamps. -/
def isYear (year : Int) : Bool := -262143 ≤ year && year ≤ 262142

def isDay (year : Int) (month day : Nat) : Bool :=
  isYear year && 1 ≤ month && month ≤ 12 && 1 ≤ day && day ≤ daysIn year month

/-- Whether there is such a time of day. -/
def isTime (hour minute second : Nat) : Bool :=
  hour ≤ 23 && minute ≤ 59 && second ≤ 60

/-- The days from the start of 1970 to a day. Years are counted from March on, so that a leap day is
the last one of its year. -/
def epochDay (year : Int) (month day : Nat) : Int :=
  let y := if month ≤ 2 then year - 1 else year
  let m := (month + 9) % 12
  let dayOfYear := (153 * m + 2) / 5 + day - 1
  365 * y + Int.fdiv y 4 - Int.fdiv y 100 + Int.fdiv y 400 + dayOfYear - 719468

end Calendar

/-- A day and a time of day. -/
structure Timestamp where
  year : Int
  month : Nat
  day : Nat
  hour : Nat
  minute : Nat
  second : Nat
  valid : (Calendar.isDay year month day && Calendar.isTime hour minute second) = true
deriving DecidableEq

/-- What is wrong with a text that is no timestamp. -/
inductive TimestampFault where
  | tooShort | invalid | outOfRange | trailing
deriving DecidableEq, Repr, Inhabited

/-- The wording of a fault. -/
def TimestampFault.message : TimestampFault → String
  | .tooShort => "premature end of input"
  | .invalid => "input contains invalid characters"
  | .outOfRange => "input is out of range"
  | .trailing => "trailing input"

namespace Timestamp

def epoch : Timestamp := ⟨1970, 1, 1, 0, 0, 0, by decide⟩

instance : Inhabited Timestamp := ⟨epoch⟩

/-! ## Reading -/

/-- A reader of a part of a timestamp. -/
abbrev Part (α : Type) : Type := Scanner TimestampFault α

/-- A number of at least one digit and at most `width` digits, if a width is given. -/
def number (width : Option Nat) : Part Nat := fun cs =>
  let run := cs.takeWhile Char.isDigit
  let ds := match width with
    | some w => run.take w
    | none => run
  match cs, ds with
  | [], _ => .error ⟨.tooShort, cs⟩
  | _, [] => .error ⟨.invalid, cs⟩
  | _, _ => .ok (Reader.natOfDigits ds, cs.drop ds.length)

/-- A number of one or two digits in a range, with blanks before it. -/
def field (low high : Nat) : Part Nat := do
  skipBlanks
  let n ← number (some 2)
  if low ≤ n && n ≤ high then return n else fault .outOfRange

/-- The number of a year: up to four digits, or a sign and any number of digits. -/
def yearNumber : Part Int := do
  if ← eat '-' then
    let n ← number none
    return -(n : Int)
  else if ← eat '+' then
    let n ← number none
    return (n : Int)
  else
    let n ← number (some 4)
    return (n : Int)

/-- A year with blanks before it. -/
def yearField : Part Int := do
  skipBlanks
  let y ← yearNumber
  if -2147483648 ≤ y && y ≤ 2147483647 then return y else fault .outOfRange

/-- The character `c`. -/
def mark (c : Char) : Part Unit := do
  match ← peek with
  | none => fault .tooShort
  | some d => if d = c then let _ ← next? else fault .invalid

/-- The six numbers of a timestamp with the marks between them. -/
def fields : Part (Int × (Nat × Nat) × Nat × Nat × Nat) := do
  let year ← yearField
  mark '-'
  let month ← field 1 12
  mark '-'
  let day ← field 1 31
  mark 'T'
  let hour ← field 0 23
  mark ':'
  let minute ← field 0 59
  mark ':'
  let second ← field 0 60
  mark 'Z'
  return (year, (month, day), hour, minute, second)

/-- The timestamp that a text spells. -/
def parse (text : String) : Except TimestampFault Timestamp :=
  match complete fields .trailing text.toList with
  | .error f => .error f.cause
  | .ok (year, (month, day), hour, minute, second) =>
    if h : (Calendar.isDay year month day && Calendar.isTime hour minute second) = true then
      .ok ⟨year, month, day, hour, minute, second, h⟩
    else .error .outOfRange

/-- The timestamp that a text spells, if it spells one. -/
def parse? (text : String) : Option Timestamp := (parse text).toOption

/-! ## Writing -/

/-- A number with zeros in front up to a width. -/
def padded (width n : Nat) : List Char :=
  let ds := Nat.toDigits 10 n
  List.replicate (width - ds.length) '0' ++ ds

/-- A year with at least four digits, and with a sign outside the range from 0 to 9999. -/
def renderYear (year : Int) : List Char :=
  if year < 0 then '-' :: padded 4 year.natAbs
  else if year > 9999 then '+' :: padded 4 year.natAbs
  else padded 4 year.natAbs

def render (t : Timestamp) : String :=
  String.ofList (renderYear t.year ++ '-' :: padded 2 t.month ++ '-' :: padded 2 t.day ++
    'T' :: padded 2 t.hour ++ ':' :: padded 2 t.minute ++ ':' :: padded 2 t.second ++ ['Z'])

/-! ## Order -/

/-- The order in time; a sixtieth second comes after the fifty-ninth. -/
def order (a b : Timestamp) : Ordering :=
  (compare a.year b.year).then <| (compare a.month b.month).then <|
    (compare a.day b.day).then <| (compare a.hour b.hour).then <|
      (compare a.minute b.minute).then (compare a.second b.second)

/-- The seconds since the start of 1970. -/
def epochSeconds (t : Timestamp) : Int :=
  Calendar.epochDay t.year t.month t.day * 86400 + (t.hour * 3600 + t.minute * 60 + t.second : Nat)

end Timestamp

end StepFlow
