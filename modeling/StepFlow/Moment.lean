import StepFlow.Timestamp

/-!
# Moments

A moment is a time to the nanosecond, as it is stamped on what is made at that time.

* `Moment`: a time in one of the years that have four digits, from 1970 on;
* `MomentCodec`: a way to keep moments as texts;
* `Moment.text`, `Moment.ofText?`, `MomentCodec.offset`: texts such as `2024-03-01T12:00:00.250+00:00`.
-/

namespace StepFlow

/-- A time of the years 1970 to 9999. -/
structure Moment where
  time : Timestamp
  nanosecond : Nat
  common : 1970 ≤ time.year ∧ time.year ≤ 9999
  fraction : nanosecond < 1000000000
deriving DecidableEq

/-- A way to keep moments as texts. -/
structure MomentCodec where
  write : Moment → String
  read? : String → Option Moment

namespace Moment

def epoch : Moment := ⟨.epoch, 0, by decide, by decide⟩

instance : Inhabited Moment := ⟨epoch⟩

/-- The digits behind the point of a number of nanoseconds: as many groups of three as are needed. -/
def fractionDigits (nanosecond : Nat) : List Char :=
  if nanosecond % 1000000 = 0 then Timestamp.padded 3 (nanosecond / 1000000)
  else if nanosecond % 1000 = 0 then Timestamp.padded 6 (nanosecond / 1000)
  else Timestamp.padded 9 nanosecond

/-- The text of a moment, with the offset from universal time. -/
def text (m : Moment) : String :=
  String.ofList (m.time.render.toList.dropLast ++
    (if m.nanosecond = 0 then [] else '.' :: fractionDigits m.nanosecond) ++ "+00:00".toList)

/-- The number of nanoseconds that the digits behind the point give. -/
def readFraction (digits : List Char) : Nat :=
  Reader.natOfDigits (digits ++ List.replicate (9 - digits.length) '0')

/-- The moment at a time and a fraction of a second. -/
def ofParts? (time : Timestamp) (nanosecond : Nat) : Option Moment :=
  if h : (1970 ≤ time.year ∧ time.year ≤ 9999) ∧ nanosecond < 1000000000 then
    some ⟨time, nanosecond, h.1, h.2⟩
  else none

/-- The moment that a text spells, with no offset from universal time. -/
def ofText? (text : String) : Option Moment :=
  let cs := text.toList
  let second := cs.takeWhile fun c => c ≠ '.' && c ≠ '+'
  let rest := cs.drop second.length
  let fraction := (rest.takeWhile (· ≠ '+')).tail
  if rest.dropWhile (· ≠ '+') = "+00:00".toList then
    (Timestamp.parse? (String.ofList (second ++ ['Z']))).bind fun time =>
      ofParts? time (readFraction fraction)
  else none

end Moment

/-- Moments as texts with the offset from universal time. -/
def MomentCodec.offset : MomentCodec := ⟨Moment.text, Moment.ofText?⟩

end StepFlow
