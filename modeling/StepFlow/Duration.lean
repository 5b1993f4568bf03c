import StepFlow.Decimal.Shortest

/-!
# Durations

A duration is a number of nanoseconds below a fixed bound.

* `Duration.ofSeconds`: the duration nearest to a double number of seconds, a half going to the even
  one, and the longest duration where there is none.
-/

namespace StepFlow

/-- A length of time in nanoseconds. -/
structure Duration where
  nanoseconds : Nat
deriving DecidableEq, Repr, Inhabited

namespace Duration

def perSecond : Nat := 1000000000

/-- No duration has as many seconds: `2 ^ 64`. -/
def secondsBound : Nat := 18446744073709551616

def longest : Duration := ⟨secondsBound * perSecond - 1⟩

def seconds (n : Nat) : Duration := ⟨n * perSecond⟩

/-- A number of whole milliseconds. -/
def milliseconds (n : Nat) : Duration := ⟨n * 1000000⟩

/-- The whole seconds of a duration. -/
def wholeSeconds (d : Duration) : Nat := d.nanoseconds / perSecond

/-- The whole milliseconds of a duration. -/
def wholeMilliseconds (d : Duration) : Nat := d.nanoseconds / 1000000

/-- The nanoseconds beyond the whole seconds. -/
def subsecond (d : Duration) : Nat := d.nanoseconds % perSecond

/-- The quotient of two natural numbers rounded to the nearest, a half to the even one. -/
def divideToEven (a b : Nat) : Nat :=
  let q := a / b
  let twice := 2 * (a % b)
  if twice < b || twice = b && q % 2 = 0 then q else q + 1

/-- The duration of a number of seconds; none if it is negative, too long or no number. -/
def ofSeconds? (x : Float) : Option Duration :=
  if x < 0 || !x.isFinite then none
  else
    let b := Binary.ofFloat x
    if b.significand * Nat.pow 2 b.exponent.toNat ≥ secondsBound * Nat.pow 2 (-b.exponent).toNat then
      none
    else some ⟨divideToEven (b.significand * perSecond * Nat.pow 2 b.exponent.toNat)
      (Nat.pow 2 (-b.exponent).toNat)⟩

/-- The duration of a number of seconds, or the longest one. -/
def ofSeconds (x : Float) : Duration := (ofSeconds? x).getD longest

end Duration

end StepFlow
