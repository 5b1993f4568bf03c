import StepFlow.Decimal.Shortest

/-!
# Doubles from decimal digits

Two rules turn the digits of a decimal into a double.

* `Decimal.round`: the nearest double, a half going to the even one;
* `Decimal.scale?`: the rule of the data format. A significand below `2 ^ 64` is rounded to a double,
  which is then multiplied or divided by one power of ten, so that the last bit may differ from the
  nearest double. A result out of range is refused.
-/

namespace StepFlow

/-- The double nearest to `10 ^ k`. -/
def powerOfTen (k : Nat) : Float :=
  Float.ofScientific 1 false k

/-- Division of `x` by `10 ^ k`, at most 308 places at a time. -/
def divideByPower (x : Float) (k : Nat) : Float :=
  if k ≤ 308 then x / powerOfTen k
  else if x == 0 then x
  else divideByPower (x / powerOfTen 308) (k - 308)
termination_by k

/-- The double of a decimal by the rule of the data format; none if it is out of range. -/
def Decimal.scale? (d : Decimal) : Option Float :=
  let x := Float.ofNat d.digits
  if d.exponent < 0 then some (divideByPower x (-d.exponent).toNat)
  else if d.exponent ≤ 308 then
    let y := x * powerOfTen d.exponent.toNat
    if y.isInf then none else some y
  else if d.digits = 0 then some x
  else none

/-- The double nearest to a decimal, infinite if it is out of range. Numbers that are out of range by
their order alone are settled before any power of ten is computed. -/
def Decimal.round (d : Decimal) : Float :=
  if d.digits = 0 then 0
  else
    let order := d.exponent + decimalLength d.digits
    if order > 400 then 1 / 0
    else if order < -400 then 0
    else if d.exponent < 0 then Float.ofScientific d.digits true (-d.exponent).toNat
    else Float.ofScientific d.digits false d.exponent.toNat

end StepFlow
