import StepFlow.Decimal.Shortest

/-!
# Written forms of doubles

* `Decimal.positional`, `Decimal.scientific`: the two notations of a decimal;
* `renderExact`: the notation of data formats, which always shows that the number is not an integer
  and turns to an exponent for large and small numbers;
* `renderPlain`: the notation of messages, positional throughout and without a point where none is
  needed.
-/

namespace StepFlow

/-- The exponent of the first digit: `d.ddd · 10 ^ order`. -/
def Decimal.order (d : Decimal) : Int :=
  d.exponent + (decimalLength d.digits : Int) - 1

/-- A row of `n` zeros. -/
def zeros (n : Nat) : List Char :=
  List.replicate n '0'

/-- The digits with a point in their place. A whole number ends in `.0` if `point` asks for it. -/
def Decimal.positional (point : Bool) (d : Decimal) : List Char :=
  let ds := Nat.toDigits 10 d.digits
  if d.exponent ≥ 0 then
    ds ++ zeros d.exponent.toNat ++ (if point then ['.', '0'] else [])
  else
    let places := (-d.exponent).toNat
    if places < ds.length then
      ds.take (ds.length - places) ++ '.' :: ds.drop (ds.length - places)
    else
      '0' :: '.' :: zeros (places - ds.length) ++ ds

/-- The first digit, a point before the others if there are any, and the exponent with its sign. -/
def Decimal.scientific (d : Decimal) : List Char :=
  let sign := if d.order < 0 then '-' else '+'
  let exponent := 'e' :: sign :: Nat.toDigits 10 d.order.natAbs
  match Nat.toDigits 10 d.digits with
  | [] => exponent
  | [c] => c :: exponent
  | c :: cs => c :: '.' :: cs ++ exponent

/-- Whether the sign of a double, its bit 63, is set, as it is for `-0.0`. -/
def isSigned (x : Float) : Bool :=
  x.toBits.toNat ≥ 9223372036854775808

/-- A minus before the text of a negative number. -/
def signed (x : Float) (text : List Char) : String :=
  String.ofList (if isSigned x then '-' :: text else text)

/-- The shortest digits of a finite double, positional from `0.00001` to below `10 ^ 16` and with at
least one digit after the point, else with an exponent. A tie goes to the even digit. -/
def renderExact (x : Float) : String :=
  let b := Binary.ofFloat x
  signed x <|
    if b.significand = 0 then ['0', '.', '0']
    else
      let d := shortest .toEven b
      if -5 ≤ d.order ∧ d.order ≤ 15 then d.positional true else d.scientific

/-- The shortest digits of a finite double, always positional. A tie goes away from zero. -/
def renderPlain (x : Float) : String :=
  let b := Binary.ofFloat x
  signed x <| if b.significand = 0 then ['0'] else (shortest .up b).positional false

end StepFlow
