/-!
# The shortest decimal of a binary fraction

A finite positive double is `m · 2 ^ q`. Every real number nearer to it than to its neighbours
reads back as the same double; among the decimals in that interval the shortest are those with the
fewest digits, and of these the nearest is taken. Where two are equally near, the notations differ in
which they take.

* `Binary.ofFloat`: the integers `m` and `q` of a double;
* `Interval`: the numbers that round to a double, over one common denominator;
* `Tie`: which of two equally near decimals is taken;
* `shortest`: the decimal, found by testing the two neighbours of the value on the grids of
  1, 2, … 17 digits, in exact arithmetic.
-/

namespace StepFlow

/-- The number `digits · 10 ^ exponent`. -/
structure Decimal where
  digits : Nat
  exponent : Int
deriving DecidableEq, Repr

/-- The number `significand · 2 ^ exponent`. -/
structure Binary where
  significand : Nat
  exponent : Int
deriving DecidableEq, Repr

/-- The least significand of a double that is not subnormal: `2 ^ 52`. -/
def Binary.leastNormal : Nat := 4503599627370496

/-- The magnitude of a finite double. -/
def Binary.ofFloat (x : Float) : Binary :=
  let bits : Nat := x.toBits.toNat
  let fraction : Nat := bits % leastNormal
  let biased : Nat := bits / leastNormal % 2048
  if biased = 0 then ⟨fraction, -1074⟩ else ⟨leastNormal + fraction, (biased : Int) - 1075⟩

/-- The reals between `low / denominator` and `high / denominator` around
`value / denominator`, with the ends if `closed`. -/
structure Interval where
  low : Nat
  value : Nat
  high : Nat
  denominator : Nat
  closed : Bool

/-- The numbers that round to `b`. The gap below a power of two is half as wide as the one above, and
the ends belong to the interval if the significand is even. -/
def Interval.ofBinary (b : Binary) : Interval :=
  let below := if b.significand = Binary.leastNormal ∧ b.exponent ≠ -1074 then 1 else 2
  let scale := Nat.pow 2 (b.exponent - 2).toNat
  { low := (4 * b.significand - below) * scale
    value := 4 * b.significand * scale
    high := (4 * b.significand + 2) * scale
    denominator := Nat.pow 2 (2 - b.exponent).toNat
    closed := b.significand % 2 = 0 }

/-- The same interval with every number divided by `10 ^ k`. -/
def Interval.unitsOf (i : Interval) (k : Int) : Interval :=
  let up := Nat.pow 10 (-k).toNat
  { low := i.low * up
    value := i.value * up
    high := i.high * up
    denominator := i.denominator * Nat.pow 10 k.toNat
    closed := i.closed }

/-- Whether the integer `n` lies in the interval. -/
def Interval.holds (i : Interval) (n : Nat) : Bool :=
  let x := n * i.denominator
  if i.closed then i.low ≤ x && x ≤ i.high else i.low < x && x < i.high

/-- Which of two neighbouring integers is taken for a value exactly between them. -/
inductive Tie where
  | toEven
  | up
deriving DecidableEq, Repr

/-- Whether the half above `n` goes down to `n`. -/
def Tie.isDown (tie : Tie) (n : Nat) : Bool :=
  match tie with
  | .toEven => n % 2 = 0
  | .up => false

/-- Of the two integers around the value, those that lie in the interval are compared, and the nearer
one is the answer. -/
def Interval.nearest? (tie : Tie) (i : Interval) : Option Nat :=
  let n := i.value / i.denominator
  match i.holds n && n ≠ 0, i.holds (n + 1) with
  | false, false => none
  | true, false => some n
  | false, true => some (n + 1)
  | true, true =>
    let twice := 2 * (i.value - n * i.denominator)
    if twice < i.denominator || twice = i.denominator && tie.isDown n then some n
    else some (n + 1)

/-- The number of decimal digits of `n`. -/
def decimalLength (n : Nat) : Nat :=
  (Nat.toDigits 10 n).length

/-- The exponent of the power of ten that is just below `a / b`, for positive `a` and `b`. -/
def decimalOrder (a b : Nat) : Int :=
  let d : Int := (decimalLength a : Int) - decimalLength b
  if a * Nat.pow 10 (-d).toNat ≥ b * Nat.pow 10 d.toNat then d else d - 1

/-- Zeros at the end of the digits are moved into the exponent. The first argument bounds how many. -/
def Decimal.stripZeros : Nat → Decimal → Decimal
  | 0, d => d
  | n + 1, d =>
    if d.digits ≠ 0 && d.digits % 10 = 0 then stripZeros n ⟨d.digits / 10, d.exponent + 1⟩ else d

/-- The shortest decimal on the grids of `n + 1`, `n + 2`, … digits, for `count` grids. -/
def shortestFrom (tie : Tie) (i : Interval) (order : Int) : (count n : Nat) → Option Decimal
  | 0, _ => none
  | count + 1, n =>
    let k := order - n
    match (i.unitsOf k).nearest? tie with
    | some digits => some (Decimal.stripZeros 20 ⟨digits, k⟩)
    | none => shortestFrom tie i order count (n + 1)

/-- The shortest decimal that reads back as the positive number `b`. -/
def shortest (tie : Tie) (b : Binary) : Decimal :=
  let i := Interval.ofBinary b
  let order := decimalOrder i.value i.denominator
  (shortestFrom tie i order 17 0).getD
    ⟨(i.unitsOf (order - 16)).value / (i.unitsOf (order - 16)).denominator, order - 16⟩

end StepFlow
