import StepFlow.Json.Keyed

/-!
# Documents

A document is a JSON value. Integers are exact; every other number is a double. The members of an
object are a table in key order.

* `Number`, `Json`: the values;
* `Json.beq`: equality, which tells `1` from `1.0` but not `0.0` from `-0.0`;
* `Json.member?`, `Json.items?`, `Json.children`: the parts of a value;
* `Json.WellFormed`: every object in a value is a table in key order.
-/

namespace StepFlow

/-- A number: an integer, or a finite double. -/
inductive Number where
  | int (i : Int)
  | float (x : Float)
deriving DecidableEq, Inhabited

/-- A JSON value. -/
inductive Json where
  | null
  | bool (b : Bool)
  | num (n : Number)
  | str (s : String)
  | arr (items : List Json)
  | obj (members : List (String × Json))
deriving Inhabited

namespace Number

/-- An integer and a double are never equal; doubles are compared as numbers. -/
def beq : Number → Number → Bool
  | .int a, .int b => a = b
  | .float x, .float y => x == y
  | _, _ => false

instance : BEq Number := ⟨beq⟩

/-- The double nearest to the number. -/
def toFloat : Number → Float
  | .int i => Float.ofInt i
  | .float x => x

/-- The least integer that a document holds: `-2 ^ 63`. -/
def minInt : Int := -9223372036854775808

/-- The greatest integer that a document holds: `2 ^ 64 - 1`. -/
def maxInt : Int := 18446744073709551615

/-- The greatest integer of signed arithmetic: `2 ^ 63 - 1`. -/
def maxSigned : Int := 9223372036854775807

/-- Whether an integer fits signed 64-bit arithmetic. -/
def isSigned64 (i : Int) : Bool := minInt ≤ i && i ≤ maxSigned

/-- Whether an integer is one that a document can hold. -/
def isExact (i : Int) : Bool := minInt ≤ i && i ≤ maxInt

end Number

namespace Json

def int (i : Int) : Json := .num (.int i)

def nat (n : Nat) : Json := .num (.int n)

/-- The object with the given members, of which the last one with a key counts. -/
def ofMembers (members : List (String × Json)) : Json := .obj (Keyed.ofList members)

mutual

/-- Equality of values: numbers by `Number.beq`, all else by structure. -/
def beq : Json → Json → Bool
  | .null, .null => true
  | .bool a, .bool b => a = b
  | .num a, .num b => a == b
  | .str a, .str b => a = b
  | .arr a, .arr b => beqItems a b
  | .obj a, .obj b => beqMembers a b
  | _, _ => false

/-- Equality of the items of two arrays. -/
def beqItems : List Json → List Json → Bool
  | [], [] => true
  | a :: as, b :: bs => beq a b && beqItems as bs
  | _, _ => false

/-- Equality of the members of two objects. -/
def beqMembers : List (String × Json) → List (String × Json) → Bool
  | [], [] => true
  | (k, a) :: as, (l, b) :: bs => k = l && beq a b && beqMembers as bs
  | _, _ => false

end

instance : BEq Json := ⟨beq⟩

/-- The member of an object at `key`. -/
def member? (key : String) : Json → Option Json
  | .obj members => Keyed.find? key members
  | _ => none

def items? : Json → Option (List Json)
  | .arr items => some items
  | _ => none

def members? : Json → Option (Keyed Json)
  | .obj members => some members
  | _ => none

def str? : Json → Option String
  | .str s => some s
  | _ => none

/-- The truth value of a boolean. -/
def bool? : Json → Option Bool
  | .bool b => some b
  | _ => none

/-- Whether the value is `null`. -/
def isNull : Json → Bool
  | .null => true
  | _ => false

/-- The values directly below an array or object, in order. -/
def children : Json → List Json
  | .arr items => items
  | .obj members => members.map Prod.snd
  | _ => []

/-- The kind of a value with its article, as messages name it. -/
def kindWithArticle : Json → String
  | .null => "null"
  | .bool _ => "a boolean"
  | .num _ => "a number"
  | .str _ => "a string"
  | .arr _ => "an array"
  | .obj _ => "an object"

mutual

/-- The number of arrays and objects that enclose one another at most. -/
def depth : Json → Nat
  | .arr items => depthItems items + 1
  | .obj members => depthMembers members + 1
  | _ => 0

/-- The greatest depth of the items of an array. -/
def depthItems : List Json → Nat
  | [] => 0
  | j :: rest => max (depth j) (depthItems rest)

/-- The greatest depth of the members of an object. -/
def depthMembers : List (String × Json) → Nat
  | [] => 0
  | (_, j) :: rest => max (depth j) (depthMembers rest)

end

/-- Every object within the value is a table in key order. -/
inductive WellFormed : Json → Prop where
  | null : WellFormed .null
  | bool (b : Bool) : WellFormed (.bool b)
  | num (n : Number) : WellFormed (.num n)
  | str (s : String) : WellFormed (.str s)
  | arr {items : List Json} : (∀ j ∈ items, WellFormed j) → WellFormed (.arr items)
  | obj {members : List (String × Json)} : Keyed.Sorted members →
      (∀ e ∈ members, WellFormed e.2) → WellFormed (.obj members)

end Json

end StepFlow
