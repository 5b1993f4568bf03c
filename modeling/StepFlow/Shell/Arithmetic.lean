import StepFlow.Shell.Basic
import StepFlow.Json.Keyed

/-!
# Arithmetic

* `Arithmetic.evaluate`: the value of an expression of whole numbers, with variables that it may set.
-/

namespace StepFlow.Shell.Arithmetic

abbrev Variables : Type := Keyed (List Char)

/-- What an expression comes to: none if it is malformed or divides by zero. -/
abbrev Eval (α : Type) : Type := StateT (List Char × Variables) Option α

/-- A number within 64 bits: the remainder modulo `2 ^ 64` that is nearest to zero. -/
def wrap (i : Int) : Int := i.bmod 18446744073709551616

/-- The number that a text spells, in base ten, or in base eight or sixteen with a mark in front. -/
def number? (cs : List Char) : Option Int :=
  let digits (base : Nat) (ds : List Char) : Option Int :=
    ds.foldlM (fun acc d =>
      let v := if d.isDigit then d.toNat - 48 else if d.isLower then d.toNat - 87 else d.toNat - 55
      if d.isAlphanum && v < base then some (acc * base + v) else none) 0
  match cs with
  | '0' :: 'x' :: ds | '0' :: 'X' :: ds => if ds.isEmpty then none else digits 16 ds
  | '0' :: ds => digits 8 ds
  | ds => if ds.isEmpty then none else digits 10 ds

/-- The number that a text spells, possibly with a sign and blanks around it. -/
def signed? (cs : List Char) : Option Int :=
  let trimmed := (cs.dropWhile Char.isWhitespace).reverse.dropWhile Char.isWhitespace |>.reverse
  match trimmed with
  | '-' :: ds => (number? ds).map (- ·)
  | '+' :: ds => number? ds
  | ds => number? ds

def render (i : Int) : List Char :=
  if i < 0 then '-' :: Nat.toDigits 10 i.natAbs else Nat.toDigits 10 i.natAbs

/-- The text that is left, without blanks at its front. -/
def rest : Eval (List Char) := do
  let (cs, vs) ← get
  let cs := cs.dropWhile Char.isWhitespace
  set (cs, vs)
  return cs

def goOn (cs : List Char) : Eval Unit := modify fun s => (cs, s.2)

/-- The operators with two operands, by increasing strength; longer ones come first. -/
def operators : List (List String) :=
  [["||"], ["&&"], ["|"], ["^"], ["&"], ["==", "!="], ["<=", ">=", "<", ">"], ["<<", ">>"],
    ["+", "-"], ["*", "/", "%"]]

/-- All operators, to tell an operator from the front of a longer one. -/
def longer : List String := ["||", "&&", "<<", ">>", "<=", ">=", "==", "!="]

/-- The operator at the front of a text, out of some. -/
def operator? (candidates : List String) (cs : List Char) : Option String :=
  match longer.find? fun o => o.toList.isPrefixOf cs with
  | some o => if candidates.contains o then some o else none
  | none => candidates.find? fun o => o.toList.isPrefixOf cs

def truth (b : Bool) : Int := if b then 1 else 0

/-- An operation on two numbers. -/
def apply (o : String) (a b : Int) : Option Int :=
  match o with
  | "||" => some (truth (a ≠ 0 || b ≠ 0))
  | "&&" => some (truth (a ≠ 0 && b ≠ 0))
  | "==" => some (truth (a = b))
  | "!=" => some (truth (a ≠ b))
  | "<" => some (truth (a < b))
  | ">" => some (truth (a > b))
  | "<=" => some (truth (a ≤ b))
  | ">=" => some (truth (a ≥ b))
  | "+" => some (wrap (a + b))
  | "-" => some (wrap (a - b))
  | "*" => some (wrap (a * b))
  | "/" => if b = 0 then none else some (wrap (a.tdiv b))
  | "%" => if b = 0 then none else some (a.tmod b)
  | "<<" => some (wrap (a * Int.pow 2 b.toNat))
  | ">>" => some (a.fdiv (Int.pow 2 b.toNat))
  | "&" => some (wrap ((BitVec.ofInt 64 a &&& BitVec.ofInt 64 b).toInt))
  | "|" => some (wrap ((BitVec.ofInt 64 a ||| BitVec.ofInt 64 b).toInt))
  | "^" => some (wrap ((BitVec.ofInt 64 a ^^^ BitVec.ofInt 64 b).toInt))
  | _ => none

mutual

/-- A value with no operator of two operands outside parentheses. -/
def operand : Nat → Eval Int
  | 0 => failure
  | n + 1 => do
    match ← rest with
    | '-' :: cs => goOn cs; return wrap (- (← operand n))
    | '+' :: cs => goOn cs; operand n
    | '!' :: cs => goOn cs; return truth ((← operand n) = 0)
    | '~' :: cs => goOn cs; return wrap (-1 - (← operand n))
    | '(' :: cs =>
      goOn cs
      let v ← expression n
      match ← rest with
      | ')' :: cs => goOn cs; return v
      | _ => failure
    | c :: cs =>
      let word := (c :: cs).takeWhile inName
      goOn ((c :: cs).drop word.length)
      if c.isDigit then (number? word : Option Int)
      else if startsName c then
        let name := String.ofList word
        match ← rest with
        | '=' :: '=' :: _ => value name
        | '=' :: cs => goOn cs; assign name (← expression n)
        | o :: '=' :: cs =>
          if "+-*/%".toList.contains o then
            goOn cs
            let old ← value name
            let new ← expression n
            assign name (← (apply (String.ofList [o]) old new : Option Int))
          else value name
        | _ => value name
      else failure
    | [] => failure
where
  value (name : String) : Eval Int := do
    let (_, vs) ← get
    match Keyed.find? name vs with
    | none => return 0
    | some cs => if cs.isEmpty then return 0 else (signed? cs : Option Int)
  assign (name : String) (v : Int) : Eval Int := do
    modify fun s => (s.1, Keyed.insert name (render v) s.2)
    return v

/-- A value at a level of operators, from the first operand on. -/
def level : Nat → List (List String) → Eval Int
  | 0, _ => failure
  | n + 1, [] => operand n
  | n + 1, candidates :: stronger => do
    let first ← level n stronger
    more n candidates stronger first

/-- More operands at a level of operators. -/
def more : Nat → List String → List (List String) → Int → Eval Int
  | 0, _, _, _ => failure
  | n + 1, candidates, stronger, first => do
    match operator? candidates (← rest) with
    | none => return first
    | some o =>
      goOn ((← rest).drop o.length)
      let second ← level n stronger
      more n candidates stronger (← (apply o first second : Option Int))

/-- A value, possibly chosen by a condition. -/
def expression : Nat → Eval Int
  | 0 => failure
  | n + 1 => do
    let first ← level n operators
    match ← rest with
    | '?' :: cs =>
      goOn cs
      let yes ← expression n
      match ← rest with
      | ':' :: cs =>
        goOn cs
        let no ← expression n
        return if first ≠ 0 then yes else no
      | _ => failure
    | _ => return first

end

/-- The value of an expression, and the variables after it. -/
def evaluate (vs : Variables) (source : List Char) : Option (Int × Variables) :=
  if (source.all Char.isWhitespace) then some (0, vs)
  else
    match (do let v ← expression (20 * source.length + 100); return (v, ← rest) : Eval _).run
        (source, vs) with
    | some ((v, []), (_, vs')) => some (v, vs')
    | _ => none

end StepFlow.Shell.Arithmetic
