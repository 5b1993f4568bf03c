/-!
# Patterns

* `Glob.fits`: patterns of the command language, in which a star stands for any run of characters;
* `Regex.finds`: regular expressions, a list of characters and repetitions.
-/

namespace StepFlow.Shell

/-- A class of characters: those in some ranges, or all others. -/
structure CharClass where
  negated : Bool
  ranges : List (Char × Char)
deriving Inhabited

/-- Whether a character is in a class. -/
def CharClass.has (k : CharClass) (c : Char) : Bool :=
  k.ranges.any (fun r => r.1 ≤ c && c ≤ r.2) != k.negated

/-- The ranges up to a closing bracket, and what follows it. A bracket that comes first is one of the
characters. -/
def classRanges (first : Bool) : List Char → Option (List (Char × Char) × List Char)
  | [] => none
  | ']' :: rest =>
    if first then (classRanges false rest).map fun r => ((']', ']') :: r.1, r.2)
    else some ([], rest)
  | a :: '-' :: b :: rest =>
    if b = ']' then (classRanges false ('-' :: b :: rest)).map fun r => ((a, a) :: r.1, r.2)
    else (classRanges false rest).map fun r => ((a, b) :: r.1, r.2)
  | a :: rest => (classRanges false rest).map fun r => ((a, a) :: r.1, r.2)
termination_by cs => cs.length

/-- The class that starts after an opening bracket, and what follows it. -/
def readClass : List Char → Option (CharClass × List Char)
  | '!' :: rest | '^' :: rest => (classRanges true rest).map fun r => (⟨true, r.1⟩, r.2)
  | cs => (classRanges true cs).map fun r => (⟨false, r.1⟩, r.2)

/-! ## Patterns of the command language -/

/-- A part of a pattern. -/
inductive Glob where
  | one (c : Char)
  | any
  | star
  | oneOf (k : CharClass)
deriving Inhabited

/-- Whether a pattern matches a whole text. -/
def Glob.fits : List Glob → List Char → Bool
  | [], cs => cs.isEmpty
  | .star :: gs, [] => fits gs []
  | .star :: gs, c :: cs => fits gs (c :: cs) || fits (.star :: gs) cs
  | .one a :: gs, c :: cs => a = c && fits gs cs
  | .any :: gs, _ :: cs => fits gs cs
  | .oneOf k :: gs, c :: cs => k.has c && fits gs cs
  | _ :: _, [] => false
termination_by gs cs => gs.length + cs.length

/-! ## Regular expressions -/

/-- What matches a single character. -/
inductive Atom where
  | one (c : Char)
  | any
  | oneOf (k : CharClass)
deriving Inhabited

/-- Whether an atom matches a character. -/
def Atom.has : Atom → Char → Bool
  | one a, c => a = c
  | any, _ => true
  | oneOf k, c => k.has c

/-- How often an atom may match. -/
inductive Repeat where
  | once
  | optional
  | many
  | some
deriving DecidableEq, Inhabited

/-- A regular expression: atoms one after the other, possibly held to the ends of the text. -/
structure Regex where
  atStart : Bool
  parts : List (Atom × Repeat)
  atEnd : Bool
deriving Inhabited

namespace Regex

/-- Whether the parts match the front of a text, up to its end if they have to. -/
def matchParts (atEnd : Bool) : List (Atom × Repeat) → List Char → Bool
  | [], cs => !atEnd || cs.isEmpty
  | (a, .once) :: ps, c :: cs => a.has c && matchParts atEnd ps cs
  | (_, .once) :: _, [] => false
  | (a, .optional) :: ps, c :: cs =>
    (a.has c && matchParts atEnd ps cs) || matchParts atEnd ps (c :: cs)
  | (_, .optional) :: ps, [] => matchParts atEnd ps []
  | (a, .many) :: ps, c :: cs =>
    (a.has c && matchParts atEnd ((a, .many) :: ps) cs) || matchParts atEnd ps (c :: cs)
  | (_, .many) :: ps, [] => matchParts atEnd ps []
  | (a, .some) :: ps, c :: cs =>
    a.has c && (matchParts atEnd ((a, .some) :: ps) cs || matchParts atEnd ps cs)
  | (_, .some) :: _, [] => false
termination_by ps cs => ps.length + cs.length

/-- Whether the parts match from some place of a text on. -/
def matchAnywhere (r : Regex) : List Char → Bool
  | [] => matchParts r.atEnd r.parts []
  | c :: cs => matchParts r.atEnd r.parts (c :: cs) || matchAnywhere r cs

/-- Whether the expression matches a part of a text. -/
def finds (r : Regex) (text : List Char) : Bool :=
  if r.atStart then matchParts r.atEnd r.parts text else matchAnywhere r text

/-- The repetition that a sign after an atom stands for; more signs count in the extended form. -/
def repetition (extended : Bool) : List Char → Repeat × List Char
  | '*' :: rest => (.many, rest)
  | '+' :: rest => if extended then (.some, rest) else (.once, '+' :: rest)
  | '?' :: rest => if extended then (.optional, rest) else (.once, '?' :: rest)
  | rest => (.once, rest)

/-- The parts of an expression, and whether it is held to the end of the text. -/
def readParts (extended : Bool) : Nat → List Char → List (Atom × Repeat) × Bool
  | 0, _ => ([], false)
  | _, [] => ([], false)
  | _, ['$'] => ([], true)
  | n + 1, c :: cs =>
    let (atom, rest) : Atom × List Char :=
      match c, cs with
      | '\\', d :: rest => (.one d, rest)
      | '.', rest => (.any, rest)
      | '[', rest =>
        match readClass rest with
        | some (k, rest) => (.oneOf k, rest)
        | none => (.one '[', rest)
      | c, rest => (.one c, rest)
    let (times, rest) := repetition extended rest
    let (parts, atEnd) := readParts extended n rest
    ((atom, times) :: parts, atEnd)

/-- The expression that a text spells. -/
def read (extended : Bool) (source : List Char) : Regex :=
  let (atStart, rest) := match source with
    | '^' :: rest => (true, rest)
    | rest => (false, rest)
  let (parts, atEnd) := readParts extended (rest.length + 1) rest
  ⟨atStart, parts, atEnd⟩

/-- The expression for a text as it is. -/
def literal (text : List Char) : Regex := ⟨false, text.map fun c => (.one c, .once), false⟩

end Regex

end StepFlow.Shell
