import StepFlow.Text.Blank

/-!
# Scanners

A scanner reads a value off the front of a text. It either succeeds, and leaves the rest of the
text, or reports a fault, which says what was wrong and what was left of the text at that point.
Positions are therefore never counted while reading: the place of a fault is found afterwards, from
the text that was left.

* `Fault`, `Scanner`: the type of a failure and of a scanner;
* `peek`, `next?`, `eat`, `eatAll`, `takeWhile`, `skipBlanks`: the elementary scanners;
* `iterate`: repetition, which ends because each round makes the text shorter;
* `Scanner.complete`: a scanner run on a whole text.
-/

namespace StepFlow.Text

/-- A failure to read: its cause, and the text that was left where it happened. -/
structure Fault (ε : Type) where
  cause : ε
  rest : List Char

/-- A reader of values of type `α` off the front of a text, with faults caused by `ε`. -/
abbrev Scanner (ε α : Type) : Type := StateT (List Char) (Except (Fault ε)) α

namespace Scanner

variable {ε α : Type}

/-- Reports a fault at the current place. -/
def fault (cause : ε) : Scanner ε α := fun cs => .error ⟨cause, cs⟩

/-- Reports a fault at the place where `rest` was left. -/
def faultAt (rest : List Char) (cause : ε) : Scanner ε α := fun _ => .error ⟨cause, rest⟩

def rest : Scanner ε (List Char) := fun cs => .ok (cs, cs)

/-- The next character, which stays in the text. -/
def peek : Scanner ε (Option Char) := fun cs => .ok (cs.head?, cs)

/-- The next character, which is taken off the text. -/
def next? : Scanner ε (Option Char) := fun cs => .ok (cs.head?, cs.tail)

/-- Takes the next character away if it is `c`, and says whether it was. -/
def eat (c : Char) : Scanner ε Bool := fun cs =>
  match cs with
  | d :: r => if d = c then .ok (true, r) else .ok (false, d :: r)
  | [] => .ok (false, [])

/-- Takes `word` away if the text starts with it, and says whether it did. -/
def eatAll (word : List Char) : Scanner ε Bool := fun cs =>
  if word.isPrefixOf cs then .ok (true, cs.drop word.length) else .ok (false, cs)

/-- Takes away the longest run of characters that satisfy `p`. -/
def takeWhile (p : Char → Bool) : Scanner ε (List Char) := fun cs =>
  .ok (cs.takeWhile p, cs.dropWhile p)

/-- Takes away the blanks at the front. -/
def skipBlanks : Scanner ε Unit := fun cs => .ok ((), dropBlanks cs)

/-- Repeats `step`, from `a` on, until it answers that it is done. A round that takes nothing off the
text is the last one, so the repetition always ends. -/
def iterate {β : Type} (step : α → Scanner ε (α ⊕ β)) (finish : α → β) (a : α) : Scanner ε β :=
  fun cs =>
    match step a cs with
    | .error f => .error f
    | .ok (.inr b, r) => .ok (b, r)
    | .ok (.inl a', r) =>
      if r.length < cs.length then iterate step finish a' r else .ok (finish a', r)
termination_by cs => cs.length

/-- Runs a scanner on a whole text and reports `leftover` if it does not read all of it. -/
def complete (s : Scanner ε α) (leftover : ε) (cs : List Char) : Except (Fault ε) α :=
  match s cs with
  | .error f => .error f
  | .ok (a, []) => .ok a
  | .ok (_, r) => .error ⟨leftover, r⟩

end Scanner

/-- The place of a fault in `source`, as a number of UTF-8 bytes before it. -/
def Fault.offset {ε : Type} (f : Fault ε) (source : List Char) : Nat :=
  utf8Length source - utf8Length f.rest

end StepFlow.Text
