/-!
# The command language

Scripts of a small command language, of which `sh -c` takes one. Texts are bytes, each one shown as the
character with its number.

* `Piece`, `Word`: a word and what it is made of;
* `Command`: commands, from a single one to loops over lists of them.
-/

namespace StepFlow.Shell

/-- Where a redirection leads. -/
inductive Target where
  /-- To where another descriptor leads. -/
  | descriptor (number : Nat)
  /-- Nowhere. -/
  | closed
deriving DecidableEq, Repr, Inhabited

mutual

/-- How the value of a parameter is changed before it is put in. -/
inductive Modifier where
  | plain
  /-- The number of characters. -/
  | length
  /-- Another word if there is no value, or no value but an empty one. -/
  | orElse (orEmpty : Bool) (word : List Piece)
  /-- The same, and the parameter is set to it. -/
  | assign (orEmpty : Bool) (word : List Piece)
  /-- Another word if there is a value, or one that is not empty. -/
  | instead (notEmpty : Bool) (word : List Piece)
  /-- Without the shortest or longest part at the front that a pattern matches. -/
  | dropFront (longest : Bool) (pattern : List Piece)
  /-- Without the shortest or longest part at the back that a pattern matches. -/
  | dropBack (longest : Bool) (pattern : List Piece)

/-- A part of a word. Quoted parts are not split into fields, and have no special characters. -/
inductive Piece where
  | text (quoted : Bool) (content : List Char)
  | parameter (quoted : Bool) (name : String) (modifier : Modifier)
  | arithmetic (quoted : Bool) (expression : List Piece)
  | output (quoted : Bool) (script : List Command)

/-- A change of where a descriptor leads, or of what is read. -/
inductive Redirect where
  | duplicate (descriptor : Nat) (target : Target)
  | toFile (descriptor : Nat) (path : List Piece)
  | fromFile (path : List Piece)

/-- A command. -/
inductive Command where
  | simple (settings : List (String × List Piece)) (words : List (List Piece))
    (redirects : List Redirect)
  /-- Commands in a shell of their own, or in this one. -/
  | group (own : Bool) (body : List Command) (redirects : List Redirect)
  | pipeline (parts : List Command)
  | negation (body : Command)
  | both (first second : Command)
  | either (first second : Command)
  | choice (condition yes no : List Command) (redirects : List Redirect)
  /-- Repeats as long as a condition holds, or until it does. -/
  | loop (expected : Bool) (condition body : List Command) (redirects : List Redirect)
  | each (name : String) (words : Option (List (List Piece))) (body : List Command)
    (redirects : List Redirect)
  | select (subject : List Piece) (cases : List (List (List Piece) × List Command))
    (redirects : List Redirect)

end

instance : Inhabited Piece := ⟨.text false []⟩

instance : Inhabited Command := ⟨.simple [] [] []⟩

abbrev Word : Type := List Piece

/-- Whether a character can start a name. -/
def startsName (c : Char) : Bool := c.isAlpha || c = '_'

/-- Whether a character can stand in a name. -/
def inName (c : Char) : Bool := c.isAlphanum || c = '_'

def isName : List Char → Bool
  | [] => false
  | c :: cs => startsName c && cs.all inName

end StepFlow.Shell
