import StepFlow.Path.Query.Grammar
import StepFlow.Path.Query.Write

/-!
# Failures of paths

* `PathError`: the ways in which a path can fail;
* `PathError.message`: their wording.
-/

namespace StepFlow

/-- An operator that reference paths do not have. -/
inductive Forbidden where
  | current | union | slice | filter
deriving DecidableEq, Repr, Inhabited

/-- The operator as messages name it. -/
def Forbidden.text : Forbidden → String
  | .current => "'@'"
  | .union => "union ','"
  | .slice => "slice ':'"
  | .filter => "filter '?'"

/-- A failure to read a path or to apply one. -/
inductive PathError where
  /-- The text is not a path; the offset counts UTF-8 bytes. -/
  | unreadable (path : String) (offset : Nat) (fault : SyntaxFault)
  /-- The path has an operator that reference paths do not have. -/
  | notReference (path : String) (operator : Forbidden)
  /-- A read found no value or several. -/
  | resultLength (path : String) (count : Nat)
  /-- A value could not be written. -/
  | unwritable (path : String) (fault : WriteFault)
  /-- The cursor of a slice has run out of range. This is not an error that anything recovers from:
  whatever was going on breaks off. -/
  | overrun (path : String)
deriving DecidableEq, Repr, Inhabited

/-- The wording of a failure. -/
def PathError.message : PathError → String
  | .unreadable path offset fault =>
    let cause := fault.message
    s!"invalid path '{path}' at offset {offset}: {cause}"
  | .notReference path operator =>
    let name := operator.text
    s!"'{path}' is not a reference path: {name} is not allowed"
  | .resultLength path count =>
    s!"invalid length of path result: '{path}' matched {count} values"
  | .unwritable path fault =>
    let cause := fault.message
    s!"cannot write to '{path}': {cause}"
  | .overrun path => s!"a slice of '{path}' runs out of range"

end StepFlow
