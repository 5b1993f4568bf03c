import StepFlow.Json.Basic
import StepFlow.Decimal.Layout

/-!
# Printing documents

* `quote`: a text in quotation marks, with the quotation mark, the backslash and the control
  characters escaped and all else as it is;
* `Json.render`: the form without any space;
* `Json.pretty`: the form with one item or member a line, indented by two spaces a level.
-/

namespace StepFlow

/-- The escape of a control character that has no letter of its own: four hexadecimal digits. -/
def hexEscape (c : Char) : List Char :=
  let ds := Nat.toDigits 16 c.toNat
  '\\' :: 'u' :: List.replicate (4 - ds.length) '0' ++ ds

/-- A character as it stands inside quotation marks. -/
def escape (c : Char) : List Char :=
  if c = '"' then ['\\', '"']
  else if c = '\\' then ['\\', '\\']
  else if c = '\n' then ['\\', 'n']
  else if c = '\r' then ['\\', 'r']
  else if c = '\t' then ['\\', 't']
  else if c = '\x08' then ['\\', 'b']
  else if c = '\x0c' then ['\\', 'f']
  else if c.toNat < 0x20 then hexEscape c
  else [c]

def quote (s : String) : String :=
  String.ofList ('"' :: s.toList.flatMap escape ++ ['"'])

/-- The digits of an integer, or the exact form of a double. -/
def Number.render : Number → String
  | .int i => toString i
  | .float x => renderExact x

/-- Encloses parts that are separated by commas. -/
def enclose (opening closing : String) (parts : List String) : String :=
  opening ++ ",".intercalate parts ++ closing

namespace Json

mutual

/-- The form of a value without any space. -/
def render : Json → String
  | .null => "null"
  | .bool b => if b then "true" else "false"
  | .num n => n.render
  | .str s => quote s
  | .arr items => enclose "[" "]" (renderItems items)
  | .obj members => enclose "\x7b" "\x7d" (renderMembers members)

/-- The forms of the items of an array. -/
def renderItems : List Json → List String
  | [] => []
  | j :: rest => render j :: renderItems rest

/-- The forms of the members of an object. -/
def renderMembers : List (String × Json) → List String
  | [] => []
  | (k, j) :: rest => (quote k ++ ":" ++ render j) :: renderMembers rest

end

/-- The start of a line at a level of indentation. -/
def lineStart (level : Nat) : String :=
  String.ofList ('\n' :: List.replicate (2 * level) ' ')

/-- Encloses parts that stand on lines of their own; nothing stands between the brackets if there are
no parts. -/
def encloseLines (opening closing : String) (level : Nat) : List String → String
  | [] => opening ++ closing
  | parts =>
    opening ++ lineStart (level + 1) ++ ("," ++ lineStart (level + 1)).intercalate parts ++
      lineStart level ++ closing

mutual

/-- The indented form of a value that stands at a level of indentation. -/
def prettyAt (level : Nat) : Json → String
  | .arr items => encloseLines "[" "]" level (prettyItems (level + 1) items)
  | .obj members => encloseLines "\x7b" "\x7d" level (prettyMembers (level + 1) members)
  | .null => "null"
  | .bool b => if b then "true" else "false"
  | .num n => n.render
  | .str s => quote s

/-- The indented forms of the items of an array. -/
def prettyItems (level : Nat) : List Json → List String
  | [] => []
  | j :: rest => prettyAt level j :: prettyItems level rest

/-- The indented forms of the members of an object. -/
def prettyMembers (level : Nat) : List (String × Json) → List String
  | [] => []
  | (k, j) :: rest => (quote k ++ ": " ++ prettyAt level j) :: prettyMembers level rest

end

/-- The indented form of a value. -/
def pretty (j : Json) : String := prettyAt 0 j

end Json

end StepFlow
