import StepFlow.Json.Basic
import StepFlow.Decimal.Layout
import StepFlow.Text.Hidden

/-!
# Reading records from documents

A record is an object with known members, or an array of their values in the order of declaration.
The members of an object are read in key order and the first one that does not fit is reported;
members that are missing are reported after that.

* `ReadError`: why a value does not fit, and its wording;
* `Json.asText`, `Json.asFlag`, `Json.asNat`, `Json.asDouble`, `Json.asList`, `Json.asTable`: the
  values of a kind;
* `Json.optional`: `null` in place of a value.
-/

namespace StepFlow

/-- Why a value does not fit. -/
inductive ReadError where
  | kind (found expected : String)
  | range (found : Int) (expected : String)
  | missing (field : String)
  | length (actual : Nat) (expected : String)
  | notSingle
  | variant (found : String) (expected : List String)
  | content (message : String)
deriving DecidableEq, Repr, Inhabited

/-- The names of alternatives as errors list them. -/
def wordChoice (names : List String) : String :=
  let quoted := names.map fun n => "`" ++ n ++ "`"
  match quoted with
  | [a] => a
  | [a, b] => a ++ " or " ++ b
  | _ => "one of " ++ ", ".intercalate quoted

/-- The wording of an error. -/
def ReadError.message : ReadError → String
  | .kind found expected => s!"invalid type: {found}, expected {expected}"
  | .range found expected => s!"invalid value: integer `{found}`, expected {expected}"
  | .missing field => s!"missing field `{field}`"
  | .length actual expected => s!"invalid length {actual}, expected {expected}"
  | .notSingle => "invalid value: map, expected map with a single key"
  | .variant found expected =>
    let choice := wordChoice expected
    s!"unknown variant `{found}`, expected {choice}"
  | .content message => message

namespace Json

/-- A value as errors name it. -/
def describe : Json → String
  | .null => "null"
  | .bool b => if b then "boolean `true`" else "boolean `false`"
  | .num (.int i) => s!"integer `{i}`"
  | .num (.float x) =>
    let shown := renderExact x
    s!"floating point `{shown}`"
  | .str s => "string " ++ Text.showText s
  | .arr _ => "sequence"
  | .obj _ => "map"

def mismatch {α : Type} (expected : String) (j : Json) : Except ReadError α :=
  .error (.kind j.describe expected)

def asText : Json → Except ReadError String
  | .str s => .ok s
  | j => mismatch "a string" j

def asFlag : Json → Except ReadError Bool
  | .bool b => .ok b
  | j => mismatch "a boolean" j

/-- An integer from zero to below `bound`; `expected` names that range. -/
def asNat (bound : Nat) (expected : String) : Json → Except ReadError Nat
  | .num (.int i) =>
    if 0 ≤ i ∧ i < bound then .ok i.toNat else .error (.range i expected)
  | j => mismatch expected j

/-- An integer of 64 bits without sign. -/
def asNat64 : Json → Except ReadError Nat := asNat 18446744073709551616 "u64"

/-- An integer of 32 bits without sign. -/
def asNat32 : Json → Except ReadError Nat := asNat 4294967296 "u32"

def asCount : Json → Except ReadError Nat := asNat 18446744073709551616 "usize"

def asDouble : Json → Except ReadError Float
  | .num n => .ok n.toFloat
  | j => mismatch "f64" j

def asList : Json → Except ReadError (List Json)
  | .arr items => .ok items
  | j => mismatch "a sequence" j

def asTable : Json → Except ReadError (Keyed Json)
  | .obj members => .ok members
  | j => mismatch "a map" j

def asTexts (j : Json) : Except ReadError (List String) := do
  (← j.asList).mapM asText

/-- A value that may be `null`. -/
def optional {α : Type} (read : Json → Except ReadError α) : Json → Except ReadError (Option α)
  | .null => .ok none
  | j => some <$> read j

/-- Items of an array that are left after the last field of a record are an error. -/
def allRead (items rest : List Json) : Except ReadError Unit :=
  if rest.isEmpty then .ok () else .error (.length items.length "fewer elements in array")

/-- The fields of a record that is given as an object, or as an array of all of them in the order of
declaration. -/
def asRecord (name : String) (fields : List String) : Json → Except ReadError (Keyed Json)
  | .obj members => .ok members
  | .arr items => do
    let count := fields.length
    if items.length < count then
      throw (.length items.length s!"struct {name} with {count} elements")
    allRead items (items.drop count)
    return fields.zip items
  | j => mismatch s!"struct {name}" j

/-- A field that a record has to have. -/
def required {α : Type} (record : Keyed Json) (field : String)
    (read : Json → Except ReadError α) : Except ReadError α :=
  match Keyed.find? field record with
  | some j => read j
  | none => .error (.missing field)

/-- A field that may be missing or `null`. -/
def allowed {α : Type} (record : Keyed Json) (field : String)
    (read : Json → Except ReadError α) : Except ReadError (Option α) :=
  match Keyed.find? field record with
  | some j => optional read j
  | none => .ok none

/-- An alternative: its name and its content, if it is given with one. -/
def asAlternative : Json → Except ReadError (String × Option Json)
  | .str name => .ok (name, none)
  | .obj [(name, content)] => .ok (name, some content)
  | .obj _ => .error .notSingle
  | j => mismatch "string or map" j

/-- The content of an alternative that has one. -/
def content {α : Type} (read : Json → Except ReadError α) : Option Json → Except ReadError α
  | some j => read j
  | none => .error (.kind "unit variant" "newtype variant")

/-- The lack of content of an alternative that has none. Where a reading is `lenient`, an object without
members is no content either. -/
def noContent (lenient : Bool) : Option Json → Except ReadError Unit
  | none => .ok ()
  | some .null => .ok ()
  | some (.obj []) => if lenient then .ok () else mismatch "unit" (.obj [])
  | some j => mismatch "unit" j

/-- One of some values without content, given by its name. -/
def asOneOf {α : Type} (lenient : Bool) (values : List α) (name : α → String) (j : Json) :
    Except ReadError α := do
  let (given, rest) ← asAlternative j
  match values.find? fun v => name v = given with
  | some v =>
    noContent lenient rest
    return v
  | none => throw (.variant given (values.map name))

end Json

end StepFlow
