import StepFlow.Json.Basic

/-!
# Queries

A query names places in a document: from an anchor it goes down, segment by segment, and every
segment leads from a value to some of the values directly below it.

* `Segment`, `Filter`, `Operand`: the syntax, in which filters hold queries again;
* `Query`: a query together with the text that it was read from.
-/

namespace StepFlow

/-- Where a query starts. -/
inductive Anchor where
  /-- The whole document. -/
  | root
  /-- The value that a filter is tested on. -/
  | current
deriving DecidableEq, Repr, Inhabited

/-- One choice of a union segment. -/
inductive Selector where
  | name (name : String)
  | index (index : Int)
deriving DecidableEq, Inhabited

/-- A comparison between two operands. -/
inductive Comparison where
  | eq | ne | lt | le | gt | ge
deriving DecidableEq, Repr, Inhabited

mutual

/-- One step from a value to values below it. -/
inductive Segment where
  /-- The member with a name. -/
  | child (name : String)
  /-- The item at a position, counted from the end if negative. -/
  | index (index : Int)
  /-- Every item or member. -/
  | wildcard
  /-- The choices one after another. -/
  | union (choices : List Selector)
  /-- The items from `start` to before `stop`, every `step`-th. -/
  | slice (start stop : Option Int) (step : Int)
  /-- Every item or member that passes a test. -/
  | filter (test : Filter)

/-- A test on a value. -/
inductive Filter where
  | or (left right : Filter)
  | and (left right : Filter)
  | compare (left : Operand) (comparison : Comparison) (right : Operand)
  | present (operand : Operand)

/-- A value that a test refers to. -/
inductive Operand where
  | path (anchor : Anchor) (segments : List Segment)
  | literal (value : Json)

end

instance : Inhabited Segment := ⟨.wildcard⟩
instance : Inhabited Operand := ⟨.literal .null⟩
instance : Inhabited Filter := ⟨.present default⟩

/-- A query and the text that spells it. -/
structure Query where
  source : String
  anchor : Anchor
  segments : List Segment
deriving Inhabited

/-- The query for the whole document. -/
def Query.root : Query := ⟨"$", .root, []⟩

/-- The sign of a comparison. -/
def Comparison.sign : Comparison → String
  | .eq => "=="
  | .ne => "!="
  | .lt => "<"
  | .le => "<="
  | .gt => ">"
  | .ge => ">="

end StepFlow
