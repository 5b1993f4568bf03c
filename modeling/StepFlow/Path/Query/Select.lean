import StepFlow.Path.Query

/-!
# Selecting

What a query selects in a document, in document order.

* `Slice`: the positions that a slice visits, and whether its cursor is a signed 64-bit integer all the
  way;
* `Segment.select`, `Filter.holds`, `Operand.value?`, `selectAll`: the meaning of the syntax;
* `Segment.overruns`, `Filter.overruns`, `Operand.overruns`, `overrunsAlong`: whether a cursor runs out
  of range on the way;
* `Query.get`: all values that a query selects.
-/

namespace StepFlow

/-! ## Positions -/

/-- The position that an index names in an array of `length` items, if it has one. -/
def position? (length : Nat) (index : Int) : Option Nat :=
  let i := if index < 0 then index + length else index
  if 0 ≤ i ∧ i < length then some i.toNat else none

namespace Slice

/-- `i` brought into the range from `low` to `high`. -/
def clamp (low high i : Int) : Int :=
  max low (min high i)

/-- A bound of a slice, counted from the end if negative. -/
def normalize (length i : Int) : Int :=
  if i < 0 then i + length else i

/-- The position of the first item that a slice may visit. -/
def first (length : Int) (start : Option Int) (step : Int) : Int :=
  if step > 0 then clamp 0 length ((start.map (normalize length)).getD 0)
  else clamp (-1) (length - 1) ((start.map (normalize length)).getD (length - 1))

/-- The bound before which a slice ends. -/
def last (length : Int) (stop : Option Int) (step : Int) : Int :=
  if step > 0 then clamp 0 length ((stop.map (normalize length)).getD length)
  else clamp (-1) (length - 1) ((stop.map (normalize length)).getD (-1))

/-- Whether the cursor still stands before the end. -/
def inside (cursor stop step : Int) : Bool :=
  if step > 0 then cursor < stop else step < 0 && cursor > stop

/-- The places of the cursor, from `cursor` on by `step` for at most `rounds` rounds. The place where
it leaves the slice is the last one. -/
def cursors (stop step : Int) : (rounds : Nat) → (cursor : Int) → List Int
  | 0, cursor => [cursor]
  | rounds + 1, cursor =>
    if inside cursor stop step then cursor :: cursors stop step rounds (cursor + step)
    else [cursor]

/-- The places of the cursor of a slice over an array of `length` items. -/
def places (length : Nat) (start stop : Option Int) (step : Int) : List Int :=
  cursors (last length stop step) step length (first length start step)

/-- The positions that a slice visits, in order. -/
def positions (length : Nat) (start stop : Option Int) (step : Int) : List Nat :=
  (places length start stop step).dropLast.map Int.toNat

/-- Whether the cursor of a slice is a signed 64-bit integer all the way, also where it leaves the
slice. -/
def fits (length : Nat) (start stop : Option Int) (step : Int) : Bool :=
  (places length start stop step).all Number.isSigned64

end Slice

/-! ## Comparing -/

/-- How two values compare, if they do. Numbers compare as doubles and texts by code points; values of
other kinds are only ever equal. -/
def compareValues : Json → Json → Option Ordering
  | .num a, .num b =>
    let x := a.toFloat
    let y := b.toFloat
    if x < y then some .lt else if x == y then some .eq else if y < x then some .gt else none
  | .str a, .str b => some (if a < b then .lt else if a = b then .eq else .gt)
  | a, b => if a == b then some .eq else none

/-- Whether a comparison accepts an order. -/
def Comparison.accepts : Comparison → Option Ordering → Bool
  | .eq, o => o = some .eq
  | .ne, o => o ≠ some .eq
  | .lt, o => o = some .lt
  | .le, o => o = some .lt || o = some .eq
  | .gt, o => o = some .gt
  | .ge, o => o = some .gt || o = some .eq

/-! ## Selecting -/

/-- The item of an array that an index names. -/
def Json.item? (index : Int) : Json → Option Json
  | .arr items => (position? items.length index).bind fun i => items[i]?
  | _ => none

/-- What one choice selects below a value. -/
def Selector.select? (node : Json) : Selector → Option Json
  | .name key => node.member? key
  | .index i => node.item? i

mutual

/-- The values directly below `node` that a segment selects; `root` is the whole document. -/
def Segment.select (root node : Json) : Segment → List Json
  | .child name => (node.member? name).toList
  | .index i => (node.item? i).toList
  | .wildcard => node.children
  | .union choices => choices.filterMap (Selector.select? node)
  | .slice start stop step =>
    match node with
    | .arr items => (Slice.positions items.length start stop step).filterMap fun i => items[i]?
    | _ => []
  | .filter test => node.children.filter fun child => test.holds root child

/-- Whether `node` passes a test. A comparison with an operand that selects nothing fails. -/
def Filter.holds (root node : Json) : Filter → Bool
  | .or left right => left.holds root node || right.holds root node
  | .and left right => left.holds root node && right.holds root node
  | .compare left comparison right =>
    match left.value? root node, right.value? root node with
    | some a, some b => comparison.accepts (compareValues a b)
    | _, _ => false
  | .present (.literal value) => value.bool?.getD true
  | .present (.path anchor segments) => ((Operand.path anchor segments).value? root node).isSome

/-- The value of an operand: a literal, or the first value that its query selects. -/
def Operand.value? (root node : Json) : Operand → Option Json
  | .literal value => some value
  | .path .root segments => (selectAll root segments [root]).head?
  | .path .current segments => (selectAll root segments [node]).head?

/-- The values that segments lead to from `nodes`. -/
def selectAll (root : Json) : List Segment → (nodes : List Json) → List Json
  | [], nodes => nodes
  | segment :: rest, nodes => selectAll root rest (nodes.flatMap fun node => segment.select root node)

end

/-! ## Running out of range -/

mutual

/-- Whether a cursor runs out of range where a segment selects below `node`. -/
def Segment.overruns (root node : Json) : Segment → Bool
  | .slice start stop step =>
    match node with
    | .arr items => !Slice.fits items.length start stop step
    | _ => false
  | .filter test => node.children.any fun child => test.overruns root child
  | _ => false

/-- Whether a cursor runs out of range in a test. The right side of a test counts only if it is looked
at. -/
def Filter.overruns (root node : Json) : Filter → Bool
  | .or left right =>
    left.overruns root node || !left.holds root node && right.overruns root node
  | .and left right => left.overruns root node || left.holds root node && right.overruns root node
  | .compare left _ right => left.overruns root node || right.overruns root node
  | .present operand => operand.overruns root node

/-- Whether a cursor runs out of range when an operand is looked up. -/
def Operand.overruns (root node : Json) : Operand → Bool
  | .literal _ => false
  | .path .root segments => overrunsAlong root segments [root]
  | .path .current segments => overrunsAlong root segments [node]

/-- Whether a cursor runs out of range on the way from `nodes` along segments. -/
def overrunsAlong (root : Json) : List Segment → (nodes : List Json) → Bool
  | [], _ => false
  | segment :: rest, nodes =>
    nodes.any (fun node => segment.overruns root node) ||
      overrunsAlong root rest (nodes.flatMap fun node => segment.select root node)

end

/-! ## Whole queries -/

/-- Whether a cursor runs out of range when the query is read. -/
def Query.overruns (q : Query) (document : Json) : Bool :=
  overrunsAlong document q.segments [document]

/-- All values that the query selects. -/
def Query.get (q : Query) (document : Json) : List Json :=
  selectAll document q.segments [document]

end StepFlow
