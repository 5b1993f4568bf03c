import StepFlow.Path.Query.Select

/-!
# Writing

Writing a value at every place that a query names. Missing members and items are created along the
way; a write that fails keeps what it has written before the failure.

* `Written`: the document after a write, and the fault that ended it, if any;
* `writeMember`, `writeItem`, `writeEach`: one segment, given what to do below it;
* `Query.set`: a whole query.
-/

namespace StepFlow

/-- Why a value cannot be written. -/
inductive WriteFault where
  | noMember (name kind : String)
  | noItem (index : Int) (kind : String)
  | outOfRange (index : Int)
  /-- The cursor of a slice has run out of the range of signed 64-bit integers. -/
  | overrun
deriving DecidableEq, Repr, Inhabited

/-- The wording of a fault. -/
def WriteFault.message : WriteFault → String
  | .noMember name kind => s!"cannot select member '{name}' of {kind}"
  | .noItem index kind => s!"cannot select index {index} of {kind}"
  | .outOfRange index => s!"index {index} is out of range"
  | .overrun => "a slice runs out of range"

/-- What a write leaves: the value, and the fault that ended the write, if one did. -/
structure Written (α : Type) where
  result : α
  fault : Option WriteFault

namespace Written

def done {α : Type} (a : α) : Written α := ⟨a, none⟩

/-- A write that has failed and leaves `a`. -/
def failed {α : Type} (a : α) (fault : WriteFault) : Written α := ⟨a, some fault⟩

/-- The same write, seen in what encloses its result. -/
def map {α β : Type} (f : α → β) (w : Written α) : Written β := ⟨f w.result, w.fault⟩

/-- Goes on with `next` unless the write has failed. -/
def andThen {α : Type} (w : Written α) (next : α → Written α) : Written α :=
  match w.fault with
  | none => next w.result
  | some _ => w

end Written

/-- A write may add at most this many items before the one that it writes. -/
def maxPadding : Nat := 1024

/-- The position that an index names for writing in an array of `length` items: behind the end it
has to be near enough to be padded up to. -/
def writePosition? (length : Nat) (index : Int) : Option Nat :=
  if index < 0 then position? length index
  else if index.toNat - length ≤ maxPadding then some index.toNat else none

/-- The items, filled up with `null` so that position `i` exists. -/
def padTo (i : Nat) (items : List Json) : List Json :=
  items ++ List.replicate (i + 1 - items.length) .null

/-- Changes the member at `key` by `write`; a missing member counts as `null`. -/
def writeEntry (key : String) (write : Json → Written Json) (members : Keyed Json) :
    Written (Keyed Json) :=
  let old := (Keyed.find? key members).getD .null
  (write old).map fun new => Keyed.insert key new members

/-- Changes the member of a value; `null` becomes an object first. -/
def writeMember (name : String) (write : Json → Written Json) : Json → Written Json
  | .null => (writeEntry name write []).map .obj
  | .obj members => (writeEntry name write members).map .obj
  | node => .failed node (.noMember name node.kindWithArticle)

/-- Changes the item at position `i`. -/
def writeAt (i : Nat) (write : Json → Written Json) (items : List Json) : Written (List Json) :=
  match items[i]? with
  | some old => (write old).map fun new => items.set i new
  | none => .done items

/-- Changes the item of an array that an index names, after padding. -/
def writeIndexed (index : Int) (write : Json → Written Json) (items : List Json) :
    Written (List Json) :=
  match writePosition? items.length index with
  | some i => writeAt i write (padTo i items)
  | none => .failed items (.outOfRange index)

/-- Changes the item of a value; `null` becomes an array first. -/
def writeItem (index : Int) (write : Json → Written Json) : Json → Written Json
  | .null => (writeIndexed index write []).map .arr
  | .arr items => (writeIndexed index write items).map .arr
  | node => .failed node (.noItem index node.kindWithArticle)

/-- Changes what one choice names. -/
def writeChoice (write : Json → Written Json) (node : Json) : Selector → Written Json
  | .name key => writeMember key write node
  | .index i => writeItem i write node

/-- Changes what the choices name, one after another. -/
def writeChoices (write : Json → Written Json) : List Selector → Json → Written Json
  | [], node => .done node
  | choice :: rest, node => (writeChoice write node choice).andThen (writeChoices write rest)

/-- Changes the items at the given positions, one after another. -/
def writePositions (write : Json → Written Json) : List Nat → List Json → Written (List Json)
  | [], items => .done items
  | i :: rest, items => (writeAt i write items).andThen (writePositions write rest)

/-- Changes every item, from the first on, until one fails. -/
def writeItems (write : Json → Written Json) : List Json → Written (List Json)
  | [] => .done []
  | item :: rest =>
    let w := write item
    match w.fault with
    | some fault => .failed (w.result :: rest) fault
    | none => (writeItems write rest).map (w.result :: ·)

/-- Changes every member, from the first on, until one fails. -/
def writeMembers (write : Json → Written Json) : Keyed Json → Written (Keyed Json)
  | [] => .done []
  | (key, value) :: rest =>
    let w := write value
    match w.fault with
    | some fault => .failed ((key, w.result) :: rest) fault
    | none => (writeMembers write rest).map ((key, w.result) :: ·)

/-- Changes every item or member of a value. -/
def writeEach (write : Json → Written Json) : Json → Written Json
  | .arr items => (writeItems write items).map .arr
  | .obj members => (writeMembers write members).map .obj
  | node => .done node

/-- Writes `value` at every place that the segments name below a value. Filters see `root`, the
document as it was before the write. -/
def write (root value : Json) : List Segment → Json → Written Json
  | [], _ => .done value
  | .child name :: rest, node => writeMember name (write root value rest) node
  | .index i :: rest, node => writeItem i (write root value rest) node
  | .wildcard :: rest, node => writeEach (write root value rest) node
  | .union choices :: rest, node => writeChoices (write root value rest) choices node
  | .slice start stop step :: rest, node =>
    match node with
    | .arr items =>
      if Slice.fits items.length start stop step then
        (writePositions (write root value rest)
          (Slice.positions items.length start stop step) items).map .arr
      else .failed node .overrun
    | node => .done node
  | .filter test :: rest, node =>
    writeEach (fun child =>
      if test.overruns root child then .failed child .overrun
      else if test.holds root child then write root value rest child else .done child) node

/-- Writes `value` at every place that the query names. -/
def Query.set (q : Query) (value document : Json) : Written Json :=
  write document value q.segments document

end StepFlow
