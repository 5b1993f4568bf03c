import StepFlow.Workflow.Basic

/-!
# Splitting states into branches

A branch follows the transitions from an entry point until a state has none or it leads to a state
that some branch already holds. The first entry point is the start; the targets of choices and
catchers become entry points in the order in which they are met. States that no entry point reaches
are left out.

* `Partition`: the branches made so far, the places of their states, the states that are left and the
  entry points that wait;
* `Partition.follow`: one branch;
* `partition`: all of them.
-/

namespace StepFlow

variable {W : Type}

/-- A partition in the making. -/
structure Partition (W : Type) where
  branches : List (List (State W))
  index : Keyed Position
  left : Keyed (State W)
  entries : List String

namespace Partition

/-- Whether a branch holds the state with a name. -/
def holds (p : Partition W) (name : String) : Bool :=
  (Keyed.find? name p.index).isSome

/-- Puts a state at the end of the branch in the making, notes its place, and lets the targets that no
branch holds wait. -/
def place (p : Partition W) (name : String) (s : State W) (offset : Nat) : Partition W :=
  let index := Keyed.insert name ⟨p.branches.length, offset⟩ p.index
  { p with
    index := index
    left := Keyed.erase name p.left
    entries := p.entries ++ s.branchTargets.filter fun t => (Keyed.find? t index).isNone }

/-- The states of one branch from `name` on, with the partition that has taken them in. The number of
states that are left bounds the branch. -/
def follow : (bound : Nat) → (offset : Nat) → String → Partition W → List (State W) × Partition W
  | 0, _, _, p => ([], p)
  | bound + 1, offset, name, p =>
    if p.holds name then ([], p)
    else match Keyed.find? name p.left with
      | none => ([], p)
      | some s =>
        let p := p.place name s offset
        match s.next? with
        | none => ([s], p)
        | some next =>
          let (rest, p) := follow bound (offset + 1) next p
          (s :: rest, p)

/-- The partition with the branch from `entry` on, unless a branch holds that state. -/
def enter (p : Partition W) (entry : String) : Partition W :=
  if p.holds entry then p
  else
    let (branch, p) := follow p.left.length 0 entry p
    { p with branches := p.branches ++ [branch] }

/-- Takes the entry points that wait, one after another. -/
def run : (bound : Nat) → Partition W → Partition W
  | 0, p => p
  | bound + 1, p =>
    match p.entries with
    | [] => p
    | entry :: rest => run bound ({ p with entries := rest }.enter entry)

end Partition

/-- The number of entry points that states can bring in. -/
def entryBound (states : Keyed (State W)) : Nat :=
  states.foldr (fun e n => e.2.branchTargets.length + n) 1

/-- The branches from `startAt` on and the places of their states. -/
def partition (startAt : String) (states : Keyed (State W)) : Partition W :=
  Partition.run (entryBound states) ⟨[], [], states, [startAt]⟩

end StepFlow
