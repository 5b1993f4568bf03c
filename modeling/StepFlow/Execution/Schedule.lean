import StepFlow.Execution.Run

/-!
# The schedule of a run

Time stands still while any thread can go on, and then jumps to the next thing that is due. Threads go
on in the order in which they became ready, and pauses that end at one time end in the order in which
they began. At the end of the time that a run has, its lanes are cut off at once.

* `Limits`: when a run is cut off or cancelled from outside;
* `Run.choose`: what happens next;
* `Run.drive`: the moves of a run up to its end.
-/

namespace StepFlow

/-- When a run is cut off or cancelled from outside, in milliseconds since its start. -/
structure Limits where
  timeout : Option Nat
  cancelAt : Option Nat
deriving DecidableEq, Repr, Inhabited

/-- What happens next to a run. -/
inductive Choice where
  | move (m : Move)
  /-- The run is cut off at a time. -/
  | cutOff (time : Nat)
  /-- Nothing can happen any more. -/
  | stuck
deriving DecidableEq, Repr

/-- How a run comes to its end. -/
inductive Close where
  | ended (ending : Ending)
  | cutOff

/-- The lesser of two pairs, the first if they are equal. -/
def earlier (a b : (Nat × Nat) × Nat) : (Nat × Nat) × Nat :=
  if b.1.1 < a.1.1 || b.1.1 = a.1.1 && b.1.2 < a.1.2 then b else a

/-- The number of the thread with the least key, the first of several, and its key. -/
def firstThread? (key : Thread → Option (Nat × Nat)) (threads : Array Thread) :
    Option ((Nat × Nat) × Nat) :=
  (threads.foldl (fun (best, i) t =>
    match key t, best with
    | none, _ => (best, i + 1)
    | some k, none => (some (k, i), i + 1)
    | some k, some b => (some (earlier b (k, i)), i + 1)) (none, 0)).1

namespace Run

variable {σ : Type}

/-- The thread that has been ready longest. -/
def nextReady? (r : Run σ) : Option Nat :=
  (firstThread? (fun t => t.phase.ticket?.map (·, 0)) r.threads).map Prod.snd

/-- The thread whose pause is over next, and when. -/
def nextDue? (r : Run σ) : Option (Nat × Nat) :=
  (firstThread? (fun t => t.phase.deadline?) r.threads).map fun (key, i) => (key.1, i)

/-- When the run is to be cancelled from outside, unless it has been. -/
def cancelDue? (limits : Limits) (r : Run σ) : Option Nat :=
  if r.isCancelled then none else limits.cancelAt

/-- What is due some time: the end of a pause, cancellation from outside, and the end of the time that
the run has. -/
def agenda (limits : Limits) (r : Run σ) : List (Nat × Choice) :=
  (r.nextDue?.map fun (time, _) => (time, .move (.wait time))).toList ++
    ((r.cancelDue? limits).map fun time =>
      (time, .move (if time ≤ r.now then .cancel else .wait time))).toList ++
    (limits.timeout.map fun time => (time, .cutOff time)).toList

/-- Jumps to what is due first; of several things at one time the first on the agenda counts. -/
def jump (limits : Limits) (r : Run σ) : Choice :=
  match r.agenda limits with
  | [] => .stuck
  | entry :: rest =>
    (rest.foldl (fun best next => if next.1 < best.1 then next else best) entry).2

/-- Whether the time that the run has is over. -/
def isOverdue (limits : Limits) (r : Run σ) : Bool := limits.timeout.any fun time => time ≤ r.now

/-- What happens while the time goes on: pauses that are over come first, then the threads that are
ready, then the next thing that is due. -/
def chooseInTime (limits : Limits) (r : Run σ) : Choice :=
  match r.nextDue?, r.nextReady? with
  | some (time, i), ready =>
    if time ≤ r.now then .move (.rouse i)
    else
      match ready with
      | some j => .move (.advance j)
      | none => r.jump limits
  | none, some j => .move (.advance j)
  | none, none => r.jump limits

/-- What happens at the very end of the time that the run has: only the thread of the workflow itself
may still go on, as long as it need not wait. -/
def chooseAtLimit (r : Run σ) : Choice :=
  match r.threads[0]?.map Thread.phase with
  | none => .cutOff r.now
  | some phase =>
    if phase.deadline?.any fun key => key.1 ≤ r.now then .move (.rouse 0)
    else if phase.ticket?.isSome then .move (.advance 0)
    else .cutOff r.now

def choose (limits : Limits) (r : Run σ) : Choice :=
  if r.isOverdue limits then r.chooseAtLimit else r.chooseInTime limits

/-- The moves of a run up to its end, and at most `fuel` of them. -/
def drive (setting : Setting σ) (limits : Limits) : Nat → Run σ → Option (Run σ × Close)
  | 0, _ => none
  | fuel + 1, r =>
    match r.ending? with
    | some ending => some (r, .ended ending)
    | none =>
      match r.choose limits with
      | .move m => drive setting limits fuel (r.apply setting m)
      | .cutOff time => some ({ r with now := max r.now time }, .cutOff)
      | .stuck => none

end Run

end StepFlow
