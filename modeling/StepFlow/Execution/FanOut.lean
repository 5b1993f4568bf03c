import StepFlow.Execution.Failure

/-!
# Lanes side by side

A state that runs workflows side by side gives each of them a lane. A lane waits until there is room,
runs, ends, and is then seen by the state. The first halt that the state sees is its verdict: the lanes
are cancelled, and the state waits until it has seen all of them.

* `FanOut`: the lanes, and what their state knows of them;
* `FanOut.Turn`, `FanOut.apply`: what can happen to the lanes, one thing at a time;
* `FanOut.answer?`: what comes of the lanes once all of them have been seen.
-/

namespace StepFlow

abbrev Ending : Type := Except Halt Json

/-- How far a lane has come. -/
inductive Lane where
  | waiting
  | running
  /-- The workflow has ended, as number `rank` among the lanes. -/
  | ended (rank : Nat) (ending : Ending)
  /-- The state has seen how the workflow ended. -/
  | seen (ending : Ending)

namespace Lane

/-- Whether the workflow of the lane is running. -/
def isRunning : Lane → Bool
  | running => true
  | _ => false

/-- Whether the workflow of the lane has ended. -/
def hasEnded : Lane → Bool
  | ended _ _ | seen _ => true
  | _ => false

/-- How the workflow ended, once the state has seen it. -/
def seen? : Lane → Option Ending
  | seen ending => some ending
  | _ => none

/-- The place among the lanes that have ended and have not been seen yet. -/
def rank? : Lane → Option Nat
  | ended rank _ => some rank
  | _ => none

end Lane

/-- The lanes of a state. -/
structure FanOut where
  /-- The number of lanes that run at one time, where zero means that there is no bound. -/
  limit : Nat
  lanes : List Lane
  /-- Whether the state itself was cancelled. -/
  interrupted : Bool
  /-- Why the state gives up, once it does. -/
  verdict : Option Stop

namespace FanOut

/-- The greatest bound that a state may set: `2 ^ 61 - 1`. -/
def maxLimit : Nat := 2305843009213693951

/-- Lanes of which none has started. -/
def start (limit count : Nat) : FanOut := ⟨limit, List.replicate count .waiting, false, none⟩

/-- The number of lanes that run. -/
def running (f : FanOut) : Nat := f.lanes.countP Lane.isRunning

/-- Whether one more lane may run. -/
def hasRoom (f : FanOut) : Bool := f.limit = 0 || f.running < f.limit

/-- Whether the workflows in the lanes are cancelled. -/
def isCancelled (f : FanOut) : Bool := f.interrupted || f.verdict.isSome

/-- One thing that happens to the lanes. -/
inductive Turn where
  /-- A lane starts to run. -/
  | enter (lane : Nat)
  /-- The workflow of a lane ends. -/
  | finish (lane : Nat) (ending : Ending)
  /-- The state sees how the workflow of a lane ended. -/
  | observe (lane : Nat)
  /-- The state is cancelled. -/
  | interrupt
  /-- The state notices that it was cancelled. -/
  | notice

/-- The verdict after the state has seen how a workflow ended: the first halt counts. -/
def verdictAfter (f : FanOut) (lane : Nat) (ending : Ending) : Option Stop :=
  match f.verdict, ending with
  | some stop, _ => some stop
  | none, .ok _ => none
  | none, .error halt => some (halt.raise lane)

/-- The lanes after a turn, if the turn can be taken. -/
def apply (f : FanOut) : Turn → Option FanOut
  | .enter i =>
    match f.lanes[i]? with
    | some .waiting => if f.hasRoom then some { f with lanes := f.lanes.set i .running } else none
    | _ => none
  | .finish i ending =>
    match f.lanes[i]? with
    | some .running =>
      some { f with lanes := f.lanes.set i (.ended (f.lanes.countP Lane.hasEnded) ending) }
    | _ => none
  | .observe i =>
    match f.lanes[i]? with
    | some (.ended _ ending) =>
      some { f with lanes := f.lanes.set i (.seen ending), verdict := f.verdictAfter i ending }
    | _ => none
  | .interrupt => some { f with interrupted := true }
  | .notice =>
    if f.interrupted then some { f with verdict := f.verdict.or (some .cancelled) } else none

/-- The lanes after a turn, or as they are if the turn cannot be taken. -/
def take (f : FanOut) (turn : Turn) : FanOut := (f.apply turn).getD f

/-- The outputs of lanes that have all been seen and have all come to an output. -/
def outputs? : List Lane → Option (List Json)
  | [] => some []
  | .seen (.ok output) :: rest => (outputs? rest).map (output :: ·)
  | _ => none

/-- What comes of the lanes: the verdict once every lane has been seen, or the outputs in the order of
the lanes. -/
def answer? (f : FanOut) : Option (Except Stop (List Json)) :=
  match f.verdict with
  | some stop => if f.lanes.all fun lane => lane.seen?.isSome then some (.error stop) else none
  | none => (outputs? f.lanes).map .ok

/-! ## In the order in which the workflows end -/

/-- The lane that ended first among those from position `i` on that have not been seen yet, with its
rank. -/
def firstEnded? (i : Nat) : List Lane → Option (Nat × Nat)
  | [] => none
  | lane :: rest =>
    match lane.rank?, firstEnded? (i + 1) rest with
    | some rank, some (rank', j) => if rank ≤ rank' then some (rank, i) else some (rank', j)
    | some rank, none => some (rank, i)
    | none, later => later

/-- Sees up to `count` lanes, in the order in which their workflows ended. -/
def observeFirst : Nat → FanOut → FanOut
  | 0, f => f
  | count + 1, f =>
    match firstEnded? 0 f.lanes with
    | none => f
    | some (_, i) => observeFirst count (f.take (.observe i))

/-- Sees all lanes whose workflows have ended, and then that the state was cancelled. -/
def lookAround (f : FanOut) : FanOut :=
  let f' := observeFirst f.lanes.length f
  if f'.lanes.all fun lane => lane.seen?.isSome then f' else f'.take .notice

end FanOut

end StepFlow
