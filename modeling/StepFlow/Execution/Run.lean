import StepFlow.Execution.FanOut
import StepFlow.Execution.Recovery

/-!
# A run

A run consists of threads: one for the workflow itself, and one for every lane of a state. Each thread
goes through the states of its workflow. What happens to a run is a sequence of moves, of which each
one concerns a single thread or lets time pass.

* `Phase`, `Thread`: where a thread stands;
* `Process.proceed`: what a process does until it has to ask something of the run;
* `Run`: the threads, the time, the memory of the performer, and the journal;
* `Run.advance`: a thread goes on until it has to wait, at most to the next state;
* `Move`, `Run.apply`: what can happen to a run.
-/

namespace StepFlow

/-- What a run takes from outside. -/
structure Setting (σ : Type) where
  performer : Performer σ
  /-- The time of day, by the milliseconds since the start of the run. -/
  clock : Nat → Timestamp
  /-- The identifiers that are drawn, by the places at which that happens. -/
  draw : List Nat → String
  /-- The reports of threads that break off. -/
  report : (thread : Nat) → String

/-- The process of a state in a run. -/
abbrev StateProcess : Type := Process (Except Stop Step)

/-! ## Time -/

/-- The longest time, in milliseconds, for which the clock can be set: thirty years of 365 days. -/
def farAway : Nat := 946080000 * 1000

/-- The milliseconds for which the clock is set to wait for a duration: those of the duration, rounded
up, but never more than the clock can be set for. -/
def Duration.ticks (d : Duration) : Nat :=
  min ((d.nanoseconds + 999999) / 1000000) farAway

/-! ## Threads -/

/-- Where a thread stands. A ticket says since when a thread has been ready to go on. -/
inductive Phase where
  /-- About to ask for room to run. -/
  | queued (ticket : Nat) (input : Json)
  /-- Waits for room to run. -/
  | waiting (input : Json)
  /-- About to enter a state. -/
  | entering (ticket : Nat) (name : String) (input : Json)
  /-- In the middle of a state. -/
  | running (ticket : Nat) (name : String) (process : StateProcess)
  /-- Waits until a time, with what follows then and what follows if the thread is cancelled. -/
  | paused (deadline ticket : Nat) (name : String) (elapsed interrupted : StateProcess)
  /-- Waits for lanes, of which the first is thread number `first`; ready if it has a ticket. -/
  | forked (ticket : Option Nat) (fanOut : FanOut) (first : Nat) (name : String)
    (rest : Except Stop (List Json) → StateProcess)
  /-- The workflow has ended. -/
  | ended (ending : Ending)

namespace Phase

/-- Since when the thread has been ready to go on. -/
def ticket? : Phase → Option Nat
  | queued t _ | entering t _ _ | running t _ _ => some t
  | forked t _ _ _ _ => t
  | waiting _ | paused _ _ _ _ _ | ended _ => none

/-- Until when the thread waits, and since when. -/
def deadline? : Phase → Option (Nat × Nat)
  | paused deadline ticket _ _ _ => some (deadline, ticket)
  | _ => none

/-- The phase after cancellation: a pause is over, and a state that waits for lanes takes notice. -/
def cancel (ticket : Nat) : Phase → Phase
  | paused _ _ name _ interrupted => running ticket name interrupted
  | forked t f first name rest =>
    forked (t.or (some ticket)) (f.take .interrupt) first name rest
  | phase => phase

end Phase

/-- A thread of a run. -/
structure Thread where
  workflow : Workflow
  context : Context
  /-- The thread whose lane this is, and the number of the lane. -/
  parent : Option (Nat × Nat)
  /-- The threads that this one is below. -/
  ancestors : List Nat
  cancelled : Bool
  phase : Phase

namespace Thread

def cancel (ticket : Nat) (t : Thread) : Thread :=
  { t with cancelled := true, phase := t.phase.cancel ticket }

/-- The thread of a lane of thread number `owner`. -/
def ofJob (t : Thread) (owner lane ticket : Nat) (job : Job) : Thread where
  workflow := job.workflow
  context := job.context
  parent := some (owner, lane)
  ancestors := owner :: t.ancestors
  cancelled := t.cancelled
  phase := .queued ticket job.input

end Thread

/-! ## Processes in a run -/

/-- The notes that a process writes until it has to ask something of the run, the latest one first, and
what is left of the process. `looks` counts how often the run was looked at before. -/
def Process.proceed {α : Type} (present : Nat → Present) (cancelled : Bool) (looks : Nat)
    (notes : List Note) : Process α → Nat × List Note × Process α
  | .note n rest => rest.proceed present cancelled looks (n :: notes)
  | .look rest => (rest (present looks)).proceed present cancelled (looks + 1) notes
  | .sleep d rest =>
    if d.ticks = 0 then (rest .elapsed).proceed present cancelled looks notes
    else if cancelled then (rest .interrupted).proceed present cancelled looks notes
    else (looks, notes, .sleep d rest)
  | p => (looks, notes, p)

/-! ## Runs -/

/-- A note with the number of the thread that wrote it. -/
structure Entry where
  thread : Nat
  note : Note

/-- The state of a run. -/
structure Run (σ : Type) where
  /-- The milliseconds since the start. -/
  now : Nat
  tickets : Nat
  looks : Nat
  memory : σ
  threads : Array Thread
  /-- What was written down, the latest first. -/
  journal : List Entry

namespace Run

variable {σ : Type}

/-- The run of a workflow before its first move. -/
def start (setting : Setting σ) (memory : σ) (identifier : String) (w : Workflow) (input : Json) :
    Run σ where
  now := 0
  tickets := 1
  looks := 0
  memory := memory
  threads := #[{
    workflow := w
    context := .ofRun identifier input (setting.clock 0)
    parent := none
    ancestors := []
    cancelled := false
    phase := .entering 0 w.startAt input }]
  journal := []

/-- What an attempt sees of its surroundings. -/
def present (setting : Setting σ) (r : Run σ) (looks : Nat) : Present :=
  ⟨setting.clock r.now, setting.draw, [looks]⟩

def modify (r : Run σ) (i : Nat) (f : Thread → Thread) : Run σ :=
  { r with threads := r.threads.modify i f }

def put (r : Run σ) (i : Nat) (phase : Phase) : Run σ := r.modify i fun t => { t with phase }

/-- Puts a thread into a phase that needs a new ticket. -/
def putReady (r : Run σ) (i : Nat) (phase : Nat → Phase) : Run σ :=
  { r.put i (phase r.tickets) with tickets := r.tickets + 1 }

/-- Cancels the threads that a test selects. -/
def cancelWhere (r : Run σ) (p : Thread → Bool) : Run σ :=
  { r with
    threads := r.threads.map fun t => if p t then t.cancel r.tickets else t
    tickets := r.tickets + 1 }

/-- Takes a turn of the lanes of thread `i`. -/
def takeTurn (r : Run σ) (i : Nat) (turn : FanOut.Turn) : Run σ :=
  r.modify i fun t =>
    match t.phase with
    | .forked ticket f first name rest =>
      { t with phase := .forked ticket (f.take turn) first name rest }
    | _ => t

/-- Makes thread `i` ready if it waits for lanes. -/
def awaken (r : Run σ) (i : Nat) : Run σ :=
  match r.threads[i]?.map Thread.phase with
  | some (.forked none f first name rest) =>
    r.putReady i fun ticket => .forked (some ticket) f first name rest
  | _ => r

/-- The lowest of the threads `first`, `first + 1`, … that waits for room, among `count` of them. -/
def firstWaiting? (r : Run σ) (first : Nat) : Nat → Option (Nat × Json)
  | 0 => none
  | count + 1 =>
    match r.threads[first]?.map Thread.phase with
    | some (.waiting input) => some (first, input)
    | _ => r.firstWaiting? (first + 1) count

/-- Lets the next lane of thread `i` run that waits for room. -/
def enterNext (r : Run σ) (i : Nat) : Run σ :=
  match r.threads[i]?.map Thread.phase with
  | some (.forked _ f first _ _) =>
    match r.firstWaiting? first f.lanes.length with
    | some (j, input) =>
      if f.hasRoom then
        let r' := r.takeTurn i (.enter (j - first))
        match r'.threads[j]? with
        | some t => r'.putReady j fun ticket => .entering ticket t.workflow.startAt input
        | none => r'
      else r
    | none => r
  | _ => r

/-- Ends the workflow of a thread. The thread whose lane it was gets to know, and the room goes to the
next lane. -/
def finish (r : Run σ) (i : Nat) (ending : Ending) : Run σ :=
  let r' := r.put i (.ended ending)
  match r.threads[i]?.bind Thread.parent with
  | some (owner, lane) => ((r'.takeTurn owner (.finish lane ending)).enterNext owner).awaken owner
  | none => r'

/-- Starts the lanes of thread `i`, as threads of their own. -/
def spawn (r : Run σ) (i : Nat) (t : Thread) (ticket limit : Nat) (jobs : List Job) (name : String)
    (rest : Except Stop (List Json) → StateProcess) : Run σ :=
  let first := r.threads.size
  let lanes := jobs.mapIdx fun lane job => t.ofJob i lane (r.tickets + lane) job
  let fanOut := FanOut.start limit jobs.length
  let fanOut := if t.cancelled then fanOut.take .interrupt else fanOut
  let r' := r.put i (.forked (some ticket) fanOut first name rest)
  { r' with threads := r'.threads ++ lanes, tickets := r.tickets + jobs.length }

/-- Asks for a task on behalf of thread `i`. -/
def perform (setting : Setting σ) (r : Run σ) (i : Nat) (t : Thread) (ticket : Nat) (name : String)
    (request : TaskRequest) (limit : Option Duration) (rest : Reply → StateProcess) : Run σ :=
  let (performance, memory) := setting.performer request r.memory
  let r := { r with memory }
  let ticks := performance.duration.ticks
  let interrupted := rest (.answered (.error .cancelled))
  let answered := rest (.answered performance.result)
  if ticks = 0 then r.put i (.running ticket name answered)
  else if t.cancelled then r.put i (.running ticket name interrupted)
  else
    match limit with
    | some limit =>
      if limit.ticks < ticks then
        r.putReady i fun since =>
          .paused (r.now + limit.ticks) since name (rest .timedOut) interrupted
      else r.putReady i fun since => .paused (r.now + ticks) since name answered interrupted
    | none => r.putReady i fun since => .paused (r.now + ticks) since name answered interrupted

/-- Thread `i` goes on with the process of a state until it has to wait or is done with the state. -/
def goOn (setting : Setting σ) (r : Run σ) (i : Nat) (t : Thread) (ticket : Nat) (name : String)
    (process : StateProcess) : Run σ :=
  let (looks, notes, process) := process.proceed (r.present setting) t.cancelled r.looks []
  let r := { r with looks, journal := notes.map (Entry.mk i) ++ r.journal }
  match process with
  | .done (.error stop) => r.finish i (.error (.ofStop name (setting.report i) stop))
  | .done (.ok ⟨.done, output⟩) => r.finish i (.ok output)
  | .done (.ok ⟨.next next, output⟩) => r.put i (.entering ticket next output)
  | .sleep duration rest =>
    r.putReady i fun since =>
      .paused (r.now + duration.ticks) since name (rest .elapsed) (rest .interrupted)
  | .call request limit rest => r.perform setting i t ticket name request limit rest
  | .fork jobs limit rest =>
    if limit ≤ FanOut.maxLimit then r.spawn i t ticket limit jobs name rest
    else r.put i (.running ticket name (rest (.error .brokenOff)))
  | process => r.put i (.running ticket name process)

/-- Thread `i` sees how its lanes are getting on. -/
def lookAround (r : Run σ) (i ticket : Nat) (f : FanOut) (first : Nat) (name : String)
    (rest : Except Stop (List Json) → StateProcess) : Run σ :=
  let f' := f.lookAround
  let r' := if f'.verdict.isSome && !f.isCancelled then r.cancelWhere fun t => t.ancestors.contains i
    else r
  match f'.answer? with
  | some answer => r'.put i (.running ticket name (rest answer))
  | none => r'.put i (.forked none f' first name rest)

/-- Thread `i` enters a state, unless it is cancelled or there is no such state. -/
def enter (setting : Setting σ) (r : Run σ) (i : Nat) (t : Thread) (ticket : Nat) (name : String)
    (input : Json) : Run σ :=
  if t.cancelled then r.finish i (.error .cancelled)
  else
    match t.workflow.state? name with
    | none => r.finish i (.error (.noState name))
    | some s => r.goOn setting i t ticket name (s.process t.context input)

/-- Thread `i` asks for room to run. -/
def request (r : Run σ) (i : Nat) (t : Thread) (ticket : Nat) (input : Json) : Run σ :=
  match t.parent with
  | none => r.put i (.entering ticket t.workflow.startAt input)
  | some (owner, lane) =>
    match r.threads[owner]?.map Thread.phase with
    | some (.forked _ f _ _ _) =>
      if f.hasRoom then
        (r.takeTurn owner (.enter lane)).put i (.entering ticket t.workflow.startAt input)
      else r.put i (.waiting input)
    | _ => r

/-- A thread that is ready goes on until it has to wait, at most to the next state. -/
def advance (setting : Setting σ) (r : Run σ) (i : Nat) : Run σ :=
  match r.threads[i]? with
  | none => r
  | some t =>
    match t.phase with
    | .queued ticket input => r.request i t ticket input
    | .entering ticket name input => r.enter setting i t ticket name input
    | .running ticket name process => r.goOn setting i t ticket name process
    | .forked (some ticket) f first name rest => r.lookAround i ticket f first name rest
    | _ => r

/-- A thread whose pause is over is ready to go on. -/
def rouse (r : Run σ) (i : Nat) : Run σ :=
  match r.threads[i]?.map Thread.phase with
  | some (.paused deadline _ name elapsed _) =>
    if deadline ≤ r.now then r.putReady i fun ticket => .running ticket name elapsed else r
  | _ => r

/-- How the workflow of the run ended. -/
def ending? (r : Run σ) : Option Ending :=
  match r.threads[0]?.map Thread.phase with
  | some (.ended ending) => some ending
  | _ => none

/-- Whether the run was cancelled. -/
def isCancelled (r : Run σ) : Bool := (r.threads[0]?.map Thread.cancelled).getD false

end Run

/-- What can happen to a run. -/
inductive Move where
  /-- A thread that is ready goes on. -/
  | advance (thread : Nat)
  /-- A pause is over. -/
  | rouse (thread : Nat)
  /-- Time passes. -/
  | wait (time : Nat)
  /-- The run is cancelled from outside. -/
  | cancel
deriving DecidableEq, Repr

/-- The run after a move. -/
def Run.apply {σ : Type} (setting : Setting σ) (r : Run σ) : Move → Run σ
  | .advance i => r.advance setting i
  | .rouse i => r.rouse i
  | .wait time => { r with now := max r.now time }
  | .cancel => r.cancelWhere fun _ => true

end StepFlow
