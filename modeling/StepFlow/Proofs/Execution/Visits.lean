import StepFlow.Proofs.Execution.Closed
import StepFlow.Proofs.Execution.Protocol

/-!
# The way through a workflow

A run of a workflow, the whole one or that of a lane, enters a state and leaves it in turns. Every state
is a successor of the one before, and gets the output of that one as its input. The events tell so.

* `Stand`, `Visits`: where a run stands, and the events that lead there;
* `Visiting`: what a thread still does in a state, and what it announces on the way;
* **`Workflow.Closed.replay`**: the protocol that a thread follows;
* `exists_stand_of_holds`: a thread that follows it stands where its events lead.
-/

namespace StepFlow

/-! ## The way through a workflow -/

/-- Where the run of a workflow stands. -/
inductive Stand where
  /-- About to enter a state, with an input. -/
  | before (state : String) (input : Json)
  | inside (state : String)
  /-- Has left its last state, with an output. -/
  | after (output : Json)

/-- The events, the latest first, lead through the workflow from its first state, which gets the input
of the run. A state that has been left leads to one of its successors, which gets its output. -/
inductive Visits (w : Workflow) (input : Json) : List Event → Stand → Prop where
  | start : Visits w input [] (.before w.startAt input)
  | enter {events : List Event} {name : String} {x : Json} : Visits w input events (.before name x) →
      Visits w input (.entered name x :: events) (.inside name)
  | retry {events : List Event} {name : String} (f : Failure) (attempt : Nat) (delay : Duration) :
      Visits w input events (.inside name) →
      Visits w input (.retried name f attempt delay :: events) (.inside name)
  | divert {events : List Event} {name : String} (f : Failure) (target : String) :
      Visits w input events (.inside name) →
      Visits w input (.caught name f target :: events) (.inside name)
  | exit {events : List Event} {name next : String} {s : State Workflow} (output : Json) :
      Visits w input events (.inside name) → w.state? name = some s → next ∈ s.successors →
      Visits w input (.exited name output :: events) (.before next output)
  | leave {events : List Event} {name : String} (output : Json) :
      Visits w input events (.inside name) →
      Visits w input (.exited name output :: events) (.after output)

/-- A run ends where it stands: with the output of its last state if it has left that one, with a halt of
the state that it is inside of, or because it was cancelled between two states. -/
def Stand.Agrees : Stand → Ending → Prop
  | .after output, .ok result => result = output
  | .inside name, .error halt => ∃ report stop, halt = .ofStop name report stop
  | .before _ _, .error .cancelled => True
  | _, _ => False

section way

variable {w : Workflow} {input : Json} {events : List Event} {name : String} {s : State Workflow}

theorem Visits.exists_state {x : Json} (h : Visits w input events (.before name x)) (hw : w.Closed) :
    ∃ s, w.state? name = some s := by
  cases h with
  | start => exact hw.start
  | exit output _ hs hn => exact hw.leads hs (State.mem_successors.mp hn)

theorem Visits.eq_inside {w' : Workflow} {input' : Json} {stand : Stand}
    (h : Visits w input events (.inside name)) (h' : Visits w' input' events stand) :
    stand = .inside name := by
  cases h <;> cases h' <;> rfl

/-- Where a run stands after a step out of a state. -/
def Step.stand (step : Step) : Stand :=
  match step.transition with
  | .next name => .before name step.output
  | .done => .after step.output

theorem Visits.step {step : Step} (h : Visits w input events (.inside name))
    (hs : w.state? name = some s) (hl : s.Leads step) :
    Visits w input (.exited name step.output :: events) step.stand := by
  obtain ⟨transition, output⟩ := step
  cases transition with
  | next n => exact .exit output h hs (State.mem_successors.mpr (hl n rfl))
  | done => exact .leave output h

/-! ## Within a state -/

/-- The attempts of a state announce nothing but its retries and the catcher that leads on. -/
def State.visit (s : State Workflow) : Process.Contract (Except Stop Step) where
  wakes _ := True
  replies _ := True
  answers _ := True
  notes
    | .attempt _, _ => True
    | .event (.retried name _ _ _), _ => name = s.name
    | .event (.caught name _ _), _ => name = s.name
    | _, _ => False
  jobs _ := True
  ends result := ∀ step, result = .ok step → s.Leads step

theorem State.visit_fits (s : State Workflow) : s.visit.Fits s where
  attempt _ _ := trivial
  retried _ _ _ _ := rfl
  caught _ _ _ := rfl
  step step hl step' he := by
    cases he
    exact hl
  failure _ _ he := by cases he
  brokenOff _ he := by cases he
  failState _ _ _ he := by cases he
  interrupted _ _ he := by cases he
  replied _ _ he := by cases he
  answered _ _ _ he := by cases he
  jobs _ _ := trivial

/-- A process keeps its promises after any answer, if it does not matter to them what is answered. -/
theorem Process.Keeps.resume {α : Type} {c : Process.Contract α} {p p' : Process α} (h : p.Keeps c)
    (hr : p.Resumes p') (hw : ∀ wake, c.wakes wake) (hreply : ∀ reply, c.replies reply)
    (hanswer : ∀ answer, c.answers answer) : p'.Keeps c := by
  cases hr with
  | look present => exact h present
  | sleep wake => exact h wake (hw wake)
  | call reply => exact h reply (hreply reply)
  | fork answer => exact h.2 answer (hanswer answer)

theorem State.resumes_leave {p p' : StateProcess} (hr : (p.bind s.leave).Resumes p') :
    ∃ q, p.Resumes q ∧ p' = q.bind s.leave := by
  rcases hr.of_bind with hq | ⟨result, -, hq⟩
  · exact hq
  · cases result <;> cases hq

/-- What a thread still does in a state: all of it, the rest of the attempts and the exit, or nothing more
than to lead on. -/
inductive Visiting (w : Workflow) (input : Json) (s : State Workflow) (events : List Event) :
    StateProcess → Prop where
  | enters {context : Context} {x : Json} : Visits w input events (.before s.name x) →
      Visiting w input s events (s.process context x)
  | stays {p : StateProcess} : Visits w input events (.inside s.name) → p.Keeps s.visit →
      Visiting w input s events (p.bind s.leave)
  | leaves {step : Step} : Visits w input events step.stand →
      Visiting w input s events (.done (.ok step))

namespace Visiting

variable {p p' : StateProcess}

theorem resume (h : Visiting w input s events p) (hr : p.Resumes p') :
    Visiting w input s events p' := by
  cases h with
  | enters =>
    rw [State.process_eq] at hr
    cases hr
  | stays hv hk =>
    obtain ⟨q, hq, rfl⟩ := State.resumes_leave hr
    exact .stays hv (hk.resume hq (fun _ => trivial) (fun _ => trivial) fun _ => trivial)
  | leaves => cases hr

/-- What a thread writes down goes on with the way. -/
theorem write {n : Note} {rest : StateProcess} (hs : w.state? s.name = some s)
    (h : Visiting w input s events (.note n rest)) :
    Visiting w input s (n.event?.toList ++ events) rest := by
  generalize hp : Process.note n rest = p at h
  cases h with
  | enters hv =>
    rw [State.process_eq] at hp
    cases hp
    exact .stays (.enter hv) (State.keeps_recover s.visit_fits _ _)
  | @stays q hv hk =>
    cases q with
    | done result =>
      cases result with
      | ok step =>
        cases hp
        exact .leaves (hv.step hs (hk step rfl))
      | error stop => cases hp
    | note n' q =>
      cases hp
      obtain ⟨hn, hk⟩ := hk
      cases n with
      | attempt => exact .stays hv hk
      | event e =>
        cases e with
        | retried name f attempt delay =>
          cases hn
          exact .stays (.retry f attempt delay hv) hk
        | caught name f target =>
          cases hn
          exact .stays (.divert f target hv) hk
        | _ => exact hn.elim
    | _ => cases hp
  | leaves => cases hp

theorem ok {step : Step} (h : Visiting w input s events (.done (.ok step))) :
    Visits w input events step.stand := by
  generalize hp : (Process.done (.ok step) : StateProcess) = p at h
  cases h with
  | enters =>
    rw [State.process_eq] at hp
    cases hp
  | @stays q =>
    cases q with
    | done result => cases result <;> cases hp
    | _ => cases hp
  | leaves hv =>
    cases hp
    exact hv

theorem error {stop : Stop} (h : Visiting w input s events (.done (.error stop))) :
    Visits w input events (.inside s.name) := by
  generalize hp : (Process.done (.error stop) : StateProcess) = p at h
  cases h with
  | enters =>
    rw [State.process_eq] at hp
    cases hp
  | stays hv => exact hv
  | leaves => cases hp

theorem exists_stand (h : Visiting w input s events p) : ∃ stand, Visits w input events stand := by
  cases h with
  | enters hv | stays hv | leaves hv => exact ⟨_, hv⟩

end Visiting

end way

/-! ## The protocol -/

/-- The events among what a thread has written down. -/
def announced (notes : List Note) : List Event := notes.filterMap Note.event?

theorem announced_cons (n : Note) (notes : List Note) :
    announced (n :: notes) = n.event?.toList ++ announced notes := by
  cases n <;> rfl

variable {w : Workflow} {input : Json}

/-- **The protocol of a thread that goes its way through a closed workflow.** -/
def Workflow.Closed.replay (hw : w.Closed) (context : Context) (input : Json) : Protocol w context where
  waiting notes x := announced notes = [] ∧ x = input
  entering notes name x := Visits w input (announced notes) (.before name x)
  running notes name p := ∃ s, w.state? name = some s ∧ Visiting w input s (announced notes) p
  ended notes ending := ∃ stand, Visits w input (announced notes) stand ∧ stand.Agrees ending
  start := by
    rintro notes x ⟨hn, rfl⟩
    rw [hn]
    exact .start
  enter {notes name x s} hv hs := by
    rw [← hw.named hs] at hv
    exact ⟨s, hs, .enters hv⟩
  write := by
    rintro notes name n rest ⟨s, hs, hv⟩
    have hself : w.state? s.name = some s := by rw [hw.named hs, hs]
    rw [announced_cons]
    exact ⟨s, hs, hv.write hself⟩
  resume := by
    rintro notes name p p' ⟨s, hs, hv⟩ hr
    exact ⟨s, hs, hv.resume hr⟩
  next := by
    rintro notes name next output ⟨s, -, hv⟩
    exact hv.ok
  done := by
    rintro notes name output ⟨s, -, hv⟩
    exact ⟨_, hv.ok, rfl⟩
  stop := by
    rintro notes name report stop ⟨s, hs, hv⟩
    refine ⟨_, hv.error, ?_⟩
    rw [hw.named hs]
    exact ⟨report, stop, rfl⟩
  cancel hv := ⟨_, hv, trivial⟩
  missing hv hnone := by
    obtain ⟨s, hs⟩ := hv.exists_state hw
    rw [hnone] at hs
    cases hs

/-- A thread that follows the protocol stands where its events lead. -/
theorem exists_stand_of_holds (hw : w.Closed) {context : Context} {notes : List Note} {phase : Phase}
    (h : (hw.replay context input).Holds notes phase) :
    ∃ stand, Visits w input (announced notes) stand ∧
      ∀ ending, phase = .ended ending → stand.Agrees ending := by
  rcases h.cases with ⟨ending, rfl, stand, hv, hagrees⟩ | ⟨hopen, ⟨name, x, hv⟩ | ⟨name, p, s, -, hv⟩⟩
  · refine ⟨stand, hv, fun _ he => ?_⟩
    cases he
    exact hagrees
  · exact ⟨_, hv, fun ending he => absurd he (hopen ending)⟩
  · obtain ⟨stand, hv⟩ := hv.exists_stand
    exact ⟨stand, hv, fun ending he => absurd he (hopen ending)⟩

end StepFlow
