import StepFlow.Proofs.Execution.Replay

/-!
# Where a caught error leads

A state that catches an error announces where it leads, and only then writes the error into its input. If
that can be done, then the state is left with what comes of it, and the state that was announced is entered
next. If it cannot be done, the announcement is the last event of its thread.

* `Spot`, `Spot.Goes`: where a thread stands, and how an event changes that;
* `Route`, `Route.sequel`: the events of a thread, and those that follow the announcement of a catch;
* `Routing`: what a thread still does in a state, by where it stands;
* **`Workflow.Closed.routing`**: the protocol of a thread that follows a route.
-/

namespace StepFlow

/-! ## Routes -/

/-- Where a thread stands, by its events. -/
inductive Spot where
  /-- About to enter a state, with an input. -/
  | before (state : String) (input : Json)
  | inside (state : String) (input : Json)
  /-- Inside a state that has caught an error, with the output for the state that comes next. -/
  | diverted (state target : String) (output : Json)
  /-- Inside a state that has caught an error and could not write it into its input. -/
  | foiled (state : String) (f : Failure)
  | after (output : Json)

/-- An event leads a thread of a workflow from one spot to the next. -/
inductive Spot.Goes (w : Workflow) (context : Context) : Spot → Event → Spot → Prop where
  | enter {name : String} {x : Json} : Goes w context (.before name x) (.entered name x) (.inside name x)
  | retry {name : String} {x : Json} (f : Failure) (attempt : Nat) (delay : Duration) :
      Goes w context (.inside name x) (.retried name f attempt delay) (.inside name x)
  | divert {name : String} {x output : Json} {s : State Workflow} {c : Catcher} {f : Failure} :
      w.state? name = some s → s.catchers.find? (fun c => c.applies f.name) = some c →
      merge c.resultPath context x f.document = .ok output →
      Goes w context (.inside name x) (.caught name f c.next) (.diverted name c.next output)
  | foil {name : String} {x : Json} {s : State Workflow} {c : Catcher} {f e : Failure} :
      w.state? name = some s → s.catchers.find? (fun c => c.applies f.name) = some c →
      merge c.resultPath context x f.document = .error e →
      Goes w context (.inside name x) (.caught name f c.next) (.foiled name e)
  | turn {name target : String} {output : Json} :
      Goes w context (.diverted name target output) (.exited name output) (.before target output)
  | exit {name next : String} {x output : Json} :
      Goes w context (.inside name x) (.exited name output) (.before next output)
  | leave {name : String} {x output : Json} :
      Goes w context (.inside name x) (.exited name output) (.after output)

/-- The events, the latest first, lead from one spot to another. -/
inductive Route (w : Workflow) (context : Context) (a : Spot) : List Event → Spot → Prop where
  | nil : Route w context a [] a
  | cons {events : List Event} {b b' : Spot} {e : Event} : Route w context a events b →
      b.Goes w context e b' → Route w context a (e :: events) b'

/-- The input of the state that was entered last, by the events, the latest first. -/
def lastInput? : List Event → Option Json
  | [] => none
  | .entered _ x :: _ => some x
  | _ :: earlier => lastInput? earlier

/-- What follows the announcement that an error leads from one state to another with an output: nothing
yet, the exit, or the exit and the entry. -/
inductive Sequel (name target : String) (output : Json) : List Event → Spot → Prop where
  | announced : Sequel name target output [] (.diverted name target output)
  | exited : Sequel name target output [.exited name output] (.before target output)
  | entered {spot : Spot} (rest : List Event) :
      Sequel name target output (rest ++ [.entered target output, .exited name output]) spot

section route

variable {w : Workflow} {context : Context} {a b b' : Spot} {e : Event} {events later earlier : List Event}
  {name target : String} {x output : Json} {f : Failure}

theorem Route.split (h : Route w context a (later ++ e :: earlier) b) : ∃ d d',
    Route w context a earlier d ∧ d.Goes w context e d' ∧ Route w context d' later b := by
  induction later generalizing b with
  | nil =>
    cases h with
    | cons h hg => exact ⟨_, b, h, hg, .nil⟩
  | cons e' later ih =>
    cases h with
    | cons h hg =>
      obtain ⟨d, d', hbefore, hd, hafter⟩ := ih h
      exact ⟨d, d', hbefore, hd, hafter.cons hg⟩

theorem Route.lastInput?_inside {start : String} {y : Json}
    (h : Route w context (.before start y) events (.inside name x)) : lastInput? events = some x := by
  generalize hb : Spot.inside name x = b at h
  induction h with
  | nil => cases hb
  | cons h hg ih =>
    cases hg with
    | enter =>
      cases hb
      rfl
    | retry f attempt delay => exact ih hb
    | _ => cases hb

theorem Route.of_foiled (h : Route w context (.foiled name f) events b) :
    events = [] ∧ b = .foiled name f := by
  induction h with
  | nil => exact ⟨rfl, rfl⟩
  | cons _ hg ih =>
    obtain ⟨-, rfl⟩ := ih
    cases hg

theorem Route.of_diverted (h : Route w context (.diverted name target output) events b) :
    Sequel name target output events b := by
  induction h with
  | nil => exact .announced
  | cons _ hg ih =>
    cases ih with
    | announced =>
      cases hg
      exact .exited
    | exited =>
      cases hg
      exact .entered []
    | entered rest => exact .entered (_ :: rest)

/-- **What follows the announcement of a catch.** -/
theorem Route.sequel {start : String} {y : Json}
    (h : Route w context (.before start y) (later ++ .caught name f target :: earlier) b) :
    ∃ s c x, w.state? name = some s ∧ s.catchers.find? (fun c => c.applies f.name) = some c ∧
      c.next = target ∧ lastInput? earlier = some x ∧
      match merge c.resultPath context x f.document with
      | .ok output => Sequel name target output later b
      | .error e => later = [] ∧ b = .foiled name e := by
  obtain ⟨d, d', hbefore, hg, hafter⟩ := h.split
  cases hg with
  | divert hs hc hm =>
    refine ⟨_, _, _, hs, hc, rfl, hbefore.lastInput?_inside, ?_⟩
    rw [hm]
    exact hafter.of_diverted
  | foil hs hc hm =>
    refine ⟨_, _, _, hs, hc, rfl, hbefore.lastInput?_inside, ?_⟩
    rw [hm]
    exact hafter.of_foiled

end route

/-! ## Within a state -/

/-- What a state announces during its attempts: its retries, and the first catcher that applies to an error,
which settles how the attempts end. -/
def State.diverting (s : State Workflow) (context : Context) (x : Json) :
    Process.Contract (Except Stop Step) where
  wakes _ := True
  replies _ := True
  answers _ := True
  notes
    | .attempt _, _ => True
    | .event (.retried name _ _ _), _ => name = s.name
    | .event (.caught name f target), rest => name = s.name ∧ ∃ c,
        s.catchers.find? (fun c => c.applies f.name) = some c ∧ c.next = target ∧
          rest = .done (caught c context x f)
    | _, _ => False
  jobs _ := True
  ends _ := True

theorem State.keeps_diverting (s : State Workflow) (context : Context) (x : Json) :
    (s.recover context x (.start s.retriers) 0).Keeps (s.diverting context x) := by
  have hadmits : (s.diverting context x).Admits s :=
    { attempt := fun _ _ => trivial
      step := fun _ _ => trivial
      failure := fun _ => trivial
      brokenOff := trivial
      failState := fun _ _ => trivial
      interrupted := fun _ => trivial
      replied := fun _ => trivial
      answered := fun _ _ => trivial
      jobs := fun _ _ => trivial }
  refine State.keeps_recover_of_handle hadmits (fun _ _ _ _ => rfl) (fun f => ?_) _ _
  unfold State.handle
  split
  · next c hc => exact ⟨⟨rfl, c, hc, rfl, rfl⟩, trivial⟩
  · exact trivial

/-- Where a thread stands after a step out of a state. -/
def Step.spot (step : Step) : Spot :=
  match step.transition with
  | .next name => .before name step.output
  | .done => .after step.output

/-- What a thread still does in a state, by where it stands. -/
inductive Routing (w : Workflow) (context : Context) (a : Spot) (s : State Workflow) (events : List Event) :
    StateProcess → Prop where
  | enters {x : Json} : Route w context a events (.before s.name x) →
      Routing w context a s events (s.process context x)
  | stays {x : Json} {p : StateProcess} : Route w context a events (.inside s.name x) →
      p.Keeps (s.diverting context x) → Routing w context a s events (p.bind s.leave)
  | turns {target : String} {output : Json} :
      Route w context a events (.diverted s.name target output) →
      Routing w context a s events (s.leave (.ok ⟨.next target, output⟩))
  | stops {f : Failure} : Route w context a events (.foiled s.name f) →
      Routing w context a s events (s.leave (.error (.failure f)))
  | leaves {step : Step} : Route w context a events step.spot →
      Routing w context a s events (.done (.ok step))

namespace Routing

variable {w : Workflow} {context : Context} {a : Spot} {s : State Workflow} {events : List Event}
  {p p' : StateProcess}

theorem resume (h : Routing w context a s events p) (hr : p.Resumes p') :
    Routing w context a s events p' := by
  cases h with
  | enters =>
    rw [State.process_eq] at hr
    cases hr
  | stays hv hk =>
    obtain ⟨q, hq, rfl⟩ := State.resumes_leave hr
    exact .stays hv (hk.resume hq (fun _ => trivial) (fun _ => trivial) fun _ => trivial)
  | turns | stops | leaves => cases hr

theorem exists_spot (h : Routing w context a s events p) : ∃ b, Route w context a events b := by
  cases h with
  | enters hv | stays hv | turns hv | stops hv | leaves hv => exact ⟨_, hv⟩

theorem exit {step : Step} {x : Json} (h : Route w context a events (.inside s.name x)) :
    Route w context a (.exited s.name step.output :: events) step.spot := by
  obtain ⟨transition, output⟩ := step
  cases transition with
  | next n => exact h.cons .exit
  | done => exact h.cons .leave

/-- What a thread writes down leads it on. -/
theorem write {n : Note} {rest : StateProcess} (hs : w.state? s.name = some s)
    (h : Routing w context a s events (.note n rest)) :
    Routing w context a s (n.event?.toList ++ events) rest := by
  generalize hp : Process.note n rest = p at h
  cases h with
  | @enters x hv =>
    rw [State.process_eq] at hp
    cases hp
    exact .stays (hv.cons .enter) (s.keeps_diverting context x)
  | @stays x q hv hk =>
    cases q with
    | done result =>
      cases result with
      | ok step =>
        cases hp
        exact .leaves (exit hv)
      | error stop => cases hp
    | note n' q =>
      cases hp
      obtain ⟨hn, hk⟩ := hk
      cases n with
      | attempt => exact .stays hv hk
      | event e =>
        cases e with
        | retried name f attempt delay =>
          cases hn
          exact .stays (hv.cons (.retry f attempt delay)) hk
        | caught name f target =>
          obtain ⟨rfl, c, hc, rfl, rfl⟩ := hn
          -- whether the error can be written into the input decides what the thread still does
          cases hm : merge c.resultPath context x f.document with
          | ok output =>
            have hcaught : State.caught c context x f = .ok ⟨.next c.next, output⟩ := by rw [State.caught, hm]
            rw [hcaught]
            exact .turns (hv.cons (.divert hs hc hm))
          | error e =>
            have hcaught : State.caught c context x f = .error (.failure e) := by rw [State.caught, hm]
            rw [hcaught]
            exact .stops (hv.cons (.foil hs hc hm))
        | _ => exact hn.elim
    | _ => cases hp
  | @turns target output hv =>
    cases hp
    have hstep : Route w context a (.exited s.name output :: events)
        (Step.spot ⟨.next target, output⟩) := hv.cons .turn
    exact .leaves hstep
  | stops => cases hp
  | leaves => cases hp

theorem ok {step : Step} (h : Routing w context a s events (.done (.ok step))) :
    Route w context a events step.spot := by
  generalize hp : (Process.done (.ok step) : StateProcess) = p at h
  cases h with
  | enters =>
    rw [State.process_eq] at hp
    cases hp
  | @stays x q =>
    cases q with
    | done result => cases result <;> cases hp
    | _ => cases hp
  | turns | stops => cases hp
  | leaves hv =>
    cases hp
    exact hv

theorem error {stop : Stop} (h : Routing w context a s events (.done (.error stop))) :
    (∃ x, Route w context a events (.inside s.name x)) ∨
      ∃ f, stop = .failure f ∧ Route w context a events (.foiled s.name f) := by
  generalize hp : (Process.done (.error stop) : StateProcess) = p at h
  cases h with
  | enters =>
    rw [State.process_eq] at hp
    cases hp
  | stays hv => exact .inl ⟨_, hv⟩
  | turns | leaves => cases hp
  | stops hv =>
    cases hp
    exact .inr ⟨_, rfl, hv⟩

end Routing

/-! ## The protocol -/

/-- A thread ends where it stands: with the output of its last state, with a halt of the state that it is
inside of, or between two states. -/
def Spot.Agrees : Spot → Ending → Prop
  | .before _ _, ending => ending = .error .cancelled ∨ ∃ name, ending = .error (.noState name)
  | .inside name _, ending => ∃ report stop, ending = .error (.ofStop name report stop)
  | .diverted _ _ _, _ => False
  | .foiled name f, ending => ending = .error (.unhandled name f)
  | .after output, ending => ending = .ok output

/-- **The protocol of a thread that follows a route through a closed workflow.** -/
def Workflow.Closed.routing {w : Workflow} (hw : w.Closed) (context : Context) (input : Json) :
    Protocol w context where
  waiting notes x := announced notes = [] ∧ x = input
  entering notes name x :=
    Route w context (.before w.startAt input) (announced notes) (.before name x)
  running notes name p := ∃ s, w.state? name = some s ∧
    Routing w context (.before w.startAt input) s (announced notes) p
  ended notes ending := ∃ b, Route w context (.before w.startAt input) (announced notes) b ∧
    b.Agrees ending
  start := by
    rintro notes x ⟨hn, rfl⟩
    rw [hn]
    exact .nil
  enter {notes name x s} hv hs := by
    rw [← hw.named hs] at hv
    exact ⟨s, hs, .enters hv⟩
  write := by
    rintro notes name n rest ⟨s, hs, hv⟩
    have hself : w.state? s.name = some s := by rw [hw.named hs, hs]
    rw [announced_cons]
    exact ⟨s, hs, hv.write hself⟩
  resume := by
    rintro notes name p p' ⟨s, hs, hv⟩ hr
    exact ⟨s, hs, hv.resume hr⟩
  next := by
    rintro notes name next output ⟨s, -, hv⟩
    exact hv.ok
  done := by
    rintro notes name output ⟨s, -, hv⟩
    exact ⟨_, hv.ok, rfl⟩
  stop := by
    rintro notes name report stop ⟨s, hs, hv⟩
    rw [← hw.named hs]
    rcases hv.error with ⟨x, hin⟩ | ⟨f, rfl, hfoiled⟩
    · exact ⟨_, hin, report, stop, rfl⟩
    · exact ⟨_, hfoiled, rfl⟩
  cancel hv := ⟨_, hv, .inl rfl⟩
  missing hv _ := ⟨_, hv, .inr ⟨_, rfl⟩⟩

theorem exists_spot_of_holds {w : Workflow} (hw : w.Closed) {context : Context} {input : Json}
    {notes : List Note} {phase : Phase} (h : (hw.routing context input).Holds notes phase) :
    ∃ b, Route w context (.before w.startAt input) (announced notes) b ∧
      ∀ ending, phase = .ended ending → b.Agrees ending := by
  rcases h.cases with ⟨ending, rfl, b, hv, hagrees⟩ | ⟨hopen, ⟨name, x, hv⟩ | ⟨name, p, s, -, hv⟩⟩
  · refine ⟨b, hv, fun _ he => ?_⟩
    cases he
    exact hagrees
  · exact ⟨_, hv, fun ending he => absurd he (hopen ending)⟩
  · obtain ⟨b, hv⟩ := hv.exists_spot
    exact ⟨b, hv, fun ending he => absurd he (hopen ending)⟩

end StepFlow
