import StepFlow.Proofs.Execution.Contract
import StepFlow.Proofs.Execution.Moves
import StepFlow.Proofs.Workflow.Compile

/-!
# Runs stay within their workflows

A compiled workflow holds every state that its states lead to, and so do the workflows nested in it.
So no thread of a run ever looks for a state that is not there.

* `Workflow.Closed`, `closed_compile`: what the compiler promises;
* `inside?`: the state that a thread is in, by what it has written down;
* `Thread.Sound`: where a thread may stand, and `Thread.Sound.becomes`: it stays so;
* `sound_of_steps`: the invariant of all threads;
* `never_missing`: no workflow ends for want of a state, and an unhandled failure names the state that
  the workflow was in.
-/

namespace StepFlow

/-! ## Closed workflows -/

/-- The workflow holds its first state and every state to which one of its states leads, each one under
its own name, and so do the workflows nested in it. -/
inductive Workflow.Closed : Workflow → Prop where
  | mk {w : Workflow} : (∃ s, w.state? w.startAt = some s) →
      (∀ n s, w.state? n = some s → s.name = n) →
      (∀ n s t, w.state? n = some s → s.LeadsTo t → ∃ s', w.state? t = some s') →
      (∀ n s v, w.state? n = some s → v ∈ s.nested → v.Closed) → w.Closed

namespace Workflow.Closed

variable {w : Workflow} {n t : String} {s : State Workflow}

theorem start (h : w.Closed) : ∃ s, w.state? w.startAt = some s := by
  cases h
  assumption

theorem named (h : w.Closed) (hs : w.state? n = some s) : s.name = n := by
  obtain ⟨-, hn, -, -⟩ := h
  exact hn n s hs

theorem leads (h : w.Closed) (hs : w.state? n = some s) (ht : s.LeadsTo t) :
    ∃ s', w.state? t = some s' := by
  obtain ⟨-, -, hl, -⟩ := h
  exact hl n s t hs ht

theorem nested (h : w.Closed) (hs : w.state? n = some s) {v : Workflow} (hv : v ∈ s.nested) :
    v.Closed := by
  obtain ⟨-, -, -, hc⟩ := h
  exact hc n s v hs hv

end Workflow.Closed

/-- **A compiled workflow is closed.** The induction is on the depth of the document, since a nested
workflow comes of a document within a declaration. -/
theorem closed_compile {document : Json} {w : Workflow} (h : Workflow.compile document = .ok w) :
    w.Closed := by
  obtain ⟨d, start, declared, states, hd, hstart, hdecl, hc, rfl⟩ := compile_eq_ok h
  obtain ⟨hdec, hcoh⟩ := coherent_of_checkedStates hc
  have hdiv := divides_partition hcoh
  have hat : ∀ n s, _ := fun n s => state?_eq_some_iff (n := n) (s := s)
    (w := ⟨⟨d.comment, start, d.version.getD defaultVersion, d.timeoutSeconds.getD 0⟩,
      (partition start states).branches, (partition start states).index⟩) hdiv
  refine .mk ?_ (fun n s hs => ?_) (fun n s t hs ht => ?_) fun n s v hs hv => ?_
  · obtain ⟨s, hs⟩ := hcoh.start
    exact ⟨s, (hat _ _).mpr ⟨.start, hs⟩⟩
  · exact hcoh.named n s ((hat n s).mp hs).2
  · obtain ⟨hr, hf⟩ := (hat n s).mp hs
    obtain ⟨s', hs'⟩ := hcoh.closed n s t hf ht
    exact ⟨s', (hat t s').mpr ⟨.step hr hf ht, hs'⟩⟩
  · obtain ⟨j, hj, hdecode⟩ := (find?_decodeStates hdec).mp ((hat n s).mp hs).2
    obtain ⟨x, hx, hxv⟩ := (nested_decodeState hdecode).2 v hv
    have hdepth := depth_lt_of_mem_declared hd hdecl (Keyed.mem_of_find? hj) hx
    exact closed_compile hxv
termination_by document.depth

/-! ## Where a thread may stand -/

/-- The state that a thread is in, by what it has written down, the latest first: the one that it entered
last, unless it has left it. -/
def inside? : List Note → Option String
  | [] => none
  | .event (.entered name _) :: _ => some name
  | .event (.exited _ _) :: _ => none
  | _ :: rest => inside? rest

/-- What a state promises between its entry and its exit: to stay inside, to start closed workflows
only, and to lead on to a state that can follow. -/
def State.staying (s : State Workflow) : Process.Contract (Except Stop Step) where
  wakes _ := True
  replies _ := True
  answers _ := True
  notes
    | .event (.entered _ _), _ => False
    | .event (.exited _ _), rest => ∃ step, s.Leads step ∧ rest = .done (.ok step)
    | _, _ => True
  jobs job := job.workflow.Closed
  ends result := ∀ step, result = .ok step → s.Leads step

theorem State.keeps_staying {w : Workflow} {n : String} {s : State Workflow} (hw : w.Closed)
    (hs : w.state? n = some s) (context : Context) (input : Json) :
    (s.body context input).Keeps s.staying := by
  have hfits : s.staying.Fits s :=
    { attempt := fun _ _ => trivial
      retried := fun _ _ _ _ => trivial
      caught := fun _ _ _ => trivial
      step := fun step hl step' he => by
        cases he
        exact hl
      failure := fun _ _ he => by cases he
      brokenOff := fun _ he => by cases he
      failState := fun _ _ _ he => by cases he
      interrupted := fun _ _ he => by cases he
      replied := fun _ _ he => by cases he
      answered := fun _ _ _ he => by cases he
      jobs := fun job hjob => hw.nested hs hjob }
  exact State.keeps_body hfits fun step he => ⟨step, he step rfl, rfl⟩

/-- The process asks something of the run before it goes on. -/
def Process.Asks {α : Type} : Process α → Prop
  | .done _ | .note _ _ => False
  | _ => True

/-- A process is about to enter a state, within it, or about to lead on. -/
inductive Underway (s : State Workflow) (notes : List Note) : StateProcess → Prop where
  | enters {context : Context} {input : Json} : Underway s notes (s.process context input)
  | stays {p : StateProcess} : inside? notes = some s.name → p.Keeps s.staying → Underway s notes p
  | leaves {step : Step} : s.Leads step → Underway s notes (.done (.ok step))

/-- The process is within the state. -/
def Staying (w : Workflow) (notes : List Note) (name : String) (p : StateProcess) : Prop :=
  ∃ s, w.state? name = some s ∧ inside? notes = some s.name ∧ p.Keeps s.staying

/-- A workflow does not end for want of a state, and a failure that was not handled is one of the state
that the workflow was in. -/
structure Ending.Sound (w : Workflow) (notes : List Note) (ending : Ending) : Prop where
  found : ∀ name, ending ≠ .error (.noState name)
  held : ∀ name f, ending = .error (.unhandled name f) → ∃ s, w.state? name = some s
  inside : ∀ name f, ending = .error (.unhandled name f) → inside? notes = some name

theorem Ending.Sound.of_ne {w : Workflow} {notes : List Note} {ending : Ending}
    (hn : ∀ name, ending ≠ .error (.noState name))
    (hu : ∀ name f, ending ≠ .error (.unhandled name f)) : Ending.Sound w notes ending :=
  ⟨hn, fun name f h => absurd h (hu name f), fun name f h => absurd h (hu name f)⟩

/-- Where a thread of a workflow may stand. -/
def Phase.Sound (w : Workflow) (notes : List Note) : Phase → Prop
  | .queued _ _ | .waiting _ => True
  | .entering _ name _ => ∃ s, w.state? name = some s
  | .running _ name p => ∃ s, w.state? name = some s ∧ Underway s notes p
  | .paused _ _ name elapsed interrupted =>
    Staying w notes name elapsed ∧ Staying w notes name interrupted
  | .forked _ _ _ name rest => ∀ answer, Staying w notes name (rest answer)
  | .ended ending => Ending.Sound w notes ending

/-- Where a thread may stand. -/
structure Thread.Sound (t : Thread) (notes : List Note) : Prop where
  closed : t.workflow.Closed
  phase : t.phase.Sound t.workflow notes

/-! ## The invariant -/

section invariant

variable {allowed : Bool → Reply → Prop} {c : Scene} {i : Nat} {t t' : Thread} {w : Workflow}
  {notes new : List Note} {phase : Phase} {name : String} {s : State Workflow} {p : StateProcess}

theorem Phase.Sound.staying {ticket : Nat} (h : (Phase.running ticket name p).Sound w notes)
    (hasks : p.Asks) : Staying w notes name p := by
  obtain ⟨s, hs, hu⟩ := h
  cases hu with
  | enters =>
    rw [State.process_eq] at hasks
    cases hasks
  | stays hi hk => exact ⟨s, hs, hi, hk⟩
  | leaves => cases hasks

theorem Underway.note {n : Note} {rest : StateProcess} (hw : w.Closed) (hs : w.state? name = some s)
    (h : Underway s notes (.note n rest)) : Underway s (n :: notes) rest := by
  generalize hp : Process.note n rest = p at h
  cases h with
  | enters =>
    rw [State.process_eq] at hp
    cases hp
    exact .stays rfl (State.keeps_staying hw hs _ _)
  | stays hi hk =>
    subst hp
    obtain ⟨hn, hrest⟩ := hk
    cases n with
    | attempt => exact .stays hi hrest
    | event e =>
      cases e with
      | entered => exact hn.elim
      | exited =>
        obtain ⟨step, hl, rfl⟩ := hn
        exact .leaves hl
      | _ => exact .stays hi hrest
  | leaves => cases hp

theorem Underway.done {step : Step} (h : Underway s notes (.done (.ok step))) : s.Leads step := by
  generalize hp : (Process.done (.ok step) : StateProcess) = p at h
  cases h with
  | enters =>
    rw [State.process_eq] at hp
    cases hp
  | stays hi hk =>
    subst hp
    exact hk step rfl
  | leaves hl =>
    cases hp
    exact hl

theorem Underway.stop {stop : Stop} (h : Underway s notes (.done (.error stop))) :
    inside? notes = some s.name := by
  generalize hp : (Process.done (.error stop) : StateProcess) = p at h
  cases h with
  | enters =>
    rw [State.process_eq] at hp
    cases hp
  | stays hi _ => exact hi
  | leaves => cases hp

theorem Staying.underway (h : Staying w notes name p) :
    ∃ s, w.state? name = some s ∧ Underway s notes p := by
  obtain ⟨s, hs, hi, hk⟩ := h
  exact ⟨s, hs, .stays hi hk⟩

/-- A thread that goes on by itself stays where it may stand. -/
theorem Thread.Sound.goes (h : t.Sound notes) (hg : t.Goes allowed phase new) :
    Thread.Sound { t with phase } (new ++ notes) := by
  obtain ⟨hw, hp⟩ := h
  refine ⟨hw, ?_⟩
  dsimp only
  cases hg with
  | asks => trivial
  | starts => exact hw.start
  | enters hph _ hs => exact ⟨_, hs, .enters⟩
  | writes hph =>
    rw [hph] at hp
    obtain ⟨s, hs, hu⟩ := hp
    exact ⟨s, hs, hu.note hw hs⟩
  | looks present hph =>
    rw [hph] at hp
    obtain ⟨s, hs, hi, hk⟩ := hp.staying trivial
    exact ⟨s, hs, .stays hi (hk present)⟩
  | wakes wake hph =>
    rw [hph] at hp
    obtain ⟨s, hs, hi, hk⟩ := hp.staying trivial
    exact ⟨s, hs, .stays hi (hk wake trivial)⟩
  | sleeps hph =>
    rw [hph] at hp
    obtain ⟨s, hs, hi, hk⟩ := hp.staying trivial
    exact ⟨⟨s, hs, hi, hk _ trivial⟩, s, hs, hi, hk _ trivial⟩
  | hears reply hph =>
    rw [hph] at hp
    obtain ⟨s, hs, hi, hk⟩ := hp.staying trivial
    exact ⟨s, hs, .stays hi (hk reply trivial)⟩
  | awaits reply hph =>
    rw [hph] at hp
    obtain ⟨s, hs, hi, hk⟩ := hp.staying trivial
    exact ⟨⟨s, hs, hi, hk _ trivial⟩, s, hs, hi, hk _ trivial⟩
  | rouses hph =>
    rw [hph] at hp
    exact hp.1.underway
  | leaves hph =>
    rw [hph] at hp
    obtain ⟨s, hs, hu⟩ := hp
    exact hw.leads hs (hu.done _ rfl)
  | refuses hph =>
    rw [hph] at hp
    obtain ⟨s, hs, hi, hk⟩ := hp.staying trivial
    exact ⟨s, hs, .stays hi (hk.2 _ trivial)⟩
  | collects hph =>
    rw [hph] at hp
    exact (hp _).underway
  | readies hph =>
    rw [hph] at hp
    exact hp

theorem Thread.Sound.ends {ending : Ending} (h : t.Sound notes) (he : t.Ends ending) :
    Ending.Sound t.workflow notes ending := by
  obtain ⟨hw, hp⟩ := h
  cases he with
  | cancelled => exact .of_ne (fun _ h => by cases h) (fun _ _ h => by cases h)
  | missing hph _ hnone =>
    rw [hph] at hp
    obtain ⟨s, hs⟩ := hp
    rw [hnone] at hs
    cases hs
  | @stops _ name stop _ hph =>
    rw [hph] at hp
    obtain ⟨s, hs, hu⟩ := hp
    have hin : inside? notes = some name := by rw [hu.stop, hw.named hs]
    cases stop with
    | failure f =>
      refine ⟨fun _ h => (by cases h), fun _ _ h => ?_, fun _ _ h => ?_⟩
      · cases h
        exact ⟨s, hs⟩
      · cases h
        exact hin
    | _ => exact .of_ne (fun _ h => by cases h) (fun _ _ h => by cases h)
  | done => exact .of_ne (fun _ h => by cases h) (fun _ _ h => by cases h)

/-- **A thread stays where it may stand**, whatever becomes of it. -/
theorem Thread.Sound.becomes (h : t.Sound notes) (hb : c.Becomes allowed i t t' new) :
    t'.Sound (new ++ notes) := by
  cases hb with
  | stays => exact h
  | goes hg => exact h.goes hg
  | admitted => exact ⟨h.closed, h.closed.start⟩
  | ended he => exact ⟨h.closed, h.ends he⟩
  | admits hph | told hph | sees hph =>
    have hp := h.phase
    rw [hph] at hp
    exact ⟨h.closed, hp⟩
  | spawns hph =>
    have hp := h.phase
    rw [hph] at hp
    obtain ⟨s, hs, hi, hk⟩ := hp.staying trivial
    exact ⟨h.closed, fun answer => ⟨s, hs, hi, hk.2 answer trivial⟩⟩
  | @cancelled ticket =>
    refine ⟨h.closed, ?_⟩
    have hp := h.phase
    cases hph : t.phase with
    | paused =>
      rw [hph] at hp
      rw [Thread.cancel, hph]
      exact hp.2.underway
    | _ =>
      rw [hph] at hp
      rw [Thread.cancel, hph]
      exact hp

theorem Thread.Sound.starts (hc : c.Each fun _ => Thread.Sound) (h : c.Starts t) : t.Sound [] := by
  obtain ⟨i, u, ticket, name, jobs, limit, rest, lane, job, ticket', hu, hph, -, hjob, rfl⟩ := h
  have hp := (hc i u hu).phase
  rw [hph] at hp
  obtain ⟨s, hs, -, hk⟩ := hp.staying trivial
  exact ⟨hk.1 job (List.mem_of_getElem? hjob), trivial⟩

end invariant

/-! ## Runs -/

/-- **Every thread of a run of a closed workflow stands where it may**, after any steps. -/
theorem sound_of_steps {allowed : Bool → Reply → Prop} {σ : Type} {setting : Setting σ} {memory : σ}
    {identifier : String} {w : Workflow} {input : Json} {c : Scene} (hw : w.Closed)
    (h : Scene.Steps allowed (Run.start setting memory identifier w input).scene c) :
    c.Each fun _ => Thread.Sound := by
  refine Scene.Steps.each (fun d l u u' new _ hd hu hb => (hd l u hu).becomes hb)
    (fun d l u _ hd hs => .starts hd hs) h Run.tidy_start fun l t ht => ?_
  obtain ⟨-, rfl⟩ := Run.start_eq_some.mp ht
  exact ⟨hw, hw.start⟩

/-- No workflow ends for want of a state, at any depth, and a failure that was not handled names the
state that its workflow was in. -/
structure Scene.Safe (c : Scene) : Prop where
  found : ∀ (i : Nat) (t : Thread) (name : String), c.threads[i]? = some t →
    t.phase ≠ .ended (.error (.noState name))
  lanes : ∀ (i : Nat) (t : Thread) (f : FanOut) (first k : Nat) (name : String),
    c.threads[i]? = some t → t.phase.lanes? = some (f, first) → ¬f.Finished k (.error (.noState name))
  held : ∀ (i : Nat) (t : Thread) (name : String) (f : Failure), c.threads[i]? = some t →
    t.phase = .ended (.error (.unhandled name f)) → ∃ s, t.workflow.state? name = some s
  inside : ∀ (i : Nat) (t : Thread) (name : String) (f : Failure), c.threads[i]? = some t →
    t.phase = .ended (.error (.unhandled name f)) → inside? (c.notes i) = some name

theorem Scene.safe_of_sound {c : Scene} (h : c.Each fun _ => Thread.Sound) (hl : c.Linked) : c.Safe := by
  have hend : ∀ (i : Nat) (t : Thread) (ending : Ending), c.threads[i]? = some t →
      t.phase = .ended ending → Ending.Sound t.workflow (c.notes i) ending := fun i t ending ht hp => by
    have := (h i t ht).phase
    rw [hp] at this
    exact this
  refine ⟨fun i t name ht hp => ?_, fun i t f first k name ht hf ho => ?_, fun i t name f ht hp => ?_,
    fun i t name f ht hp => ?_⟩
  · exact (hend i t _ ht hp).found name rfl
  · obtain ⟨lane, hlane, hfinished⟩ := ho
    obtain ⟨u, hu, hm⟩ := hl.lane i t f first k lane ht hf hlane
    have hstand := hm.standing.trans hfinished
    cases hp : u.phase with
    | ended ending =>
      rw [hp] at hstand
      cases hstand
      exact (hend _ u _ hu hp).found name rfl
    | _ =>
      rw [hp] at hstand
      cases hstand
  · exact (hend i t _ ht hp).held name f rfl
  · exact (hend i t _ ht hp).inside name f rfl

theorem Outcome.ofEnding_eq_noState {ending : Ending} {name : String}
    (h : Outcome.ofEnding ending = .error (.noState name)) : ending = .error (.noState name) := by
  match ending with
  | .ok _ => cases h
  | .error halt =>
    cases halt <;> cases h
    rfl

theorem Outcome.ofEnding_eq_stateFailed {ending : Ending} {name : String} {f : Failure}
    (h : Outcome.ofEnding ending = .error (.stateFailed name f)) :
    ending = .error (.unhandled name f) := by
  match ending with
  | .ok _ => cases h
  | .error halt =>
    cases halt <;> cases h
    rfl

/-- **A run of a compiled workflow never looks for a state that is not there**: whatever the tasks reply,
in every order of steps, and at every moment of cancellation. So an execution never fails for want of a
state, and when it fails because of a failure that was not handled, then the failure is one of the state
of the workflow itself that was entered last and not left. -/
theorem never_missing {document : Json} {w : Workflow} (h : Workflow.compile document = .ok w)
    {σ : Type} (setting : Setting σ) (memory : σ) (identifier : String) (input : Json) :
    (∀ c, Scene.Steps (fun _ _ => True) (Run.start setting memory identifier w input).scene c →
      c.Safe) ∧
    ∀ fuel limit cancelAt report,
      w.executeWithin fuel setting memory identifier limit cancelAt input = some report →
      report.run.scene.Safe ∧ (∀ name, report.outcome ≠ .error (.noState name)) ∧
      ∀ name f, report.outcome = .error (.stateFailed name f) →
        (∃ s, w.state? name = some s) ∧ inside? (report.run.scene.notes 0) = some name := by
  have hsafe : ∀ c, Scene.Steps (fun _ _ => True)
      (Run.start setting memory identifier w input).scene c → c.Safe := fun c hc =>
    Scene.safe_of_sound (sound_of_steps (closed_compile h) hc) (Run.linked_of_steps hc)
  refine ⟨hsafe, fun fuel limit cancelAt report hr => ?_⟩
  obtain ⟨hsteps, hout⟩ := Run.steps_executeWithin
    (⟨fun _ _ _ => trivial, fun _ => trivial, trivial⟩ : setting.Allows fun _ _ => True) hr
  have hs := hsafe _ hsteps
  refine ⟨hs, fun name hname => ?_, fun name f hname => ?_⟩
  · rcases hout with ⟨t, ending, ht, hp, ho⟩ | ⟨limit, ho⟩
    · rw [ho] at hname
      exact hs.found 0 t name ht (by rw [hp, Outcome.ofEnding_eq_noState hname])
    · rw [ho] at hname
      cases hname
  · rcases hout with ⟨t, ending, ht, hp, ho⟩ | ⟨limit, ho⟩
    · rw [ho] at hname
      rw [Outcome.ofEnding_eq_stateFailed hname] at hp
      obtain ⟨t', ht', hw, -⟩ := hsteps.place (Run.start_eq_some.mpr ⟨rfl, rfl⟩)
      cases ht.symm.trans ht'
      have hheld := hs.held 0 t name f ht hp
      rw [hw] at hheld
      exact ⟨hheld, hs.inside 0 t name f ht hp⟩
    · rw [ho] at hname
      cases hname

/-- A document with a task in a branch. -/
def taskBranch : Json :=
  .obj [("StartAt", .str "X"), ("States", .obj [
    ("X", .obj [("End", .bool true), ("Resource", .str "script:x"), ("Type", .str "Task")])])]

/-- A document whose second state has a task in a branch. -/
def taskDocument : Json :=
  .obj [("StartAt", .str "A"), ("States", .obj [
    ("A", .obj [("Next", .str "B"), ("Type", .str "Pass")]),
    ("B", .obj [("Branches", .arr [taskBranch]), ("End", .bool true), ("Type", .str "Parallel")])])]

/-- A setting in which every task fails at once. -/
def failingSetting : Setting Unit where
  performer _ memory := (.immediate (.error (.failed none "broken")), memory)
  clock _ := .epoch
  draw _ := ""
  report _ := ""

/-- The state whose failure an execution ended with. -/
def Outcome.failed? : Outcome → Option String
  | .error (.stateFailed name _) => some name
  | _ => none

theorem never_missing_task : ∃ w report f, Workflow.compile taskDocument = .ok w ∧
    w.executeWithin 20 failingSetting () "run" none none (.obj []) = some report ∧
    report.outcome = .error (.stateFailed "B" f) ∧
    inside? (report.run.scene.notes 0) = some "B" := by
  obtain ⟨w, hw⟩ : ∃ w, Workflow.compile taskDocument = .ok w := ⟨_, by rfl⟩
  have hrun : (Workflow.compile taskDocument).toOption.bind (fun w =>
      (w.executeWithin 20 failingSetting () "run" none none (.obj [])).bind fun r =>
        r.outcome.failed?) = some "B" := by decide +kernel
  rw [hw] at hrun
  obtain ⟨report, hr, hf⟩ : ∃ report,
      w.executeWithin 20 failingSetting () "run" none none (.obj []) = some report ∧
      report.outcome.failed? = some "B" := Option.bind_eq_some_iff.mp hrun
  obtain ⟨f, ho⟩ : ∃ f, report.outcome = .error (.stateFailed "B" f) := by
    unfold Outcome.failed? at hf
    split at hf
    · next name f ho =>
      cases hf
      exact ⟨f, ho⟩
    · cases hf
  have h := never_missing hw failingSetting () "run" (.obj [])
  exact ⟨w, report, f, hw, hr, ho, ((h.2 20 none none report hr).2.2 "B" f ho).2⟩

end StepFlow
