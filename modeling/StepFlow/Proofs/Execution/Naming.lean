import StepFlow.Proofs.Execution.Replay

/-!
# Where the names of errors come from

An error of a run has one of the names that the library gives, or a name that a task has reported. The
matcher for every error is not among the former, so that an error has it for its name only if a task
reports it.

* `Reports`, `Failure.Known`: the names that tasks may report, and the failures with a name of either kind;
* `FanOut.verdict_of_apply`: what a state gives up with;
* `State.keeps_knowing`: a state that hears of such failures only raises such failures only;
* `Phase.Known`, `Thread.Known.becomes`: no thread has or is about to raise another failure;
* `Scene.Fails`, **`failures_are_known`**: every failure that is retried, caught, or ends a workflow.
-/

namespace StepFlow

/-! ## Failures with a known name -/

/-- A task may report an error under a name. -/
def Reports (allowed : Bool → Reply → Prop) (name : String) : Prop :=
  ∃ cancelled cause, allowed cancelled (.answered (.error (.failed (some name) cause)))

/-- The name of the failure is given by the library, or a task may report it. -/
def Failure.Known (allowed : Bool → Reply → Prop) (f : Failure) : Prop :=
  f.name ∈ ErrorName.builtins ∨ Reports allowed f.name.text

/-- What is written down is not about another failure. -/
def Note.Known (allowed : Bool → Reply → Prop) : Note → Prop
  | .event (.retried _ f _ _) | .event (.caught _ f _) => f.Known allowed
  | _ => True

theorem ErrorName.text_ne_matchAll {name : ErrorName} (h : name ∈ builtins) : name.text ≠ matchAll := by
  have hall : ∀ e ∈ builtins, e.text ≠ matchAll := by decide
  exact hall name h

variable {allowed : Bool → Reply → Prop} {f : Failure}

theorem Failure.Known.reports (h : f.Known allowed) (hn : f.name.text = matchAll) :
    Reports allowed matchAll :=
  h.elim (fun hb => absurd hn (ErrorName.text_ne_matchAll hb)) fun hr => hn ▸ hr

theorem Failure.member?_document (f : Failure) :
    f.document.member? "Error" = some (.str f.name.text) := by
  unfold document Json.ofMembers Json.member?
  exact Keyed.find?_ofList (by simp) List.mem_cons_self

/-! ## What a state gives up with -/

theorem name_of_raise {halt : Halt} {lane : Nat} (h : halt.raise lane = .failure f) :
    f.name ∈ ErrorName.builtins := by
  have hbuiltin : ErrorName.branchFailed ∈ ErrorName.builtins ∧
      ErrorName.runtime ∈ ErrorName.builtins := by decide
  cases halt with
  | cancelled => cases h
  | brokenOff =>
    cases h
    exact hbuiltin.2
  | _ =>
    cases h
    exact hbuiltin.1

namespace FanOut

variable {g g' : FanOut}

/-- A state gives up as before, or with a failure of a lane, which it names itself. -/
theorem verdict_of_apply {turn : Turn} (h : g.apply turn = some g')
    (hf : g'.verdict = some (.failure f)) :
    g.verdict = some (.failure f) ∨ f.name ∈ ErrorName.builtins := by
  cases turn with
  | enter i =>
    obtain ⟨-, -, rfl⟩ := apply_enter.mp h
    exact .inl hf
  | finish i ending =>
    obtain ⟨-, rfl⟩ := apply_finish.mp h
    exact .inl hf
  | observe i =>
    obtain ⟨rank, ending, -, rfl⟩ := apply_observe.mp h
    obtain hv | ⟨-, halt, -, hraise⟩ := verdictAfter_eq_some hf
    · exact .inl hv
    · exact .inr (name_of_raise hraise.symm)
  | interrupt =>
    cases h
    exact .inl hf
  | notice =>
    obtain ⟨-, rfl⟩ := apply_notice.mp h
    obtain hv | ⟨-, hv⟩ := Option.or_eq_some_iff.mp hf
    · exact .inl hv
    · cases hv

/-- What a state may give up with. -/
def Known (allowed : Bool → Reply → Prop) (g : FanOut) : Prop :=
  ∀ f, g.verdict = some (.failure f) → f.Known allowed

theorem Known.apply {turn : Turn} (hg : g.Known allowed) (h : g.apply turn = some g') :
    g'.Known allowed := fun f hf => (verdict_of_apply h hf).elim (hg f) .inl

theorem Known.take (hg : g.Known allowed) (turn : Turn) : (g.take turn).Known allowed := by
  rcases g.take_eq turn with h | h
  · rwa [h]
  · exact hg.apply h

theorem Known.observes (hg : g.Known allowed) (h : g.Observes g') : g'.Known allowed := by
  induction h with
  | refl => exact hg
  | tail _ hap ih => exact hap.elim ih.apply fun ⟨_, hap⟩ => ih.apply hap

theorem Known.lanes (t : Thread) (limit count : Nat) : (t.lanes limit count).Known allowed := by
  have hstart : (FanOut.start limit count).Known allowed := nofun
  unfold Thread.lanes
  split
  · exact hstart.take .interrupt
  · exact hstart

theorem Known.answer {stop : Stop} (hg : g.Known allowed) (h : g.answer? = some (.error stop))
    (hf : stop = .failure f) : f.Known allowed :=
  hg f (hf ▸ (answer?_error.mp h).1)

end FanOut

/-! ## What a state raises -/

/-- A state that hears of known failures only raises known failures only. -/
def knowing (allowed : Bool → Reply → Prop) : Process.Contract (Except Stop Step) where
  wakes _ := True
  replies reply := reply = .answered (.error .cancelled) ∨ ∃ cancelled, allowed cancelled reply
  answers answer := ∀ f, answer = .error (.failure f) → f.Known allowed
  notes n _ := n.Known allowed
  jobs _ := True
  ends result := ∀ f, result = .error (.failure f) → f.Known allowed

theorem State.keeps_knowing (s : State Workflow) (context : Context) (input : Json) :
    (s.process context input).Keeps (knowing allowed) := by
  have hcovers : (knowing allowed).Covers s :=
    { attempt := fun _ _ => trivial
      step := fun _ _ => nofun
      failure := fun f hf _ he => by
        cases he
        exact .inl hf
      reported := fun name cause hreply f he => by
        cases he
        obtain hreply | ⟨cancelled, hreply⟩ := hreply
        · cases hreply
        · refine .inr ⟨cancelled, cause, ?_⟩
          rwa [ErrorName.text_ofText]
      brokenOff := nofun
      failState := fun _ _ => nofun
      interrupted := fun _ => nofun
      replied := fun _ => nofun
      answered := fun stop hstop f he => by
        cases he
        exact hstop f rfl
      jobs := fun _ _ => trivial }
  have hinner : (knowing allowed).inner.Covers s := hcovers.inner
  rw [process_eq]
  refine ⟨trivial, keeps_body_of_recover ?_ fun _ _ => trivial⟩
  exact keeps_recover_of_covers hinner (fun f hf _ _ _ _ => hf f rfl)
    (fun f hf => keeps_handle hinner hf fun _ _ _ => hf f rfl) _ 0

/-! ## Threads -/

/-- Where a thread stands, no failure is at hand but known ones. -/
def Phase.Known (allowed : Bool → Reply → Prop) : Phase → Prop
  | .queued _ _ | .waiting _ | .entering _ _ _ => True
  | .running _ _ p => p.Keeps (knowing allowed)
  | .paused _ _ _ elapsed interrupted =>
    elapsed.Keeps (knowing allowed) ∧ interrupted.Keeps (knowing allowed)
  | .forked _ f _ _ rest => f.Known allowed ∧
    ∀ answer, (knowing allowed).answers answer → (rest answer).Keeps (knowing allowed)
  | .ended ending => ∀ state f, ending = .error (.unhandled state f) → f.Known allowed

section threads

variable {c : Scene} {i : Nat} {t t' : Thread} {phase : Phase} {new : List Note}

/-- A thread that goes on by itself raises known failures only. -/
theorem Phase.Known.goes (h : t.phase.Known allowed) (hg : t.Goes allowed phase new) :
    phase.Known allowed ∧ ∀ n ∈ new, n.Known allowed := by
  cases hg with
  | asks => exact ⟨trivial, List.forall_mem_nil _⟩
  | starts => exact ⟨trivial, List.forall_mem_nil _⟩
  | enters => exact ⟨State.keeps_knowing _ _ _, List.forall_mem_nil _⟩
  | writes hp =>
    rw [hp] at h
    exact ⟨h.2, List.forall_mem_singleton.mpr h.1⟩
  | looks present hp =>
    rw [hp] at h
    exact ⟨h present, List.forall_mem_nil _⟩
  | wakes wake hp =>
    rw [hp] at h
    exact ⟨h wake trivial, List.forall_mem_nil _⟩
  | sleeps hp =>
    rw [hp] at h
    exact ⟨⟨h _ trivial, h _ trivial⟩, List.forall_mem_nil _⟩
  | hears reply hp hreply =>
    rw [hp] at h
    exact ⟨h reply (.inr ⟨_, hreply⟩), List.forall_mem_nil _⟩
  | awaits reply hp hreply =>
    rw [hp] at h
    exact ⟨⟨h reply (.inr ⟨_, hreply⟩), h _ (.inl rfl)⟩, List.forall_mem_nil _⟩
  | rouses hp =>
    rw [hp] at h
    exact ⟨h.1, List.forall_mem_nil _⟩
  | leaves => exact ⟨trivial, List.forall_mem_nil _⟩
  | refuses hp =>
    rw [hp] at h
    exact ⟨h.2 _ nofun, List.forall_mem_nil _⟩
  | collects hp hanswer =>
    rw [hp] at h
    refine ⟨h.2 _ fun f hf => ?_, List.forall_mem_nil _⟩
    subst hf
    exact h.1.answer hanswer rfl
  | readies hp =>
    rw [hp] at h
    exact ⟨h, List.forall_mem_nil _⟩

theorem Phase.Known.ends {ending : Ending} (h : t.phase.Known allowed) (he : t.Ends ending) :
    (Phase.ended ending).Known allowed := by
  intro state f hf
  cases he with
  | cancelled => cases hf
  | missing => cases hf
  | @stops _ _ stop _ hp =>
    rw [hp] at h
    cases stop with
    | failure =>
      cases hf
      exact h _ rfl
    | _ => cases hf
  | done => cases hf

/-- **A thread with known failures only has known failures only**, whatever becomes of it. -/
theorem Phase.Known.becomes (h : t.phase.Known allowed) (hb : c.Becomes allowed i t t' new) :
    t'.phase.Known allowed ∧ ∀ n ∈ new, n.Known allowed := by
  cases hb with
  | stays => exact ⟨h, List.forall_mem_nil _⟩
  | goes hg => exact h.goes hg
  | admitted => exact ⟨trivial, List.forall_mem_nil _⟩
  | ended he => exact ⟨h.ends he, List.forall_mem_nil _⟩
  | admits hp | told hp =>
    rw [hp] at h
    exact ⟨⟨h.1.take _, h.2⟩, List.forall_mem_nil _⟩
  | sees hp hobserves =>
    rw [hp] at h
    exact ⟨⟨h.1.observes hobserves, h.2⟩, List.forall_mem_nil _⟩
  | spawns hp =>
    rw [hp] at h
    exact ⟨⟨FanOut.Known.lanes _ _ _, h.2⟩, List.forall_mem_nil _⟩
  | cancelled =>
    refine ⟨?_, List.forall_mem_nil _⟩
    cases hp : t.phase with
    | paused =>
      rw [hp] at h
      rw [Thread.cancel, hp]
      exact h.2
    | forked =>
      rw [hp] at h
      rw [Thread.cancel, hp]
      exact ⟨h.1.take .interrupt, h.2⟩
    | _ =>
      rw [hp] at h
      rw [Thread.cancel, hp]
      exact h

end threads

/-! ## Runs -/

/-- The failures of a scene: those that were retried and caught, those that ended a workflow, at any depth,
and those with which states give up. -/
inductive Scene.Fails (c : Scene) : Failure → Prop where
  | retried {i attempt : Nat} {state : String} {f : Failure} {delay : Duration} :
      .event (.retried state f attempt delay) ∈ c.notes i → c.Fails f
  | caught {i : Nat} {state next : String} {f : Failure} :
      .event (.caught state f next) ∈ c.notes i → c.Fails f
  | ended {i : Nat} {t : Thread} {state : String} {f : Failure} : c.threads[i]? = some t →
      t.phase = .ended (.error (.unhandled state f)) → c.Fails f
  | givesUp {i first : Nat} {t : Thread} {ticket : Option Nat} {g : FanOut} {name : String}
      {rest : Except Stop (List Json) → StateProcess} {f : Failure} : c.threads[i]? = some t →
      t.phase = .forked ticket g first name rest → g.verdict = some (.failure f) → c.Fails f

section runs

variable {σ : Type} {setting : Setting σ} {memory : σ} {identifier : String} {w : Workflow} {input : Json}
  {c : Scene}

theorem known_of_steps (h : Scene.Steps allowed (Run.start setting memory identifier w input).scene c) :
    c.Each fun _ t notes => t.phase.Known allowed ∧ ∀ n ∈ notes, n.Known allowed := by
  refine Scene.Steps.each (fun d l u u' new _ hd hu hb => ?_) (fun d l u _ _ hs => ?_) h Run.tidy_start
    fun l t ht => ?_
  · obtain ⟨hphase, hnotes⟩ := hd l u hu
    obtain ⟨hphase', hnew⟩ := hphase.becomes hb
    exact ⟨hphase', List.forall_mem_append.mpr ⟨hnew, hnotes⟩⟩
  · obtain ⟨i, v, ticket, name, jobs, limit, rest, lane, job, ticket', -, -, -, -, rfl⟩ := hs
    exact ⟨trivial, List.forall_mem_nil _⟩
  · obtain ⟨-, rfl⟩ := Run.start_eq_some.mp ht
    exact ⟨trivial, List.forall_mem_nil _⟩

theorem known_of_fails (h : Scene.Steps allowed (Run.start setting memory identifier w input).scene c)
    (hf : c.Fails f) : f.Known allowed := by
  have hknown := known_of_steps h
  have hnotes : ∀ i, ∀ n ∈ c.notes i, n.Known allowed := fun i n hn => by
    obtain ⟨t, ht⟩ := (Run.tidy_start.steps h).exists_thread hn
    exact (hknown i t ht).2 n hn
  cases hf with
  | retried hn => exact hnotes _ _ hn
  | caught hn => exact hnotes _ _ hn
  | ended ht hp =>
    have hphase := (hknown _ _ ht).1
    rw [hp] at hphase
    exact hphase _ _ rfl
  | givesUp ht hp hv =>
    have hphase := (hknown _ _ ht).1
    rw [hp] at hphase
    exact hphase.1 _ hv

theorem fails_of_outcome {fuel : Nat} {limit : Option Duration} {cancelAt : Option Nat} {report : Report σ}
    {state : String}
    (hr : w.executeWithin fuel setting memory identifier limit cancelAt input = some report)
    (ho : report.outcome = .error (.stateFailed state f)) : report.run.scene.Fails f := by
  obtain ⟨-, ⟨t, ending, ht, hp, hending⟩ | ⟨limit, hlimit⟩⟩ :=
    Run.steps_executeWithin setting.allows_any hr
  · rw [hending] at ho
    rw [Outcome.ofEnding_eq_stateFailed ho] at hp
    exact .ended ht hp
  · rw [hlimit] at ho
    cases ho

/-- **Where the names of errors come from.** In a run of any workflow, whatever the tasks reply and in
every order of steps, each failure that is retried or caught, at any depth, that ends a workflow or with
which a state gives up has one of the names that the library gives, or a name that a task reported. The
matcher for every error is none of the former: it is the name of a failure, and so of the error that a
catcher passes on, only if a task reported just this name. The same holds of an execution and of the error
that it ends with. -/
theorem failures_are_known (allowed : Bool → Reply → Prop) (setting : Setting σ) (memory : σ)
    (identifier : String) (w : Workflow) (input : Json) :
    (∀ c f, Scene.Steps allowed (Run.start setting memory identifier w input).scene c → c.Fails f →
      f.Known allowed ∧ (f.name.text = matchAll → Reports allowed matchAll) ∧
        (f.document.member? "Error" = some (.str matchAll) → Reports allowed matchAll)) ∧
    ∀ fuel limit cancelAt report, setting.Allows allowed →
      w.executeWithin fuel setting memory identifier limit cancelAt input = some report →
      Scene.Steps allowed (Run.start setting memory identifier w input).scene report.run.scene ∧
      ∀ state f, report.outcome = .error (.stateFailed state f) →
        f.Known allowed ∧ (f.name.text = matchAll → Reports allowed matchAll) := by
  refine ⟨fun c f h hf => ?_, fun fuel limit cancelAt report hs hr => ?_⟩
  · have hknown := known_of_fails h hf
    refine ⟨hknown, hknown.reports, fun hd => hknown.reports ?_⟩
    rw [f.member?_document] at hd
    exact Json.str.inj (Option.some.inj hd)
  · obtain ⟨hsteps, -⟩ := Run.steps_executeWithin hs hr
    refine ⟨hsteps, fun state f ho => ?_⟩
    have hknown := known_of_fails hsteps (fails_of_outcome hr ho)
    exact ⟨hknown, hknown.reports⟩

end runs

/-- A reply that reports no name of an error. -/
def Reply.Nameless (_cancelled : Bool) (reply : Reply) : Prop :=
  ∀ name cause, reply ≠ .answered (.error (.failed (some name) cause))

theorem failingSetting_allows : failingSetting.Allows Reply.Nameless where
  answered _ _ _ _ _ h := by cases h
  timedOut _ _ _ h := by cases h
  interrupted _ _ h := by cases h

/-- Where no task reports a name, an execution that fails ends with an error of another name. -/
theorem failures_are_known_nameless : ∃ w report state f, Workflow.compile taskBranch = .ok w ∧
    failingSetting.Allows Reply.Nameless ∧
    w.executeWithin 20 failingSetting () "run" none none (.obj []) = some report ∧
    report.outcome = .error (.stateFailed state f) ∧ report.run.scene.Fails f ∧
    f.Known Reply.Nameless ∧ f.name.text ≠ matchAll ∧
    f.document.member? "Error" ≠ some (.str matchAll) := by
  obtain ⟨w, hw⟩ : ∃ w, Workflow.compile taskBranch = .ok w := ⟨_, by rfl⟩
  have hrun : ((Workflow.compile taskBranch).toOption.bind fun w =>
      (w.executeWithin 20 failingSetting () "run" none none (.obj [])).bind fun r =>
        r.outcome.failed?) = some "X" := by decide +kernel
  rw [hw] at hrun
  obtain ⟨report, hr, hfailed⟩ : ∃ report,
      w.executeWithin 20 failingSetting () "run" none none (.obj []) = some report ∧
      report.outcome.failed? = some "X" := Option.bind_eq_some_iff.mp hrun
  obtain ⟨state, f, ho⟩ : ∃ state f, report.outcome = .error (.stateFailed state f) := by
    unfold Outcome.failed? at hfailed
    split at hfailed
    · next state f ho => exact ⟨state, f, ho⟩
    · cases hfailed
  have hnone : ¬Reports Reply.Nameless matchAll := fun ⟨_, cause, h⟩ => h matchAll cause rfl
  obtain ⟨hfails, hends⟩ :=
    failures_are_known Reply.Nameless failingSetting () "run" w (.obj [])
  obtain ⟨hsteps, houtcome⟩ := hends 20 none none report failingSetting_allows hr
  obtain ⟨-, -, hdocument⟩ := hfails _ f hsteps (fails_of_outcome hr ho)
  obtain ⟨hknown, hname⟩ := houtcome state f ho
  exact ⟨w, report, state, f, hw, failingSetting_allows, hr, ho, fails_of_outcome hr ho, hknown,
    fun h => hnone (hname h), fun h => hnone (hdocument h)⟩

/-- A setting in which every task reports the matcher for every error as its error. -/
def matcherSetting : Setting Unit where
  performer _ memory := (.immediate (.error (.failed (some matchAll) "broken")), memory)
  clock _ := .epoch
  draw _ := ""
  report _ := ""

/-- The name of the error that an execution ended with. -/
def Outcome.errorName? : Outcome → Option String
  | .error (.stateFailed _ f) => some f.name.text
  | _ => none

/-- An execution ends with an error whose name is the matcher for every error. -/
theorem fails_with_matchAll : ∃ w report state f, Workflow.compile taskBranch = .ok w ∧
    w.executeWithin 20 matcherSetting () "run" none none (.obj []) = some report ∧
    report.outcome = .error (.stateFailed state f) ∧ f.name.text = matchAll := by
  obtain ⟨w, hw⟩ : ∃ w, Workflow.compile taskBranch = .ok w := ⟨_, by rfl⟩
  have hrun : ((Workflow.compile taskBranch).toOption.bind fun w =>
      (w.executeWithin 20 matcherSetting () "run" none none (.obj [])).bind fun r =>
        r.outcome.errorName?) = some matchAll := by decide +kernel
  rw [hw] at hrun
  obtain ⟨report, hr, hname⟩ : ∃ report,
      w.executeWithin 20 matcherSetting () "run" none none (.obj []) = some report ∧
      report.outcome.errorName? = some matchAll := Option.bind_eq_some_iff.mp hrun
  unfold Outcome.errorName? at hname
  split at hname
  · next state f ho => exact ⟨w, report, state, f, hw, hr, ho, Option.some.inj hname⟩
  · cases hname

end StepFlow
