import StepFlow.Execution.Recovery
import StepFlow.Proofs.Except
import StepFlow.Proofs.Execution.Names
import StepFlow.Proofs.Workflow.Transitions

/-!
# Contracts of processes

A contract says what the surroundings promise to a process, and what the process promises in turn: what
it writes down, which jobs it starts, and how it ends.

* `Process.Contract`, `Process.Keeps`: contracts, and the processes that keep them;
* `Process.Keeps.bind`: one process after another;
* `State.body`: what a state does once it has announced that it was entered;
* `Process.Contract.Covers`, `State.keeps_recover_of_covers`: a contract that an attempt of a state keeps
  whatever it fails with, and the attempts of the state one after the other;
* `Process.Contract.Admits`, `State.keeps_recover_of_handle`: a contract that allows every failure;
* `Process.Contract.Fits`, `State.keeps_body`: a contract that every part of a state keeps is kept by the
  state, however often it is retried.
-/

namespace StepFlow

namespace Process

/-- What the surroundings promise to a process, and what the process promises in turn. -/
structure Contract (α : Type) where
  wakes : Wake → Prop
  replies : Reply → Prop
  answers : Except Stop (List Json) → Prop
  /-- What is written down, together with what follows it. -/
  notes : Note → Process α → Prop
  jobs : Job → Prop
  ends : α → Prop

/-- The process keeps its promises as long as the surroundings keep theirs. -/
def Keeps {α : Type} (c : Contract α) : Process α → Prop
  | done a => c.ends a
  | note n rest => c.notes n rest ∧ rest.Keeps c
  | look rest => ∀ present, (rest present).Keeps c
  | sleep _ rest => ∀ wake, c.wakes wake → (rest wake).Keeps c
  | call _ _ rest => ∀ reply, c.replies reply → (rest reply).Keeps c
  | fork jobs _ rest =>
    (∀ job ∈ jobs, c.jobs job) ∧ ∀ answer, c.answers answer → (rest answer).Keeps c

/-- The contract of a part of a process, which does not know what follows it. -/
def Contract.inner {α : Type} (c : Contract α) : Contract α :=
  { c with notes := fun n _ => ∀ rest, c.notes n rest }

theorem Keeps.bind {α : Type} {c : Contract α} {p : Process α} {f : α → Process α}
    (hp : p.Keeps c.inner) (hf : ∀ a, c.ends a → (f a).Keeps c) : (p.bind f).Keeps c := by
  induction p with
  | done a => exact hf a hp
  | note n rest ih => exact ⟨hp.1 _, ih hp.2⟩
  | look rest ih => exact fun present => ih present (hp present)
  | sleep d rest ih => exact fun wake hw => ih wake (hp wake hw)
  | call request limit rest ih => exact fun reply hr => ih reply (hp reply hr)
  | fork jobs limit rest ih => exact ⟨hp.1, fun answer ha => ih answer (hp.2 answer ha)⟩

end Process

/-! ## Activities -/

namespace Activity

variable {α β : Type}

theorem attempt_bind (r : Except Trouble α) (f : α → Activity β) : attempt r >>= f =
    match r with
    | .ok a => f a
    | .error e => .done (.error (.ofTrouble e)) := by
  cases r <;> rfl

theorem ofExcept_bind (r : Except Stop α) (f : α → Activity β) : ofExcept r >>= f =
    match r with
    | .ok a => f a
    | .error stop => .done (.error stop) := by
  cases r <;> rfl

theorem call_bind (request : TaskRequest) (limit : Option Duration) (f : Reply → Activity β) :
    call request limit >>= f = Process.call request limit fun reply => f reply := rfl

theorem sleep_bind (d : Duration) (f : Unit → Activity β) : sleep d >>= f =
    Process.sleep d fun wake =>
      match wake with
      | .elapsed => f ()
      | .interrupted => .done (.error .cancelled) := by
  refine congrArg (Process.sleep d) (funext fun wake => ?_)
  cases wake <;> rfl

theorem fork_bind (jobs : List Job) (limit : Nat) (f : List Json → Activity β) :
    fork jobs limit >>= f = Process.fork jobs limit fun answer =>
      match answer with
      | .ok outs => f outs
      | .error stop => .done (.error stop) := by
  refine congrArg (Process.fork jobs limit) (funext fun answer => ?_)
  cases answer <;> rfl

end Activity

/-! ## Where a step leads -/

/-- The step leads to a state that can follow. -/
def State.Leads (s : State Workflow) (step : Step) : Prop :=
  ∀ n, step.transition = .next n → s.LeadsTo n

theorem complete_transition {paths : DataPaths} {handling : ResultHandling} {selector : Option Json}
    {transition : Transition} {context : Context} {supply : Supply} {input result : Json} {step : Step}
    (h : complete paths handling selector transition context supply input result = .ok step) :
    step.transition = transition := by
  unfold complete at h
  obtain ⟨selected, -, h⟩ := Except.bind_eq_ok_iff.mp h
  obtain ⟨joined, -, h⟩ := Except.bind_eq_ok_iff.mp h
  obtain ⟨output, -, h⟩ := Except.bind_eq_ok_iff.mp h
  cases h
  rfl

theorem State.leads_of_transition {s : State Workflow} {step : Step} {transition : Transition}
    (hs : s.transition? = some transition) (h : step.transition = transition) : s.Leads step := by
  intro n hn
  left
  unfold State.next?
  rw [hs, ← h, hn]

theorem mem_of_chosen? {context : Context} {input : Json} {rules : List ChoiceRule} {n : String}
    (h : chosen? context input rules = .ok (some n)) : n ∈ rules.map ChoiceRule.next := by
  induction rules with
  | nil => cases h
  | cons rule rest ih =>
    unfold chosen? at h
    split at h
    · cases h
    · cases h
      exact List.mem_cons_self
    · exact List.mem_cons_of_mem _ (ih h)

theorem PassState.leads {s : PassState} {context : Context} {supply : Supply} {input : Json}
    {step : Step} (h : s.step context supply input = .ok step) : (State.pass s).Leads step := by
  unfold PassState.step at h
  obtain ⟨effective, -, h⟩ := Except.bind_eq_ok_iff.mp h
  dsimp only at h
  split at h
  · obtain ⟨result, -, h⟩ := Except.bind_eq_ok_iff.mp h
    exact State.leads_of_transition rfl (complete_transition h)
  · obtain ⟨result, -, h⟩ := Except.bind_eq_ok_iff.mp h
    exact State.leads_of_transition rfl (complete_transition h)

theorem ChoiceState.leads {s : ChoiceState} {context : Context} {input : Json} {step : Step}
    (h : s.step context input = .ok step) : (State.choice s).Leads step := by
  unfold ChoiceState.step at h
  obtain ⟨effective, -, h⟩ := Except.bind_eq_ok_iff.mp h
  obtain ⟨chosen, hc, h⟩ := Except.bind_eq_ok_iff.mp h
  split at h
  · next next hor =>
    obtain ⟨output, -, h⟩ := Except.bind_eq_ok_iff.mp h
    cases h
    intro n hn
    cases hn
    refine .inr (.inl (List.mem_append.mpr ?_))
    rcases Option.or_eq_some_iff.mp hor with hr | ⟨-, hd⟩
    · subst hr
      exact .inl (mem_of_chosen? hc)
    · exact .inr (Option.mem_toList.mpr hd)
  · cases h

theorem SucceedState.leads {s : SucceedState} {context : Context} {input : Json} {step : Step}
    (h : s.step context input = .ok step) : (State.succeed s).Leads step := by
  unfold SucceedState.step at h
  obtain ⟨effective, -, h⟩ := Except.bind_eq_ok_iff.mp h
  obtain ⟨output, -, h⟩ := Except.bind_eq_ok_iff.mp h
  cases h
  intro n hn
  cases hn

theorem WaitState.leads {s : WaitState} {context : Context} {effective : Json} {step : Step}
    (h : s.resume context effective = .ok step) : (State.wait s).Leads step := by
  unfold WaitState.resume at h
  obtain ⟨output, -, h⟩ := Except.bind_eq_ok_iff.mp h
  cases h
  exact State.leads_of_transition rfl rfl

theorem ParallelState.workflow_of_jobs {s : ParallelState Workflow} {context : Context}
    {supply : Supply} {input : Json} {jobs : List Job} (h : s.jobs context supply input = .ok jobs) :
    ∀ job ∈ jobs, job.workflow ∈ (State.parallel s).nested := by
  unfold ParallelState.jobs at h
  obtain ⟨effective, -, h⟩ := Except.bind_eq_ok_iff.mp h
  obtain ⟨payload, -, h⟩ := Except.bind_eq_ok_iff.mp h
  cases h
  intro job hjob
  obtain ⟨w, hw, rfl⟩ := List.mem_map.mp hjob
  exact hw

theorem MapState.workflow_of_job {s : MapState Workflow} {context : Context} {supply : Supply}
    {effective item : Json} {index : Nat} {job : Job}
    (h : s.job context supply effective index item = .ok job) : job.workflow = s.iterator := by
  unfold MapState.job at h
  dsimp only at h
  split at h
  · cases h
    rfl
  · obtain ⟨payload, -, h⟩ := Except.bind_eq_ok_iff.mp h
    cases h
    rfl

theorem MapState.workflow_of_jobsFrom {s : MapState Workflow} {context : Context} {supply : Supply}
    {effective : Json} {index : Nat} {items : List Json} {jobs : List Job}
    (h : s.jobsFrom context supply effective index items = .ok jobs) :
    ∀ job ∈ jobs, job.workflow = s.iterator := by
  induction items generalizing index jobs with
  | nil =>
    cases h
    intro job hjob
    cases hjob
  | cons item items ih =>
    unfold MapState.jobsFrom at h
    obtain ⟨first, hf, h⟩ := Except.bind_eq_ok_iff.mp h
    obtain ⟨rest, hr, h⟩ := Except.bind_eq_ok_iff.mp h
    cases h
    intro job hjob
    rcases List.mem_cons.mp hjob with rfl | hjob
    · exact MapState.workflow_of_job hf
    · exact ih hr job hjob

theorem MapState.workflow_of_jobs {s : MapState Workflow} {context : Context} {supply : Supply}
    {input : Json} {jobs : List Job} (h : s.jobs context supply input = .ok jobs) :
    ∀ job ∈ jobs, job.workflow ∈ (State.map s).nested := by
  unfold MapState.jobs at h
  obtain ⟨effective, -, h⟩ := Except.bind_eq_ok_iff.mp h
  obtain ⟨items, -, h⟩ := Except.bind_eq_ok_iff.mp h
  intro job hjob
  exact List.mem_singleton.mpr (MapState.workflow_of_jobsFrom h job hjob)

/-! ## States -/

namespace State

/-- What follows the attempts of a state. -/
def leave (s : State Workflow) : Except Stop Step → Process (Except Stop Step)
  | .ok step => .note (.event (.exited s.name step.output)) (.done (.ok step))
  | .error stop => .done (.error stop)

/-- A state after the announcement that it was entered. -/
def body (s : State Workflow) (context : Context) (input : Json) : Process (Except Stop Step) :=
  (s.recover context input (.start s.retriers) 0).bind s.leave

theorem process_eq (s : State Workflow) (context : Context) (input : Json) :
    s.process context input = .note (.event (.entered s.name input)) (s.body context input) := by
  unfold process body
  congr 2

end State

/-- An attempt of a state keeps the contract. It fails by itself with a name that the library gives, and
with any other name only if its task reports it. -/
structure Process.Contract.Covers (c : Process.Contract (Except Stop Step)) (s : State Workflow) :
    Prop where
  attempt : ∀ attempt rest, c.notes (.attempt attempt) rest
  step : ∀ step, s.Leads step → c.ends (.ok step)
  failure : ∀ f, f.name ∈ ErrorName.builtins → c.ends (.error (.failure f))
  reported : ∀ name cause, c.replies (.answered (.error (.failed (some name) cause))) →
    c.ends (.error (.failure ⟨.ofText name, cause⟩))
  brokenOff : c.ends (.error .brokenOff)
  failState : ∀ error cause, c.ends (.error (.failState error cause))
  interrupted : c.wakes .interrupted → c.ends (.error .cancelled)
  replied : c.replies (.answered (.error .cancelled)) → c.ends (.error .cancelled)
  answered : ∀ stop, c.answers (.error stop) → c.ends (.error stop)
  jobs : ∀ job, job.workflow ∈ s.nested → c.jobs job

/-- The attempts of a state keep the contract, whatever they fail with. -/
structure Process.Contract.Admits (c : Process.Contract (Except Stop Step)) (s : State Workflow) :
    Prop where
  attempt : ∀ attempt rest, c.notes (.attempt attempt) rest
  step : ∀ step, s.Leads step → c.ends (.ok step)
  failure : ∀ f, c.ends (.error (.failure f))
  brokenOff : c.ends (.error .brokenOff)
  failState : ∀ error cause, c.ends (.error (.failState error cause))
  interrupted : c.wakes .interrupted → c.ends (.error .cancelled)
  replied : c.replies (.answered (.error .cancelled)) → c.ends (.error .cancelled)
  answered : ∀ stop, c.answers (.error stop) → c.ends (.error stop)
  jobs : ∀ job, job.workflow ∈ s.nested → c.jobs job

/-- Every part of a state keeps the contract. -/
structure Process.Contract.Fits (c : Process.Contract (Except Stop Step)) (s : State Workflow) : Prop
    extends c.Admits s where
  retried : ∀ f attempt delay rest, c.notes (.event (.retried s.name f attempt delay)) rest
  caught : ∀ f next rest, c.notes (.event (.caught s.name f next)) rest

theorem Process.Contract.Admits.covers {c : Process.Contract (Except Stop Step)} {s : State Workflow}
    (hc : c.Admits s) : c.Covers s :=
  { hc with
    failure := fun f _ => hc.failure f
    reported := fun _ _ _ => hc.failure _ }

theorem Process.Contract.Covers.inner {c : Process.Contract (Except Stop Step)} {s : State Workflow}
    (hc : c.Covers s) : c.inner.Covers s :=
  { hc with attempt := fun attempt _ rest => hc.attempt attempt rest }

theorem Process.Contract.Admits.inner {c : Process.Contract (Except Stop Step)} {s : State Workflow}
    (hc : c.Admits s) : c.inner.Admits s :=
  { hc with attempt := fun attempt _ rest => hc.attempt attempt rest }

theorem Process.Contract.Fits.inner {c : Process.Contract (Except Stop Step)} {s : State Workflow}
    (hc : c.Fits s) : c.inner.Fits s :=
  { hc.toAdmits.inner with
    retried := fun f attempt delay _ rest => hc.retried f attempt delay rest
    caught := fun f next _ rest => hc.caught f next rest }

namespace State

open Process

variable {c : Contract (Except Stop Step)} {s : State Workflow} {context : Context} {input : Json}

theorem ends_ofTrouble {α : Type} {e : Trouble} (hc : c.Covers s)
    (he : RaisesBuiltins (.error e : Except Trouble α)) : c.ends (.error (.ofTrouble e)) := by
  cases e with
  | failure f => exact hc.failure f (he f rfl)
  | overrun => exact hc.brokenOff

theorem keeps_attempt {r : Except Trouble Step} (hc : c.Covers s) (hb : RaisesBuiltins r)
    (hr : ∀ step, r = .ok step → s.Leads step) :
    (Activity.attempt r : Process (Except Stop Step)).Keeps c := by
  cases r with
  | ok step => exact hc.step step (hr step rfl)
  | error e => exact ends_ofTrouble hc hb

theorem result_eq_error {s : TaskState} {reply : Reply} {stop : Stop} (h : s.result reply = .error stop) :
    (∃ f, stop = .failure f ∧ f.name ∈ ErrorName.builtins) ∨
      (∃ name cause, stop = .failure ⟨.ofText name, cause⟩ ∧
        reply = .answered (.error (.failed (some name) cause))) ∨
      stop = .cancelled ∧ reply = .answered (.error .cancelled) := by
  have hbuiltin : ErrorName.timeout ∈ ErrorName.builtins ∧
      ErrorName.taskFailed ∈ ErrorName.builtins := by decide
  unfold TaskState.result at h
  split at h
  · cases h
    exact .inl ⟨_, rfl, hbuiltin.1⟩
  · cases h
  · cases h
    exact .inr (.inr ⟨rfl, rfl⟩)
  · cases h
    exact .inr (.inl ⟨_, _, rfl, rfl⟩)
  · cases h
    exact .inl ⟨_, rfl, hbuiltin.2⟩

/-- What comes after something that may be in trouble. -/
theorem keeps_attempt_bind {α : Type} {r : Except Trouble α} {f : α → Activity Step} (hc : c.Covers s)
    (hb : RaisesBuiltins r) (hf : ∀ a, r = .ok a → (f a : Process (Except Stop Step)).Keeps c) :
    ((Activity.attempt r >>= f : Activity Step) : Process (Except Stop Step)).Keeps c := by
  rw [Activity.attempt_bind]
  cases r with
  | ok a => exact hf a rfl
  | error e => exact ends_ofTrouble hc hb

theorem keeps_task {t : TaskState} (hc : c.Covers (.task t)) (present : Present) :
    ((State.task t).work context present input : Process (Except Stop Step)).Keeps c := by
  refine keeps_attempt_bind hc TaskState.raisesBuiltins_request fun request _ => ?_
  rw [Activity.call_bind]
  intro reply hreply
  dsimp only
  rw [Activity.ofExcept_bind]
  split
  · exact keeps_attempt hc raisesBuiltins_complete fun _ h =>
      leads_of_transition rfl (complete_transition h)
  · next stop hstop =>
    rcases result_eq_error hstop with ⟨f, rfl, hf⟩ | ⟨name, cause, rfl, rfl⟩ | ⟨rfl, rfl⟩
    · exact hc.failure f hf
    · exact hc.reported name cause hreply
    · exact hc.replied hreply

theorem keeps_wait {t : WaitState} (hc : c.Covers (.wait t)) (present : Present) :
    ((State.wait t).work context present input : Process (Except Stop Step)).Keeps c := by
  refine keeps_attempt_bind hc WaitState.raisesBuiltins_pause fun pause _ => ?_
  obtain ⟨effective, duration⟩ := pause
  dsimp only
  rw [Activity.sleep_bind]
  intro wake hwake
  cases wake with
  | elapsed => exact keeps_attempt hc WaitState.raisesBuiltins_resume fun _ => WaitState.leads
  | interrupted => exact hc.interrupted hwake

/-- What a state does that starts lanes, and goes on with their outputs. -/
theorem keeps_lanes {jobs : Except Trouble (List Job)} {limit : Nat}
    {settle : List Json → Except Trouble Step} (hc : c.Covers s) (hb : RaisesBuiltins jobs)
    (hjobs : ∀ js, jobs = .ok js → ∀ job ∈ js, job.workflow ∈ s.nested)
    (hsettle : ∀ outs, RaisesBuiltins (settle outs))
    (hleads : ∀ outs step, settle outs = .ok step → s.Leads step) :
    ((do
      let js ← Activity.attempt jobs
      let outs ← Activity.fork js limit
      Activity.attempt (settle outs) : Activity Step) : Process (Except Stop Step)).Keeps c := by
  refine keeps_attempt_bind hc hb fun js hjs => ?_
  rw [Activity.fork_bind]
  refine ⟨fun job hjob => hc.jobs job (hjobs js hjs job hjob), fun answer hanswer => ?_⟩
  cases answer with
  | ok outs => exact keeps_attempt hc (hsettle outs) (hleads outs)
  | error stop => exact hc.answered stop hanswer

/-- What a state does in one attempt keeps a contract that covers it. -/
theorem keeps_work (hc : c.Covers s) (present : Present) :
    (s.work context present input : Process (Except Stop Step)).Keeps c := by
  cases s with
  | pass => exact keeps_attempt hc PassState.raisesBuiltins_step fun _ => PassState.leads
  | choice => exact keeps_attempt hc ChoiceState.raisesBuiltins_step fun _ => ChoiceState.leads
  | succeed => exact keeps_attempt hc SucceedState.raisesBuiltins_step fun _ => SucceedState.leads
  | fail => exact hc.failState _ _
  | task => exact keeps_task hc present
  | wait => exact keeps_wait hc present
  | parallel =>
    exact keeps_lanes hc ParallelState.raisesBuiltins_jobs (fun _ => ParallelState.workflow_of_jobs)
      (fun _ => raisesBuiltins_complete) fun _ _ h => leads_of_transition rfl (complete_transition h)
  | map =>
    exact keeps_lanes hc MapState.raisesBuiltins_jobs (fun _ => MapState.workflow_of_jobs)
      (fun _ => raisesBuiltins_complete) fun _ _ h => leads_of_transition rfl (complete_transition h)

theorem keeps_attemptOnce (hc : c.Covers s) (retries : Nat) :
    (s.attemptOnce context retries input).Keeps c := fun present =>
  ⟨hc.attempt _ _, keeps_work hc present⟩

theorem caught_leads {catcher : Catcher} {f : Failure} {step : Step}
    (hmem : catcher ∈ s.catchers) (h : caught catcher context input f = .ok step) : s.Leads step := by
  unfold caught at h
  split at h
  · cases h
    intro n hn
    cases hn
    refine .inr (.inr ?_)
    unfold catchers at hmem
    unfold catchTargets
    cases hr : s.recovery? with
    | none =>
      rw [hr] at hmem
      cases hmem
    | some r =>
      rw [hr] at hmem
      exact List.mem_map_of_mem hmem
  · cases h

theorem keeps_handle {f : Failure} (hc : c.Covers s) (hf : c.ends (.error (.failure f)))
    (hcaught : ∀ next rest, c.notes (.event (.caught s.name f next)) rest) :
    (s.handle context input f).Keeps c := by
  unfold handle
  split
  · next catcher hfind =>
    refine ⟨hcaught catcher.next _, ?_⟩
    cases hstep : caught catcher context input f with
    | ok step => exact hc.step step (caught_leads (List.mem_of_find?_eq_some hfind) hstep)
    | error stop =>
      unfold caught at hstep
      split at hstep
      · cases hstep
      · next e he =>
        cases hstep
        exact hc.failure e (name_of_merge he)
  · exact hf

/-- The attempts of a state keep a contract, however many there are, if it covers each of them, and allows
what follows a failure that it allows. -/
theorem keeps_recover_of_covers (hc : c.Covers s)
    (hretried : ∀ f, c.ends (.error (.failure f)) →
      ∀ attempt delay rest, c.notes (.event (.retried s.name f attempt delay)) rest)
    (hhandle : ∀ f, c.ends (.error (.failure f)) → (s.handle context input f).Keeps c) (tally : Tally)
    (retries : Nat) : (s.recover context input tally retries).Keeps c := by
  rw [recover]
  refine Keeps.bind (keeps_attemptOnce hc.inner retries) fun result hresult => ?_
  split
  · next f =>
    split
    · next delay tally' hretry =>
      split
      · refine ⟨hretried f hresult (retries + 1) delay _, fun wake hwake => ?_⟩
        cases wake with
        | elapsed =>
          have := Tally.remaining_nextRetry hretry
          exact keeps_recover_of_covers hc hretried hhandle tally' (retries + 1)
        | interrupted => exact hc.interrupted hwake
      · exact hc.brokenOff
    · exact hhandle f hresult
  · exact hresult
termination_by tally.remaining

theorem keeps_recover_of_handle (hc : c.Admits s)
    (hretried : ∀ f attempt delay rest, c.notes (.event (.retried s.name f attempt delay)) rest)
    (hhandle : ∀ f, (s.handle context input f).Keeps c) (tally : Tally) (retries : Nat) :
    (s.recover context input tally retries).Keeps c :=
  keeps_recover_of_covers hc.covers (fun f _ => hretried f) (fun f _ => hhandle f) tally retries

theorem keeps_recover (hc : c.Fits s) (tally : Tally) (retries : Nat) :
    (s.recover context input tally retries).Keeps c :=
  keeps_recover_of_handle hc.toAdmits hc.retried
    (fun f => keeps_handle hc.covers (hc.failure f) (hc.caught f)) tally retries

theorem keeps_body_of_recover
    (hrecover : (s.recover context input (.start s.retriers) 0).Keeps c.inner)
    (hexit : ∀ step, c.ends (.ok step) →
      c.notes (.event (.exited s.name step.output)) (.done (.ok step))) :
    (s.body context input).Keeps c := by
  refine Keeps.bind hrecover fun result hresult => ?_
  cases result with
  | ok step => exact ⟨hexit step hresult, hresult⟩
  | error stop => exact hresult

/-- **A state keeps a contract that fits it**, from its entry to its exit. -/
theorem keeps_body (hc : c.Fits s) (hexit : ∀ step, c.ends (.ok step) →
    c.notes (.event (.exited s.name step.output)) (.done (.ok step))) :
    (s.body context input).Keeps c :=
  keeps_body_of_recover (keeps_recover hc.inner _ _) hexit

end State

end StepFlow
