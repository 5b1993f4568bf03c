import StepFlow.Proofs.Execution.Replay

/-!
# What attempts see of their run

An attempt sees a context object with sections about the run, about its state, and about the item that is
being worked on. The sections are put in place when a run starts, when an attempt starts, and when a lane
starts for an item. Nothing else ever changes a context, so every attempt sees where it is.

* `Process.Heeds`: a contract that may refer to all that was written down before;
* `State.heeds_body`: what a state writes down of its attempts, and which lanes it starts;
* `Apt`, `aware`: the protocol of a thread all of whose attempts see what they should;
* `Enclosing`: the iteration that a thread runs in;
* **`attempts_see_surroundings`**.
-/

namespace StepFlow

/-! ## Sections -/

theorem Context.member?_withSection (c : Context) (name key : String) (content : Json) :
    (c.withSection name content).value.member? key =
      if name = key then some content else c.value.member? key := by
  unfold withSection Json.member?
  dsimp only
  rw [Keyed.find?_insert]
  cases c.value <;> rfl

def runSection (identifier : String) (input : Json) (start : Timestamp) : Json :=
  .ofMembers [("Id", .str identifier), ("Input", input), ("StartTime", .str start.render)]

/-- The section about an attempt of a state. -/
def stateSection (state : String) (retries : Nat) (entered : Timestamp) : Json :=
  .ofMembers [("Name", .str state), ("EnteredTime", .str entered.render), ("RetryCount", .nat retries)]

/-- The section about an item of an array. -/
def itemSection (index : Nat) (item : Json) : Json :=
  .ofMembers [("Item", .ofMembers [("Index", .nat index), ("Value", item)])]

/-- The context holds the section about the run, and the one about an item if there is an item. -/
structure Context.Located (about : Json) (item : Option (Nat × Json)) (c : Context) : Prop where
  run : c.value.member? "Execution" = some about
  item : c.value.member? "Map" = item.map fun e => itemSection e.1 e.2

namespace Context

variable {about : Json} {item : Option (Nat × Json)} {c : Context}

theorem located_ofRun (identifier : String) (input : Json) (start : Timestamp) :
    (ofRun identifier input start).Located (runSection identifier input start) none where
  run := by
    rw [ofRun, member?_withSection, if_pos rfl]
    rfl
  item := by
    rw [ofRun, member?_withSection, if_neg (by decide)]
    rfl

theorem Located.atState (h : c.Located about item) (state : String) (retries : Nat)
    (now : Timestamp) : (c.atState state retries now).Located about item where
  run := by rw [Context.atState, member?_withSection, if_neg (by decide), h.run]
  item := by rw [Context.atState, member?_withSection, if_neg (by decide), h.item]

theorem Located.atItem (h : c.Located about item) (index : Nat) (value : Json) :
    (c.atItem index value).Located about (some (index, value)) where
  run := by rw [Context.atItem, member?_withSection, if_neg (by decide), h.run]
  item := by
    rw [Context.atItem, member?_withSection, if_pos rfl]
    rfl

end Context

/-! ## Lanes -/

/-- What a state starts lanes for, in an attempt that has a context, a supply and an input. -/
def State.Launches (s : State Workflow) (context : Context) (supply : Supply) (input : Json)
    (jobs : List Job) : Prop :=
  match s with
  | .parallel s => s.jobs context supply input = .ok jobs
  | .map s => s.jobs context supply input = .ok jobs
  | _ => False

theorem ParallelState.context_of_jobs {s : ParallelState Workflow} {context : Context}
    {supply : Supply} {input : Json} {jobs : List Job} (h : s.jobs context supply input = .ok jobs) :
    ∀ job ∈ jobs, job.context = context := by
  unfold ParallelState.jobs at h
  obtain ⟨effective, -, h⟩ := Except.bind_eq_ok_iff.mp h
  obtain ⟨payload, -, h⟩ := Except.bind_eq_ok_iff.mp h
  cases h
  intro job hjob
  obtain ⟨w, -, rfl⟩ := List.mem_map.mp hjob
  rfl

namespace MapState

variable {s : MapState Workflow} {context : Context} {supply : Supply}

theorem context_of_job {effective item : Json} {index : Nat} {job : Job}
    (h : s.job context supply effective index item = .ok job) :
    job.context = context.atItem index item := by
  unfold MapState.job at h
  dsimp only at h
  split at h
  · cases h
    rfl
  · obtain ⟨payload, -, h⟩ := Except.bind_eq_ok_iff.mp h
    cases h
    rfl

/-- The lanes of a map state are those of its items, one after the other. -/
theorem context_of_jobsFrom {effective : Json} {index k : Nat} {items : List Json} {jobs : List Job}
    {job : Job} (h : s.jobsFrom context supply effective index items = .ok jobs)
    (hk : jobs[k]? = some job) :
    ∃ item, items[k]? = some item ∧ job.context = context.atItem (index + k) item := by
  induction items generalizing index k jobs with
  | nil =>
    cases h
    cases hk
  | cons item items ih =>
    unfold MapState.jobsFrom at h
    obtain ⟨first, hf, h⟩ := Except.bind_eq_ok_iff.mp h
    obtain ⟨rest, hr, h⟩ := Except.bind_eq_ok_iff.mp h
    cases h
    cases k with
    | zero =>
      cases hk
      exact ⟨item, rfl, context_of_job hf⟩
    | succ k =>
      obtain ⟨item', hitem, hc⟩ := ih hr hk
      exact ⟨item', hitem, by rw [hc, Nat.add_right_comm, Nat.add_assoc]⟩

/-- The items that a map state goes through in an attempt with a context and an input. -/
def Selects (s : MapState Workflow) (context : Context) (input : Json) (items : List Json) : Prop :=
  ∃ effective, s.paths.effectiveInput context input = .ok effective ∧
    s.items context effective = .ok items

theorem Selects.unique {input : Json} {items items' : List Json} (h : s.Selects context input items)
    (h' : s.Selects context input items') : items = items' := by
  obtain ⟨effective, he, hi⟩ := h
  obtain ⟨effective', he', hi'⟩ := h'
  cases he.symm.trans he'
  cases hi.symm.trans hi'
  rfl

theorem context_of_jobs {input : Json} {jobs : List Job} (h : s.jobs context supply input = .ok jobs) :
    ∃ items, s.Selects context input items ∧ ∀ k job, jobs[k]? = some job →
      ∃ item, items[k]? = some item ∧ job.context = context.atItem k item := by
  unfold MapState.jobs at h
  obtain ⟨effective, he, h⟩ := Except.bind_eq_ok_iff.mp h
  obtain ⟨items, hi, h⟩ := Except.bind_eq_ok_iff.mp h
  refine ⟨items, ⟨effective, he, hi⟩, fun k job hk => ?_⟩
  obtain ⟨item, hitem, hc⟩ := context_of_jobsFrom h hk
  exact ⟨item, hitem, by rw [hc, Nat.zero_add]⟩

end MapState

/-! ## Contracts that know what was written down -/

namespace Process

/-- What a process promises, given what was written down before, the latest first. -/
structure Chronicle (α : Type) where
  notes : List Note → Note → Prop
  jobs : List Note → List Job → Prop
  ends : List Note → Prop

/-- The process keeps its promises, whatever it is answered. -/
def Heeds {α : Type} (c : Chronicle α) (written : List Note) : Process α → Prop
  | done _ => c.ends written
  | note n rest => c.notes written n ∧ rest.Heeds c (n :: written)
  | look rest => ∀ present, (rest present).Heeds c written
  | sleep _ rest => ∀ wake, (rest wake).Heeds c written
  | call _ _ rest => ∀ reply, (rest reply).Heeds c written
  | fork jobs _ rest => c.jobs written jobs ∧ ∀ answer, (rest answer).Heeds c written

variable {α : Type} {c : Chronicle α} {written : List Note} {p p' : Process α}

theorem Heeds.bind {P : List Note → Prop} {f : α → Process α}
    (hp : p.Heeds { c with ends := P } written)
    (hf : ∀ written' a, P written' → (f a).Heeds c written') : (p.bind f).Heeds c written := by
  induction p generalizing written with
  | done a => exact hf written a hp
  | note n rest ih => exact ⟨hp.1, ih hp.2⟩
  | look rest ih => exact fun present => ih present (hp present)
  | sleep d rest ih => exact fun wake => ih wake (hp wake)
  | call request limit rest ih => exact fun reply => ih reply (hp reply)
  | fork jobs limit rest ih => exact ⟨hp.1, fun answer => ih answer (hp.2 answer)⟩

theorem Heeds.resume (h : p.Heeds c written) (hr : p.Resumes p') : p'.Heeds c written := by
  cases hr with
  | look present => exact h present
  | sleep wake => exact h wake
  | call reply => exact h reply
  | fork answer => exact h.2 answer

end Process

/-- The number of retries that were announced since a state was entered. -/
def retriesIn : List Note → Nat
  | [] => 0
  | .event (.entered _ _) :: _ => 0
  | .event (.retried _ _ _ _) :: rest => retriesIn rest + 1
  | _ :: rest => retriesIn rest

/-- The attempt is one of the state that was entered last, on the right number of retries, which is one
that can be counted, and its context is the one of the thread with the section about the attempt. -/
structure Apt (context : Context) (written : List Note) (a : Attempt) : Prop where
  inside : inside? written = some a.state
  retries : a.retries = retriesIn written
  counted : a.retries ≤ maxCount
  context : ∃ entered, a.context = context.atState a.state a.retries entered

namespace State

variable {s : State Workflow} {context : Context} {input : Json} {written : List Note}

/-- What a state writes down of its attempts, and which lanes it starts. Lanes are started right after an
attempt has begun. -/
def chronicle (s : State Workflow) (context : Context) :
    Process.Chronicle (Except Stop Step) where
  notes written
    | .attempt a => a.state = s.name ∧ Apt context written a
    | .event (.entered _ _) => False
    | .event _ => True
  jobs written jobs := ∃ a earlier supply, written = .attempt a :: earlier ∧
    s.Launches a.context supply a.input jobs
  ends _ := True

section work

variable {c : Process.Chronicle (Except Stop Step)}

theorem heeds_attempt {r : Except Trouble Step} (he : c.ends written) :
    (Activity.attempt r : Process (Except Stop Step)).Heeds c written := by
  cases r <;> exact he

theorem heeds_attempt_bind {α : Type} {r : Except Trouble α} {f : α → Activity Step}
    (he : c.ends written) (hf : ∀ a, r = .ok a → (f a : Process (Except Stop Step)).Heeds c written) :
    ((Activity.attempt r >>= f : Activity Step) : Process (Except Stop Step)).Heeds c written := by
  rw [Activity.attempt_bind]
  cases r with
  | ok a => exact hf a rfl
  | error e => exact he

theorem heeds_lanes {jobs : Except Trouble (List Job)} {limit : Nat}
    {settle : List Json → Except Trouble Step} (hj : ∀ js, jobs = .ok js → c.jobs written js)
    (he : c.ends written) :
    ((do
      let js ← Activity.attempt jobs
      let outs ← Activity.fork js limit
      Activity.attempt (settle outs) : Activity Step) : Process (Except Stop Step)).Heeds c written := by
  refine heeds_attempt_bind he fun js hjs => ?_
  rw [Activity.fork_bind]
  refine ⟨hj js hjs, fun answer => ?_⟩
  cases answer with
  | ok outs => exact heeds_attempt he
  | error stop => exact he

theorem heeds_work {present : Present}
    (hj : ∀ jobs, s.Launches context present.supply input jobs → c.jobs written jobs)
    (he : c.ends written) :
    (s.work context present input : Process (Except Stop Step)).Heeds c written := by
  cases s with
  | pass | choice | succeed => exact heeds_attempt he
  | fail => exact he
  | task =>
    refine heeds_attempt_bind he fun request _ => ?_
    rw [Activity.call_bind]
    intro reply
    dsimp only
    rw [Activity.ofExcept_bind]
    split
    · exact heeds_attempt he
    · exact he
  | wait =>
    refine heeds_attempt_bind he fun pause _ => ?_
    obtain ⟨effective, duration⟩ := pause
    dsimp only
    rw [Activity.sleep_bind]
    intro wake
    cases wake with
    | elapsed => exact heeds_attempt he
    | interrupted => exact he
  | parallel => exact heeds_lanes hj he
  | map => exact heeds_lanes hj he

end work

theorem heeds_handle (f : Failure) :
    (s.handle context input f).Heeds (s.chronicle context) written := by
  unfold handle
  split
  · exact ⟨trivial, trivial⟩
  · exact trivial

/-- The attempts of a state see how often it was retried, however many there are. -/
theorem heeds_recover {written : List Note} (hi : inside? written = some s.name) (tally : Tally)
    (retries : Nat) (hr : retriesIn written = retries) (hcount : retries ≤ maxCount) :
    (s.recover context input tally retries).Heeds (s.chronicle context) written := by
  rw [recover]
  refine Process.Heeds.bind (P := fun written' => ∃ a, written' = .attempt a :: written)
    (fun present => ?_) ?_
  · refine ⟨⟨rfl, ⟨hi, hr.symm, hcount, present.time, rfl⟩⟩, heeds_work (fun jobs hjobs => ?_) ⟨_, rfl⟩⟩
    exact ⟨_, written, _, rfl, hjobs⟩
  · rintro _ result ⟨a, rfl⟩
    split
    · next f =>
      split
      · next delay tally' hretry =>
        split
        · next hlt =>
          refine ⟨trivial, fun wake => ?_⟩
          cases wake with
          | elapsed =>
            have := Tally.remaining_nextRetry hretry
            have hi' : inside? (.event (.retried s.name f (retries + 1) delay) :: .attempt a :: written) =
                some s.name := hi
            have hr' : retriesIn (.event (.retried s.name f (retries + 1) delay) :: .attempt a ::
                written) = retries + 1 := congrArg Nat.succ hr
            exact heeds_recover hi' tally' (retries + 1) hr' hlt
          | interrupted => exact trivial
        · exact trivial
      · exact heeds_handle f
    · exact trivial
termination_by tally.remaining

/-- **A state that was just entered writes down attempts that see what they should.** -/
theorem heeds_body (hi : inside? written = some s.name) (hr : retriesIn written = 0) :
    (s.body context input).Heeds (s.chronicle context) written := by
  refine Process.Heeds.bind (heeds_recover hi _ 0 hr (Nat.zero_le _)) fun written' result _ => ?_
  cases result with
  | ok step => exact ⟨trivial, trivial⟩
  | error stop => exact trivial

end State

/-! ## Threads -/

variable {w : Workflow} {context : Context} {written : List Note}

/-- Every attempt of the thread is one of a state of its workflow, and sees what it should. -/
def Aware (w : Workflow) (context : Context) (written : List Note) : Prop :=
  ∀ later a earlier, written = later ++ .attempt a :: earlier →
    Apt context earlier a ∧ ∃ key s, w.state? key = some s ∧ a.state = s.name

theorem aware_nil : Aware w context [] := fun later a earlier h => by
  cases later <;> cases h

theorem Aware.cons {n : Note} (h : Aware w context written)
    (hn : ∀ a, n = .attempt a →
      Apt context written a ∧ ∃ key s, w.state? key = some s ∧ a.state = s.name) :
    Aware w context (n :: written) := by
  intro later a earlier heq
  cases later with
  | nil =>
    cases heq
    exact hn a rfl
  | cons m later =>
    cases heq
    exact h later a earlier rfl

/-- What a thread does in a state: all of it, or the rest. -/
def Attending (w : Workflow) (context : Context) (written : List Note) (name : String)
    (p : StateProcess) : Prop :=
  ∃ s, w.state? name = some s ∧
    ((∃ input, p = s.process context input) ∨ p.Heeds (s.chronicle context) written)

theorem Attending.resume {name : String} {p p' : StateProcess} (h : Attending w context written name p)
    (hr : p.Resumes p') : Attending w context written name p' := by
  obtain ⟨s, hs, ⟨input, rfl⟩ | hp⟩ := h
  · rw [State.process_eq] at hr
    cases hr
  · exact ⟨s, hs, .inr (hp.resume hr)⟩

theorem Attending.write {name : String} {n : Note} {rest : StateProcess}
    (haware : Aware w context written) (h : Attending w context written name (.note n rest)) :
    Aware w context (n :: written) ∧ Attending w context (n :: written) name rest := by
  obtain ⟨s, hs, ⟨input, hp⟩ | ⟨hn, hrest⟩⟩ := h
  · rw [State.process_eq] at hp
    cases hp
    exact ⟨haware.cons fun _ he => (by cases he), s, hs, .inr (State.heeds_body rfl rfl)⟩
  · refine ⟨haware.cons fun a ha => ?_, s, hs, .inr hrest⟩
    subst ha
    exact ⟨hn.2, name, s, hs, hn.1⟩

/-- **The protocol of a thread all of whose attempts see what they should.** -/
def aware (w : Workflow) (context : Context) : Protocol w context where
  waiting written _ := Aware w context written
  entering written _ _ := Aware w context written
  running written name p := Aware w context written ∧ Attending w context written name p
  ended written _ := Aware w context written
  start h := h
  enter h hs := ⟨h, _, hs, .inl ⟨_, rfl⟩⟩
  write h := h.2.write h.1
  resume h hr := ⟨h.1, h.2.resume hr⟩
  next h := h.1
  done h := h.1
  stop h := h.1
  cancel h := h
  missing h _ := h

theorem Protocol.Holds.aware {phase : Phase} (h : (aware w context).Holds written phase) :
    Aware w context written := by
  rcases h.cases with ⟨_, _, h⟩ | ⟨_, ⟨_, _, h⟩ | ⟨_, _, h⟩⟩
  · exact h
  · exact h
  · exact h.1

theorem launches_of_holds {ticket limit : Nat} {name : String} {jobs : List Job}
    {rest : Except Stop (List Json) → StateProcess}
    (h : (aware w context).Holds written (.running ticket name (.fork jobs limit rest))) :
    ∃ s a earlier supply entered, w.state? name = some s ∧ written = .attempt a :: earlier ∧
      a.context = context.atState a.state a.retries entered ∧
      s.Launches a.context supply a.input jobs := by
  obtain ⟨haware, s, hs, ⟨input, hp⟩ | ⟨⟨a, earlier, supply, rfl, hl⟩, -⟩⟩ := h
  · rw [State.process_eq] at hp
    cases hp
  · obtain ⟨entered, hc⟩ := (haware [] a earlier rfl).1.context
    exact ⟨s, a, earlier, supply, entered, hs, rfl, hc, hl⟩

section run

variable {allowed : Bool → Reply → Prop} {σ : Type} {setting : Setting σ} {memory : σ}
  {identifier : String} {input : Json} {c c' d : Scene} {i : Nat} {t : Thread}

theorem aware_of_steps (h : Scene.Steps allowed (Run.start setting memory identifier w input).scene c) :
    c.Each fun _ t written => (aware t.workflow t.context).Follows t written := by
  refine Scene.Steps.each (fun d l u u' new _ hd hu hb => ?_) (fun d l u _ _ hs => ?_) h Run.tidy_start
    fun l t ht => ?_
  · have := (hd l u hu).becomes hb
    rwa [← hb.place.1, ← hb.place.2.1] at this
  · obtain ⟨i, v, ticket, name, jobs, limit, rest, lane, job, ticket', -, -, -, -, rfl⟩ := hs
    exact ⟨rfl, rfl, aware_nil⟩
  · obtain ⟨-, rfl⟩ := Run.start_eq_some.mp ht
    exact ⟨rfl, rfl, aware_nil⟩

/-! ## Iterations -/

/-- The iteration that a thread runs in, the innermost one: its index, and the item. The first thread runs
in none, a branch in the one of its owner, and a lane of a map state in one of its own, for an item that
the latest attempt of the state selected. -/
inductive Enclosing (allowed : Bool → Reply → Prop) (c : Scene) :
    Scene → Nat → Option (Nat × Json) → Prop where
  | root {c' : Scene} : Enclosing allowed c c' 0 none
  | branch {c' d : Scene} {i k ticket ticket' ticket'' limit : Nat} {t : Thread} {name : String}
      {jobs : List Job} {rest : Except Stop (List Json) → StateProcess}
      {s : ParallelState Workflow} {m : Option (Nat × Json)} :
      Scene.Steps allowed c d → d.threads[i]? = some t →
      t.phase = .running ticket name (.fork jobs limit rest) → limit ≤ FanOut.maxLimit →
      k < jobs.length → t.workflow.state? name = some (.parallel s) → Enclosing allowed c d i m →
      Scene.Steps allowed (d.spawn i t ticket' ticket'' limit jobs name rest) c' →
      Enclosing allowed c c' (d.threads.size + k) m
  | item {c' d : Scene} {i k ticket ticket' ticket'' limit : Nat} {t : Thread} {name : String}
      {jobs : List Job} {rest : Except Stop (List Json) → StateProcess} {s : MapState Workflow}
      {a : Attempt} {earlier : List Note} {items : List Json} {item : Json} {m : Option (Nat × Json)} :
      Scene.Steps allowed c d → d.threads[i]? = some t →
      t.phase = .running ticket name (.fork jobs limit rest) → limit ≤ FanOut.maxLimit →
      k < jobs.length → t.workflow.state? name = some (.map s) →
      d.notes i = .attempt a :: earlier → s.Selects a.context a.input items → items[k]? = some item →
      Enclosing allowed c d i m →
      Scene.Steps allowed (d.spawn i t ticket' ticket'' limit jobs name rest) c' →
      Enclosing allowed c c' (d.threads.size + k) (some (k, item))

theorem Enclosing.steps {m : Option (Nat × Json)} (h : Enclosing allowed c d i m)
    (hs : Scene.Steps allowed d c') : Enclosing allowed c c' i m := by
  cases h with
  | root => exact .root
  | branch hd ht hp hl hk hst hm hrest => exact .branch hd ht hp hl hk hst hm (hrest.trans hs)
  | item hd ht hp hl hk hst hn hsel hitem hm hrest =>
    exact .item hd ht hp hl hk hst hn hsel hitem hm (hrest.trans hs)

/-- Every thread runs in some iteration, or in none. -/
theorem exists_enclosing (h : Scene.Steps allowed (Run.start setting memory identifier w input).scene c)
    (ht : c.threads[i]? = some t) :
    ∃ m, Enclosing allowed (Run.start setting memory identifier w input).scene c i m := by
  induction h generalizing i t with
  | refl =>
    obtain ⟨rfl, -⟩ := Run.start_eq_some.mp ht
    exact ⟨none, .root⟩
  | @tail d d' hsteps hstep ih =>
    by_cases hi : i < d.threads.size
    · obtain ⟨m, hm⟩ := ih (Array.getElem?_eq_getElem hi)
      exact ⟨m, hm.steps hstep.steps⟩
    · obtain ⟨j, ticket, ticket', ticket'', limit, u, name, jobs, rest, hu, hp, hlimit, rfl⟩ :=
        hstep.eq_spawn (Nat.le_of_not_lt hi) ht
      rw [Scene.getElem?_spawn, if_neg hi] at ht
      obtain ⟨job, hjob, -⟩ := Option.map_eq_some_iff.mp ht
      have hk : i - d.threads.size < jobs.length := (List.getElem?_eq_some_iff.mp hjob).1
      obtain ⟨m, hm⟩ := ih hu
      have hholds := (aware_of_steps hsteps j u hu).phase
      rw [hp] at hholds
      obtain ⟨s, a, earlier, supply, entered, hs, hn, -, hl⟩ := launches_of_holds hholds
      rw [← Nat.add_sub_cancel' (Nat.le_of_not_lt hi)]
      cases s with
      | parallel s => exact ⟨m, .branch hsteps hu hp hlimit hk hs hm .refl⟩
      | map s =>
        obtain ⟨items, hsel, hitems⟩ := MapState.context_of_jobs hl
        obtain ⟨item, hitem, -⟩ := hitems _ job hjob
        exact ⟨_, .item hsteps hu hp hlimit hk hs hn hsel hitem hm .refl⟩
      | _ => exact hl.elim

/-- The context of a thread tells which run the thread belongs to, and which iteration it runs in. -/
theorem Enclosing.located {m : Option (Nat × Json)}
    (hm : Enclosing allowed (Run.start setting memory identifier w input).scene c i m)
    (h : Scene.Steps allowed (Run.start setting memory identifier w input).scene c) :
    ∃ t, c.threads[i]? = some t ∧
      t.context.Located (runSection identifier input (setting.clock 0)) m := by
  -- a lane has the context of its job, and a thread keeps its context
  have hlane : ∀ {d : Scene} {i k ticket' ticket'' limit : Nat} {t : Thread} {name : String}
      {jobs : List Job} {rest : Except Stop (List Json) → StateProcess} {job : Job} {c' : Scene},
      jobs[k]? = some job → Scene.Steps allowed (d.spawn i t ticket' ticket'' limit jobs name rest) c' →
      ∃ u, c'.threads[d.threads.size + k]? = some u ∧ u.context = job.context := fun hjob hs => by
    obtain ⟨u, hu, -, hc, -⟩ := hs.place (getElem?_spawn_lane hjob)
    exact ⟨u, hu, hc⟩
  induction hm with
  | root =>
    obtain ⟨t, ht, -, hc, -⟩ := h.place (Run.start_eq_some.mpr ⟨rfl, rfl⟩)
    refine ⟨t, ht, ?_⟩
    rw [hc]
    exact Context.located_ofRun identifier input (setting.clock 0)
  | @branch c' d i k ticket ticket' ticket'' limit t name jobs rest s m hd ht hp hl hk hst _ hs ih =>
    obtain ⟨t', ht', hloc⟩ := ih hd
    cases ht.symm.trans ht'
    have hholds := (aware_of_steps hd i t ht).phase
    rw [hp] at hholds
    obtain ⟨s', a, earlier, supply, entered, hs', -, hctx, hlaunch⟩ := launches_of_holds hholds
    cases hst.symm.trans hs'
    obtain ⟨u, hu, hc⟩ := hlane (List.getElem?_eq_getElem hk) hs
    refine ⟨u, hu, ?_⟩
    rw [hc, ParallelState.context_of_jobs hlaunch _ (List.getElem_mem hk), hctx]
    exact hloc.atState _ _ _
  | @item c' d i k ticket ticket' ticket'' limit t name jobs rest s a earlier items item m hd ht hp hl hk
      hst hn hsel hitem _ hs ih =>
    obtain ⟨t', ht', hloc⟩ := ih hd
    cases ht.symm.trans ht'
    have hholds := (aware_of_steps hd i t ht).phase
    rw [hp] at hholds
    obtain ⟨s', a', earlier', supply, entered, hs', hn', hctx, hlaunch⟩ := launches_of_holds hholds
    cases hst.symm.trans hs'
    cases hn.symm.trans hn'
    obtain ⟨items', hsel', hitems⟩ := MapState.context_of_jobs hlaunch
    cases hsel.unique hsel'
    obtain ⟨item', hitem', hjob⟩ := hitems k _ (List.getElem?_eq_getElem hk)
    cases hitem.symm.trans hitem'
    obtain ⟨u, hu, hc⟩ := hlane (List.getElem?_eq_getElem hk) hs
    refine ⟨u, hu, ?_⟩
    rw [hc, hjob, hctx]
    exact (hloc.atState _ _ _).atItem k item

/-- What an attempt sees, given what was written down before it: the run it belongs to, the state that was
entered last with the number of its retries since then, and the iteration if there is one. -/
structure Attempt.Sees (a : Attempt) (about : Json) (item : Option (Nat × Json))
    (earlier : List Note) : Prop where
  run : a.context.value.member? "Execution" = some about
  inside : inside? earlier = some a.state
  counted : retriesIn earlier ≤ maxCount
  state : ∃ entered,
    a.context.value.member? "State" = some (stateSection a.state (retriesIn earlier) entered)
  item : a.context.value.member? "Map" = item.map fun e => itemSection e.1 e.2

theorem Apt.sees {context : Context} {earlier : List Note} {a : Attempt} {about : Json}
    {item : Option (Nat × Json)} (h : Apt context earlier a) (hl : context.Located about item) :
    a.Sees about item earlier := by
  obtain ⟨entered, hc⟩ := h.context
  have hhere : a.context.Located about item := by
    rw [hc]
    exact hl.atState _ _ _
  refine ⟨hhere.run, h.inside, h.retries ▸ h.counted, ⟨entered, ?_⟩, hhere.item⟩
  rw [hc, Context.atState, Context.member?_withSection, if_pos rfl, h.retries]
  rfl

/-- **Every attempt sees where it is**, at any depth, in every order of steps, whatever the tasks reply,
and whatever results are written to a path into the context object. Its context holds the section about
the run as it was at the start; the section about its own state, with the number of retries that this
state has seen since it was entered, which never is more than can be counted; and the section about the
innermost iteration that it runs in, and no such section if it runs in none. An execution consists of
such steps. -/
theorem attempts_see_surroundings {σ : Type} (setting : Setting σ) (memory : σ) (identifier : String)
    (w : Workflow) (input : Json) :
    (∀ c i t, Scene.Steps (fun _ _ => True) (Run.start setting memory identifier w input).scene c →
      c.threads[i]? = some t →
      ∃ m, Enclosing (fun _ _ => True) (Run.start setting memory identifier w input).scene c i m) ∧
    (∀ c i m later a earlier,
      Scene.Steps (fun _ _ => True) (Run.start setting memory identifier w input).scene c →
      Enclosing (fun _ _ => True) (Run.start setting memory identifier w input).scene c i m →
      c.notes i = later ++ .attempt a :: earlier →
      a.Sees (runSection identifier input (setting.clock 0)) m earlier ∧
        ∃ t key s, c.threads[i]? = some t ∧ t.workflow.state? key = some s ∧ a.state = s.name) ∧
    ∀ fuel limit cancelAt report,
      w.executeWithin fuel setting memory identifier limit cancelAt input = some report →
      Scene.Steps (fun _ _ => True) (Run.start setting memory identifier w input).scene
        report.run.scene := by
  refine ⟨fun c i t h ht => exists_enclosing h ht, fun c i m later a earlier h hm hn => ?_,
    fun fuel limit cancelAt report hr =>
      (Run.steps_executeWithin ⟨fun _ _ _ => trivial, fun _ => trivial, trivial⟩ hr).1⟩
  obtain ⟨t, ht, hl⟩ := hm.located h
  obtain ⟨hapt, key, s, hs, hname⟩ := (aware_of_steps h i t ht).phase.aware later a earlier hn
  exact ⟨hapt.sees hl, t, key, s, ht, hs, hname⟩

end run

/-- A document that goes through the items of an array. -/
def mapDocument : Json :=
  .obj [("StartAt", .str "M"), ("States", .obj [
    ("M", .obj [("End", .bool true),
      ("Iterator", .obj [("StartAt", .str "P"), ("States", .obj [
        ("P", .obj [("End", .bool true), ("Type", .str "Pass")])])]),
      ("Type", .str "Map")])])]

/-- The only attempt that a thread has written down, between an entry and an exit. -/
def soleAttempt? : List Note → Option Attempt
  | [.event _, .attempt a, .event _] => some a
  | _ => none

theorem eq_of_soleAttempt? {written : List Note} {a : Attempt} (h : soleAttempt? written = some a) :
    ∃ last first, written = [.event last] ++ .attempt a :: [.event first] := by
  unfold soleAttempt? at h
  split at h
  · next last _ first =>
    cases h
    exact ⟨last, first, rfl⟩
  · cases h

/-- The text that is being worked on, by a context. -/
def Context.itemText? (c : Context) : Option String :=
  (c.value.member? "Map").bind fun part => (part.member? "Item").bind fun item =>
    (item.member? "Value").bind Json.str?

/-- The attempt for the second of two items sees the second item. -/
theorem second_item_sees : ∃ w report later a m earlier, Workflow.compile mapDocument = .ok w ∧
    w.executeWithin 40 answeringSetting () "run" none none (.arr [.str "a", .str "b"]) = some report ∧
    report.run.scene.notes 2 = later ++ .attempt a :: earlier ∧
    Enclosing (fun _ _ => True)
      (Run.start answeringSetting () "run" w (.arr [.str "a", .str "b"])).scene report.run.scene 2 m ∧
    a.Sees (runSection "run" (.arr [.str "a", .str "b"]) .epoch) m earlier ∧
    a.context.itemText? = some "b" := by
  obtain ⟨w, hw⟩ : ∃ w, Workflow.compile mapDocument = .ok w := ⟨_, by rfl⟩
  have hrun : ((Workflow.compile mapDocument).toOption.bind fun w =>
      (w.executeWithin 40 answeringSetting () "run" none none (.arr [.str "a", .str "b"])).bind fun r =>
        (soleAttempt? (r.run.scene.notes 2)).bind fun a => a.context.itemText?) = some "b" := by
    decide +kernel
  rw [hw] at hrun
  obtain ⟨report, hr, hsole⟩ : ∃ report,
      w.executeWithin 40 answeringSetting () "run" none none (.arr [.str "a", .str "b"]) = some report ∧
      ((soleAttempt? (report.run.scene.notes 2)).bind fun a => a.context.itemText?) = some "b" :=
    Option.bind_eq_some_iff.mp hrun
  obtain ⟨a, ha, hitem⟩ := Option.bind_eq_some_iff.mp hsole
  obtain ⟨last, first, hn⟩ := eq_of_soleAttempt? ha
  obtain ⟨hgiven, hsees, hsteps⟩ :=
    attempts_see_surroundings answeringSetting () "run" w (.arr [.str "a", .str "b"])
  have hreach := hsteps 40 none none report hr
  obtain ⟨t, ht⟩ : ∃ t, report.run.scene.threads[2]? = some t := by
    by_contra hnone
    have hsize : report.run.scene.threads.size ≤ 2 := by
      by_contra hlt
      exact hnone ⟨_, Array.getElem?_eq_getElem (Nat.lt_of_not_le hlt)⟩
    rw [(Run.tidy_start.steps hreach).notes_eq_nil hsize] at hn
    cases hn
  obtain ⟨m, hm⟩ := hgiven _ 2 t hreach ht
  exact ⟨w, report, _, a, m, _, hw, hr, hn, hm, (hsees _ 2 m _ a _ hreach hm hn).1, hitem⟩

end StepFlow
