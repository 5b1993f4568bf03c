import StepFlow.Proofs.Execution.Lanes
import StepFlow.Proofs.Execution.Termination
import StepFlow.Proofs.Workflow.Checked
import StepFlow.Proofs.Workflow.Storable

/-!
# Counters of a run

A run counts in places of a fixed width: the permits for lanes that run at one time, the places for the
outputs of lanes, the attempts that each retrier has used up, and the retries of a state. What these
counters come to goes back to numbers of the document.

* `State.permits`, `Process.Limited`: the permits that a state asks for are those that it is declared with;
* `State.Retries`, `State.ledger`: what a retry says about the counters, given what was written before;
* `Counted`, `Workflow.Closed.counting`: the protocol of a thread that counts right;
* `Scene.Metered`, `metered_of_steps`: what all counters of a run stand for;
* `Workflow.Moderate`, `Scene.InRange`: workflows that do not ask for too much, and runs that count in range;
* `State.exists_retried`, `State.exists_uncounted`: the retries of a state can come to what its retriers
  allow together, or to more than can be counted;
* **`counters_in_range`**.
-/

namespace StepFlow

/-! ## Permits -/

namespace Process

/-- The process lets `limit` lanes run at one time wherever it starts lanes, whatever it is answered. -/
def Limited {α : Type} (limit : Nat) : Process α → Prop
  | done _ => True
  | note _ rest => rest.Limited limit
  | look rest => ∀ present, (rest present).Limited limit
  | sleep _ rest => ∀ wake, (rest wake).Limited limit
  | call _ _ rest => ∀ reply, (rest reply).Limited limit
  | fork _ n rest => n = limit ∧ ∀ answer, (rest answer).Limited limit

variable {α β : Type} {limit : Nat} {p p' : Process α}

theorem Limited.bind {f : α → Process β} (hp : p.Limited limit) (hf : ∀ a, (f a).Limited limit) :
    (p.bind f).Limited limit := by
  induction p with
  | done a => exact hf a
  | note n rest ih => exact ih hp
  | look rest ih => exact fun present => ih present (hp present)
  | sleep d rest ih => exact fun wake => ih wake (hp wake)
  | call request bound rest ih => exact fun reply => ih reply (hp reply)
  | fork jobs n rest ih => exact ⟨hp.1, fun answer => ih answer (hp.2 answer)⟩

theorem Limited.resume (h : p.Limited limit) (hr : p.Resumes p') : p'.Limited limit := by
  cases hr with
  | look present => exact h present
  | sleep wake => exact h wake
  | call reply => exact h reply
  | fork answer => exact h.2 answer

end Process

namespace Activity

variable {α β : Type} {limit : Nat}

/-- The activity lets `limit` lanes run at one time wherever it starts lanes. -/
def Limited (limit : Nat) (x : Activity α) : Prop := Process.Limited limit x.run

theorem Limited.bind {x : Activity α} {f : α → Activity β} (hx : Limited limit x)
    (hf : ∀ a, Limited limit (f a)) : Limited limit (x >>= f) := by
  refine Process.Limited.bind hx fun result => ?_
  cases result with
  | ok a => exact hf a
  | error stop => trivial

theorem limited_attempt (r : Except Trouble α) : Limited limit (attempt r) := trivial

theorem limited_ofExcept (r : Except Stop α) : Limited limit (ofExcept r) := trivial

theorem limited_call (request : TaskRequest) (bound : Option Duration) :
    Limited limit (call request bound) := fun _ => trivial

theorem limited_sleep (d : Duration) : Limited limit (sleep d) := fun wake => by
  cases wake <;> trivial

theorem limited_fork (jobs : List Job) : Limited limit (fork jobs limit) := ⟨rfl, fun _ => trivial⟩

end Activity

namespace State

open Activity

/-- How many lanes a state lets run at one time, where zero means that there is no bound. -/
def permits (s : State Workflow) : Nat :=
  match s with
  | .map s => s.maxConcurrency
  | _ => 0

variable {s : State Workflow} {context : Context} {input : Json}

theorem limited_work {present : Present} : (s.work context present input).Limited s.permits := by
  cases s with
  | pass | choice | succeed => exact limited_attempt _
  | fail => exact limited_ofExcept _
  | task =>
    refine (limited_attempt _).bind fun request => ?_
    refine (limited_call request _).bind fun reply => ?_
    exact (limited_ofExcept _).bind fun result => limited_attempt _
  | wait =>
    refine (limited_attempt _).bind fun pause => ?_
    exact (limited_sleep _).bind fun _ => limited_attempt _
  | parallel | map =>
    refine (limited_attempt _).bind fun jobs => ?_
    exact (limited_fork jobs).bind fun outputs => limited_attempt _

theorem limited_recover (tally : Tally) (retries : Nat) :
    (s.recover context input tally retries).Limited s.permits := by
  rw [recover]
  refine Process.Limited.bind (fun present => limited_work) fun result => ?_
  split
  · split
    · next hretry =>
      split
      · intro wake
        cases wake with
        | elapsed =>
          have := Tally.remaining_nextRetry hretry
          exact limited_recover _ _
        | interrupted => trivial
      · trivial
    · unfold handle
      split <;> trivial
  · trivial
termination_by tally.remaining

/-- **A state asks for the permits that it is declared with**, in every attempt. -/
theorem limited_process : (s.process context input).Limited s.permits := by
  rw [process_eq]
  refine (limited_recover _ 0).bind fun result => ?_
  cases result <;> trivial

end State

/-! ## Retries -/

/-- The names of the errors that were retried since a state was entered, the first one first. -/
def retriedIn : List Note → List ErrorName
  | [] => []
  | .event (.entered _ _) :: _ => []
  | .event (.retried _ f _ _) :: rest => retriedIn rest ++ [f.name]
  | _ :: rest => retriedIn rest

theorem length_retriedIn (written : List Note) : (retriedIn written).length = retriesIn written := by
  fun_induction retriedIn written with
  | case1 | case2 => rfl
  | case3 name f attempt delay rest ih => rw [List.length_append, ih]; rfl
  | case4 n rest hentered hretried ih =>
    rw [ih]
    cases n with
    | attempt => rfl
    | event e =>
      cases e with
      | entered => exact absurd rfl (hentered _ _)
      | retried => exact absurd rfl (hretried _ _ _ _)
      | _ => rfl

theorem Retrier.delay?_eq_some {retriers : List Retrier} {earlier : List ErrorName} {error : ErrorName}
    {d : Duration} : delay? retriers earlier error = some d ↔
      ∃ k r, owner? retriers error = some k ∧ retriers[k]? = some r ∧
        uses retriers earlier k < r.maxAttempts ∧ d = r.delay (uses retriers earlier k) := by
  unfold delay?
  simp only [Option.bind_eq_bind, Option.bind_eq_some_iff, Option.ite_none_right_eq_some,
    Option.some.injEq]
  constructor
  · rintro ⟨k, hk, r, hr, hlt, rfl⟩
    exact ⟨k, r, hk, hr, hlt, rfl⟩
  · rintro ⟨k, r, hk, hr, hlt, rfl⟩
    exact ⟨k, hk, r, hr, hlt, rfl⟩

namespace State

/-- A retry of a state, given what was written down before it. It is made by a retrier that has a counter
of its own, which stood below the attempts that the retrier allows, and it has the next number since the
state was entered. -/
structure Retries (s : State Workflow) (earlier : List Note) (f : Failure) (number : Nat)
    (delay : Duration) (k : Nat) (r : Retrier) : Prop where
  owner : Retrier.owner? s.retriers f.name = some k
  retrier : s.retriers[k]? = some r
  used : Retrier.uses s.retriers (retriedIn earlier) k < r.maxAttempts
  waits : delay = r.delay (Retrier.uses s.retriers (retriedIn earlier) k)
  next : number = retriesIn earlier + 1
  allowed : number ≤ s.allowance
  counted : number ≤ maxCount

/-- What a state writes down of its attempts and of its retries. -/
def ledger (s : State Workflow) : Process.Chronicle (Except Stop Step) where
  notes written
    | .attempt a => a.state = s.name ∧ a.retries = retriesIn written ∧ a.retries ≤ s.allowance
    | .event (.retried name f number delay) =>
      name = s.name ∧ ∃ k r, s.Retries written f number delay k r
    | .event (.entered _ _) => False
    | .event _ => True
  jobs _ _ := True
  ends _ := True

variable {s : State Workflow} {context : Context} {input : Json} {written : List Note}

/-- Every retry takes one from what is left, so that the number of retries and what is left come to what
the retriers allow. -/
theorem heeds_ledger_recover {written : List Note} (retries : Nat) (hr : retriesIn written = retries)
    (hleft : (Retrier.tally s.retriers (retriedIn written)).remaining + retries = s.allowance) :
    (s.recover context input (Retrier.tally s.retriers (retriedIn written)) retries).Heeds s.ledger
      written := by
  rw [recover]
  have hle : retries ≤ s.allowance := by omega
  refine Process.Heeds.bind (P := fun written' => ∃ a, written' = .attempt a :: written)
    (fun present => ⟨⟨rfl, hr.symm, hle⟩, heeds_work (fun _ _ => trivial) ⟨_, rfl⟩⟩) ?_
  rintro _ result ⟨a, rfl⟩
  split
  · next f =>
    split
    · next delay tally' hretry =>
      have hfewer := Tally.remaining_nextRetry hretry
      rw [Retrier.nextRetry_tally] at hretry
      obtain ⟨d, hd, heq⟩ := Option.map_eq_some_iff.mp hretry
      cases heq
      obtain ⟨k, r, howner, hretrier, hused, hdelay⟩ := Retrier.delay?_eq_some.mp hd
      split
      · next hcount =>
        refine ⟨⟨rfl, k, r, howner, hretrier, hused, hdelay, congrArg (· + 1) hr.symm, by omega, hcount⟩,
          fun wake => ?_⟩
        cases wake with
        | elapsed =>
          have hr' : retriesIn (.event (.retried s.name f (retries + 1) delay) :: .attempt a :: written) =
              retries + 1 := congrArg (· + 1) hr
          have hlist : retriedIn (.event (.retried s.name f (retries + 1) delay) :: .attempt a ::
              written) = retriedIn written ++ [f.name] := rfl
          rw [← hlist] at hfewer ⊢
          have hless := Nat.lt_of_succ_le (Nat.le_of_eq hfewer)
          exact heeds_ledger_recover (retries + 1) hr' (by omega)
        | interrupted => exact trivial
      · exact trivial
    · unfold handle
      split
      · exact ⟨trivial, trivial⟩
      · exact trivial
  · exact trivial
termination_by (Retrier.tally s.retriers (retriedIn written)).remaining

/-- **A state that was just entered counts its retries right.** -/
theorem heeds_ledger_body (hr : retriedIn written = []) :
    (s.body context input).Heeds s.ledger written := by
  have hnone : retriesIn written = 0 := by rw [← length_retriedIn, hr, List.length_nil]
  have hstart : Retrier.tally s.retriers (retriedIn written) = .start s.retriers := by
    rw [hr, Retrier.tally_nil]
  unfold body
  rw [← hstart]
  refine Process.Heeds.bind (heeds_ledger_recover 0 hnone (by rw [hstart, remaining_start]; rfl))
    fun written' result _ => ?_
  cases result with
  | ok step => exact ⟨trivial, trivial⟩
  | error stop => exact trivial

end State

/-! ## Threads -/

/-- What a note says about the counters of a state, given what was written down before it. -/
def Note.Counts (w : Workflow) (earlier : List Note) : Note → Prop
  | .attempt a => ∃ s, w.state? a.state = some s ∧ a.retries = retriesIn earlier ∧ a.retries ≤ s.allowance
  | .event (.retried name f number delay) =>
    ∃ s k r, w.state? name = some s ∧ s.Retries earlier f number delay k r
  | .event _ => True

/-- Everything that was written down counts right. -/
def Counted (w : Workflow) : List Note → Prop
  | [] => True
  | n :: earlier => n.Counts w earlier ∧ Counted w earlier

section threads

variable {w : Workflow} {context : Context} {written later earlier : List Note} {n : Note}

theorem Counted.counts (h : Counted w (later ++ n :: earlier)) : n.Counts w earlier := by
  induction later with
  | nil => exact h.1
  | cons m later ih => exact ih h.2

/-- **The protocol of a thread that counts right**, and that asks for the permits of its states. -/
def Workflow.Closed.counting (hw : w.Closed) (context : Context) : Protocol w context where
  waiting written _ := Counted w written
  entering written _ _ := Counted w written
  running written name p := Counted w written ∧ ∃ s, w.state? name = some s ∧ p.Limited s.permits ∧
    ((∃ input, p = s.process context input) ∨ p.Heeds s.ledger written)
  ended written _ := Counted w written
  start h := h
  enter h hs := ⟨h, _, hs, State.limited_process, .inl ⟨_, rfl⟩⟩
  write := by
    rintro written name n rest ⟨h, s, hs, hlimited, ⟨input, hp⟩ | ⟨hn, hrest⟩⟩
    · rw [State.process_eq] at hp
      cases hp
      exact ⟨⟨trivial, h⟩, s, hs, hlimited, .inr (State.heeds_ledger_body rfl)⟩
    · refine ⟨⟨?_, h⟩, s, hs, hlimited, .inr hrest⟩
      have hname := hw.named hs
      cases n with
      | attempt a =>
        obtain ⟨ha, hr, hle⟩ := hn
        exact ⟨s, by rw [ha, hname, hs], hr, hle⟩
      | event e =>
        cases e with
        | retried =>
          obtain ⟨rfl, k, r, hretries⟩ := hn
          exact ⟨s, k, r, by rw [hname, hs], hretries⟩
        | _ => trivial
  resume := by
    rintro written name p p' ⟨h, s, hs, hlimited, ⟨input, rfl⟩ | hp⟩ hr
    · rw [State.process_eq] at hr
      cases hr
    · exact ⟨h, s, hs, hlimited.resume hr, .inr (hp.resume hr)⟩
  next h := h.1
  done h := h.1
  stop h := h.1
  cancel h := h
  missing h _ := h

theorem Workflow.Closed.counted_of_holds {hw : w.Closed} {phase : Phase}
    (h : (hw.counting context).Holds written phase) : Counted w written := by
  rcases h.cases with ⟨_, _, h⟩ | ⟨_, ⟨_, _, h⟩ | ⟨_, _, h⟩⟩
  · exact h
  · exact h
  · exact h.1

end threads

/-! ## Numbers of a document -/

theorem Workflow.mem_states_of_state? {w : Workflow} {name : String} {s : State Workflow}
    (h : w.state? name = some s) : s ∈ w.states := by
  obtain ⟨p, -, h⟩ := Option.bind_eq_some_iff.mp h
  obtain ⟨branch, hbranch, hs⟩ := Option.bind_eq_some_iff.mp h
  exact List.mem_flatten.mpr ⟨branch, List.mem_of_getElem? hbranch, List.mem_of_getElem? hs⟩

theorem Workflow.NestedIn.nested {u v w : Workflow} {s : State Workflow} (hv : v.NestedIn w)
    (hs : s ∈ v.states) (hu : u ∈ s.nested) : u.NestedIn w := by
  induction hv with
  | self => exact .state hs hu .self
  | state hs' hv' _ ih => exact .state hs' hv' ih

theorem maxAttempts_le {document : Json} {v w : Workflow} {s : State Workflow} {r : Retrier}
    (h : Workflow.compile document = .ok w) (hv : v.NestedIn w) (hs : s ∈ v.states)
    (hr : r ∈ s.retriers) : r.maxAttempts ≤ maxCount := by
  obtain ⟨x, hx⟩ := hv.exists_document h
  obtain ⟨n, j, hdecode⟩ := exists_decodeState hx hs
  obtain ⟨kind, d, -, -, hdecoded⟩ := decodeState_eq_ok hdecode
  have hread : ∀ recovery : Recovery, d.recovery n = .ok recovery → r ∈ recovery.retriers →
      r.maxAttempts ≤ maxCount := fun recovery hrecovery hmem => by
    obtain ⟨j, -, hj⟩ := Except.exists_of_mem_mapM (StateDraft.recovery_eq_ok hrecovery).retriers hmem
    exact Nat.le_of_lt_succ (Retrier.storable_of_read (StateDraft.retrier_eq_ok hj).1).2
  cases hdecoded with
  | task _ _ _ hrecovery _ | parallel _ _ _ _ _ hrecovery _ | map _ _ _ _ _ hrecovery _ =>
    exact hread _ hrecovery hr
  | _ => cases hr

/-! ## Runs -/

/-- What the counters of a run of a workflow stand for, at every depth. -/
structure Scene.Metered (c : Scene) (root : Workflow) : Prop where
  /-- Every thread runs the workflow or one within it. -/
  nested : ∀ (i : Nat) (t : Thread), c.threads[i]? = some t → t.workflow.NestedIn root
  /-- A thread that is about to start lanes asks for the permits that its state is declared with. -/
  permits : ∀ (i : Nat) (t : Thread) (ticket : Nat) (name : String) (jobs : List Job) (limit : Nat)
    (rest : Except Stop (List Json) → StateProcess), c.threads[i]? = some t →
    t.phase = .running ticket name (.fork jobs limit rest) →
    ∃ s, t.workflow.state? name = some s ∧ limit = s.permits
  /-- A lane that has not ended has its place among the lanes that its owner waits for. -/
  places : ∀ (j : Nat) (u : Thread) (i k : Nat), c.threads[j]? = some u → u.parent = some (i, k) →
    (∀ ending, u.phase ≠ .ended ending) → ∃ t f first, c.threads[i]? = some t ∧
      t.phase.lanes? = some (f, first) ∧ j = first + k ∧ k < f.lanes.length
  /-- What the owner of a lane has not seen yet is how the lane in this place ended. -/
  results : ∀ (i : Nat) (t : Thread) (f : FanOut) (first k rank : Nat) (ending : Ending),
    c.threads[i]? = some t → t.phase.lanes? = some (f, first) →
    f.lanes[k]? = some (.ended rank ending) → ∃ u, c.threads[first + k]? = some u ∧
      u.parent = some (i, k) ∧ u.phase = .ended ending
  /-- There is one output for each lane, and it is that of the lane in the same place. -/
  outputs : ∀ (i : Nat) (t : Thread) (f : FanOut) (first : Nat) (outs : List Json),
    c.threads[i]? = some t → t.phase.lanes? = some (f, first) → f.answer? = some (.ok outs) →
    outs.length = f.lanes.length ∧ ∀ k out, outs[k]? = some out → ∃ u,
      c.threads[first + k]? = some u ∧ u.parent = some (i, k) ∧ u.phase = .ended (.ok out)
  /-- A retry is made by a retrier of the state, whose counter has room for it. -/
  retries : ∀ (i : Nat) (t : Thread) (later : List Note) (name : String) (f : Failure) (number : Nat)
    (delay : Duration) (earlier : List Note), c.threads[i]? = some t →
    c.notes i = later ++ .event (.retried name f number delay) :: earlier →
    ∃ s k r, t.workflow.state? name = some s ∧ s.Retries earlier f number delay k r ∧
      Retrier.uses s.retriers (retriedIn earlier) k + 1 ≤ maxCount
  /-- An attempt is made on as many retries as there were since the state was entered. -/
  attempts : ∀ (i : Nat) (t : Thread) (later : List Note) (a : Attempt) (earlier : List Note),
    c.threads[i]? = some t → c.notes i = later ++ .attempt a :: earlier →
    ∃ s, t.workflow.state? a.state = some s ∧ a.retries = retriesIn earlier ∧ a.retries ≤ s.allowance

/-- The states of a workflow, and of the workflows within it, ask for no more lanes at one time than there
can be permits, and the retriers of each state together allow no more retries than can be counted. -/
def Workflow.Moderate (w : Workflow) : Prop :=
  ∀ (v : Workflow) (s : State Workflow), v.NestedIn w → s ∈ v.states →
    s.permits ≤ FanOut.maxLimit ∧ s.allowance ≤ maxCount

/-- No thread is about to ask for more permits than there can be, and no retry has a number that cannot be
counted. -/
structure Scene.InRange (c : Scene) : Prop where
  permits : ∀ (i : Nat) (t : Thread) (ticket : Nat) (name : String) (jobs : List Job) (limit : Nat)
    (rest : Except Stop (List Json) → StateProcess), c.threads[i]? = some t →
    t.phase = .running ticket name (.fork jobs limit rest) → limit ≤ FanOut.maxLimit
  retries : ∀ (i : Nat) (name : String) (f : Failure) (number : Nat) (delay : Duration),
    .event (.retried name f number delay) ∈ c.notes i → number ≤ maxCount
  attempts : ∀ (i : Nat) (a : Attempt), .attempt a ∈ c.notes i → a.retries ≤ maxCount

section runs

variable {σ : Type} {setting : Setting σ} {memory : σ} {identifier : String} {w : Workflow} {input : Json}
  {allowed : Bool → Reply → Prop} {c : Scene}

theorem nestedIn_of_steps
    (h : Scene.Steps allowed (Run.start setting memory identifier w input).scene c) :
    c.Each fun _ t _ => t.workflow.NestedIn w := by
  refine Scene.Steps.each (fun d l u u' new _ hd hu hb => ?_) (fun d l u hsteps hd hs => ?_) h
    Run.tidy_start fun l t ht => ?_
  · rw [hb.place.1]
    exact hd l u hu
  · obtain ⟨i, t, ticket, name, jobs, limit, rest, lane, job, ticket', ht, hp, -, hjob, rfl⟩ := hs
    obtain ⟨s, hs, hn⟩ := nested_of_fork hsteps ht hp
    exact (hd i t ht).nested (Workflow.mem_states_of_state? hs) (hn job (List.mem_of_getElem? hjob))
  · obtain ⟨-, rfl⟩ := Run.start_eq_some.mp ht
    exact .self

theorem counting_of_steps (hw : w.Closed)
    (h : Scene.Steps allowed (Run.start setting memory identifier w input).scene c) :
    c.Each fun _ t written => Counted t.workflow written ∧ ∀ ticket name jobs limit rest,
      t.phase = .running ticket name (.fork jobs limit rest) →
      ∃ s, t.workflow.state? name = some s ∧ limit = s.permits := by
  intro i t ht
  obtain ⟨v, context, -, hv, hf⟩ :=
    follows_of_steps (P := fun hv context _ => hv.counting context) (fun _ _ _ => trivial) hw h i t ht
  rw [hf.workflow]
  refine ⟨Workflow.Closed.counted_of_holds hf.phase, fun ticket name jobs limit rest hp => ?_⟩
  have hphase := hf.phase
  rw [hp] at hphase
  obtain ⟨-, s, hs, hlimited, -⟩ := hphase
  exact ⟨s, hs, hlimited.1⟩

/-- Where threads and their lanes agree, a lane that has ended is a thread that has ended. -/
theorem Scene.Linked.ended {i first k : Nat} {t : Thread} {f : FanOut} {lane : Lane} {ending : Ending}
    (h : c.Linked) (ht : c.threads[i]? = some t) (hf : t.phase.lanes? = some (f, first))
    (hk : f.lanes[k]? = some lane) (hlane : lane.standing = .finished ending) :
    ∃ u, c.threads[first + k]? = some u ∧ u.parent = some (i, k) ∧ u.phase = .ended ending := by
  obtain ⟨u, hu, hm⟩ := h.lane i t f first k lane ht hf hk
  exact ⟨u, hu, hm.parent, Phase.standing_eq_finished.mp (hm.standing.trans hlane)⟩

/-- **The counters of a run**, after any steps of a run of a compiled workflow. -/
theorem metered_of_steps {document : Json} (hw : Workflow.compile document = .ok w)
    (h : Scene.Steps allowed (Run.start setting memory identifier w input).scene c) : c.Metered w := by
  have hnested := nestedIn_of_steps h
  have hcounting := counting_of_steps (closed_compile hw) h
  have hlinked := Run.linked_of_steps h
  refine ⟨hnested, fun i t ticket name jobs limit rest ht hp => (hcounting i t ht).2 _ _ _ _ _ hp,
    fun j u i k hu hp he => ?_, fun i t f first k rank ending ht hf hk => hlinked.ended ht hf hk rfl,
    fun i t f first outs ht hf ha => ?_, fun i t later name f number delay earlier ht hn => ?_,
    fun i t later a earlier ht hn => ?_⟩
  · exact hlinked.live j u i k hu hp fun ending hs => he ending (Phase.standing_eq_finished.mp hs)
  · have hlanes := (FanOut.answer?_ok.mp ha).2
    refine ⟨by rw [hlanes, List.length_map], fun k out hout => ?_⟩
    have hlane : f.lanes[k]? = some (.seen (.ok out)) := by rw [hlanes, List.getElem?_map, hout]; rfl
    exact hlinked.ended ht hf hlane rfl
  · have hcounted := (hcounting i t ht).1
    rw [hn] at hcounted
    obtain ⟨s, k, r, hs, hretries⟩ := hcounted.counts
    refine ⟨s, k, r, hs, hretries, Nat.le_trans hretries.used ?_⟩
    exact maxAttempts_le hw (hnested i t ht) (Workflow.mem_states_of_state? hs)
      (List.mem_of_getElem? hretries.retrier)
  · have hcounted := (hcounting i t ht).1
    rw [hn] at hcounted
    exact hcounted.counts

theorem Scene.Metered.inRange (h : c.Metered w) (hc : c.Tidy) (hw : w.Moderate) : c.InRange := by
  have hthread : ∀ {i : Nat} {n : Note}, n ∈ c.notes i → ∃ t, c.threads[i]? = some t :=
    fun hn => hc.exists_thread hn
  have hstate : ∀ {i : Nat} {t : Thread} {name : String} {s : State Workflow},
      c.threads[i]? = some t → t.workflow.state? name = some s →
      s.permits ≤ FanOut.maxLimit ∧ s.allowance ≤ maxCount :=
    fun ht hs => hw _ _ (h.nested _ _ ht) (Workflow.mem_states_of_state? hs)
  refine ⟨fun i t ticket name jobs limit rest ht hp => ?_, fun i name f number delay hn => ?_,
    fun i a hn => ?_⟩
  · obtain ⟨s, hs, rfl⟩ := h.permits i t ticket name jobs limit rest ht hp
    exact (hstate ht hs).1
  · obtain ⟨t, ht⟩ := hthread hn
    obtain ⟨later, earlier, hn⟩ := List.append_of_mem hn
    obtain ⟨s, k, r, hs, hretries, -⟩ := h.retries i t later name f number delay earlier ht hn
    exact Nat.le_trans hretries.allowed (hstate ht hs).2
  · obtain ⟨t, ht⟩ := hthread hn
    obtain ⟨later, earlier, hn⟩ := List.append_of_mem hn
    obtain ⟨s, hs, -, hle⟩ := h.attempts i t later a earlier ht hn
    exact Nat.le_trans hle (hstate ht hs).2

end runs

/-! ## Bounds that are attained -/

theorem Tally.exists_of_remaining {t : Tally} (h : 0 < t.remaining) :
    ∃ (k : Nat) (r : Retrier) (used : Nat), t[k]? = some (r, used) ∧ used < r.maxAttempts := by
  induction t with
  | nil => cases h
  | cons entry rest ih =>
    obtain ⟨r, used⟩ := entry
    by_cases hused : used < r.maxAttempts
    · exact ⟨0, r, used, rfl, hused⟩
    · have hrest : 0 < Tally.remaining rest := by
        simp only [Tally.remaining] at h
        omega
      obtain ⟨k, r', used', hk, hused'⟩ := ih hrest
      exact ⟨k + 1, r', used', hk, hused'⟩

/-- The attempts of a state can fail with an error for each of its retriers. -/
def State.Meets (s : State Workflow) (context : Context) (input : Json) : Prop :=
  ∀ k r, s.retriers[k]? = some r → ∃ f : Failure, Retrier.owner? s.retriers f.name = some k ∧
    ∀ n, ∃ t, s.Tries context input n t ∧ t.failure? = some f

section attained

variable {s : State Workflow} {context : Context} {input : Json}

theorem State.Retried.exists_retry {earlier : List Trial} {acts : List Act}
    (hmeets : s.Meets context input) (h : s.Retried context input earlier acts)
    (hn : earlier.length < s.allowance) :
    ∃ t f d, s.Tries context input earlier.length t ∧ s.retry? earlier t = some (f, d) := by
  have hleft := h.length_add
  obtain ⟨k, r, used, hk, hused⟩ := Tally.exists_of_remaining
    (t := Retrier.tally s.retriers (Trial.errors earlier)) (by omega)
  rw [Retrier.tally, List.getElem?_mapIdx] at hk
  obtain ⟨r, hr, heq⟩ := Option.map_eq_some_iff.mp hk
  cases heq
  obtain ⟨f, howner, htries⟩ := hmeets k r hr
  obtain ⟨t, ht, hf⟩ := htries earlier.length
  have hdelay := Retrier.delay?_eq_some.mpr ⟨k, r, howner, hr, hused, rfl⟩
  exact ⟨t, f, _, ht, State.retry?_eq_some.mpr ⟨hf, hdelay⟩⟩

/-- **The retries of a state can come to what its retriers allow together**, as far as they can be
counted. -/
theorem State.exists_retried (hmeets : s.Meets context input) {n : Nat} (hn : n ≤ s.allowance)
    (hcount : n ≤ maxCount) : ∃ earlier acts, s.Retried context input earlier acts ∧ earlier.length = n := by
  induction n with
  | zero => exact ⟨[], [], .start, rfl⟩
  | succ n ih =>
    obtain ⟨earlier, acts, hretried, hlength⟩ := ih (Nat.le_of_succ_le hn) (Nat.le_of_succ_le hcount)
    obtain ⟨t, f, d, ht, hretry⟩ := hretried.exists_retry hmeets (by omega)
    refine ⟨_, _, hretried.again ht hretry (by omega), ?_⟩
    rw [List.length_append, List.length_singleton, hlength]

/-- **A state whose retriers allow more retries than can be counted can break off** for want of a count. -/
theorem State.exists_uncounted (hmeets : s.Meets context input) (hmany : maxCount < s.allowance) :
    ∃ earlier before last, s.Retried context input earlier before ∧ earlier.length = maxCount ∧
      s.Tries context input maxCount last ∧ (s.retry? earlier last).isSome = true ∧
      (s.recover context input (.start s.retriers) 0).Ends (before ++ last.acts) (.error .brokenOff) := by
  obtain ⟨earlier, before, hretried, hlength⟩ :=
    State.exists_retried hmeets (Nat.le_of_lt hmany) (Nat.le_refl _)
  obtain ⟨last, f, d, ht, hretry⟩ := hretried.exists_retry hmeets (by omega)
  refine ⟨earlier, before, last, hretried, hlength, hlength ▸ ht, by rw [hretry]; rfl, ?_⟩
  rw [← State.remainder_nil]
  exact hretried.ends (State.ends_remainder_of_uncounted ht hretry (Nat.le_of_eq hlength.symm))

end attained

/-- Whether the states of a workflow are moderate, and those of the workflows within it, which are nested
less than `depth` deep. -/
def Workflow.isModerate : (depth : Nat) → Workflow → Bool
  | 0, _ => false
  | depth + 1, w => w.states.all fun s =>
    s.permits ≤ FanOut.maxLimit && s.allowance ≤ maxCount && s.nested.all (isModerate depth)

theorem Workflow.moderate_of_isModerate {depth : Nat} {w : Workflow} (h : w.isModerate depth = true) :
    w.Moderate := by
  have hstate : ∀ {depth : Nat} {v : Workflow} {s : State Workflow}, v.isModerate depth = true →
      s ∈ v.states → ∃ depth', (s.permits ≤ FanOut.maxLimit ∧ s.allowance ≤ maxCount) ∧
        ∀ u ∈ s.nested, u.isModerate depth' = true := by
    intro depth v s hv hs
    cases depth with
    | zero => cases hv
    | succ depth =>
      simp only [isModerate, List.all_eq_true, Bool.and_eq_true, decide_eq_true_eq] at hv
      exact ⟨depth, hv s hs⟩
  intro v s hv hs
  induction hv generalizing depth with
  | self =>
    obtain ⟨-, hbounds, -⟩ := hstate h hs
    exact hbounds
  | state hs' hu _ ih =>
    obtain ⟨depth', -, hnested⟩ := hstate h hs'
    exact ih (hnested _ hu)

/-- **The counters of a run are in range.** For every compiled workflow, whatever the input is and the tasks
reply, after any steps of a run: a thread asks for as many permits as its state is declared with; every lane
has its place among the lanes that its owner waits for, of which there is one for each job, and every output
is that of the lane in its place; every retry is made by a retrier of the state, whose counter stays within
what a counter of 32 bits holds; and the number of retries is no greater than what the retriers of the state
allow together. So if no state, at any depth, asks for more permits than there can be, and the retriers of
none allow more retries than can be counted, all counters are in range, and no state breaks off because a
retry that is due cannot be counted. An execution consists of such steps. -/
theorem counters_in_range {document : Json} {w : Workflow} (h : Workflow.compile document = .ok w)
    {σ : Type} (setting : Setting σ) (memory : σ) (identifier : String) (input : Json) :
    (∀ c, Scene.Steps (fun _ _ => True) (Run.start setting memory identifier w input).scene c →
      c.Metered w ∧ (w.Moderate → c.InRange)) ∧
    (w.Moderate → ∀ (v : Workflow) (s : State Workflow) context input earlier acts last,
      v.NestedIn w → s ∈ v.states → s.Retried context input earlier acts → s.IsLast earlier last →
      s.retry? earlier last = none) ∧
    (∀ c i jobs limit,
      Scene.Waits (fun _ _ => True) (Run.start setting memory identifier w input).scene i jobs limit c →
      ∃ t f first, c.threads[i]? = some t ∧ t.phase.lanes? = some (f, first) ∧
        f.lanes.length = jobs.length) ∧
    ∀ fuel limit cancelAt report,
      w.executeWithin fuel setting memory identifier limit cancelAt input = some report →
      Scene.Steps (fun _ _ => True) (Run.start setting memory identifier w input).scene
        report.run.scene := by
  refine ⟨fun c hc => ?_, fun hmoderate v s context input earlier acts last hv hs hretried hlast => ?_,
    fun c i jobs limit hc => ?_, fun fuel limit cancelAt report hr =>
      (Run.steps_executeWithin setting.allows_any hr).1⟩
  · have hmetered := metered_of_steps h hc
    exact ⟨hmetered, hmetered.inRange (Run.tidy_start.steps hc)⟩
  · exact hretried.retry?_eq_none (hmoderate v s hv hs).2 hlast
  · obtain ⟨t, f, first, ht, hf, -, hlength, -⟩ := hc.runs
    exact ⟨t, f, first, ht, hf, hlength⟩

/-- The number of the latest retry that was written down. -/
def latestRetry? (written : List Note) : Option Nat :=
  written.findSome? fun
    | .event (.retried _ _ number _) => some number
    | _ => none

/-- An execution whose first task is retried twice. -/
theorem counters_in_range_recovering : ∃ w report, Workflow.compile recoveringDocument = .ok w ∧
    w.executeWithin 60 failingSetting () "run" none none (.obj []) = some report ∧
    latestRetry? (report.run.scene.notes 0) = some 2 ∧ w.Moderate ∧
    report.run.scene.Metered w ∧ report.run.scene.InRange := by
  obtain ⟨w, hw⟩ : ∃ w, Workflow.compile recoveringDocument = .ok w := ⟨_, by rfl⟩
  have hmoderate : (Workflow.compile recoveringDocument).toOption.map (Workflow.isModerate 2) =
      some true := by decide +kernel
  have hretry : ((Workflow.compile recoveringDocument).toOption.bind fun w =>
      (w.executeWithin 60 failingSetting () "run" none none (.obj [])).bind fun r =>
        latestRetry? (r.run.scene.notes 0)) = some 2 := by decide +kernel
  rw [hw] at hmoderate hretry
  obtain ⟨report, hr, hretry⟩ : ∃ report,
      w.executeWithin 60 failingSetting () "run" none none (.obj []) = some report ∧
      latestRetry? (report.run.scene.notes 0) = some 2 := Option.bind_eq_some_iff.mp hretry
  have hmoderate : w.Moderate := Workflow.moderate_of_isModerate (Option.some.inj hmoderate)
  obtain ⟨hscene, -, -, hsteps⟩ := counters_in_range hw failingSetting () "run" (.obj [])
  obtain ⟨hmetered, hrange⟩ := hscene _ (hsteps 60 none none report hr)
  exact ⟨w, report, hw, hr, hretry, hmoderate, hmetered, hrange hmoderate⟩

/-- A document with a map state that lets a number of iterations run at one time. -/
def permittingDocument (permits : Int) : Json :=
  .obj [("StartAt", .str "M"), ("States", .obj [
    ("M", .obj [("End", .bool true),
      ("Iterator", .obj [("StartAt", .str "P"), ("States", .obj [
        ("P", .obj [("End", .bool true), ("Type", .str "Pass")])])]),
      ("MaxConcurrency", .int permits), ("Type", .str "Map")])])]

/-- As many iterations as there can be permits may run at one time. -/
example : ((Workflow.compile (permittingDocument 2305843009213693951)).toOption.bind fun w =>
    (w.executeWithin 40 answeringSetting () "run" none none (.arr [.int 1])).bind fun r =>
      r.outcome.output?).isSome := by decide +kernel

/-- A document with a task that has two retriers, each of which allows as many attempts as fit a counter. -/
def retryingDocument : Json :=
  .obj [("StartAt", .str "X"), ("States", .obj [
    ("X", .obj [("End", .bool true), ("Resource", .str "script:x"),
      ("Retry", .arr [
        .obj [("ErrorEquals", .arr [.str "A"]), ("MaxAttempts", .int 4294967295)],
        .obj [("ErrorEquals", .arr [.str "B"]), ("MaxAttempts", .int 4294967295)]]),
      ("Type", .str "Task")])])]

/-- The task of that document. -/
def retryingTask : State Workflow :=
  .task {
    name := "X"
    comment := none
    paths := ⟨none, none⟩
    handling := ⟨none, none⟩
    recovery := ⟨none, [⟨["A"], 1, maxCount, 2⟩, ⟨["B"], 1, maxCount, 2⟩], []⟩
    resource := ⟨"script", "x"⟩
    timeoutSeconds := 0
    transition := .done }

/-- An attempt of that task that fails with a name. -/
def retryingTrial (n : Nat) (error : String) : Trial :=
  ⟨[.wrote (.attempt ⟨"X", n, .null, Context.empty.atState "X" n .epoch⟩),
    .asked ⟨⟨"script", "x"⟩, .null⟩ none], .error (.failure ⟨.ofText error, "broken"⟩)⟩

theorem tries_retryingTask (n : Nat) (error : String) :
    retryingTask.Tries .empty .null n (retryingTrial n error) := by
  refine .look ⟨.epoch, default⟩ (.note ?_)
  exact .call (.answered (.error (.failed (some error) "broken"))) .done

theorem meets_retryingTask : retryingTask.Meets .empty .null := fun k r hr => by
  match k with
  | 0 => exact ⟨⟨.ofText "A", "broken"⟩, by rfl, fun n => ⟨_, tries_retryingTask n "A", rfl⟩⟩
  | 1 => exact ⟨⟨.ofText "B", "broken"⟩, by rfl, fun n => ⟨_, tries_retryingTask n "B", rfl⟩⟩
  | k + 2 => cases hr

/-- Whether an execution broke off. -/
def Outcome.breaksOff : Outcome → Bool
  | .error .brokenOff => true
  | _ => false

/-- Two documents that compile and ask for too much: an execution of the one breaks off for one permit more
than there can be, and the task of the other one after as many retries as can be counted, where its retriers
allow one more. -/
theorem counters_out_of_range :
    (∃ w s report, Workflow.compile (permittingDocument 2305843009213693952) = .ok w ∧
      w.state? "M" = some s ∧ s.permits = FanOut.maxLimit + 1 ∧
      w.executeWithin 40 answeringSetting () "run" none none (.arr [.int 1]) = some report ∧
      report.outcome.breaksOff = true) ∧
    ∃ w earlier before last, Workflow.compile retryingDocument = .ok w ∧
      w.state? "X" = some retryingTask ∧ retryingTask.Retried .empty .null earlier before ∧
      earlier.length = maxCount ∧ retryingTask.Tries .empty .null maxCount last ∧
      (retryingTask.retry? earlier last).isSome = true ∧
      (retryingTask.recover .empty .null (.start retryingTask.retriers) 0).Ends (before ++ last.acts)
        (.error .brokenOff) := by
  constructor
  · obtain ⟨w, hw⟩ : ∃ w, Workflow.compile (permittingDocument 2305843009213693952) = .ok w :=
      ⟨_, by rfl⟩
    have hrun : ((Workflow.compile (permittingDocument 2305843009213693952)).toOption.bind fun w =>
        (w.state? "M").bind fun s =>
          (w.executeWithin 40 answeringSetting () "run" none none (.arr [.int 1])).map fun r =>
            (s.permits, r.outcome.breaksOff)) = some (FanOut.maxLimit + 1, true) := by decide +kernel
    rw [hw] at hrun
    obtain ⟨s, hs, hrun⟩ : ∃ s, w.state? "M" = some s ∧
        ((w.executeWithin 40 answeringSetting () "run" none none (.arr [.int 1])).map fun r =>
          (s.permits, r.outcome.breaksOff)) = some (FanOut.maxLimit + 1, true) :=
      Option.bind_eq_some_iff.mp hrun
    obtain ⟨report, hr, heq⟩ := Option.map_eq_some_iff.mp hrun
    obtain ⟨hpermits, hbreaks⟩ := Prod.mk.inj heq
    exact ⟨w, s, report, hw, hs, hpermits, hr, hbreaks⟩
  · obtain ⟨w, hw, hs⟩ : ∃ w, Workflow.compile retryingDocument = .ok w ∧
        w.state? "X" = some retryingTask := ⟨_, by rfl, by rfl⟩
    obtain ⟨earlier, before, last, hbreaks⟩ :=
      State.exists_uncounted meets_retryingTask (by decide)
    exact ⟨w, earlier, before, last, hw, hs, hbreaks⟩

end StepFlow
