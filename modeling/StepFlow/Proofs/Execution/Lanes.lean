import StepFlow.Proofs.Execution.Closed

/-!
# Lanes of a run

In every run, what happens to the lanes of a thread is a schedule in which each turn can be taken, and
a lane comes to be cancelled only if its thread is. So a thread gets from its lanes what their workflows
come to, in the order of the jobs.

* `Reply.Honest`: a task says that it was cancelled only if it was;
* `Thread.Calm`, `calm_of_steps`: workflows that are not cancelled do not say that they were;
* `Scene.Waits`: a thread waits for the lanes of jobs;
* `Scene.Waits.follows`: the lanes follow a schedule, each one running its job;
* `fork_faithful`: what comes of jobs side by side.
-/

namespace StepFlow

/-! ## Cancellation comes from outside -/

/-- A task says that it was cancelled only if it was. -/
def Reply.Honest (cancelled : Bool) (reply : Reply) : Prop :=
  reply = .answered (.error .cancelled) → cancelled = true

/-- What a state promises as long as nothing tells it that it was cancelled: not to say that it was. -/
def calm : Process.Contract (Except Stop Step) where
  wakes wake := wake = .elapsed
  replies reply := reply ≠ .answered (.error .cancelled)
  answers answer := answer ≠ .error .cancelled
  notes _ _ := True
  jobs _ := True
  ends result := result ≠ .error .cancelled

theorem keeps_calm (s : State Workflow) (context : Context) (input : Json) :
    (s.process context input).Keeps calm := by
  have hfits : calm.Fits s :=
    { attempt := fun _ _ => trivial
      retried := fun _ _ _ _ => trivial
      caught := fun _ _ _ => trivial
      step := fun _ _ h => by cases h
      failure := fun _ h => by cases h
      brokenOff := fun h => by cases h
      failState := fun _ _ h => by cases h
      interrupted := fun h => by cases h
      replied := fun h => absurd rfl h
      answered := fun _ h he => h (by cases he; rfl)
      jobs := fun _ _ => trivial }
  rw [State.process_eq]
  exact ⟨trivial, State.keeps_body hfits fun _ _ => trivial⟩

/-- What a thread goes on with does not say that the thread was cancelled unless something else does. -/
def Phase.Calm : Phase → Prop
  | .running _ _ p | .paused _ _ _ p _ => p.Keeps calm
  | .forked _ _ _ _ rest => ∀ answer, answer ≠ .error .cancelled → (rest answer).Keeps calm
  | _ => True

/-- The lanes that a thread waits for have followed a schedule. -/
def Phase.Scheduled (phase : Phase) : Prop :=
  ∀ f first, phase.lanes? = some (f, first) → ∃ limit count turns, FanOut.Played limit count turns f

/-- A thread that is not cancelled does not end as if it were. -/
structure Thread.Calm (t : Thread) : Prop where
  phase : t.cancelled = false → t.phase.Calm
  ended : t.phase = .ended (.error .cancelled) → t.cancelled = true
  lanes : t.phase.Scheduled

section calm

open FanOut

variable {c c₀ : Scene} {i : Nat} {t t' : Thread} {notes new : List Note} {phase : Phase}
  {f f' : FanOut} {limit count : Nat} {turns : List Turn}

theorem Phase.Scheduled.of_lanes? (h : phase.lanes? = none) : phase.Scheduled := by
  intro f first hl
  rw [h] at hl
  cases hl

theorem exists_played (t : Thread) (limit count : Nat) :
    ∃ turns, Played limit count turns (t.lanes limit count) := by
  unfold Thread.lanes
  split
  · exact Played.take .start trivial
  · exact ⟨[], .start⟩

theorem answer_ne_cancelled {first : Nat} {answer : Except Stop (List Json)} (hl : c.Linked)
    (ht : c.threads[i]? = some t) (hf : t.phase.lanes? = some (f, first)) (hs : t.phase.Scheduled)
    (ha : f.answer? = some answer) (hc : t.cancelled = false) : answer ≠ .error .cancelled := by
  rintro rfl
  obtain ⟨limit, count, turns, hp⟩ := hs f first hf
  have hint := hp.kept.interrupted.mpr (hp.faithful.cancelled ha)
  rw [hl.interrupted i t f first ht hf, hc] at hint
  cases hint

theorem Thread.Calm.goes (h : t.Calm) (hl : c.Linked) (ht : c.threads[i]? = some t)
    (hg : t.Goes Reply.Honest phase new) : Thread.Calm { t with phase } := by
  refine ⟨fun hc => ?_, fun he => ?_, fun f first hf => h.lanes f first (hg.lanes? hf)⟩
  · have hp := h.phase hc
    dsimp only at hc ⊢
    cases hg with
    | asks | starts | leaves => trivial
    | enters _ _ _ => exact keeps_calm _ _ _
    | writes hph =>
      rw [hph] at hp
      exact hp.2
    | looks present hph =>
      rw [hph] at hp
      exact hp present
    | wakes wake hph hw =>
      rw [hph] at hp
      cases wake with
      | elapsed => exact hp _ rfl
      | interrupted =>
        rw [hw rfl] at hc
        cases hc
    | sleeps hph =>
      rw [hph] at hp
      exact hp _ rfl
    | hears reply hph hr | awaits reply hph hr =>
      rw [hph] at hp
      refine hp reply fun he => ?_
      rw [hr he] at hc
      cases hc
    | rouses hph =>
      rw [hph] at hp
      exact hp
    | refuses hph =>
      rw [hph] at hp
      exact hp.2 _ fun h => by cases h
    | collects hph ha =>
      have hne := answer_ne_cancelled hl ht (by rw [hph]; rfl) h.lanes ha hc
      rw [hph] at hp
      exact hp _ hne
    | readies hph =>
      rw [hph] at hp
      exact hp
  · dsimp only at he
    subst he
    cases hg

theorem Thread.Calm.ends {ending : Ending} (h : t.Calm) (he : t.Ends ending)
    (hc : ending = .error .cancelled) : t.cancelled = true := by
  cases he with
  | cancelled _ hcan => exact hcan
  | missing => cases hc
  | @stops _ _ stop _ hph =>
    have hstop : stop = .cancelled := by
      cases stop <;> cases hc
      rfl
    subst hstop
    cases hcan : t.cancelled with
    | true => rfl
    | false =>
      have := h.phase hcan
      rw [hph] at this
      exact absurd rfl this
  | done => cases hc

/-- A thread that waits for lanes goes on to wait for them, after more of their schedule. -/
theorem Thread.Calm.forked {ticket ticket' : Option Nat} {first : Nat} {name : String}
    {rest : Except Stop (List Json) → StateProcess} (h : t.Calm)
    (hph : t.phase = .forked ticket f first name rest)
    (hplay : ∀ {limit count turns}, Played limit count turns f →
      ∃ turns', Played limit count turns' f') :
    Thread.Calm { t with phase := .forked ticket' f' first name rest } := by
  refine ⟨fun hcan => ?_, fun he => (by cases he), fun f₂ first₂ hf => ?_⟩
  · have hp := h.phase hcan
    rw [hph] at hp
    exact hp
  · cases hf
    obtain ⟨limit, count, turns, hp⟩ := h.lanes f first (by rw [hph]; rfl)
    exact ⟨limit, count, hplay hp⟩

theorem Thread.Calm.spawns {ticket : Nat} {ticket' : Option Nat} {first limit : Nat} {name : String}
    {jobs : List Job} {rest : Except Stop (List Json) → StateProcess} (h : t.Calm)
    (hph : t.phase = .running ticket name (.fork jobs limit rest)) :
    Thread.Calm { t with phase := .forked ticket' (t.lanes limit jobs.length) first name rest } := by
  refine ⟨fun hcan => ?_, fun he => (by cases he), fun f₂ first₂ hf => ?_⟩
  · have hp := h.phase hcan
    rw [hph] at hp
    exact hp.2
  · cases hf
    obtain ⟨turns, hp⟩ := exists_played t limit jobs.length
    exact ⟨_, _, turns, hp⟩

theorem Thread.Calm.cancel {ticket : Nat} (h : t.Calm) : (t.cancel ticket).Calm := by
  refine ⟨fun hcan => (by cases hcan), fun _ => rfl, fun f₂ first₂ hf => ?_⟩
  obtain ⟨f, hf', rfl⟩ := Scene.lanes?_cancel_iff.mp hf
  obtain ⟨limit, count, turns, hp⟩ := h.lanes f first₂ hf'
  exact ⟨limit, count, hp.take trivial⟩

/-- A lane comes to be cancelled only if the thread that waits for it knows its lanes to be cancelled. -/
theorem honest_finish {ticket : Option Nat} {first lane j : Nat} {name : String}
    {rest : Except Stop (List Json) → StateProcess} {u : Thread} {ending : Ending} (hl : c.Linked)
    (ht : c.threads[i]? = some t) (hph : t.phase = .forked ticket f first name rest)
    (hu : c.threads[j]? = some u) (hpar : u.parent = some (i, lane)) (hc : u.Calm)
    (hends : u.Ends ending) : (Turn.finish lane ending).Honest f := by
  unfold Turn.Honest
  split
  · next hturn =>
    cases hturn
    obtain ⟨t₂, f₂, first₂, lane₂, ht₂, hf₂, -, -, hm⟩ := hl.laneOf hu hpar fun _ hfinished => by
      rw [hends.standing.1] at hfinished
      cases hfinished
    cases ht.symm.trans ht₂
    rw [hph] at hf₂
    cases hf₂
    rw [← hm.cancelled, hc.ends hends rfl]
  · trivial

/-- Whatever becomes of a thread, it does not say that it was cancelled unless it was. -/
theorem Thread.Calm.becomes (hc : c.Each fun _ t _ => t.Calm) (hl : c.Linked)
    (ht : c.threads[i]? = some t) (hb : c.Becomes Reply.Honest i t t' new) : t'.Calm := by
  have h := hc i t ht
  cases hb with
  | stays => exact h
  | goes hg => exact h.goes hl ht hg
  | admitted => exact ⟨fun _ => trivial, fun he => (by cases he), .of_lanes? rfl⟩
  | ended he =>
    refine ⟨fun _ => trivial, fun hph => ?_, .of_lanes? rfl⟩
    cases hph
    exact h.ends he rfl
  | admits hph _ => exact h.forked hph fun hp => hp.take trivial
  | told hph hu hpar hends =>
    exact h.forked hph fun hp => hp.take (honest_finish hl ht hph hu hpar (hc _ _ hu) hends)
  | spawns hph _ => exact h.spawns hph
  | sees hph hobs => exact h.forked hph fun hp => hp.observes hobs
  | cancelled => exact h.cancel

end calm

/-- **No thread of a run says that it was cancelled unless it was**, after any steps in which tasks do
not do so either. -/
theorem calm_of_steps {σ : Type} {setting : Setting σ} {memory : σ} {identifier : String} {w : Workflow}
    {input : Json} {c : Scene}
    (h : Scene.Steps Reply.Honest (Run.start setting memory identifier w input).scene c) :
    c.Each fun _ t _ => t.Calm := by
  refine Scene.Steps.each (fun d l u u' new hsteps hd hu hb => ?_) (fun d l u _ _ hs => ?_) h
    Run.tidy_start fun l t ht => ?_
  · exact Thread.Calm.becomes hd (Run.linked_of_steps hsteps) hu hb
  · obtain ⟨i, t, ticket, name, jobs, limit, rest, lane, job, ticket', -, -, -, -, rfl⟩ := hs
    exact ⟨fun _ => trivial, fun he => (by cases he), .of_lanes? rfl⟩
  · obtain ⟨-, rfl⟩ := Run.start_eq_some.mp ht
    exact ⟨fun _ => trivial, fun he => (by cases he), .of_lanes? rfl⟩

/-! ## Lanes and jobs -/

/-- The thread runs a job in lane `k` of thread `i`. -/
structure Thread.Runs (u : Thread) (i k : Nat) (job : Job) : Prop where
  workflow : u.workflow = job.workflow
  context : u.context = job.context
  parent : u.parent = some (i, k)

namespace Scene

open FanOut

variable {allowed : Bool → Reply → Prop} {c₀ c c' : Scene} {i limit : Nat} {jobs : List Job}

/-- Thread `i` started jobs, at most `limit` of them to run at one time, and still waits for their
lanes. -/
inductive Waits (allowed : Bool → Reply → Prop) (c₀ : Scene) (i : Nat) (jobs : List Job) (limit : Nat) :
    Scene → Prop where
  | spawns {c : Scene} {t : Thread} {ticket ticket' ticket'' : Nat} {name : String}
      {rest : Except Stop (List Json) → StateProcess} : Steps allowed c₀ c →
      c.threads[i]? = some t → t.phase = .running ticket name (.fork jobs limit rest) →
      limit ≤ FanOut.maxLimit →
      Waits allowed c₀ i jobs limit (c.spawn i t ticket' ticket'' limit jobs name rest)
  | step {c c' : Scene} {t : Thread} {f : FanOut} {first : Nat} : Waits allowed c₀ i jobs limit c →
      Step allowed c c' → c'.threads[i]? = some t → t.phase.lanes? = some (f, first) →
      Waits allowed c₀ i jobs limit c'

theorem Becomes.lanes {t t' : Thread} {new : List Note} {f f' : FanOut} {first first' : Nat}
    (h : c.Becomes allowed i t t' new) (hf : t.phase.lanes? = some (f, first))
    (hf' : t'.phase.lanes? = some (f', first')) :
    first' = first ∧ f'.limit = f.limit ∧ f'.lanes.length = f.lanes.length := by
  cases h with
  | stays =>
    cases hf.symm.trans hf'
    exact ⟨rfl, rfl, rfl⟩
  | goes hg =>
    cases hf.symm.trans (hg.lanes? hf')
    exact ⟨rfl, rfl, rfl⟩
  | admitted | ended => cases hf'
  | admits hph | told hph =>
    rw [hph] at hf
    cases hf
    cases hf'
    exact ⟨rfl, take_shape _⟩
  | spawns hph =>
    rw [hph] at hf
    cases hf
  | sees hph hobs =>
    rw [hph] at hf
    cases hf
    cases hf'
    exact ⟨rfl, hobs.shape⟩
  | cancelled =>
    obtain ⟨f₀, hf₀, rfl⟩ := lanes?_cancel_iff.mp hf'
    cases hf.symm.trans hf₀
    exact ⟨rfl, rfl, rfl⟩

theorem lanes_limit (t : Thread) (limit count : Nat) : (t.lanes limit count).limit = limit := by
  unfold Thread.lanes
  split <;> rfl

theorem Waits.steps (h : Waits allowed c₀ i jobs limit c) : Steps allowed c₀ c := by
  induction h with
  | spawns hsteps ht hp hlimit => exact hsteps.tail (.spawns ht hp hlimit)
  | step _ hstep _ _ ih => exact ih.tail hstep

/-- While a thread waits, its lanes keep their limit, and each one runs its own job. -/
theorem Waits.runs (h : Waits allowed c₀ i jobs limit c) : ∃ t f first,
    c.threads[i]? = some t ∧ t.phase.lanes? = some (f, first) ∧ f.limit = limit ∧
      f.lanes.length = jobs.length ∧
      ∀ k job, jobs[k]? = some job → ∃ u, c.threads[first + k]? = some u ∧ u.Runs i k job := by
  induction h with
  | @spawns c t ticket ticket' ticket'' name rest hsteps ht hp hlimit =>
    have hi : i < c.threads.size := (Array.getElem?_eq_some_iff.mp ht).1
    refine ⟨{ t with phase := .forked (some ticket') (t.lanes limit jobs.length) c.threads.size name rest },
      t.lanes limit jobs.length, c.threads.size, ?_, rfl, lanes_limit _ _ _, ?_,
      fun k job hjob => ⟨t.ofJob i k (ticket'' + k) job, ?_, rfl, rfl, rfl⟩⟩
    · rw [getElem?_spawn, if_pos hi]
      exact put_eq_some.mpr ⟨t, ht, by rw [if_pos rfl]⟩
    · rw [lanes_lanes, List.length_replicate]
    · rw [getElem?_spawn, if_neg (by omega), Nat.add_sub_cancel_left, hjob, Option.map_some]
  | @step c c' t' f' first' hw hstep ht' hf' ih =>
    obtain ⟨t, f, first, ht, hf, hlimit, hlen, hjobs⟩ := ih
    rcases hstep.becomes ht' with ⟨v, notes, hv, hbec, -⟩ | ⟨hle, -, -⟩
    · cases ht.symm.trans hv
      obtain ⟨rfl, hlimit', hlen'⟩ := hbec.lanes hf hf'
      refine ⟨t', f', first', ht', hf', hlimit'.trans hlimit, hlen'.trans hlen, fun k job hjob => ?_⟩
      obtain ⟨u, hu, hruns⟩ := hjobs k job hjob
      obtain ⟨u', hu', hwf, hctx, hpar, -⟩ := hstep.steps.place hu
      exact ⟨u', hu', hwf.trans hruns.workflow, hctx.trans hruns.context, hpar.trans hruns.parent⟩
    · have := (Array.getElem?_eq_some_iff.mp ht).1
      omega

/-- The lanes that thread `i` waits for have followed a schedule. Lane `k` is thread `first + k`, which
runs job `k` and has come as far as the schedule says. -/
structure Follows (c : Scene) (i : Nat) (jobs : List Job) (t : Thread) (f : FanOut) (first : Nat)
    (turns : List Turn) : Prop where
  thread : c.threads[i]? = some t
  lanes : t.phase.lanes? = some (f, first)
  cancelled : .interrupt ∈ turns ↔ t.cancelled = true
  runs : ∀ k job, jobs[k]? = some job → ∃ u, c.threads[first + k]? = some u ∧ u.Runs i k job
  running : ∀ k u, k < jobs.length → c.threads[first + k]? = some u →
    (f.lanes[k]? = some .running ↔ u.phase.standing = .inside)
  ended : ∀ k u ending, k < jobs.length → c.threads[first + k]? = some u →
    (.finish k ending ∈ turns ↔ u.phase = .ended ending)

/-- **The lanes of a run follow a schedule**, whatever the steps of the run are. -/
theorem Waits.follows {σ : Type} {setting : Setting σ} {memory : σ} {identifier : String} {w : Workflow}
    {input : Json}
    (h : Waits Reply.Honest (Run.start setting memory identifier w input).scene i jobs limit c) :
    ∃ t f first turns, Played limit jobs.length turns f ∧ c.Follows i jobs t f first turns := by
  have hl := Run.linked_of_steps h.steps
  obtain ⟨t, f, first, ht, hf, hlimit, hlen, hruns⟩ := h.runs
  obtain ⟨limit', count', turns, hp⟩ := (calm_of_steps h.steps i t ht).lanes f first hf
  cases hp.kept.limit_eq.symm.trans hlimit
  cases hp.kept.length_eq.symm.trans hlen
  have hlane : ∀ k u, k < jobs.length → c.threads[first + k]? = some u →
      ∃ lane, f.lanes[k]? = some lane ∧ u.phase.standing = lane.standing := fun k u hk hu => by
    have hk' : k < f.lanes.length := by rw [hp.kept.length_eq]; exact hk
    obtain ⟨u', hu', hm⟩ := hl.lane i t f first k _ ht hf (List.getElem?_eq_getElem hk')
    cases hu.symm.trans hu'
    exact ⟨_, List.getElem?_eq_getElem hk', hm.standing⟩
  refine ⟨t, f, first, turns, hp, ht, hf, ?_, hruns, fun k u hk hu => ?_, fun k u ending hk hu => ?_⟩
  · rw [← hp.kept.interrupted, hl.interrupted i t f first ht hf]
  · obtain ⟨lane, hlane, hs⟩ := hlane k u hk hu
    rw [hlane, hs, Option.some.injEq]
    cases lane <;> simp [Lane.standing]
  · obtain ⟨lane, hlane, hs⟩ := hlane k u hk hu
    rw [← hp.kept.finished, ← Phase.standing_eq_finished, hs]
    constructor
    · rintro ⟨lane', hlane', hfinished⟩
      cases hlane.symm.trans hlane'
      exact hfinished
    · exact fun hfinished => ⟨lane, hlane, hfinished⟩

theorem Waits.of_fork {c : Scene} {t : Thread} {ticket : Nat} {name : String}
    {rest : Except Stop (List Json) → StateProcess} (hc : Steps allowed c₀ c)
    (ht : c.threads[i]? = some t) (hp : t.phase = .running ticket name (.fork jobs limit rest))
    (hlimit : limit ≤ FanOut.maxLimit) : ∃ c' t', Waits allowed c₀ i jobs limit c' ∧
      c'.threads[i]? = some t' ∧
      t'.phase = .forked (some ticket) (t.lanes limit jobs.length) c.threads.size name rest ∧
      ∀ k job, jobs[k]? = some job → c'.threads[c.threads.size + k]? = some (t.ofJob i k k job) := by
  have hi : i < c.threads.size := (Array.getElem?_eq_some_iff.mp ht).1
  have hforked : (c.spawn i t ticket 0 limit jobs name rest).threads[i]? = some
      { t with phase := .forked (some ticket) (t.lanes limit jobs.length) c.threads.size name rest } := by
    rw [getElem?_spawn, if_pos hi]
    exact put_eq_some.mpr ⟨t, ht, by rw [if_pos rfl]⟩
  refine ⟨_, _, .spawns hc ht hp hlimit, hforked, rfl, fun k job hk => ?_⟩
  rw [getElem?_spawn, if_neg (by omega), Nat.add_sub_cancel_left, hk, Nat.zero_add]
  rfl

theorem Waits.of_entering {c : Scene} {t : Thread} {ticket looks : Nat} {name : String} {input : Json}
    {s : State Workflow} {present : Nat → Present} {rest : Except Stop (List Json) → StateProcess}
    (hc : Steps allowed c₀ c) (ht : c.threads[i]? = some t) (hp : t.phase = .entering ticket name input)
    (hcancelled : t.cancelled = false) (hs : t.workflow.state? name = some s)
    (hfork : ((s.process t.context input).proceed present false looks []).2.2 = .fork jobs limit rest)
    (hlimit : limit ≤ FanOut.maxLimit) : ∃ c' t', Waits allowed c₀ i jobs limit c' ∧
      c'.threads[i]? = some t' ∧
      t'.phase = .forked (some ticket) (t.lanes limit jobs.length) c.threads.size name rest ∧
      ∀ k job, jobs[k]? = some job → c'.threads[c.threads.size + k]? = some (t.ofJob i k k job) := by
  have henters : Step allowed c ((c.put i (.running ticket name (s.process t.context input))).write i []) :=
    .goes ht (.enters hp hcancelled hs)
  have hproceeds : Steps allowed _ _ :=
    steps_proceed ht ticket name present (s.process t.context input) looks []
  rw [hcancelled, hfork] at hproceeds
  have hsize : ((c.put i (.running ticket name (.fork jobs limit rest))).write i
      ((s.process t.context input).proceed present false looks []).2.1).threads.size = c.threads.size := by
    simp only [write, put, modify, Array.size_modify]
  have hforks := Waits.of_fork ((hc.tail henters).trans hproceeds) (getElem?_put_self _ ht) rfl hlimit
  rwa [hsize] at hforks

/-- While the thread waits, a lane that has not begun gets room if there is some. -/
theorem Waits.admits {t u : Thread} {ticket : Option Nat} {f : FanOut} {first j k : Nat} {name : String}
    {rest : Except Stop (List Json) → StateProcess} {input : Json} (h : Waits allowed c₀ i jobs limit c)
    (ht : c.threads[i]? = some t) (hp : t.phase = .forked ticket f first name rest)
    (hu : c.threads[j]? = some u) (hout : u.phase.outside? = some input) (hpar : u.parent = some (i, k))
    (hroom : f.hasRoom) : ∃ c' t' u', Waits allowed c₀ i jobs limit c' ∧ c'.threads[i]? = some t' ∧
      t'.phase = .forked ticket (f.take (.enter k)) first name rest ∧
      c'.threads[j]? = some u' ∧ u'.phase = .entering 0 u.workflow.startAt input := by
  have hij : j ≠ i := by
    rintro rfl
    cases hu.symm.trans ht
    rw [hp] at hout
    cases hout
  have hstep : Step allowed c ((c.modify i (.turn (.enter k))).put j
      (.entering 0 u.workflow.startAt input)) := .admits hu hout hpar ht hp hroom
  have hturned : ((c.modify i (.turn (.enter k))).put j (.entering 0 u.workflow.startAt input)).threads[i]? =
      some (t.turn (.enter k)) := by
    rw [getElem?_put, if_neg hij, getElem?_modify, if_pos rfl, ht, Option.map_some]
  have hphase : (t.turn (.enter k)).phase = .forked ticket (f.take (.enter k)) first name rest := by
    rw [Thread.turn, hp, Phase.turn]
  refine ⟨_, _, { u with phase := .entering 0 u.workflow.startAt input },
    h.step hstep hturned (by rw [hphase]; rfl), hturned, hphase, ?_, rfl⟩
  rw [getElem?_put, if_pos rfl, getElem?_modify, if_neg hij.symm, hu, Option.map_some]

end Scene

/-! ## The bound of a map state -/

namespace MapState

variable {s : MapState Workflow} {context : Context} {supply : Supply} {effective : Json}

theorem jobsFrom_bound (m index : Nat) (items : List Json) :
    MapState.jobsFrom { s with maxConcurrency := m } context supply effective index items =
      s.jobsFrom context supply effective index items := by
  induction items generalizing index with
  | nil => rfl
  | cons item items ih =>
    unfold jobsFrom
    rw [ih]
    rfl

theorem work_bound (s : MapState Workflow) (context : Context) (present : Present) (input : Json) :
    (∃ p, ∀ m, (State.map { s with maxConcurrency := m }).work context present input = p) ∨
      ∃ jobs rest, ∀ m, (State.map { s with maxConcurrency := m }).work context present input =
        Process.fork jobs m rest := by
  have hjobs : ∀ m, MapState.jobs { s with maxConcurrency := m } context present.supply input =
      s.jobs context present.supply input := fun m => by
    unfold jobs
    simp only [jobsFrom_bound]
    rfl
  simp only [State.work, hjobs, Activity.attempt_bind]
  cases s.jobs context present.supply input with
  | error f => exact .inl ⟨_, fun _ => rfl⟩
  | ok jobs =>
    exact .inr ⟨jobs, _, fun m => Activity.fork_bind jobs m fun outs =>
      Activity.attempt (s.settle context present.supply input outs)⟩

end MapState

/-! ## Jobs side by side -/

/-- **What comes of jobs that run side by side.** In every run, lanes follow a schedule, whatever the
order in which they get room, end and are seen. After every schedule, no more of them run than the limit
allows, the outputs are those of the jobs, each one in its place, a failure is that of a job which came
to a halt, with every job at its end, and cancellation is passed on from outside. If all jobs come to an
output, every schedule leads to these outputs, whatever the limit; and the bound of a map state is a
limit, and nothing else. -/
theorem fork_faithful :
    (∀ (σ : Type) (setting : Setting σ) (memory : σ) (identifier : String) (w : Workflow) (input : Json)
      (i : Nat) (jobs : List Job) (limit : Nat) (c : Scene),
      Scene.Waits Reply.Honest (Run.start setting memory identifier w input).scene i jobs limit c →
      ∃ t f first turns, FanOut.Played limit jobs.length turns f ∧
        c.Follows i jobs t f first turns) ∧
    (∀ (limit count : Nat) (turns : List FanOut.Turn) (f : FanOut),
      FanOut.Played limit count turns f → FanOut.Faithful limit count turns f) ∧
    (∀ (limit count : Nat) (turns : List FanOut.Turn) (f : FanOut) (outs : List Json),
      FanOut.Played limit count turns f → outs.length = count → FanOut.Succeed turns outs →
      .interrupt ∉ turns →
      (∀ answer, f.answer? = some answer → answer = .ok outs) ∧
      (f.answer? = none → ∃ turn f', FanOut.Turn.Expected outs turn ∧ f.apply turn = some f') ∧
      turns.length ≤ 3 * count) ∧
    ∀ (s : MapState Workflow) (context : Context) (present : Present) (input : Json),
      (∃ p, ∀ m, (State.map { s with maxConcurrency := m }).work context present input = p) ∨
      ∃ jobs rest, ∀ m, (State.map { s with maxConcurrency := m }).work context present input =
        Process.fork jobs m rest := by
  refine ⟨fun σ setting memory identifier w input i jobs limit c h => h.follows,
    fun limit count turns f h => h.faithful, fun limit count turns f outs h hlen hs hi => ?_,
    fun s => s.work_bound⟩
  refine ⟨fun answer ha => h.answer_of_succeed hlen hs hi ha, fun ha => h.exists_expected hlen ha, ?_⟩
  have := h.length_add_ahead hi
  omega

/-- A schedule of two lanes of which one may run at a time, the second one first. -/
def secondFirst : List FanOut.Turn :=
  [.observe 0, .finish 0 (.ok (.bool true)), .enter 0,
    .observe 1, .finish 1 (.ok (.bool false)), .enter 1]

/-- A document that goes through the items of an array, one at a time. -/
def narrowDocument : Json :=
  .obj [("StartAt", .str "M"), ("States", .obj [
    ("M", .obj [("End", .bool true),
      ("Iterator", .obj [("StartAt", .str "P"), ("States", .obj [
        ("P", .obj [("End", .bool true), ("Type", .str "Pass")])])]),
      ("MaxConcurrency", .num (.int 1)), ("Type", .str "Map")])])]

/-- The jobs that a process starts, and the limit for them. -/
def Process.jobs? {α : Type} : Process α → Option (List Job × Nat)
  | .fork jobs limit _ => some (jobs, limit)
  | _ => none

theorem Process.eq_of_jobs? {α : Type} {p : Process α} {jobs : List Job} {limit : Nat}
    (h : p.jobs? = some (jobs, limit)) : ∃ rest, p = .fork jobs limit rest := by
  unfold jobs? at h
  split at h
  · cases h
    exact ⟨_, rfl⟩
  · cases h

/-- A run in which two lanes wait for room, and the second one gets it. -/
theorem waits_narrow : ∃ w jobs c, Workflow.compile narrowDocument = .ok w ∧ jobs.length = 2 ∧
    Scene.Waits Reply.Honest
      (Run.start failingSetting () "run" w (.arr [.null, .null])).scene 0 jobs 1 c ∧
    (∃ t ticket f name rest, c.threads[0]? = some t ∧ t.phase = .forked ticket f 1 name rest) ∧
    ∃ u, c.threads[2]? = some u ∧ u.phase.standing = .inside := by
  obtain ⟨w, hw⟩ : ∃ w, Workflow.compile narrowDocument = .ok w := ⟨_, by rfl⟩
  have hjobs : ((Workflow.compile narrowDocument).toOption.bind fun w =>
      (w.state? w.startAt).bind fun s =>
        (((s.process (.ofRun "run" (.arr [.null, .null]) .epoch) (.arr [.null, .null])).proceed
          (fun _ => ⟨.epoch, failingSetting.draw, []⟩) false 0 []).2.2.jobs?).map fun p =>
            (p.1.length, p.2)) = some (2, 1) := by decide +kernel
  rw [hw] at hjobs
  obtain ⟨w', hw', hstate⟩ := Option.bind_eq_some_iff.mp hjobs
  obtain rfl : w = w' := Option.some.inj hw'
  obtain ⟨s, hs, hforks⟩ := Option.bind_eq_some_iff.mp hstate
  obtain ⟨⟨jobs, limit⟩, hp, hcount⟩ := Option.map_eq_some_iff.mp hforks
  obtain ⟨hlen, rfl⟩ := Prod.mk.inj hcount
  obtain ⟨rest, hfork⟩ := Process.eq_of_jobs? hp
  have hstart : (Run.start failingSetting () "run" w (.arr [.null, .null])).scene.threads[0]? = some
      ⟨w, .ofRun "run" (.arr [.null, .null]) .epoch, none, [], false,
        .entering 0 w.startAt (.arr [.null, .null])⟩ := Run.start_eq_some.mpr ⟨rfl, rfl⟩
  have hlimit : 1 ≤ FanOut.maxLimit := by decide
  obtain ⟨c, t, hwaits, ht, hphase, hlanes⟩ :=
    Scene.Waits.of_entering .refl hstart rfl rfl hs hfork hlimit
  obtain ⟨job, hjob⟩ : ∃ job, jobs[1]? = some job :=
    ⟨_, List.getElem?_eq_getElem (by rw [hlen]; exact Nat.one_lt_two)⟩
  have hroom : (FanOut.start 1 jobs.length).hasRoom = true := by rw [hlen]; decide
  obtain ⟨c', t', u', hwaits', ht', hphase', hu', hentering⟩ :=
    hwaits.admits ht hphase (hlanes 1 job hjob) rfl rfl hroom
  exact ⟨w, jobs, c', hw, hlen, hwaits', ⟨t', _, _, _, _, ht', hphase'⟩, u', hu', by rw [hentering]; rfl⟩

/-- Of two lanes of a run that may not run at the same time, the second one runs; and by a schedule in which
it is the first one to end, the outputs are in the order of the jobs. -/
theorem fork_faithful_secondFirst :
    (∃ w jobs c t f first turns, Workflow.compile narrowDocument = .ok w ∧
      Scene.Waits Reply.Honest
        (Run.start failingSetting () "run" w (.arr [.null, .null])).scene 0 jobs 1 c ∧
      FanOut.Played 1 2 turns f ∧ c.Follows 0 jobs t f first turns ∧
      FanOut.Faithful 1 2 turns f ∧ f.lanes[1]? = some .running) ∧
    ∃ f answer, FanOut.Played 1 2 secondFirst f ∧
      f.answer? = some answer ∧ answer = .ok [.bool true, .bool false] := by
  obtain ⟨hfollows, hfaithful, hsucceed, -⟩ := fork_faithful
  constructor
  · obtain ⟨w, jobs, c, hw, hlen, hwaits, ⟨t, ticket, f, name, rest, ht, hphase⟩, u, hu, hinside⟩ :=
      waits_narrow
    obtain ⟨t', f', first, turns, hplayed, hf⟩ := hfollows _ _ _ _ _ _ _ _ _ _ hwaits
    obtain rfl : t' = t := Option.some.inj (hf.thread.symm.trans ht)
    obtain ⟨rfl, rfl⟩ : f' = f ∧ first = 1 := by
      have hlanes := hf.lanes
      rw [hphase] at hlanes
      cases hlanes
      exact ⟨rfl, rfl⟩
    rw [hlen] at hplayed
    exact ⟨w, jobs, c, t', f', 1, turns, hw, hwaits, hplayed, hf, hfaithful _ _ _ _ hplayed,
      (hf.running 1 u (by omega) hu).mpr hinside⟩
  · have hp : ∃ f, FanOut.Played 1 2 secondFirst f ∧ f.answer?.isSome := by
      refine ⟨_, .turn (.turn (.turn (.turn (.turn (.turn .start rfl ?_) rfl ?_) rfl ?_) rfl ?_) rfl ?_)
        rfl ?_, rfl⟩ <;> trivial
    obtain ⟨f, hp, ha⟩ := hp
    obtain ⟨answer, ha⟩ := Option.isSome_iff_exists.mp ha
    have hs : FanOut.Succeed secondFirst [.bool true, .bool false] := by
      intro i ending h
      simp only [secondFirst, List.mem_cons, List.not_mem_nil, reduceCtorEq, false_or, or_false,
        FanOut.Turn.finish.injEq] at h
      rcases h with ⟨rfl, rfl⟩ | ⟨rfl, rfl⟩
      · exact ⟨_, rfl, rfl⟩
      · exact ⟨_, rfl, rfl⟩
    have hi : FanOut.Turn.interrupt ∉ secondFirst := by simp [secondFirst]
    exact ⟨f, answer, hp, ha, (hsucceed 1 2 _ f _ hp rfl hs hi).1 answer ha⟩

end StepFlow
