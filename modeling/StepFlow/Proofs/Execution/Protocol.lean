import StepFlow.Proofs.Execution.Moves

/-!
# Following one thread

A thread of a run is given a job: the workflow, the input and the context of the run or of a lane. What
it does from then on can be followed by itself.

* `Assigned`: the job that a thread of a run was given, and `exists_assigned`: each was given one;
* `Scene.Steps.follow`: what every step keeps of one thread, a run keeps;
* `Protocol`: facts about where a thread stands of which each leads to the next;
* **`Scene.Steps.holds`**: a thread that begins by a protocol follows it to the end.
-/

namespace StepFlow

variable {allowed : Bool → Reply → Prop} {c c' d : Scene} {i l : Nat} {t u : Thread}

namespace Scene

/-- What every step makes true again of one thread and what it has written down stays true. -/
theorem Steps.follow {P : Thread → List Note → Prop}
    (hb : ∀ {d : Scene} {u u' : Thread} {new notes : List Note},
      d.Becomes allowed l u u' new → P u notes → P u' (new ++ notes))
    (h : Steps allowed c c') (hu : c.threads[l]? = some u) (hP : P u (c.notes l)) :
    ∃ u', c'.threads[l]? = some u' ∧ P u' (c'.notes l) := by
  induction h with
  | refl => exact ⟨u, hu, hP⟩
  | @tail d d' _ hstep ih =>
    obtain ⟨v, hv, hPv⟩ := ih
    have hl : l < d.threads.size := (Array.getElem?_eq_some_iff.mp hv).1
    obtain ⟨v', hv'⟩ : ∃ v', d'.threads[l]? = some v' :=
      ⟨_, Array.getElem?_eq_getElem (Nat.lt_of_lt_of_le hl hstep.size_le)⟩
    refine ⟨v', hv', ?_⟩
    rcases hstep.becomes hv' with ⟨v₂, new, hv₂, hbec, hn⟩ | ⟨hle, -, -⟩
    · cases hv.symm.trans hv₂
      rw [hn]
      exact hb hbec hPv
    · omega

theorem Step.eq_spawn (h : Step allowed c c') (hl : c.threads.size ≤ l)
    (hu : c'.threads[l]? = some u) :
    ∃ (i ticket ticket' ticket'' limit : Nat) (t : Thread) (name : String) (jobs : List Job)
      (rest : Except Stop (List Json) → StateProcess),
      c.threads[i]? = some t ∧ t.phase = .running ticket name (.fork jobs limit rest) ∧
        limit ≤ FanOut.maxLimit ∧ c' = c.spawn i t ticket' ticket'' limit jobs name rest := by
  have hsize : c'.threads.size ≠ c.threads.size := by
    have := (Array.getElem?_eq_some_iff.mp hu).1
    omega
  cases h with
  | spawns ht hf hlimit => exact ⟨_, _, _, _, _, _, _, _, _, ht, hf, hlimit, rfl⟩
  | goes => exact absurd (by simp only [write, put, modify, Array.size_modify]) hsize
  | admits => exact absurd (by simp only [put, modify, Array.size_modify]) hsize
  | ends => exact absurd (by simp only [size_tell, put, modify, Array.size_modify]) hsize
  | sees =>
    exact absurd (by simp only [put, modify, cancelWhere, Array.size_modify, Array.size_map]) hsize
  | cancels => exact absurd (by simp only [cancelWhere, Array.size_map]) hsize

end Scene

/-! ## Jobs of threads -/

/-- The job that a thread was given between two scenes of a run: the first thread that of the run, and
every other one that of its lane when the lanes were started. -/
inductive Assigned (allowed : Bool → Reply → Prop) (root : Job) (c c' : Scene) : Nat → Job → Prop where
  | root : Assigned allowed root c c' 0 root
  | lane {d : Scene} {i k ticket ticket' ticket'' limit : Nat} {t : Thread} {name : String}
      {jobs : List Job} {rest : Except Stop (List Json) → StateProcess} {job : Job} :
      Scene.Steps allowed c d → d.threads[i]? = some t →
      t.phase = .running ticket name (.fork jobs limit rest) → limit ≤ FanOut.maxLimit →
      jobs[k]? = some job →
      Scene.Steps allowed (d.spawn i t ticket' ticket'' limit jobs name rest) c' →
      Assigned allowed root c c' (d.threads.size + k) job

theorem Assigned.steps {root job : Job} (h : Assigned allowed root c d i job)
    (hs : Scene.Steps allowed d c') : Assigned allowed root c c' i job := by
  cases h with
  | root => exact .root
  | lane hd ht hf hlimit hjob hrest => exact .lane hd ht hf hlimit hjob (hrest.trans hs)

theorem getElem?_spawn_lane {k ticket ticket' limit : Nat} {jobs : List Job} {name : String}
    {rest : Except Stop (List Json) → StateProcess} {job : Job} (hjob : jobs[k]? = some job) :
    (d.spawn i t ticket ticket' limit jobs name rest).threads[d.threads.size + k]? =
      some (t.ofJob i k (ticket' + k) job) := by
  rw [Scene.getElem?_spawn, if_neg (by omega), Nat.add_sub_cancel_left, hjob]
  rfl

theorem exists_assigned {root : Job} (hc : ∀ l t, c.threads[l]? = some t → l = 0)
    (h : Scene.Steps allowed c c') (ht : c'.threads[i]? = some t) :
    ∃ job, Assigned allowed root c c' i job := by
  induction h generalizing i t with
  | refl =>
    cases hc i t ht
    exact ⟨root, .root⟩
  | @tail d d' hsteps hstep ih =>
    by_cases hi : i < d.threads.size
    · obtain ⟨job, hjob⟩ := ih (Array.getElem?_eq_getElem hi)
      exact ⟨job, hjob.steps hstep.steps⟩
    · obtain ⟨j, ticket, ticket', ticket'', limit, u, name, jobs, rest, hu, hf, hlimit, rfl⟩ :=
        hstep.eq_spawn (Nat.le_of_not_lt hi) ht
      rw [Scene.getElem?_spawn, if_neg hi] at ht
      obtain ⟨job, hjob, -⟩ := Option.map_eq_some_iff.mp ht
      have hlane : Assigned allowed root c (d.spawn j u ticket' ticket'' limit jobs name rest)
          (d.threads.size + (i - d.threads.size)) job :=
        .lane hsteps hu hf hlimit hjob .refl
      rw [Nat.add_sub_cancel' (Nat.le_of_not_lt hi)] at hlane
      exact ⟨job, hlane⟩

/-! ## Protocols -/

/-- A process that asks something of the run goes on with an answer. -/
inductive Process.Resumes {α : Type} : Process α → Process α → Prop where
  | look {rest : Present → Process α} (present : Present) : Resumes (.look rest) (rest present)
  | sleep {duration : Duration} {rest : Wake → Process α} (wake : Wake) :
      Resumes (.sleep duration rest) (rest wake)
  | call {request : TaskRequest} {limit : Option Duration} {rest : Reply → Process α}
      (reply : Reply) : Resumes (.call request limit rest) (rest reply)
  | fork {jobs : List Job} {limit : Nat} {rest : Except Stop (List Json) → Process α}
      (answer : Except Stop (List Json)) : Resumes (.fork jobs limit rest) (rest answer)

theorem Process.Resumes.of_bind {α β : Type} {p : Process α} {f : α → Process β} {p' : Process β}
    (h : (p.bind f).Resumes p') :
    (∃ q, p.Resumes q ∧ p' = q.bind f) ∨ ∃ a, p = .done a ∧ (f a).Resumes p' := by
  cases p with
  | done a => exact .inr ⟨a, rfl, h⟩
  | note n rest => cases h
  | look rest =>
    cases h with
    | look present => exact .inl ⟨_, .look present, rfl⟩
  | sleep d rest =>
    cases h with
    | sleep wake => exact .inl ⟨_, .sleep wake, rfl⟩
  | call request limit rest =>
    cases h with
    | call reply => exact .inl ⟨_, .call reply, rfl⟩
  | fork jobs limit rest =>
    cases h with
    | fork answer => exact .inl ⟨_, .fork answer, rfl⟩

/-- Facts about where a thread of a workflow stands, given what it has written down, the latest first.
Each of them leads to the one about what the thread does next. -/
structure Protocol (w : Workflow) (context : Context) where
  /-- The workflow has not begun. -/
  waiting : List Note → Json → Prop
  /-- The thread is about to enter a state. -/
  entering : List Note → String → Json → Prop
  /-- The thread is in the middle of a state. -/
  running : List Note → String → StateProcess → Prop
  ended : List Note → Ending → Prop
  start : ∀ {notes input}, waiting notes input → entering notes w.startAt input
  enter : ∀ {notes name input s}, entering notes name input → w.state? name = some s →
    running notes name (s.process context input)
  write : ∀ {notes name n rest}, running notes name (.note n rest) → running (n :: notes) name rest
  resume : ∀ {notes name p p'}, running notes name p → p.Resumes p' → running notes name p'
  next : ∀ {notes name next output}, running notes name (.done (.ok ⟨.next next, output⟩)) →
    entering notes next output
  done : ∀ {notes name output}, running notes name (.done (.ok ⟨.done, output⟩)) →
    ended notes (.ok output)
  stop : ∀ {notes name report stop}, running notes name (.done (.error stop)) →
    ended notes (.error (.ofStop name report stop))
  cancel : ∀ {notes name input}, entering notes name input → ended notes (.error .cancelled)
  missing : ∀ {notes name input}, entering notes name input → w.state? name = none →
    ended notes (.error (.noState name))

namespace Protocol

variable {w : Workflow} {context : Context} {P : Protocol w context} {notes new : List Note}
  {phase : Phase} {t' : Thread}

/-- The protocol holds where a thread stands. -/
def Holds (P : Protocol w context) (notes : List Note) : Phase → Prop
  | .queued _ input | .waiting input => P.waiting notes input
  | .entering _ name input => P.entering notes name input
  | .running _ name p => P.running notes name p
  | .paused _ _ name elapsed interrupted =>
    P.running notes name elapsed ∧ P.running notes name interrupted
  | .forked _ _ _ name rest => ∀ answer, P.running notes name (rest answer)
  | .ended ending => P.ended notes ending

/-- A thread that follows the protocol has ended by it, is about to enter a state, or is in the middle of
one. -/
theorem Holds.cases (h : P.Holds notes phase) :
    (∃ ending, phase = .ended ending ∧ P.ended notes ending) ∨
      (∀ ending, phase ≠ .ended ending) ∧
        ((∃ name input, P.entering notes name input) ∨ ∃ name p, P.running notes name p) := by
  cases phase with
  | ended ending => exact .inl ⟨ending, rfl, h⟩
  | queued | waiting => exact .inr ⟨nofun, .inl ⟨_, _, P.start h⟩⟩
  | entering => exact .inr ⟨nofun, .inl ⟨_, _, h⟩⟩
  | running => exact .inr ⟨nofun, .inr ⟨_, _, h⟩⟩
  | paused => exact .inr ⟨nofun, .inr ⟨_, _, h.1⟩⟩
  | forked => exact .inr ⟨nofun, .inr ⟨_, _, h (.ok [])⟩⟩

/-- A thread that follows the protocol. -/
structure Follows (P : Protocol w context) (t : Thread) (notes : List Note) : Prop where
  workflow : t.workflow = w
  context : t.context = context
  phase : P.Holds notes t.phase

theorem Follows.goes (h : P.Follows t notes) (hg : t.Goes allowed phase new) :
    P.Holds (new ++ notes) phase := by
  obtain ⟨rfl, rfl, hp⟩ := h
  cases hg with
  | asks hph => rwa [hph] at hp
  | starts hph =>
    rw [hph] at hp
    exact P.start hp
  | enters hph _ hs =>
    rw [hph] at hp
    exact P.enter hp hs
  | writes hph =>
    rw [hph] at hp
    exact P.write hp
  | looks present hph =>
    rw [hph] at hp
    exact P.resume hp (.look present)
  | wakes wake hph =>
    rw [hph] at hp
    exact P.resume hp (.sleep wake)
  | sleeps hph =>
    rw [hph] at hp
    exact ⟨P.resume hp (.sleep _), P.resume hp (.sleep _)⟩
  | hears reply hph =>
    rw [hph] at hp
    exact P.resume hp (.call reply)
  | awaits reply hph =>
    rw [hph] at hp
    exact ⟨P.resume hp (.call reply), P.resume hp (.call _)⟩
  | rouses hph =>
    rw [hph] at hp
    exact hp.1
  | leaves hph =>
    rw [hph] at hp
    exact P.next hp
  | refuses hph =>
    rw [hph] at hp
    exact P.resume hp (.fork _)
  | collects hph =>
    rw [hph] at hp
    exact hp _
  | readies hph => rwa [hph] at hp

theorem Follows.ends {ending : Ending} (h : P.Follows t notes) (he : t.Ends ending) :
    P.ended notes ending := by
  obtain ⟨rfl, rfl, hp⟩ := h
  cases he with
  | cancelled hph =>
    rw [hph] at hp
    exact P.cancel hp
  | missing hph _ hs =>
    rw [hph] at hp
    exact P.missing hp hs
  | stops _ hph =>
    rw [hph] at hp
    exact P.stop hp
  | done hph =>
    rw [hph] at hp
    exact P.done hp

theorem Holds.cancel {ticket : Nat} (h : P.Holds notes phase) :
    P.Holds notes (phase.cancel ticket) := by
  cases phase with
  | paused => exact h.2
  | _ => exact h

theorem Holds.outside {input : Json} (h : P.Holds notes phase) (hi : phase.outside? = some input) :
    P.waiting notes input := by
  cases phase with
  | queued | waiting =>
    cases hi
    exact h
  | _ => cases hi

/-- **A thread that follows a protocol goes on to do so**, whatever becomes of it. -/
theorem Follows.becomes (h : P.Follows t notes) (hb : c.Becomes allowed i t t' new) :
    P.Follows t' (new ++ notes) := by
  refine ⟨hb.place.1.trans h.workflow, hb.place.2.1.trans h.context, ?_⟩
  have hp := h.phase
  cases hb with
  | stays => exact hp
  | goes hg => exact h.goes hg
  | admitted hi =>
    show P.entering _ t.workflow.startAt _
    rw [h.workflow]
    exact P.start (hp.outside hi)
  | ended he => exact h.ends he
  | admits hph | told hph | sees hph =>
    rw [hph] at hp
    exact hp
  | spawns hph =>
    rw [hph] at hp
    exact fun answer => P.resume hp (.fork answer)
  | cancelled => exact hp.cancel

end Protocol

/-- **A thread that begins by a protocol follows it to the end.** -/
theorem Scene.Steps.holds {w : Workflow} {context : Context} {P : Protocol w context}
    (h : Scene.Steps allowed c c') (hu : c.threads[l]? = some u) (hP : P.Follows u (c.notes l)) :
    ∃ u', c'.threads[l]? = some u' ∧ P.Follows u' (c'.notes l) :=
  h.follow (fun hb hP => hP.becomes hb) hu hP

end StepFlow
