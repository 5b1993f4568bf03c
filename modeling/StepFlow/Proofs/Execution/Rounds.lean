import StepFlow.Proofs.Execution.Acyclic
import StepFlow.Proofs.Execution.Attempts
import StepFlow.Proofs.Execution.Replay
import StepFlow.Proofs.Execution.Surroundings

/-!
# The rounds of a thread

A thread goes through its workflow in rounds, of which each one enters a state and makes attempts of it.
In an acyclic workflow no state comes twice, and the attempts of a state are bounded by its retriers.

* `Visits.chain`: the states of the rounds follow each other;
* `attemptsIn`, `State.thrift`: the attempts since a state was entered, and their bound;
* `Thrifty`, `thrifty_of_steps`: the bound, for all attempts of a thread;
* `acyclic_of_steps`: all threads of a run have acyclic workflows;
* **`rounds_of_steps`**: the rounds of every thread.
-/

namespace StepFlow

/-! ## States that follow each other -/

/-- The state that is about to be entered. -/
def Stand.next? : Stand → Option String
  | .before name _ => some name
  | _ => none

/-- The states that were entered, the latest first. -/
def entries (events : List Event) : List String :=
  events.filterMap fun
    | .entered name _ => some name
    | _ => none

variable {w : Workflow} {input : Json} {events : List Event} {name : String}

theorem Visits.entries_inside (h : Visits w input events (.inside name)) :
    ∃ earlier, entries events = name :: earlier := by
  generalize hs : Stand.inside name = stand at h
  induction h with
  | enter => cases hs; exact ⟨_, rfl⟩
  | retry _ _ _ _ ih | divert _ _ _ ih => exact ih hs
  | start | exit | leave => cases hs

/-- **The states of the rounds follow each other.** -/
theorem Visits.chain {stand : Stand} (h : Visits w input events stand) :
    (stand.next?.toList ++ entries events).IsChain fun later earlier => w.Follows earlier later := by
  induction h with
  | start => exact .singleton _
  | enter _ ih | retry _ _ _ _ ih | divert _ _ _ ih | leave _ _ ih => exact ih
  | @exit events name next s output hv hs hn ih =>
    obtain ⟨earlier, he⟩ := hv.entries_inside
    have hchain : (entries events).IsChain fun later earlier => w.Follows earlier later := ih
    show (next :: entries events).IsChain _
    rw [he] at hchain ⊢
    exact .cons_cons ⟨s, hs, hn⟩ hchain

theorem Visits.entries_subset {stand : Stand} (h : Visits w input events stand) (hw : w.Closed) :
    stand.next?.toList ++ entries events ⊆ w.index.keys := by
  induction h with
  | start =>
    obtain ⟨s, hs⟩ := hw.start
    exact List.cons_subset.mpr ⟨Workflow.mem_keys_of_state? hs, List.nil_subset _⟩
  | enter _ ih | retry _ _ _ _ ih | divert _ _ _ ih | leave _ _ ih => exact ih
  | @exit events name next s output _ hs hn ih =>
    obtain ⟨s', hs'⟩ := hw.leads hs (State.mem_successors.mp hn)
    exact List.cons_subset.mpr ⟨Workflow.mem_keys_of_state? hs', ih⟩

/-! ## Attempts -/

/-- The number of attempts since a state was entered. -/
def attemptsIn : List Note → Nat
  | [] => 0
  | .event (.entered _ _) :: _ => 0
  | .attempt _ :: rest => attemptsIn rest + 1
  | _ :: rest => attemptsIn rest

namespace State

/-- The attempts that a state makes are its own, and no more than its retriers allow. -/
def thrift (s : State Workflow) : Process.Chronicle (Except Stop Step) where
  notes written
    | .attempt a => a.state = s.name ∧ inside? written = some s.name ∧ attemptsIn written ≤ s.allowance
    | .event (.entered _ _) => False
    | .event _ => True
  jobs _ _ := True
  ends _ := True

variable {s : State Workflow} {context : Context} {input : Json} {written : List Note}

/-- Every attempt but the first uses up one of the retries that are left. -/
theorem heeds_thrift_recover {written : List Note} (hi : inside? written = some s.name)
    (tally : Tally) (retries : Nat) (ha : attemptsIn written + tally.remaining ≤ s.allowance) :
    (s.recover context input tally retries).Heeds s.thrift written := by
  rw [recover]
  refine Process.Heeds.bind (P := fun written' => ∃ a, written' = .attempt a :: written)
    (fun present => ⟨⟨rfl, hi, by omega⟩, heeds_work (fun _ _ => trivial) ⟨_, rfl⟩⟩) ?_
  rintro _ result ⟨a, rfl⟩
  split
  · next f =>
    split
    · next delay tally' hretry =>
      split
      · refine ⟨trivial, fun wake => ?_⟩
        cases wake with
        | elapsed =>
          have := Tally.remaining_nextRetry hretry
          have hi' : inside? (.event (.retried s.name f (retries + 1) delay) :: .attempt a :: written) =
              some s.name := hi
          have ha' : attemptsIn (.event (.retried s.name f (retries + 1) delay) :: .attempt a ::
              written) = attemptsIn written + 1 := rfl
          exact heeds_thrift_recover hi' tally' (retries + 1) (by omega)
        | interrupted => exact trivial
      · exact trivial
    · unfold handle
      split
      · exact ⟨trivial, trivial⟩
      · exact trivial
  · exact trivial
termination_by tally.remaining

/-- **A state that was just entered makes no more attempts than its retriers allow.** -/
theorem heeds_thrift_body (hi : inside? written = some s.name) (ha : attemptsIn written = 0) :
    (s.body context input).Heeds s.thrift written := by
  have htally : attemptsIn written + (Tally.start s.retriers).remaining ≤ s.allowance := by
    rw [remaining_start, ha, Nat.zero_add]
  refine Process.Heeds.bind (heeds_thrift_recover hi _ 0 htally) fun written' result _ => ?_
  cases result with
  | ok step => exact ⟨trivial, trivial⟩
  | error stop => exact trivial

end State

/-! ## Threads -/

/-- Every attempt that was written down is one of the state that was entered last, and no more attempts
were made of that state since than its retriers allow. -/
def Thrifty (w : Workflow) : List Note → Prop
  | [] => True
  | .attempt a :: earlier => (inside? earlier = some a.state ∧
      ∀ s, w.state? a.state = some s → attemptsIn earlier ≤ s.allowance) ∧ Thrifty w earlier
  | .event _ :: earlier => Thrifty w earlier

/-- The number of attempts of a state. -/
def attemptsOf (name : String) (written : List Note) : Nat :=
  written.countP fun
    | .attempt a => a.state = name
    | .event _ => false

section thrift

variable {context : Context} {written : List Note} {s : State Workflow}

theorem entries_announced_attempt (a : Attempt) :
    entries (announced (.attempt a :: written)) = entries (announced written) := rfl

theorem Thrifty.attempts_le (h : Thrifty w written) (hs : w.state? name = some s) :
    attemptsOf name written ≤ (entries (announced written)).count name * (1 + s.allowance) ∧
    (inside? written = some name → attemptsOf name written + (1 + s.allowance) ≤
      (entries (announced written)).count name * (1 + s.allowance) + attemptsIn written) := by
  induction written with
  | nil => exact ⟨Nat.zero_le _, fun hi => (by cases hi)⟩
  | cons n earlier ih =>
    cases n with
    | attempt a =>
      obtain ⟨⟨hi, ha⟩, hrest⟩ := h
      obtain ⟨hle, hleft⟩ := ih hrest
      rw [entries_announced_attempt]
      by_cases hname : a.state = name
      · have hcount : attemptsOf name (.attempt a :: earlier) = attemptsOf name earlier + 1 :=
          List.countP_cons_of_pos (decide_eq_true hname)
        have hin : attemptsIn (.attempt a :: earlier) = attemptsIn earlier + 1 := rfl
        subst hname
        have := hleft hi
        have := ha s hs
        exact ⟨by omega, fun _ => by omega⟩
      · have hcount : attemptsOf name (.attempt a :: earlier) = attemptsOf name earlier :=
          List.countP_cons_of_neg (by simpa using hname)
        refine ⟨hcount ▸ hle, fun hi' => ?_⟩
        have hi' : inside? earlier = some name := hi'
        rw [hi, Option.some.injEq] at hi'
        exact absurd hi' hname
    | event e =>
      obtain ⟨hle, hleft⟩ := ih h
      cases e with
      | entered m x =>
        have hent : entries (announced (.event (.entered m x) :: earlier)) =
            m :: entries (announced earlier) := rfl
        rw [hent]
        by_cases hname : m = name
        · subst hname
          rw [List.count_cons_self, Nat.succ_mul]
          exact ⟨Nat.le_trans hle (Nat.le_add_right _ _), fun _ => by
            show attemptsOf m earlier + _ ≤ _
            omega⟩
        · rw [List.count_cons_of_ne hname]
          refine ⟨hle, fun hi => ?_⟩
          have hi : some m = some name := hi
          exact absurd (Option.some.inj hi) hname
      | exited => exact ⟨hle, fun hi => (by cases hi)⟩
      | _ => exact ⟨hle, hleft⟩

/-- **The protocol of a thread that keeps to the retriers of its states.** -/
def Workflow.Closed.thrifty (hw : w.Closed) (context : Context) : Protocol w context where
  waiting written _ := Thrifty w written
  entering written _ _ := Thrifty w written
  running written name p := Thrifty w written ∧ ∃ s, w.state? name = some s ∧
    ((∃ input, p = s.process context input) ∨ p.Heeds s.thrift written)
  ended written _ := Thrifty w written
  start h := h
  enter h hs := ⟨h, _, hs, .inl ⟨_, rfl⟩⟩
  write := by
    rintro written name n rest ⟨h, s, hs, ⟨input, hp⟩ | ⟨hn, hrest⟩⟩
    · rw [State.process_eq] at hp
      cases hp
      exact ⟨h, s, hs, .inr (State.heeds_thrift_body rfl rfl)⟩
    · refine ⟨?_, s, hs, .inr hrest⟩
      cases n with
      | attempt a =>
        obtain ⟨hname, hi, ha⟩ := hn
        refine ⟨⟨by rw [hi, hname], fun s' hs' => ?_⟩, h⟩
        rw [hname, hw.named hs, hs, Option.some.injEq] at hs'
        exact hs' ▸ ha
      | event e => exact h
  resume := by
    rintro written name p p' ⟨h, s, hs, ⟨input, rfl⟩ | hp⟩ hr
    · rw [State.process_eq] at hr
      cases hr
    · exact ⟨h, s, hs, .inr (hp.resume hr)⟩
  next h := h.1
  done h := h.1
  stop h := h.1
  cancel h := h
  missing h _ := h

theorem Workflow.Closed.thrifty_of_holds {hw : w.Closed} {phase : Phase}
    (h : (hw.thrifty context).Holds written phase) : Thrifty w written := by
  rcases h.cases with ⟨_, _, h⟩ | ⟨_, ⟨_, _, h⟩ | ⟨_, _, h⟩⟩
  · exact h
  · exact h
  · exact h.1

end thrift

/-! ## Runs -/

theorem State.Launches.nested {s : State Workflow} {context : Context} {supply : Supply}
    {jobs : List Job} (h : s.Launches context supply input jobs) :
    ∀ job ∈ jobs, job.workflow ∈ s.nested := by
  cases s with
  | parallel s => exact ParallelState.workflow_of_jobs h
  | map s => exact MapState.workflow_of_jobs h
  | _ => exact h.elim

section run

variable {allowed : Bool → Reply → Prop} {σ : Type} {setting : Setting σ} {memory : σ}
  {identifier : String} {c : Scene} {i : Nat} {t : Thread}

/-- A thread starts lanes only for workflows that its state runs. -/
theorem nested_of_fork (h : Scene.Steps allowed (Run.start setting memory identifier w input).scene c)
    (ht : c.threads[i]? = some t) {ticket limit : Nat} {jobs : List Job}
    {rest : Except Stop (List Json) → StateProcess}
    (hp : t.phase = .running ticket name (.fork jobs limit rest)) :
    ∃ s, t.workflow.state? name = some s ∧ ∀ job ∈ jobs, job.workflow ∈ s.nested := by
  have hphase := (aware_of_steps h i t ht).phase
  rw [hp] at hphase
  obtain ⟨s, a, earlier, supply, entered, hs, -, -, hl⟩ := launches_of_holds hphase
  exact ⟨s, hs, hl.nested⟩

theorem acyclic_of_steps (ha : w.Acyclic)
    (h : Scene.Steps allowed (Run.start setting memory identifier w input).scene c) :
    c.Each fun _ t _ => t.workflow.Acyclic := by
  refine Scene.Steps.each (fun d l u u' new _ hd hu hb => ?_) (fun d l u hsteps hd hs => ?_) h
    Run.tidy_start fun l t ht => ?_
  · rw [hb.place.1]
    exact hd l u hu
  · obtain ⟨i, t, ticket, name, jobs, limit, rest, lane, job, ticket', ht, hp, -, hjob, rfl⟩ := hs
    obtain ⟨s, hs, hn⟩ := nested_of_fork hsteps ht hp
    exact (hd i t ht).nested hs (hn job (List.mem_of_getElem? hjob))
  · obtain ⟨-, rfl⟩ := Run.start_eq_some.mp ht
    exact ha

theorem thrifty_of_steps (hw : w.Closed)
    (h : Scene.Steps allowed (Run.start setting memory identifier w input).scene c) :
    c.Each fun _ t written => Thrifty t.workflow written := by
  intro i t ht
  obtain ⟨v, context, -, hv, hf⟩ :=
    follows_of_steps (P := fun hv context _ => hv.thrifty context) (fun _ _ _ => trivial) hw h i t ht
  rw [hf.workflow]
  exact Workflow.Closed.thrifty_of_holds hf.phase

/-- What is bounded of the rounds that a thread makes through the workflow of its job. -/
structure Scene.Bounded (c : Scene) (i : Nat) (job : Job) : Prop where
  /-- No round comes to a state that an earlier one came to, the one that is about to begin included. -/
  rounds : ∃ stand, Visits job.workflow job.input (c.events i) stand ∧
    (stand.next?.toList ++ entries (c.events i)).Nodup ∧
    (stand.next?.toList ++ entries (c.events i)).length ≤ job.workflow.size
  /-- A state is attempted once, and again as often as its retriers allow. -/
  attempts : ∀ name s, job.workflow.state? name = some s →
    attemptsOf name (c.notes i) ≤ 1 + s.allowance

/-- **The rounds of every thread are bounded**, after any steps of a run of an acyclic workflow. -/
theorem rounds_of_steps (hw : w.Closed) (ha : w.Acyclic)
    (h : Scene.Steps allowed (Run.start setting memory identifier w input).scene c) {job : Job}
    (hjob : Assigned allowed (Run.job setting identifier w input)
      (Run.start setting memory identifier w input).scene c i job) : c.Bounded i job := by
  obtain ⟨hclosed, t, ht, hfollows⟩ := follows_of_assigned hw hjob h
  obtain ⟨stand, hv, -⟩ := exists_stand_of_holds hclosed hfollows.phase
  have hacyclic : job.workflow.Acyclic := hfollows.workflow ▸ acyclic_of_steps ha h i t ht
  have hthrifty : Thrifty job.workflow (c.notes i) := hfollows.workflow ▸ thrifty_of_steps hw h i t ht
  have hnodup := Workflow.nodup_of_chain hclosed hacyclic hv.chain
  refine ⟨⟨stand, hv, hnodup, ?_⟩, fun name s hs => ?_⟩
  · have hlen := (hnodup.subperm (hv.entries_subset hclosed)).length_le
    rwa [Keyed.keys, List.length_map] at hlen
  · have hle := (hthrifty.attempts_le hs).1
    have hcount : (entries (c.events i)).count name ≤ 1 :=
      List.nodup_iff_count_le_one.mp (List.nodup_append.mp hnodup).2.1 name
    calc attemptsOf name (c.notes i)
        ≤ (entries (c.events i)).count name * (1 + s.allowance) := hle
      _ ≤ 1 * (1 + s.allowance) := Nat.mul_le_mul_right _ hcount
      _ = 1 + s.allowance := Nat.one_mul _

end run

end StepFlow
