import StepFlow.Proofs.Execution.Visits

/-!
# Events replay an execution

An execution announces its start, what its threads do, and its outcome. The events of each thread tell
its way through the workflow that it was given, whatever the order in which the threads take their steps,
and whenever the execution is cancelled or cut off.

* `Scene.Replay`, `replay_of_steps`: the events of every thread tell its way;
* `Scene.Steps.notes_of_over`: a state that comes to no output is the last one of its thread;
* `Report.Framed`: the first and the last event, and what stands between them;
* **`events_replay`**: the events of an execution.
-/

namespace StepFlow

variable {w : Workflow} {input : Json}

/-! ## Scenes -/

variable {allowed : Bool → Reply → Prop} {root : Job} {c c' d : Scene} {i : Nat} {t u : Thread}

/-- The events of thread `i`, the latest first. -/
def Scene.events (c : Scene) (i : Nat) : List Event := announced (c.notes i)

/-- The events of every thread tell its way from the job that it was given to where it stands. -/
structure Scene.Replay (allowed : Bool → Reply → Prop) (root : Job) (c c' : Scene) : Prop where
  given : ∀ {i t}, c'.threads[i]? = some t → ∃ job, Assigned allowed root c c' i job
  visits : ∀ {i job}, Assigned allowed root c c' i job → ∃ t stand, c'.threads[i]? = some t ∧
    t.workflow = job.workflow ∧ Visits job.workflow job.input (c'.events i) stand ∧
      ∀ ending, t.phase = .ended ending → stand.Agrees ending
  /-- A state that has come to no output is the last one. -/
  stopped : ∀ {d i t ticket name stop job}, Scene.Steps allowed c d → Scene.Steps allowed d c' →
    d.threads[i]? = some t → t.phase = .running ticket name (.done (.error stop)) →
      Assigned allowed root c c' i job → Visits job.workflow job.input (c'.events i) (.inside name) ∧
        c'.events i = d.events i

/-- Nothing is left to do but to end. -/
def Phase.Over : Phase → Prop
  | .running _ _ (.done (.error _)) => True
  | .ended _ => True
  | _ => False

theorem Phase.Over.not_goes {phase : Phase} {new : List Note} (h : t.phase.Over) :
    ¬ t.Goes allowed phase new := by
  intro hg
  cases hg <;> simp_all [Phase.Over]

theorem Phase.Over.becomes {new : List Note} (h : t.phase.Over) (hb : c.Becomes allowed i t u new) :
    u.phase.Over ∧ new = [] := by
  cases hb with
  | stays => exact ⟨h, rfl⟩
  | goes hg => exact absurd hg h.not_goes
  | ended => exact ⟨trivial, rfl⟩
  | cancelled =>
    refine ⟨?_, rfl⟩
    unfold Thread.cancel
    cases hp : t.phase <;> simp_all [Phase.Over, Phase.cancel]
  | admitted hi =>
    cases hp : t.phase <;> simp_all [Phase.Over, Phase.outside?]
  | admits hp | told hp | sees hp | spawns hp =>
    rw [hp] at h
    exact h.elim

theorem Scene.Steps.notes_of_over (h : Scene.Steps allowed c c') (ht : c.threads[i]? = some t)
    (hover : t.phase.Over) : c'.notes i = c.notes i := by
  have hkeep : ∀ {d : Scene} {u u' : Thread} {new notes : List Note},
      d.Becomes allowed i u u' new → u.phase.Over ∧ notes = c.notes i →
        u'.phase.Over ∧ new ++ notes = c.notes i := by
    rintro d u u' new notes hb ⟨hu, hn⟩
    obtain ⟨hu', rfl⟩ := hu.becomes hb
    exact ⟨hu', hn⟩
  obtain ⟨-, -, -, hn⟩ := h.follow (P := fun u notes => u.phase.Over ∧ notes = c.notes i) hkeep ht
    ⟨hover, rfl⟩
  exact hn

section run

variable {σ : Type} {setting : Setting σ} {memory : σ} {identifier : String}

def Run.job (setting : Setting σ) (identifier : String) (w : Workflow) (input : Json) : Job :=
  ⟨w, input, .ofRun identifier input (setting.clock 0)⟩

theorem follows_of_assigned (hw : w.Closed) {job : Job}
    (h : Assigned allowed (Run.job setting identifier w input)
      (Run.start setting memory identifier w input).scene c i job)
    (hc : Scene.Steps allowed (Run.start setting memory identifier w input).scene c) :
    ∃ (hjob : job.workflow.Closed) (t : Thread), c.threads[i]? = some t ∧
      (hjob.replay job.context job.input).Follows t (c.notes i) := by
  cases h with
  | root => exact ⟨hw, hc.holds (Run.start_eq_some.mpr ⟨rfl, rfl⟩) ⟨rfl, rfl, .start⟩⟩
  | @lane d j k ticket ticket' ticket'' limit t name jobs rest job hd ht hf hlimit hjob hrest =>
    have hlane : (d.spawn j t ticket' ticket'' limit jobs name rest).threads[d.threads.size + k]? =
        some (t.ofJob j k (ticket'' + k) job) := getElem?_spawn_lane hjob
    have hclosed : job.workflow.Closed :=
      (sound_of_steps hw (hd.tail (.spawns ht hf hlimit)) _ _ hlane).closed
    have hnotes : (d.spawn j t ticket' ticket'' limit jobs name rest).notes (d.threads.size + k) = [] :=
      (Run.tidy_start.steps hd).notes_eq_nil (Nat.le_add_right _ k)
    exact ⟨hclosed, hrest.holds hlane ⟨rfl, rfl, congrArg announced hnotes, rfl⟩⟩

/-- Every thread follows a protocol of its workflow, if each closed workflow has one that nothing need be
written down for to begin. -/
theorem follows_of_steps
    {P : ∀ {v : Workflow}, v.Closed → ∀ context : Context, Json → Protocol v context}
    (hwait : ∀ {v : Workflow} (hv : v.Closed) (context : Context) (x : Json),
      (P hv context x).waiting [] x)
    (hw : w.Closed) (h : Scene.Steps allowed (Run.start setting memory identifier w input).scene c) :
    c.Each fun _ t written => ∃ (v : Workflow) (context : Context) (x : Json) (hv : v.Closed),
      (P hv context x).Follows t written := by
  refine Scene.Steps.each (fun d l u u' new _ hd hu hb => ?_) (fun d l u hsteps _ hs => ?_) h
    Run.tidy_start fun l t ht => ?_
  · obtain ⟨v, context, x, hv, hf⟩ := hd l u hu
    exact ⟨v, context, x, hv, hf.becomes hb⟩
  · have hclosed := (Thread.Sound.starts (sound_of_steps hw hsteps) hs).closed
    obtain ⟨i, t, ticket, name, jobs, limit, rest, lane, job, ticket', -, -, -, -, rfl⟩ := hs
    exact ⟨job.workflow, job.context, job.input, hclosed, rfl, rfl, hwait hclosed _ _⟩
  · obtain ⟨-, rfl⟩ := Run.start_eq_some.mp ht
    exact ⟨w, _, input, hw, rfl, rfl, (P hw _ input).start (hwait hw _ _)⟩

/-- **The events of every thread tell its way**, after any steps of a run of a closed workflow. -/
theorem replay_of_steps (hw : w.Closed)
    (h : Scene.Steps allowed (Run.start setting memory identifier w input).scene c) :
    Scene.Replay allowed (Run.job setting identifier w input)
      (Run.start setting memory identifier w input).scene c := by
  have hvisits : ∀ {d : Scene} {i : Nat} {job : Job},
      Scene.Steps allowed (Run.start setting memory identifier w input).scene d →
      Assigned allowed (Run.job setting identifier w input)
        (Run.start setting memory identifier w input).scene d i job →
      ∃ t stand, d.threads[i]? = some t ∧ t.workflow = job.workflow ∧
        Visits job.workflow job.input (d.events i) stand ∧
          ∀ ending, t.phase = .ended ending → stand.Agrees ending := by
    intro d i job hd hjob
    obtain ⟨hclosed, t, ht, hfollows⟩ := follows_of_assigned hw hjob hd
    obtain ⟨stand, hv, hagrees⟩ := exists_stand_of_holds hclosed hfollows.phase
    exact ⟨t, stand, ht, hfollows.workflow, hv, hagrees⟩
  have hgiven : ∀ {d : Scene} {i : Nat} {t : Thread},
      Scene.Steps allowed (Run.start setting memory identifier w input).scene d →
      d.threads[i]? = some t → ∃ job, Assigned allowed (Run.job setting identifier w input)
        (Run.start setting memory identifier w input).scene d i job :=
    fun hd ht => exists_assigned (fun _ _ ht => (Run.start_eq_some.mp ht).1) hd ht
  refine ⟨hgiven h, hvisits h, ?_⟩
  intro d i t ticket name stop job hd hrest ht hp hjob
  have hover : t.phase.Over := by
    rw [hp]
    trivial
  have hevents : c.events i = d.events i := congrArg announced (hrest.notes_of_over ht hover)
  -- the thread stood inside the state then, and no event has come since
  obtain ⟨job', hjob'⟩ := hgiven hd ht
  obtain ⟨hclosed, u, hu, hfollows⟩ := follows_of_assigned hw hjob' hd
  cases ht.symm.trans hu
  have hphase := hfollows.phase
  rw [hp] at hphase
  obtain ⟨s, hs, hv⟩ := hphase
  have hinside := hv.error
  rw [hclosed.named hs] at hinside
  obtain ⟨v, stand, -, -, hstand, -⟩ := hvisits h hjob
  rw [hevents] at hstand ⊢
  rw [hinside.eq_inside hstand] at hstand
  exact ⟨hstand, rfl⟩

/-! ## Executions -/

/-- Whether an event is about a state. -/
def Event.isOfState : Event → Bool
  | .entered _ _ | .exited _ _ | .retried _ _ _ _ | .caught _ _ _ => true
  | _ => false

/-- Whether an event is about the end of an execution. -/
def Event.closes : Event → Bool
  | .succeeded _ | .failed _ => true
  | _ => false

theorem Visits.ofState {events : List Event} {stand : Stand} (h : Visits w input events stand) :
    ∀ e ∈ events, e.isOfState := by
  induction h with
  | start => exact fun e he => absurd he List.not_mem_nil
  | enter _ ih | retry _ _ _ _ ih | divert _ _ _ ih | exit _ _ _ _ ih | leave _ _ ih =>
    exact List.forall_mem_cons.mpr ⟨rfl, ih⟩

theorem Outcome.exists_close {outcome : Outcome} (h : outcome ≠ .error .brokenOff) :
    ∃ e, outcome.close? = some e ∧ e.closes := by
  match outcome with
  | .ok (.succeeded output) => exact ⟨_, rfl, rfl⟩
  | .ok (.failed error cause) => exact ⟨_, rfl, rfl⟩
  | .error e =>
    cases e with
    | brokenOff => exact absurd rfl h
    | _ => exact ⟨_, rfl, rfl⟩

theorem Outcome.close?_eq_succeeded {outcome : Outcome} {output : Json} :
    outcome.close? = some (.succeeded output) ↔ outcome = .ok (.succeeded output) := by
  match outcome with
  | .ok (.succeeded output') => simp [close?]
  | .ok (.failed error cause) => simp [close?]
  | .error e => cases e <;> simp [close?]

theorem Outcome.ofEnding_eq_succeeded {ending : Ending} {output : Json}
    (h : Outcome.ofEnding ending = .ok (.succeeded output)) : ending = .ok output := by
  match ending with
  | .ok output' =>
    cases h
    rfl
  | .error halt => cases halt <;> cases h

/-- The events of a report: the start of the execution, the events of its threads in some order, and
the outcome. -/
structure Report.Framed (report : Report σ) (w : Workflow) : Prop where
  events : report.events =
    .started w.startAt :: (Workflow.eventsOf report.run ++ report.outcome.close?.toList)
  ofState : ∀ e ∈ Workflow.eventsOf report.run, e.isOfState
  /-- Every event between the first and the last is one of a thread. -/
  ofThread : ∀ e ∈ Workflow.eventsOf report.run, ∃ i t, report.run.scene.threads[i]? = some t ∧
    e ∈ report.run.scene.events i
  /-- The events of a thread occur in their order. -/
  ordered : ∀ i, (report.run.scene.events i).reverse.Sublist (Workflow.eventsOf report.run)
  closes : report.outcome ≠ .error .brokenOff → ∃ e, report.outcome.close? = some e ∧ e.closes
  succeeded : ∀ output, report.outcome.close? = some (.succeeded output) ↔
    report.outcome = .ok (.succeeded output)

theorem events_executeWithin {fuel : Nat} {limit : Option Duration} {cancelAt : Option Nat}
    {report : Report σ}
    (h : w.executeWithin fuel setting memory identifier limit cancelAt input = some report) :
    report.events =
      .started w.startAt :: (Workflow.eventsOf report.run ++ report.outcome.close?.toList) := by
  unfold Workflow.executeWithin at h
  dsimp only at h
  split at h
  · cases h
  · cases h
    rfl
  · cases h
    rfl

theorem sublist_events (r : Run σ) (i : Nat) :
    (r.scene.events i).reverse.Sublist (Workflow.eventsOf r) := by
  have hmap : ∀ l : List Entry,
      announced (l.map Entry.note) = l.filterMap fun entry => entry.note.event? :=
    fun l => List.filterMap_map
  rw [Scene.events, Scene.notes, hmap, ← List.filterMap_reverse]
  exact (List.filter_sublist.reverse).filterMap _

theorem mem_events {r : Run σ} {e : Event} (h : e ∈ Workflow.eventsOf r) :
    ∃ entry ∈ r.journal, e ∈ r.scene.events entry.thread := by
  obtain ⟨entry, hentry, he⟩ := List.mem_filterMap.mp h
  refine ⟨entry, List.mem_reverse.mp hentry, List.mem_filterMap.mpr ⟨entry.note, ?_, he⟩⟩
  exact List.mem_map_of_mem (List.mem_filter.mpr ⟨List.mem_reverse.mp hentry, by simp⟩)

/-- **The events of an execution replay it.** They begin with the start of the execution and end with
its outcome, unless it breaks off; the events of every thread in between tell its way from the job that
it was given; and an execution that succeeds has the output of its last state. -/
theorem events_replay {document : Json} {w : Workflow} (h : Workflow.compile document = .ok w)
    {σ : Type} {setting : Setting σ} {memory : σ} {identifier : String} {input : Json} {fuel : Nat}
    {limit : Option Duration} {cancelAt : Option Nat} {report : Report σ}
    (hr : w.executeWithin fuel setting memory identifier limit cancelAt input = some report) :
    report.Framed w ∧
    Scene.Replay (fun _ _ => True) (Run.job setting identifier w input)
      (Run.start setting memory identifier w input).scene report.run.scene ∧
    ∀ output, report.outcome = .ok (.succeeded output) →
      Visits w input (report.run.scene.events 0) (.after output) := by
  obtain ⟨hsteps, hout⟩ := Run.steps_executeWithin
    (⟨fun _ _ _ => trivial, fun _ => trivial, trivial⟩ : setting.Allows fun _ _ => True) hr
  have hreplay := replay_of_steps (closed_compile h) hsteps
  have hthread : ∀ e ∈ Workflow.eventsOf report.run, ∃ i t,
      report.run.scene.threads[i]? = some t ∧ e ∈ report.run.scene.events i := by
    intro e he
    obtain ⟨entry, hentry, he⟩ := mem_events he
    have hlt := Run.tidy_start.steps hsteps entry hentry
    exact ⟨entry.thread, _, Array.getElem?_eq_getElem hlt, he⟩
  refine ⟨⟨events_executeWithin hr, ?_, hthread, sublist_events _, Outcome.exists_close,
    fun _ => Outcome.close?_eq_succeeded⟩, hreplay, ?_⟩
  · intro e he
    obtain ⟨i, t, ht, he⟩ := hthread e he
    obtain ⟨job, hjob⟩ := hreplay.given ht
    obtain ⟨-, stand, -, -, hv, -⟩ := hreplay.visits hjob
    exact hv.ofState e he
  · intro output ho
    rcases hout with ⟨t, ending, ht, hp, hending⟩ | ⟨limit, htimeout⟩
    · obtain ⟨t', stand, ht', -, hv, hagrees⟩ := hreplay.visits .root
      cases ht.symm.trans ht'
      have hstand := hagrees ending hp
      rw [Outcome.ofEnding_eq_succeeded (hending.symm.trans ho)] at hstand
      cases stand with
      | after result =>
        cases hstand
        exact hv
      | _ => cases hstand
    · rw [htimeout] at ho
      cases ho

end run

/-- The output of an execution that has succeeded. -/
def Outcome.output? : Outcome → Option Json
  | .ok (.succeeded output) => some output
  | _ => none

/-- A setting in which every task answers at once. -/
def answeringSetting : Setting Unit where
  performer _ memory := (.immediate (.ok (.str "done")), memory)
  clock _ := .epoch
  draw _ := ""
  report _ := ""

/-- An execution with a state before a parallel state. -/
theorem events_replay_answered : ∃ w report output, Workflow.compile taskDocument = .ok w ∧
    w.executeWithin 40 answeringSetting () "run" none none (.obj []) = some report ∧
    report.outcome = .ok (.succeeded output) ∧
    Visits w (.obj []) (report.run.scene.events 0) (.after output) := by
  obtain ⟨w, hw⟩ : ∃ w, Workflow.compile taskDocument = .ok w := ⟨_, by rfl⟩
  have hrun : ((Workflow.compile taskDocument).toOption.bind fun w =>
      (w.executeWithin 40 answeringSetting () "run" none none (.obj [])).bind fun r =>
        r.outcome.output?).isSome := by decide +kernel
  rw [hw] at hrun
  obtain ⟨output, ho⟩ : ∃ output,
      ((w.executeWithin 40 answeringSetting () "run" none none (.obj [])).bind fun r =>
        r.outcome.output?) = some output := Option.isSome_iff_exists.mp hrun
  obtain ⟨report, hr, ho⟩ := Option.bind_eq_some_iff.mp ho
  have houtcome : report.outcome = .ok (.succeeded output) := by
    unfold Outcome.output? at ho
    split at ho
    · next h =>
      cases ho
      exact h
    · cases ho
  exact ⟨w, report, output, hw, hr, houtcome, (events_replay hw hr).2.2 output houtcome⟩

/-- A document with a map state that lets more iterations run at one time than there can be. -/
def wideDocument : Json :=
  .obj [("StartAt", .str "M"), ("States", .obj [
    ("M", .obj [("End", .bool true),
      ("Iterator", .obj [("StartAt", .str "P"), ("States", .obj [
        ("P", .obj [("End", .bool true), ("Type", .str "Pass")])])]),
      ("MaxConcurrency", .int 4611686018427387904), ("Type", .str "Map")])])]

/-- Its execution breaks off, so that no event tells of its end. -/
theorem events_of_wideDocument : ∃ w report, Workflow.compile wideDocument = .ok w ∧
    w.executeWithin 40 answeringSetting () "run" none none (.arr []) = some report ∧
    report.events.map Event.name = ["ExecutionStarted", "StateEntered"] := by
  obtain ⟨w, hw⟩ : ∃ w, Workflow.compile wideDocument = .ok w := ⟨_, by rfl⟩
  have hrun : ((Workflow.compile wideDocument).toOption.bind fun w =>
      (w.executeWithin 40 answeringSetting () "run" none none (.arr [])).map fun r =>
        r.events.map Event.name) = some ["ExecutionStarted", "StateEntered"] := by decide +kernel
  rw [hw] at hrun
  obtain ⟨report, hr, hnames⟩ := Option.map_eq_some_iff.mp hrun
  exact ⟨w, report, hw, hr, hnames⟩

end StepFlow
