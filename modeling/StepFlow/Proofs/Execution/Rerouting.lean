import StepFlow.Proofs.Execution.Cancellation
import StepFlow.Proofs.Execution.Catching

/-!
# Caught errors lead on

Every thread of a run follows a route, so what follows the announcement of a catch is known but for where
the run may end. A thread announces a catch, writes the error into the input, and leaves the state all in
one move. So at the end of a run no thread is left between the announcement and what becomes of it.

* `Route.of_caught`, `Routing.caught_of_halts`: where a thread stands that has announced a catch;
* `Scene.LedOn`, `Run.ledOn_play`: no thread stands there after any moves;
* `Scene.Linked.ended_below`: no thread is left over when the workflow of the run has ended;
* `cancelled_between`: a thread that ends between two states was cancelled;
* `Thread.Rerouting`, `rerouting_of_steps`: what a thread has done so far about an error that it caught;
* `Thread.Reroutes`, **`catches_lead_on`**: what becomes of the errors that are caught in an execution.
-/

namespace StepFlow

variable {allowed : Bool → Reply → Prop} {c c' : Scene} {i j : Nat} {t u : Thread} {ending : Ending}
  {w : Workflow} {context : Context} {a b : Spot} {events earlier : List Event} {name target : String}
  {f : Failure}

/-! ## After the announcement -/

theorem Route.of_caught (h : Route w context a (.caught name f target :: earlier) b) :
    (∃ output, b = .diverted name target output) ∨ ∃ e, b = .foiled name e := by
  cases h with
  | cons _ hg =>
    cases hg with
    | divert => exact .inl ⟨_, rfl⟩
    | foil => exact .inr ⟨_, rfl⟩

theorem Routing.caught_of_halts {s : State Workflow} {p : StateProcess}
    (h : Routing w context a s (.caught name f target :: earlier) p) (hp : p.Halts) :
    ∃ e, p = .done (.error (.failure e)) := by
  cases h with
  | enters =>
    rw [State.process_eq] at hp
    exact hp.elim
  | stays hv => rcases hv.of_caught with ⟨_, he⟩ | ⟨_, he⟩ <;> cases he
  | turns => exact hp.elim
  | stops => exact ⟨_, rfl⟩
  | @leaves step hv =>
    obtain ⟨transition, output⟩ := step
    cases transition <;> rcases hv.of_caught with ⟨_, he⟩ | ⟨_, he⟩ <;> cases he

/-- The latest event announces a catch. -/
def JustCaught (events : List Event) : Prop :=
  ∃ name f target earlier, events = .caught name f target :: earlier

namespace Scene

/-- Thread `i` has not just announced a catch, unless it has ended. -/
def LedOn (c : Scene) (i : Nat) : Prop :=
  ∀ t, c.threads[i]? = some t → (∃ ending, t.phase = .ended ending) ∨ ¬JustCaught (c.events i)

theorem events_of_journal (h : c'.journal = c.journal) : c'.events i = c.events i := by
  unfold events notes
  rw [h]

/-- A thread whose workflow has ended has ended for good. -/
theorem Steps.ended (h : Steps allowed c c') (ht : c.threads[i]? = some t)
    (hp : t.phase = .ended ending) : ∃ t', c'.threads[i]? = some t' ∧ t'.phase = .ended ending := by
  refine h.follow (P := fun u _ => u.phase = .ended ending) (fun hb hu => ?_) ht hp
  cases hb with
  | stays => exact hu
  | goes hg =>
    refine absurd hg (Phase.Over.not_goes ?_)
    rw [hu]
    trivial
  | ended he =>
    have := he.standing.1
    rw [hu] at this
    cases this
  | cancelled => exact congrArg (Phase.cancel _) hu
  | admitted hi =>
    rw [hu] at hi
    cases hi
  | admits hq | told hq | spawns hq | sees hq =>
    rw [hu] at hq
    cases hq

theorem LedOn.steps (h : c.LedOn i) (hs : Steps allowed c c') (hc : c.Tidy)
    (he : c'.events i = c.events i) : c'.LedOn i := by
  intro t' ht'
  rw [he]
  by_cases hi : i < c.threads.size
  · rcases h _ (Array.getElem?_eq_getElem hi) with ⟨ending, hp⟩ | hn
    · obtain ⟨u, hu, hp⟩ := hs.ended (Array.getElem?_eq_getElem hi) hp
      cases ht'.symm.trans hu
      exact .inl ⟨ending, hp⟩
    · exact .inr hn
  · right
    rintro ⟨name, f, target, earlier, hcaught⟩
    rw [events, hc.notes_eq_nil (Nat.le_of_not_lt hi)] at hcaught
    cases hcaught

/-- What another thread writes and does leaves a thread where it is. -/
theorem LedOn.other {phase : Phase} {notes : List Note} (h : c.LedOn j) (hi : i ≠ j) :
    ((c.put i phase).write i notes).LedOn j := by
  intro u hu
  obtain ⟨v, hv, rfl⟩ := put_eq_some.mp hu
  have hnotes : ((c.put i phase).write i notes).notes j = c.notes j := by
    rw [notes_write, if_neg hi]
    rfl
  rw [if_neg hi, Scene.events, hnotes]
  exact h v hv

end Scene

/-! ## Moves -/

namespace Run

open Scene

variable {σ : Type} {setting : Setting σ} {r r' : Run σ}

theorem journal_enterNext : (r.enterNext i).journal = r.journal := by
  unfold enterNext
  dsimp only
  repeat' split
  all_goals rfl

theorem journal_awaken : (r.awaken i).journal = r.journal := by
  unfold awaken
  split <;> rfl

theorem journal_finish : (r.finish i ending).journal = r.journal := by
  unfold finish
  dsimp only
  split
  · rw [journal_awaken, journal_enterNext]
    rfl
  · rfl

theorem journal_request {ticket : Nat} {input : Json} :
    (r.request i t ticket input).journal = r.journal := by
  unfold request
  repeat' split
  all_goals rfl

theorem journal_lookAround {ticket first : Nat} {f : FanOut} {name : String}
    {rest : Except Stop (List Json) → StateProcess} :
    (r.lookAround i ticket f first name rest).journal = r.journal := by
  unfold lookAround
  dsimp only
  repeat' split
  all_goals rfl

theorem journal_rouse : (r.rouse i).journal = r.journal := by
  unfold rouse
  repeat' split
  all_goals rfl

theorem GoesOn.journal (h : r.GoesOn allowed i t r') : r'.journal = r.journal := by
  cases h with
  | ends => exact journal_finish
  | goes _ hscene => exact congrArg Scene.journal hscene
  | spawns => rfl

theorem ended_finish {phase : Phase} (ht : r.scene.threads[i]? = some t)
    (hl : (r.scene.put i phase).Linked) (he : Thread.Ends { t with phase } ending) :
    ∃ u, (r.finish i ending).scene.threads[i]? = some u ∧ u.phase = .ended ending := by
  have hstep : Scene.Step (fun _ _ => True) _ _ := .ends (getElem?_put_self [] ht) he
  rw [write_nil, put_put] at hstep
  have htold : Steps (fun _ _ => True) ((r.scene.put i (.ended ending)).tell t.parent ending) _ :=
    steps_told ht (hl.step hstep)
  have hput : (r.scene.put i (.ended ending)).threads[i]? = some { t with phase := .ended ending } :=
    getElem?_put_self [] ht
  obtain ⟨u, hu, hp⟩ : ∃ u, ((r.scene.put i (.ended ending)).tell t.parent ending).threads[i]? =
      some u ∧ u.phase = .ended ending := by
    rcases getElem?_tell (c := r.scene.put i (.ended ending)) (l := i) t.parent ending with
      h | ⟨lane, -, h⟩
    · exact ⟨_, h.trans hput, rfl⟩
    · rw [hput] at h
      exact ⟨_, h, rfl⟩
  exact htold.ended hu hp

theorem GoesOn.ended {ticket : Nat} {stop : Stop}
    (h : r.GoesOn allowed i { t with phase := .running ticket name (.done (.error stop)) } r')
    (ht : r.scene.threads[i]? = some t)
    (hl : (r.scene.put i (.running ticket name (.done (.error stop)))).Linked) :
    ∃ u ending, r'.scene.threads[i]? = some u ∧ u.phase = .ended ending := by
  cases h with
  | @ends ending he =>
    obtain ⟨u, hu, hp⟩ := ended_finish ht hl he
    exact ⟨u, ending, hu, hp⟩
  | goes hg => exact absurd hg (Phase.Over.not_goes trivial)
  | spawns hf => cases hf

section run

variable {memory : σ} {identifier : String} {input : Json} {ticket : Nat} {process : StateProcess}

theorem ledOn_of_halts (hw : w.Closed)
    (h : Steps allowed (start setting memory identifier w input).scene c)
    (ht : c.threads[i]? = some { t with phase := .running ticket name process })
    (hp : process.Halts) : c.LedOn i ∨ ∃ stop, process = .done (.error stop) := by
  by_cases hcaught : JustCaught (c.events i)
  · right
    obtain ⟨name', f, target, earlier, hcaught⟩ := hcaught
    obtain ⟨v, context, x, hv, hfollows⟩ :=
      follows_of_steps (P := fun hv => hv.routing) (fun _ _ _ => ⟨rfl, rfl⟩) hw h i _ ht
    obtain ⟨s, -, hrouting⟩ := hfollows.phase
    have hevents : announced (c.notes i) = .caught name' f target :: earlier := hcaught
    rw [hevents] at hrouting
    obtain ⟨e, he⟩ := hrouting.caught_of_halts hp
    exact ⟨_, he⟩
  · exact .inl fun _ _ => .inr hcaught

/-- **A thread that goes on does not stop between the announcement of a catch and what becomes of it.** -/
theorem ledOn_goOn (hw : w.Closed)
    (h : Steps (fun _ _ => True) (start setting memory identifier w input).scene
      (r.scene.put i (.running ticket name process)))
    (ht : r.scene.threads[i]? = some t) (hled : ∀ l, r.scene.LedOn l) (l : Nat) :
    (r.goOn setting i t ticket name process).scene.LedOn l := by
  obtain ⟨looks, notes, process', hproceed⟩ : ∃ looks notes process',
      process.proceed (r.present setting) t.cancelled r.looks [] = (looks, notes, process') :=
    ⟨_, _, _, rfl⟩
  have hgoes : (r.noted i looks notes).GoesOn (fun _ _ => True) i
      { t with phase := .running ticket name process' } (r.goOn setting i t ticket name process) :=
    goesOn_goOn setting.allows_any hproceed
  have hhalts := process.halts_proceed (r.present setting) t.cancelled r.looks []
  have hproceeds : Steps (fun _ _ => True) _ _ :=
    steps_proceed ht ticket name (r.present setting) process r.looks []
  rw [hproceed] at hhalts
  rw [write_nil, hproceed] at hproceeds
  -- the scene in which the thread has written its notes and has to wait
  have hwait : Steps (fun _ _ => True) (start setting memory identifier w input).scene
      ((r.scene.put i (.running ticket name process')).write i notes) := h.trans hproceeds
  have hlinked := linked_of_steps hwait
  have hrest : ((r.scene.put i (.running ticket name process')).write i notes).LedOn l →
      (r.goOn setting i t ticket name process).scene.LedOn l := fun hled =>
    hled.steps (hgoes.steps ht hlinked) (tidy_start.steps hwait) (events_of_journal hgoes.journal)
  by_cases hl : i = l
  · subst hl
    rcases ledOn_of_halts hw hwait (getElem?_put_self notes ht) hhalts with hled | ⟨stop, rfl⟩
    · exact hrest hled
    · obtain ⟨u, ending, hu, hp⟩ := hgoes.ended ht hlinked
      intro u' hu'
      cases hu.symm.trans hu'
      exact .inl ⟨ending, hp⟩
  · exact hrest ((hled l).other hl)

/-- **A move leaves no thread between the announcement of a catch and what becomes of it.** -/
theorem ledOn_apply (hw : w.Closed)
    (h : Steps (fun _ _ => True) (start setting memory identifier w input).scene r.scene)
    (hled : ∀ l, r.scene.LedOn l) (m : Move) (l : Nat) : (r.apply setting m).scene.LedOn l := by
  have hkeep : (r.apply setting m).journal = r.journal → (r.apply setting m).scene.LedOn l :=
    fun hj => (hled l).steps (steps_apply setting.allows_any (linked_of_steps h) m)
      (tidy_start.steps h) (events_of_journal hj)
  cases m with
  | rouse i => exact hkeep journal_rouse
  | wait | cancel => exact hkeep rfl
  | advance i =>
    revert hkeep
    show ((r.advance setting i).journal = r.journal → (r.advance setting i).scene.LedOn l) →
      (r.advance setting i).scene.LedOn l
    unfold advance
    split
    · exact fun hkeep => hkeep rfl
    · next t ht =>
      split
      · exact fun hkeep => hkeep journal_request
      · next ticket name x hp =>
        unfold enter
        split
        · exact fun hkeep => hkeep journal_finish
        · next hc =>
          split
          · exact fun hkeep => hkeep journal_finish
          · next s hs =>
            have henter : Scene.Step (fun _ _ => True) r.scene
                ((r.scene.put i (.running ticket name (s.process t.context x))).write i []) :=
              .goes ht (.enters hp (eq_false_of_ne_true hc) hs)
            exact fun _ => ledOn_goOn hw (h.tail henter) ht hled l
      · next ticket name process hp =>
        have hself : r.scene.put i (.running ticket name process) = r.scene := hp ▸ put_self ht
        exact fun _ => ledOn_goOn hw (hself ▸ h) ht hled l
      · exact fun hkeep => hkeep journal_lookAround
      · exact fun hkeep => hkeep rfl

theorem ledOn_play (hw : w.Closed)
    (h : Steps (fun _ _ => True) (start setting memory identifier w input).scene r.scene)
    (hled : ∀ l, r.scene.LedOn l) (moves : List Move) (l : Nat) :
    (r.play setting moves).scene.LedOn l := by
  induction moves generalizing r with
  | nil => exact hled l
  | cons m rest ih =>
    exact ih (h.trans (steps_apply setting.allows_any (linked_of_steps h) m)) (ledOn_apply hw h hled m)

end run

end Run

/-! ## The end of a run -/

/-- **When the workflow of a run has ended, so have all its lanes.** -/
theorem Scene.Linked.ended_below (h : c.Linked)
    (hroot : ∀ (j : Nat) (u : Thread), c.threads[j]? = some u → Rooted j u)
    (ht : c.threads[0]? = some t) (hp : t.phase = .ended ending) (hu : c.threads[j]? = some u) :
    ∃ ending, u.phase = .ended ending := by
  -- the induction is on the number of the thread, since an owner comes before its lanes
  induction j using Nat.strongRecOn generalizing u with
  | ind j ih =>
    by_contra hopen
    have hstand : ∀ ending, u.phase.standing ≠ .finished ending := fun ending he =>
      hopen ⟨ending, Phase.standing_eq_finished.mp he⟩
    match hpar : u.parent with
    | none =>
      rcases (hroot j u hu).below with rfl | hmem
      · cases ht.symm.trans hu
        exact hopen ⟨ending, hp⟩
      · rw [(hroot j u hu).root hpar] at hmem
        cases hmem
    | some (owner, k) =>
      obtain ⟨v, f, first, lane, hv, hl, -, -, hm⟩ := h.laneOf hu hpar hstand
      have hlt : owner < j := h.below j u hu owner (by rw [hm.ancestors]; exact List.mem_cons_self)
      obtain ⟨ending', he⟩ := ih owner hlt hv
      rw [he] at hl
      cases hl

section run

variable {σ : Type} {setting : Setting σ} {memory : σ} {identifier : String} {input : Json}

/-- A thread that ends as cancelled right after it has left a state was cancelled. -/
theorem cancelled_between (hw : w.Closed)
    (h : Scene.Steps allowed (Run.start setting memory identifier w input).scene c) :
    c.Each fun _ t written => t.phase = .ended (.error .cancelled) →
      ∀ name output earlier, announced written = .exited name output :: earlier → t.cancelled = true := by
  refine Scene.Steps.each (fun d l u u' new hsteps hd hu hb => ?_) (fun d l u _ _ hs => ?_) h Run.tidy_start
    fun l t ht he => ?_
  · cases hb with
    | stays => exact hd l u hu
    | cancelled => exact fun _ _ _ _ _ => rfl
    | goes hg =>
      intro he
      cases hg <;> cases he
    | ended hends =>
      intro he name output earlier hexited
      cases he
      generalize hending : (.error .cancelled : Ending) = ending at hends
      cases hends with
      | cancelled _ hc => exact hc
      | missing | done => cases hending
      | stops _ hp =>
        -- a thread that stops is still inside its state
        obtain ⟨v, context, x, hv, hfollows⟩ :=
          follows_of_steps (P := fun hv => hv.routing) (fun _ _ _ => ⟨rfl, rfl⟩) hw hsteps l u hu
        have hphase := hfollows.phase
        rw [hp] at hphase
        obtain ⟨s, -, hrouting⟩ := hphase
        have hevents : announced (d.notes l) = .exited name output :: earlier := hexited
        rw [hevents] at hrouting
        rcases hrouting.error with ⟨x, hroute⟩ | ⟨f, -, hroute⟩ <;> rcases hroute with _ | ⟨_, hg⟩ <;>
          cases hg
    | admitted | admits | told | spawns | sees =>
      intro he
      cases he
  · obtain ⟨i, t, ticket, name, jobs, limit, rest, lane, job, ticket', -, -, -, -, rfl⟩ := hs
    intro he
    cases he
  · obtain ⟨-, rfl⟩ := Run.start_eq_some.mp ht
    cases he

/-! ## What follows a catch -/

/-- What a thread has done so far about a failure that it has announced to be caught in a state with an
input, by the events that follow, the latest first. -/
inductive Thread.Rerouting (t : Thread) (name : String) (x : Json) (f : Failure) (c : Catcher)
    (later : List Event) : Prop where
  /-- The thread has yet to leave the state. -/
  | announced {output : Json} : merge c.resultPath t.context x f.document = .ok output → later = [] →
      (∀ ending, t.phase ≠ .ended ending) → Rerouting t name x f c later
  /-- It has yet to enter the state of the catcher, unless it has ended because it is cancelled. -/
  | exited {output : Json} : merge c.resultPath t.context x f.document = .ok output →
      later = [.exited name output] →
      (∀ ending, t.phase = .ended ending → ending = .error .cancelled ∧ t.cancelled = true) →
      Rerouting t name x f c later
  | entered {output : Json} (rest : List Event) :
      merge c.resultPath t.context x f.document = .ok output →
      later = rest ++ [.entered c.next output, .exited name output] → Rerouting t name x f c later
  /-- The failure could not be written into the input, and the thread can only end because of that. -/
  | failed {e : Failure} : merge c.resultPath t.context x f.document = .error e →
      e.name = .resultPathMatchFailure → later = [] →
      (∀ ending, t.phase = .ended ending → ending = .error (.unhandled name e)) →
      Rerouting t name x f c later

/-- What becomes of a failure that a thread has announced to be caught in a state with an input, by the
events that follow, the latest first. -/
inductive Thread.Reroutes (t : Thread) (name : String) (x : Json) (f : Failure) (c : Catcher)
    (cutOff : Prop) (later : List Event) : Prop where
  /-- The state was left with the failure in its output, and the state of the catcher was entered. -/
  | enters {output : Json} (rest : List Event) :
      merge c.resultPath t.context x f.document = .ok output →
      later = rest ++ [.entered c.next output, .exited name output] → Reroutes t name x f c cutOff later
  | cancelled {output : Json} : merge c.resultPath t.context x f.document = .ok output →
      later = [.exited name output] → t.cancelled = true → t.phase = .ended (.error .cancelled) →
      Reroutes t name x f c cutOff later
  | cutOff {output : Json} : merge c.resultPath t.context x f.document = .ok output →
      later = [.exited name output] → cutOff → Reroutes t name x f c cutOff later
  /-- The failure could not be written into the input, and the thread has ended because of that. -/
  | fails {e : Failure} : merge c.resultPath t.context x f.document = .error e →
      e.name = .resultPathMatchFailure → later = [] → t.phase = .ended (.error (.unhandled name e)) →
      Reroutes t name x f c cutOff later

theorem name_of_merge_eq_error {spec : Option (PathSpec ReferencePath)} {x result : Json} {e : Failure}
    (h : merge spec context x result = .error e) : e.name = .resultPathMatchFailure := by
  unfold merge at h
  split at h
  · cases h
  · cases h
  · split at h
    · cases h
    · cases h
      rfl

/-- **What has followed the announcement of a catch**, after any steps. -/
theorem rerouting_of_steps (hw : w.Closed)
    (h : Scene.Steps allowed (Run.start setting memory identifier w input).scene c)
    {later : List Event} (ht : c.threads[i]? = some t)
    (he : c.events i = later ++ .caught name f target :: earlier) :
    ∃ s c x, t.workflow.state? name = some s ∧
      s.catchers.find? (fun c => c.applies f.name) = some c ∧ c.next = target ∧
      lastInput? earlier = some x ∧ t.Rerouting name x f c later := by
  obtain ⟨v, context, y, hv, hfollows⟩ :=
    follows_of_steps (P := fun hv => hv.routing) (fun _ _ _ => ⟨rfl, rfl⟩) hw h i t ht
  obtain ⟨b, hroute, hagrees⟩ := exists_spot_of_holds hv hfollows.phase
  have hevents : announced (c.notes i) = later ++ .caught name f target :: earlier := he
  rw [hevents] at hroute
  obtain ⟨s, catcher, x, hs, hc, rfl, hx, hsequel⟩ := hroute.sequel
  rw [← hfollows.workflow] at hs
  rw [← hfollows.context] at hsequel
  refine ⟨s, catcher, x, hs, hc, rfl, hx, ?_⟩
  cases hm : merge catcher.resultPath t.context x f.document with
  | error e =>
    rw [hm] at hsequel
    obtain ⟨rfl, rfl⟩ := hsequel
    exact .failed hm (name_of_merge_eq_error hm) rfl hagrees
  | ok output =>
    rw [hm] at hsequel
    cases hsequel with
    | announced => exact .announced hm rfl hagrees
    | entered rest => exact .entered rest hm rfl
    | exited =>
      refine .exited hm rfl fun ending hp => ?_
      rcases hagrees ending hp with rfl | ⟨state, rfl⟩
      · exact ⟨rfl, cancelled_between hw h i t ht hp name output _ hevents⟩
      · -- every state that a thread comes to is there
        have hsafe := Scene.safe_of_sound (sound_of_steps hw h) (Run.linked_of_steps h)
        exact absurd hp (hsafe.found i t state ht)

/-! ## Executions -/

theorem Outcome.closes_of_close? {outcome : Outcome} {e : Event} (h : outcome.close? = some e) :
    e.closes := by
  by_cases hb : outcome = .error .brokenOff
  · rw [hb] at h
    cases h
  · obtain ⟨e', he, hcloses⟩ := exists_close hb
    cases h.symm.trans he
    exact hcloses

theorem exists_caught {fuel : Nat} {limit : Option Duration} {cancelAt : Option Nat} {report : Report σ}
    (hr : w.executeWithin fuel setting memory identifier limit cancelAt input = some report)
    (he : .caught name f target ∈ report.events) :
    ∃ i t, report.run.scene.threads[i]? = some t ∧ .caught name f target ∈ report.run.scene.events i := by
  obtain ⟨hsteps, -⟩ := Run.steps_executeWithin setting.allows_any hr
  rw [events_executeWithin hr] at he
  rcases List.mem_cons.mp he with he | he
  · cases he
  · rcases List.mem_append.mp he with he | he
    · obtain ⟨entry, hentry, he⟩ := mem_events he
      have hlt := Run.tidy_start.steps hsteps entry hentry
      exact ⟨entry.thread, _, Array.getElem?_eq_getElem hlt, he⟩
    · cases Outcome.closes_of_close? (Option.mem_toList.mp he)

/-- **A caught error leads on**, unless it cannot be written into the input. Every catch that a thread of a
compiled workflow announces is the one of the first catcher of the state that applies to the error. If the
error can be written into the input of the state where that catcher says, then the state is left with what
comes of it, and after that the state of the catcher is entered, unless the thread is cancelled. If not,
then nothing follows, and the workflow of the thread can only end because of that. This is so in every
order of steps.

In an execution, every catch that is announced is one of a thread, and what follows it has happened by the
end, but for the entry if the execution runs out of time. -/
theorem catches_lead_on {document : Json} {w : Workflow} (h : Workflow.compile document = .ok w)
    {σ : Type} (setting : Setting σ) (memory : σ) (identifier : String) (input : Json) :
    (∀ c, Scene.Steps (fun _ _ => True) (Run.start setting memory identifier w input).scene c →
      ∀ i t later earlier name f target, c.threads[i]? = some t →
        c.events i = later ++ .caught name f target :: earlier →
        ∃ s c x, t.workflow.state? name = some s ∧
          s.catchers.find? (fun c => c.applies f.name) = some c ∧ c.next = target ∧
          lastInput? earlier = some x ∧ t.Rerouting name x f c later) ∧
    ∀ fuel limit cancelAt report,
      w.executeWithin fuel setting memory identifier limit cancelAt input = some report →
      (∀ name f target, .caught name f target ∈ report.events → ∃ i t,
        report.run.scene.threads[i]? = some t ∧ .caught name f target ∈ report.run.scene.events i) ∧
      ∀ i t later earlier name f target, report.run.scene.threads[i]? = some t →
        report.run.scene.events i = later ++ .caught name f target :: earlier →
        ∃ s c x, t.workflow.state? name = some s ∧
          s.catchers.find? (fun c => c.applies f.name) = some c ∧ c.next = target ∧
          lastInput? earlier = some x ∧
          t.Reroutes name x f c (∃ limit, report.outcome = .error (.timedOut limit)) later := by
  have hw := closed_compile h
  refine ⟨fun c hs i t later earlier name f target ht he => rerouting_of_steps hw hs ht he,
    fun fuel limit cancelAt report hr => ⟨fun name f target => exists_caught hr,
      fun i t later earlier name f target ht he => ?_⟩⟩
  obtain ⟨hsteps, hout⟩ := Run.steps_executeWithin setting.allows_any hr
  obtain ⟨s, c, x, hs, hc, hnext, hx, hrerouting⟩ := rerouting_of_steps hw hsteps ht he
  refine ⟨s, c, x, hs, hc, hnext, hx, ?_⟩
  -- a thread that has just announced a catch has ended
  have hled : later = [] → ∃ ending, t.phase = .ended ending := by
    rintro rfl
    obtain ⟨moves, hmoves⟩ := Run.exists_moves_of_executeWithin hr
    have hplay : report.run.scene.LedOn i := by
      rw [hmoves]
      exact Run.ledOn_play hw .refl (fun l u hu => .inr fun ⟨_, _, _, _, he⟩ => by cases he) moves i
    exact (hplay t ht).resolve_right (not_not_intro ⟨_, _, _, _, he⟩)
  cases hrerouting with
  | announced hm hlater hopen =>
    obtain ⟨ending, hp⟩ := hled hlater
    exact absurd hp (hopen ending)
  | entered rest hm hlater => exact .enters rest hm hlater
  | failed hm hname hlater hends =>
    obtain ⟨ending, hp⟩ := hled hlater
    exact .fails hm hname hlater (hends ending hp ▸ hp)
  | exited hm hlater hends =>
    rcases hout with ⟨t₀, ending₀, ht₀, hp₀, -⟩ | hlimit
    · have hroot := heralds_of_steps hsteps
      obtain ⟨ending, hp⟩ :=
        (Run.linked_of_steps hsteps).ended_below (fun j u hu => (hroot j u hu).2) ht₀ hp₀ ht
      obtain ⟨rfl, hcancelled⟩ := hends ending hp
      exact .cancelled hm hlater hcancelled hp
    · exact .cutOff hm hlater hlimit

end run

/-- A document whose task may fail, which leads to its second state with the error beside the input. -/
def catchingDocument : Json :=
  .obj [("StartAt", .str "A"), ("States", .obj [
    ("A", .obj [
      ("Catch", .arr [.obj [("ErrorEquals", .arr [.str "States.ALL"]), ("Next", .str "B"),
        ("ResultPath", .str "$.error")]]),
      ("End", .bool true),
      ("Resource", .str "script:x"),
      ("Type", .str "Task")]),
    ("B", .obj [("End", .bool true), ("Type", .str "Pass")])])]

/-- The state whose failure an execution ended with, and the name of the error. -/
def Outcome.unhandled? : Outcome → Option (String × ErrorName)
  | .error (.stateFailed name e) => some (name, e.name)
  | _ => none

/-- A thread has caught one error, and has then left a state, entered another one and left that one too. -/
def Scene.hasRerouted (c : Scene) (i : Nat) : Bool :=
  match c.threads[i]?, c.events i with
  | some _, [.exited _ _, .entered _ _, .exited _ _, .caught _ _ _, .entered _ _] => true
  | _, _ => false

/-- The error of its task leads on if the input is an object. -/
theorem catches_lead_on_from_object : ∃ w report t name f target later earlier s c x,
    Workflow.compile catchingDocument = .ok w ∧
    w.executeWithin 40 failingSetting () "run" none none (.obj []) = some report ∧
    report.run.scene.threads[0]? = some t ∧
    report.run.scene.events 0 = later ++ .caught name f target :: earlier ∧
    later.map Event.name = ["StateExited", "StateEntered", "StateExited"] ∧
    t.workflow.state? name = some s ∧ c ∈ s.catchers ∧ c.next = target ∧
    t.Reroutes name x f c (∃ limit, report.outcome = .error (.timedOut limit)) later := by
  have hrun : ((Workflow.compile catchingDocument).toOption.bind fun w =>
      (w.executeWithin 40 failingSetting () "run" none none (.obj [])).map fun r =>
        r.run.scene.hasRerouted 0) = some true := by decide +kernel
  obtain ⟨w, hw, hrun⟩ := Option.bind_eq_some_iff.mp hrun
  obtain ⟨report, hr, hrerouted⟩ := Option.map_eq_some_iff.mp hrun
  have hw := Except.toOption_eq_some_iff.mp hw
  unfold Scene.hasRerouted at hrerouted
  split at hrerouted
  · next t n₁ x₁ n₂ x₂ n₃ x₃ name f target n₄ x₄ ht he =>
    have he : report.run.scene.events 0 =
        [.exited n₁ x₁, .entered n₂ x₂, .exited n₃ x₃] ++ .caught name f target :: [.entered n₄ x₄] := he
    obtain ⟨s, c, x, hs, hc, hnext, -, hreroutes⟩ :=
      ((catches_lead_on hw failingSetting () "run" (.obj [])).2 40 none none report hr).2 0 t _ _ name f
        target ht he
    exact ⟨w, report, t, name, f, target, _, _, s, c, x, hw, hr, ht, he, rfl, hs,
      List.mem_of_find?_eq_some hc, hnext, hreroutes⟩
  · cases hrerouted

/-- Its execution fails if the input is a text, which the error cannot be written into: the announcement of
the catch is followed by nothing but the end, and the error that ends the execution is another one. -/
theorem catches_lead_on_not_from_text : ∃ w report e, Workflow.compile catchingDocument = .ok w ∧
    w.executeWithin 40 failingSetting () "run" none none (.str "text") = some report ∧
    report.events.map Event.name =
      ["ExecutionStarted", "StateEntered", "StateCaught", "ExecutionFailed"] ∧
    report.outcome = .error (.stateFailed "A" e) ∧ e.name = .resultPathMatchFailure := by
  have hrun : ((Workflow.compile catchingDocument).toOption.bind fun w =>
      (w.executeWithin 40 failingSetting () "run" none none (.str "text")).map fun r =>
        (r.events.map Event.name, r.outcome.unhandled?)) =
      some (["ExecutionStarted", "StateEntered", "StateCaught", "ExecutionFailed"],
        some ("A", .resultPathMatchFailure)) := by decide +kernel
  obtain ⟨w, hw, hrun⟩ := Option.bind_eq_some_iff.mp hrun
  obtain ⟨report, hr, hboth⟩ := Option.map_eq_some_iff.mp hrun
  obtain ⟨hnames, hfailed⟩ := Prod.mk.inj hboth
  have hw := Except.toOption_eq_some_iff.mp hw
  unfold Outcome.unhandled? at hfailed
  split at hfailed
  · next name e ho =>
    obtain ⟨rfl, hname⟩ := Prod.mk.inj (Option.some.inj hfailed)
    exact ⟨w, report, e, hw, hr, hnames, ho, hname⟩
  · cases hfailed

end StepFlow
