import StepFlow.Proofs.Execution.Agenda
import StepFlow.Proofs.Execution.Settled

/-!
# A run does not get stuck

Every move leaves the threads settled, so that the schedule always finds a move until the workflow of the
run has ended.

* `Run.settled_finish`, `Run.settled_advance`: what a thread leaves behind;
* `Run.settled_apply`: every move leaves the threads settled;
* **`Run.not_stuck`**: the schedule finds a move.
-/

namespace StepFlow

namespace Run

open Scene

variable {σ : Type} {setting : Setting σ} {r : Run σ} {i : Nat} {t : Thread} {phase : Phase}
  {but : Option Nat} {ticket : Nat} {name : String}

/-! ### The end of a workflow -/

theorem awake_awaken (h : r.scene.Awake (some i)) : (r.awaken i).scene.Awake none := by
  unfold awaken
  split
  · exact h.put_self nofun
  · next hnone =>
    intro l v f first name rest _ hv hf
    by_cases hl : l = i
    · subst hl
      exact absurd (phase_eq_some.mpr ⟨v, hv, hf⟩) (hnone f first name rest)
    · exact h l v f first name rest (fun he => hl (Option.some.inj he)) hv hf

theorem fed_awaken (h : r.scene.Fed but) : (r.awaken i).scene.Fed but := by
  unfold awaken
  split
  · next f first name rest hp =>
    obtain ⟨t, ht, hp⟩ := phase_eq_some.mp hp
    refine h.put ht (fun _ _ _ _ _ _ he => by cases he) fun f' first' hf => ⟨f', first', ?_, id⟩
    rw [hp]
    exact hf
  · exact h

theorem firstWaiting?_eq_none {first count j : Nat} {x : Json} (h : r.firstWaiting? first count = none)
    (hle : first ≤ j) (hlt : j < first + count) :
    r.threads[j]?.map Thread.phase ≠ some (.waiting x) := by
  induction count generalizing first with
  | zero => omega
  | succ count ih =>
    unfold firstWaiting? at h
    split at h
    · cases h
    · next hno =>
      by_cases hj : j = first
      · subst hj
        exact hno x
      · exact ih h (by omega) (by omega)

theorem awake_enterNext (h : r.scene.Awake but) : (r.enterNext i).scene.Awake but := by
  unfold enterNext
  split
  · split
    · split
      · have hturn : ∀ k, (r.takeTurn i (.enter k)).scene.Awake but := fun k => by
          rw [scene_takeTurn]
          exact h.turn_enter
        dsimp only
        split
        · exact (hturn _).put_free Phase.free_entering
        · exact hturn _
      · exact h
    · exact h
  · exact h

/-- If a lane waits for room after another one has ended, then one of the lanes runs. -/
theorem fed_enterNext (hr : r.scene.Linked) (h : r.scene.Fed (some i)) :
    (r.enterNext i).scene.Fed none := by
  unfold enterNext
  split
  · next ticket f first name rest hp =>
    obtain ⟨t, ht, hp⟩ := phase_eq_some.mp hp
    have hl : t.phase.lanes? = some (f, first) := by
      rw [hp]
      rfl
    split
    · next j x hw =>
      obtain ⟨hle, hlt, hw⟩ := firstWaiting?_eq_some hw
      obtain ⟨u, hu, hpu⟩ := phase_eq_some.mp hw
      split
      · next hroom =>
        -- the lane of the thread that waits may run, and then it does
        have hlane := hr.waiting_lane ht hl (by omega : j - first < f.lanes.length)
          (by rwa [Nat.add_sub_cancel' hle]) hpu
        have hturn : (r.takeTurn i (.enter (j - first))).scene.Fed none := by
          rw [scene_takeTurn]
          refine h.turn_enter.of_running fun t' f' first' ht' hf' => ?_
          obtain ⟨v, hv, rfl⟩ := turn_eq_some.mp ht'
          cases ht.symm.trans hv
          rw [if_pos rfl, hp] at hf'
          cases hf'
          rw [FanOut.take, FanOut.apply_enter.mpr ⟨hlane, hroom, rfl⟩]
          exact List.mem_iff_getElem?.mpr
            ⟨_, (getElem?_set_eq_some hlane).mpr (.inl ⟨rfl, rfl⟩)⟩
        dsimp only
        split
        · next v hv => exact hturn.put_free hv Phase.free_entering
        · exact hturn
      · next hroom =>
        refine h.of_running fun t' f' first' ht' hf' => ?_
        cases ht.symm.trans ht'
        cases hl.symm.trans hf'
        exact FanOut.running_of_no_room hroom
    · next hnone =>
      refine h.of_none_waiting hr ht hl fun k u x hk hu hpu => ?_
      exact firstWaiting?_eq_none hnone (by omega) (by omega) (phase_eq_some.mpr ⟨u, hu, hpu⟩)
  · next hno =>
    refine h.of_running fun t f first ht hf => ?_
    obtain ⟨ticket, name, rest, hp⟩ := Phase.eq_forked_of_lanes? hf
    exact absurd (phase_eq_some.mpr ⟨t, ht, hp⟩) (hno ticket f first name rest)

theorem settled_finish {ending : Ending} (h : r.scene.Settled) (ht : r.scene.threads[i]? = some t)
    (hl : (r.scene.put i phase).Linked) (he : Thread.Ends { t with phase } ending) :
    (r.finish i ending).scene.Settled := by
  have hput : (r.put i (.ended ending)).scene.Settled := h.put_free ht Phase.free_ended
  unfold Run.finish
  rw [show r.threads[i]? = some t from ht]
  dsimp only [Option.bind_some]
  split
  · next owner lane hpar =>
    have hlinked : ((r.put i (.ended ending)).takeTurn owner (.finish lane ending)).scene.Linked := by
      have hends := hl.ends (getElem?_put_self [] ht) he
      rw [put_put] at hends
      dsimp only at hends
      rw [hpar] at hends
      rw [scene_takeTurn]
      exact hends
    have hawake : ((r.put i (.ended ending)).takeTurn owner (.finish lane ending)).scene.Awake
        (some owner) := by
      rw [scene_takeTurn]
      exact hput.awake.turn_other
    have hfed : ((r.put i (.ended ending)).takeTurn owner (.finish lane ending)).scene.Fed
        (some owner) := by
      rw [scene_takeTurn]
      exact hput.fed.turn_other
    exact ⟨awake_awaken (awake_enterNext hawake), fed_awaken (fed_enterNext hlinked hfed)⟩
  · exact hput

/-! ### A thread that goes on -/

theorem free_of_goes {allowed : Bool → Reply → Prop} {p : StateProcess} {notes : List Note}
    (h : t.Goes allowed phase notes) (hp : t.phase = .running ticket name p) : phase.Free := by
  cases h with
  | asks hq | collects hq | readies hq =>
    rw [hp] at hq
    cases hq
  | starts | leaves => exact Phase.free_entering
  | sleeps | awaits => exact Phase.free_paused
  | enters | writes | looks | wakes | hears | rouses | refuses => exact Phase.free_running

theorem GoesOn.settled {allowed : Bool → Reply → Prop} {p : StateProcess} {r' : Run σ}
    (h : r.GoesOn allowed i { t with phase := .running ticket name p } r') (hs : r.scene.Settled)
    (ht : r.scene.threads[i]? = some t) (hl : (r.scene.put i (.running ticket name p)).Linked) :
    r'.scene.Settled := by
  cases h with
  | ends he => exact settled_finish hs ht hl he
  | goes hg hscene =>
    rw [hscene]
    exact hs.put_free ht (free_of_goes hg rfl)
  | @spawns ticket' limit jobs name' rest hp =>
    have hscene : (r.spawn i { t with phase := .running ticket name p } ticket' limit jobs name' rest).scene =
        (r.scene.put i (.running ticket name p)).spawn i { t with phase := .running ticket name p } ticket'
          r.tickets limit jobs name' rest := scene_spawn
    have hput : (r.scene.put i (.running ticket name p)).Settled := hs.put_free ht Phase.free_running
    rw [hscene]
    exact ⟨hput.awake.spawn, hput.fed.spawn hl (getElem?_put_self [] ht) rfl⟩

theorem settled_goOn {process : StateProcess} (h : r.scene.Settled) (ht : r.scene.threads[i]? = some t)
    (hl : (r.scene.put i (.running ticket name process)).Linked) :
    (r.goOn setting i t ticket name process).scene.Settled := by
  obtain ⟨looks, notes, process', hproceed⟩ : ∃ looks notes process',
      process.proceed (r.present setting) t.cancelled r.looks [] = (looks, notes, process') :=
    ⟨_, _, _, rfl⟩
  have hsteps : Scene.Steps (fun _ _ => True) _ _ :=
    steps_proceed ht ticket name (r.present setting) process r.looks []
  rw [write_nil, hproceed] at hsteps
  exact (goesOn_goOn setting.allows_any hproceed).settled ⟨h.awake, h.fed⟩ ht (hl.steps hsteps)

theorem settled_enter {x : Json} (h : r.scene.Settled) (hr : r.scene.Linked)
    (ht : r.scene.threads[i]? = some t) (hp : t.phase = .entering ticket name x) :
    (r.enter setting i t ticket name x).scene.Settled := by
  have hself : r.scene.put i t.phase = r.scene := put_self ht
  have hfinish : ∀ {ending : Ending}, t.Ends ending → (r.finish i ending).scene.Settled := fun he =>
    settled_finish h ht (by rwa [hself]) he
  unfold enter
  split
  · next hc => exact hfinish (.cancelled hp hc)
  · next hc =>
    have hc := eq_false_of_ne_true hc
    split
    · next hn => exact hfinish (.missing hp hc hn)
    · next s hn =>
      have hstep : Scene.Step (fun _ _ => True) r.scene
          ((r.scene.put i (.running ticket name (s.process t.context x))).write i []) :=
        .goes ht (.enters hp hc hn)
      exact settled_goOn h ht (hr.step hstep)

theorem settled_request {x : Json} (h : r.scene.Settled) (ht : r.scene.threads[i]? = some t) :
    (r.request i t ticket x).scene.Settled := by
  unfold request
  split
  · exact h.put_free ht Phase.free_entering
  · next owner lane hpar =>
    split
    · next ticket' f first name rest hf =>
      obtain ⟨v, hv, hpv⟩ := phase_eq_some.mp hf
      split
      · have hturn : (r.takeTurn owner (.enter lane)).scene.Settled := by
          rw [scene_takeTurn]
          exact ⟨h.awake.turn_enter, h.fed.turn_enter⟩
        have ht' : ∃ t' : Thread, (r.takeTurn owner (.enter lane)).scene.threads[i]? = some t' := by
          rw [scene_takeTurn]
          exact ⟨_, turn_eq_some.mpr ⟨t, ht, rfl⟩⟩
        obtain ⟨t', ht'⟩ := ht'
        exact hturn.put_free ht' Phase.free_entering
      · next hroom =>
        refine ⟨h.awake.put nofun, h.fed.put ht (fun x' owner' k u f' first' _ hpar' hu hl => ?_) nofun⟩
        -- the lanes of the owner are full
        cases hpar.symm.trans hpar'
        cases hv.symm.trans hu
        rw [hpv] at hl
        cases hl
        exact FanOut.running_of_no_room hroom
    · exact h

theorem settled_lookAround {f : FanOut} {first : Nat} {rest : Except Stop (List Json) → StateProcess}
    (h : r.scene.Settled) (hr : r.scene.Linked) (ht : r.scene.threads[i]? = some t)
    (hp : t.phase = .forked (some ticket) f first name rest) (hf : f.Clean) :
    (r.lookAround i ticket f first name rest).scene.Settled := by
  have hi : i ∉ t.ancestors := fun hmem => Nat.lt_irrefl i (hr.below i t ht i hmem)
  unfold lookAround
  dsimp only
  generalize hr' : (if (f.lookAround.verdict.isSome && !f.isCancelled) = true then
    r.cancelWhere fun u => u.ancestors.contains i else r) = r'
  have h' : r'.scene.Settled := by
    subst hr'
    split
    · exact h.cancelWhere
    · exact h
  have ht' : r'.scene.threads[i]? = some t := by
    subst hr'
    split
    · exact cancelWhere_eq_some.mpr ⟨t, ht, by simp [hi]⟩
    · exact ht
  split
  · exact h'.put_free ht' Phase.free_running
  · next ha =>
    refine ⟨h'.awake.put fun f' first' name' rest' he => ?_,
      h'.fed.put ht' (fun _ _ _ _ _ _ he => by cases he) fun f' first' he => ?_⟩
    · cases he
      exact FanOut.exists_open hf ha
    · cases he
      exact ⟨f, first, by rw [hp]; rfl, (observes_lookAround f).running⟩

theorem settled_advance (h : r.scene.Settled) (hr : r.scene.Linked)
    (hc : ∀ (t : Thread) (f : FanOut) (first : Nat), r.scene.threads[i]? = some t →
      t.phase.lanes? = some (f, first) → f.Clean) : (r.advance setting i).scene.Settled := by
  unfold advance
  split
  · exact h
  · next t ht =>
    split
    · exact settled_request h ht
    · next hp => exact settled_enter h hr ht hp
    · next ticket name process hp =>
      have hself : r.scene.put i (.running ticket name process) = r.scene := hp ▸ put_self ht
      exact settled_goOn h ht (hself.symm ▸ hr)
    · next hp => exact settled_lookAround h hr ht hp (hc t _ _ ht (by rw [hp]; rfl))
    · exact h

/-! ## Runs -/

section run

variable {allowed : Bool → Reply → Prop} {w : Workflow} {memory : σ} {identifier : String} {input : Json}
  {c : Scene}

/-- No state has seen a halt unless it gave up. -/
theorem clean_of_steps (h : Scene.Steps allowed (start setting memory identifier w input).scene c) :
    c.Each fun _ t _ => ∀ f first, t.phase.lanes? = some (f, first) → f.Clean := by
  refine Scene.Steps.each (fun d l u u' new _ hd hu hb f first hf => ?_)
    (fun d l u _ _ hs f first hf => ?_) h tidy_start fun l t ht f first hf => ?_
  · have hbefore := hd l u hu
    cases hb with
    | stays => exact hbefore f first hf
    | goes hg => exact hbefore f first (hg.lanes? hf)
    | admitted | ended => cases hf
    | admits hp | told hp =>
      cases hf
      exact (hbefore _ _ (by rw [hp]; rfl)).take _
    | @spawns _ _ _ limit _ jobs =>
      cases hf
      unfold Thread.lanes
      split
      · exact (FanOut.clean_start limit jobs.length).take _
      · exact FanOut.clean_start limit jobs.length
    | sees hp hobs =>
      cases hf
      exact (hbefore _ _ (by rw [hp]; rfl)).observes hobs
    | cancelled =>
      obtain ⟨f, hl, rfl⟩ := lanes?_cancel_iff.mp hf
      exact (hbefore f first hl).take _
  · obtain ⟨i, t, ticket, name, jobs, limit, rest, lane, job, ticket', -, -, -, -, rfl⟩ := hs
    cases hf
  · obtain ⟨-, rfl⟩ := start_eq_some.mp ht
    cases hf

theorem outside_of_goes {notes : List Note} (h : t.Goes allowed phase notes)
    (ho : phase.standing = .outside) : t.phase.standing = .outside := by
  cases h with
  | asks hp =>
    rw [hp]
    rfl
  | _ => cases ho

theorem inside_of_steps (h : Scene.Steps allowed (start setting memory identifier w input).scene c) :
    c.Each fun _ t _ => t.parent = none → t.phase.standing ≠ .outside := by
  refine Scene.Steps.each (fun d l u u' new _ hd hu hb hpar ho => ?_)
    (fun d l u _ _ hs hpar => ?_) h tidy_start fun l t ht _ ho => ?_
  · have hbefore := hd l u hu
    cases hb with
    | stays => exact hbefore hpar ho
    | goes hg => exact hbefore hpar (outside_of_goes hg ho)
    | cancelled => exact hbefore hpar ((Phase.standing_cancel _ _).symm.trans ho)
    | _ => cases ho
  · obtain ⟨i, t, ticket, name, jobs, limit, rest, lane, job, ticket', -, -, -, -, rfl⟩ := hs
    cases hpar
  · obtain ⟨-, rfl⟩ := start_eq_some.mp ht
    cases ho

theorem settled_start : (start setting memory identifier w input).scene.Settled where
  awake i t f first name rest _ ht hp := by
    obtain ⟨-, rfl⟩ := start_eq_some.mp ht
    cases hp
  fed j u x owner k t f first _ hu hp := by
    obtain ⟨-, rfl⟩ := start_eq_some.mp hu
    cases hp

/-- **Every move leaves the threads settled.** -/
theorem settled_apply (h : Scene.Steps allowed (start setting memory identifier w input).scene r.scene)
    (hs : r.scene.Settled) (m : Move) : (r.apply setting m).scene.Settled := by
  cases m with
  | advance i =>
    exact settled_advance hs (linked_of_steps h) fun t f first ht => clean_of_steps h i t ht f first
  | rouse i =>
    unfold apply rouse
    dsimp only
    split
    · next hp =>
      obtain ⟨t, ht, -⟩ := phase_eq_some.mp hp
      split
      · exact hs.put_free ht Phase.free_running
      · exact hs
    · exact hs
  | wait time => exact ⟨hs.awake, hs.fed⟩
  | cancel => exact hs.cancelWhere

/-- **The schedule finds a move** as long as the workflow of the run has not ended. -/
theorem not_stuck {limits : Limits}
    (h : Scene.Steps allowed (start setting memory identifier w input).scene r.scene)
    (hs : r.scene.Settled) (he : r.ending? = none) : r.choose limits ≠ .stuck := by
  intro hstuck
  obtain ⟨t, ht, -, -, hpar, -⟩ := h.place (start_eq_some.mpr ⟨rfl, rfl⟩)
  have hin : t.phase.standing = .inside := by
    cases hstand : t.phase.standing with
    | inside => rfl
    | outside => exact absurd hstand (inside_of_steps h 0 t ht hpar)
    | finished ending =>
      cases hp : t.phase with
      | ended ending =>
        unfold ending? at he
        rw [phase_eq_some.mpr ⟨t, ht, hp⟩] at he
        cases he
      | _ =>
        rw [hp] at hstand
        cases hstand
  obtain ⟨l, u, hu, hworks⟩ := hs.exists_working (linked_of_steps h) ht hin
  obtain ⟨hticket, hdeadline⟩ := idle_of_stuck hstuck hu
  rw [hticket, hdeadline] at hworks
  rcases hworks with hw | hw <;> cases hw

end run

end Run

end StepFlow
