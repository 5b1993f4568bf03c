import StepFlow.Proofs.Execution.Agenda
import StepFlow.Proofs.Execution.Rounds
import StepFlow.Proofs.Execution.Weight

/-!
# A run goes down

Every move that is due takes something away from what is before the run. A thread that goes on becomes
lighter, and nothing that it does to others makes them heavier; if it only looks at its lanes, then there
is one thread less that is ready. The run is cancelled once at most, and time jumps to something that is
due.

* `Run.finish_sinks`, `Run.GoesOn.falls`, `Run.lookAround_declines`: the ways in which a thread goes on;
* `Run.advance_declines`: a thread that is ready goes on;
* `Run.measure`, `Run.Below`: what is before a run, and `Run.wellFounded_below`;
* `Run.Due`, **`Run.below_of_due`**: every move that is due leads down.
-/

namespace StepFlow

/-- The threads that are ready to go on. -/
def Scene.ready (c : Scene) : Finset Nat :=
  (Finset.range c.threads.size).filter fun l => (c.threads[l]?.any fun t => t.phase.ticket?.isSome) = true

/-- The threads have become lighter together, or they are as heavy as before and fewer of them are
ready. -/
def Scene.Declines (c c' : Scene) : Prop :=
  c.Falls c' ∨ c'.weights = c.weights ∧ c'.ready.card < c.ready.card

theorem Scene.mem_ready {c : Scene} {l : Nat} :
    l ∈ c.ready ↔ ∃ t : Thread, c.threads[l]? = some t ∧ t.phase.ticket?.isSome := by
  unfold ready
  rw [Finset.mem_filter, Finset.mem_range, Option.any_eq_true]
  exact ⟨And.right, fun h => ⟨(Array.getElem?_eq_some_iff.mp h.choose_spec.1).1, h⟩⟩

namespace Run

open Scene

variable {σ : Type} {setting : Setting σ} {r : Run σ} {i : Nat} {t : Thread} {phase : Phase}
  {ticket : Nat} {name : String}

/-! ## What a thread does to others -/

theorem awaken_sinks : r.scene.Sinks (r.awaken i).scene := by
  unfold awaken
  split
  · next f first name rest h =>
    obtain ⟨t, ht, hp⟩ := phase_eq_some.mp h
    refine sinks_put fun u hu => ?_
    cases ht.symm.trans hu
    rw [hp]
    exact Phase.weight_forked_le id
  · exact .refl

theorem takeTurn_sinks {turn : FanOut.Turn} : r.scene.Sinks (r.takeTurn i turn).scene := by
  rw [scene_takeTurn]
  exact sinks_turn turn

theorem enterNext_sinks : r.scene.Sinks (r.enterNext i).scene := by
  unfold enterNext
  split
  · next ticket f first name rest h =>
    split
    · next j input hw =>
      split
      · obtain ⟨-, -, hw⟩ := firstWaiting?_eq_some hw
        obtain ⟨u, hu, hpu⟩ := phase_eq_some.mp hw
        dsimp only
        split
        · next v hv =>
          obtain ⟨u', hu', hwf, -⟩ := takeTurn_sinks.thread j v hv
          cases hu.symm.trans hu'
          refine (takeTurn_sinks.put hu ?_).toSinks
          rw [hpu, hwf]
          exact Prod.Lex.toLex_lt_toLex.mpr (.inl (Nat.lt_succ_self _))
        · exact takeTurn_sinks
      · exact .refl
    · exact .refl
  · exact .refl

theorem finish_sinks (ending : Ending) (ht : r.scene.threads[i]? = some t)
    (hlt : (Phase.ended ending).weight t.workflow < t.phase.weight t.workflow) :
    r.scene.SinksAt i (r.finish i ending).scene := by
  have hput : r.scene.SinksAt i (r.put i (.ended ending)).scene := Sinks.refl.put ht hlt
  unfold finish
  dsimp only
  split
  · exact hput.trans (takeTurn_sinks.trans (enterNext_sinks.trans awaken_sinks))
  · exact hput

/-! ## How a thread goes on -/

/-- A thread in the middle of a state has less left of it after whatever it does by itself, or it leads on
to a state of a lower rank. -/
theorem weight_lt_of_goes {allowed : Bool → Reply → Prop} {w : Workflow} {p : StateProcess}
    {notes : List Note} (h : t.Goes allowed phase notes) (hp : t.phase = .running ticket name p)
    (hlead : ∀ next output, p = .done (.ok ⟨.next next, output⟩) → w.rank next < w.rank name) :
    phase.weight w < t.phase.weight w := by
  cases h with
  | asks hq | starts hq | enters hq | rouses hq | collects hq | readies hq =>
    rw [hp] at hq
    cases hq
  | writes hq =>
    rw [hp] at hq ⊢
    cases hq
    exact Phase.weight_running_lt (Order.lt_add_one_iff.mpr le_rfl)
  | looks present hq =>
    rw [hp] at hq ⊢
    cases hq
    exact Phase.weight_running_lt (Process.height_look present)
  | wakes wake hq =>
    rw [hp] at hq ⊢
    cases hq
    exact Phase.weight_running_lt (le_self_add.trans_lt (Process.height_sleep wake))
  | sleeps hq =>
    rw [hp] at hq ⊢
    cases hq
    exact Phase.weight_paused_lt (Process.height_sleep _) (Process.height_sleep _)
  | hears reply hq =>
    rw [hp] at hq ⊢
    cases hq
    exact Phase.weight_running_lt (le_self_add.trans_lt (Process.height_call reply))
  | awaits reply hq =>
    rw [hp] at hq ⊢
    cases hq
    exact Phase.weight_paused_lt (Process.height_call _) (Process.height_call _)
  | leaves hq =>
    rw [hp] at hq ⊢
    cases hq
    have := hlead _ _ rfl
    exact Prod.Lex.toLex_lt_toLex.mpr (.inl (by omega))
  | refuses hq =>
    rw [hp] at hq ⊢
    cases hq
    exact Phase.weight_running_lt (Process.height_fork _)

/-- A thread in the middle of a state becomes lighter when it goes on: it has less left of its state, it
leads on to a state of a lower rank, or it starts lanes of smaller workflows. -/
theorem GoesOn.falls {allowed : Bool → Reply → Prop} {p : StateProcess} {r' : Run σ}
    (h : r.GoesOn allowed i { t with phase := .running ticket name p } r')
    (ht : r.scene.threads[i]? = some t)
    (hle : (Phase.running ticket name p).weight t.workflow ≤ t.phase.weight t.workflow)
    (hlead : ∀ next output, p = .done (.ok ⟨.next next, output⟩) →
      t.workflow.rank next < t.workflow.rank name)
    (hjobs : ∀ jobs limit rest, p = .fork jobs limit rest →
      ∀ job ∈ jobs, sizeOf job.workflow < sizeOf t.workflow) : r.scene.Falls r'.scene := by
  cases h with
  | ends => exact (finish_sinks _ ht ((Phase.weight_ended_lt _).trans_le hle)).falls
  | goes hg hscene =>
    rw [hscene]
    exact (Sinks.refl.put ht ((weight_lt_of_goes hg rfl hlead).trans_le hle)).falls
  | @spawns ticket' limit jobs name' rest hp =>
    cases hp
    have hself : r.scene.put i t.phase = r.scene := put_self ht
    have hscene : (r.spawn i t ticket limit jobs name rest).scene =
        (r.scene.put i t.phase).spawn i t ticket r.tickets limit jobs name rest := scene_spawn
    rw [hself] at hscene
    have hfalls : r.scene.Falls (r.spawn i t ticket limit jobs name rest).scene := by
      rw [hscene]
      exact falls_spawn ht (fun f => (Phase.weight_forked_fork jobs limit).trans_le hle)
        (hjobs jobs limit rest rfl)
    exact hfalls

/-- A thread that looks at its lanes goes on with their answer, or it gives up and cancels them, or it waits
again. -/
theorem lookAround_declines {f : FanOut} {first : Nat} {rest : Except Stop (List Json) → StateProcess}
    (ht : r.scene.threads[i]? = some t) (hp : t.phase = .forked (some ticket) f first name rest) :
    r.scene.Declines (r.lookAround i ticket f first name rest).scene := by
  have hobs := observes_lookAround f
  unfold lookAround
  dsimp only
  generalize f.lookAround = f' at hobs
  have hsinks : r.scene.Sinks (if (f'.verdict.isSome && !f.isCancelled) = true then
      r.cancelWhere fun u => u.ancestors.contains i else r).scene := by
    split
    · exact sinks_cancelWhere
    · exact .refl
  split
  · next answer _ =>
    refine .inl (hsinks.put ht ?_).falls
    rw [hp]
    exact Phase.weight_lt_forked answer
  · split
    · next hb =>
      obtain ⟨hv, hc⟩ := Bool.and_eq_true_iff.mp hb
      have hf : f.isCancelled = false := Bool.not_eq_true' _ ▸ hc
      have hf' : f'.isCancelled = true := by rw [FanOut.isCancelled, hv, Bool.or_true]
      refine .inl ((sinks_cancelWhere (p := fun u => u.ancestors.contains i)).put ht ?_).falls
      rw [hp]
      exact Phase.weight_forked_lt hf hf'
    · have hput : r.scene.Sinks (r.put i (.forked none f' first name rest)).scene :=
        sinks_put fun u hu => by
          cases ht.symm.trans hu
          rw [hp]
          exact Phase.weight_forked_le hobs.isCancelled
      refine hput.weights_eq_or.symm.imp id fun hw => ⟨hw, ?_⟩
      -- the thread itself is not ready any more, and every other one is as before
      have hready : ∀ l ∈ (r.put i (.forked none f' first name rest)).scene.ready,
          l ≠ i ∧ l ∈ r.scene.ready := fun l hl => by
        obtain ⟨u', hu', hticket⟩ := mem_ready.mp hl
        have hu' : (r.scene.put i (.forked none f' first name rest)).threads[l]? = some u' := hu'
        obtain ⟨u, hu, rfl⟩ := put_eq_some.mp hu'
        dsimp only at hticket
        split at hticket
        · cases hticket
        · next hne => exact ⟨fun he => hne he.symm, mem_ready.mpr ⟨u, hu, hticket⟩⟩
      refine Finset.card_lt_card (Finset.ssubset_iff_of_subset (fun l hl => (hready l hl).2) |>.mpr
        ⟨i, mem_ready.mpr ⟨t, ht, by rw [hp]; rfl⟩, fun hi => (hready i hi).1 rfl⟩)

theorem request_falls {input : Json} (hr : r.scene.Linked) (ht : r.scene.threads[i]? = some t)
    (hp : t.phase = .queued ticket input) :
    r.scene.Falls (r.request i t ticket input).scene := by
  have henter : (Phase.entering ticket t.workflow.startAt input).weight t.workflow <
      t.phase.weight t.workflow := by
    rw [hp]
    exact Prod.Lex.toLex_lt_toLex.mpr (.inl (by omega))
  have hwait : (Phase.waiting input).weight t.workflow < t.phase.weight t.workflow := by
    rw [hp]
    exact Prod.Lex.toLex_lt_toLex.mpr (.inl (Nat.lt_succ_self _))
  unfold request
  split
  · exact (Sinks.refl.put ht henter).falls
  · next owner lane hpar =>
    split
    · split
      · exact (takeTurn_sinks.put ht henter).falls
      · exact (Sinks.refl.put ht hwait).falls
    · next hnone =>
      -- a lane that has not ended is waited for
      obtain ⟨u, f, first, hu, hl, -, -⟩ := hr.live i t owner lane ht hpar fun ending he => by
        rw [hp] at he
        cases he
      obtain ⟨ticket', name, rest, hf⟩ := Phase.eq_forked_of_lanes? hl
      exact absurd (phase_eq_some.mpr ⟨u, hu, hf⟩) (hnone ticket' f first name rest)

/-! ## A thread that is ready -/

section run

variable {w : Workflow} {memory : σ} {identifier : String} {input : Json}

theorem goOn_falls_of_steps {process : StateProcess} (hw : w.Closed) (ha : w.Acyclic)
    (h : Scene.Steps (fun _ _ => True) (start setting memory identifier w input).scene
      (r.scene.put i (.running ticket name process)))
    (ht : r.scene.threads[i]? = some t)
    (hle : (Phase.running ticket name process).weight t.workflow ≤ t.phase.weight t.workflow) :
    r.scene.Falls (r.goOn setting i t ticket name process).scene := by
  -- where the process has to wait, a thread of an acyclic workflow stands where it may
  have hsteps := h.trans (steps_proceed ht ticket name (r.present setting) process r.looks [])
  obtain ⟨looks, notes, process', hafter⟩ : ∃ looks notes process',
      process.proceed (r.present setting) t.cancelled r.looks [] = (looks, notes, process') :=
    ⟨_, _, _, rfl⟩
  have hheight : process'.height ≤ process.height := by
    have := process.height_proceed (r.present setting) t.cancelled r.looks []
    rwa [hafter] at this
  rw [hafter] at hsteps
  dsimp only at hsteps
  have hself : ((r.scene.put i (.running ticket name process')).write i notes).threads[i]? =
      some { t with phase := .running ticket name process' } := getElem?_put_self notes ht
  have hle' : (Phase.running ticket name process').weight t.workflow ≤ t.phase.weight t.workflow :=
    (Phase.weight_running_le hheight).trans hle
  have ht' : (r.noted i looks notes).scene.threads[i]? = some t := ht
  refine (goesOn_goOn setting.allows_any hafter).falls ht' hle' (fun next output hp => ?_)
    fun jobs limit rest hp job hjob => ?_
  · obtain ⟨hclosed, s, hs, hu⟩ := sound_of_steps hw hsteps i _ hself
    have hacyclic := acyclic_of_steps ha hsteps i _ hself
    rw [hp] at hu
    exact Workflow.rank_lt hclosed hacyclic ⟨s, hs, State.mem_successors.mpr (hu.done next rfl)⟩
  · rw [hp] at hsteps hself
    obtain ⟨s, hs, hn⟩ := nested_of_fork hsteps hself rfl
    exact Workflow.sizeOf_nested hs (hn job hjob)

theorem enter_falls {x : Json} (hw : w.Closed) (ha : w.Acyclic)
    (h : Scene.Steps (fun _ _ => True) (start setting memory identifier w input).scene r.scene)
    (ht : r.scene.threads[i]? = some t) (hp : t.phase = .entering ticket name x) :
    r.scene.Falls (r.enter setting i t ticket name x).scene := by
  have hended : ∀ ending, (Phase.ended ending).weight t.workflow < t.phase.weight t.workflow := by
    intro ending
    rw [hp]
    exact Prod.Lex.toLex_lt_toLex.mpr (.inl (Nat.succ_pos _))
  unfold enter
  split
  · exact (finish_sinks _ ht (hended _)).falls
  · next hc =>
    split
    · exact (finish_sinks _ ht (hended _)).falls
    · next s hs =>
      have hstep : Scene.Step (fun _ _ => True) r.scene
          ((r.scene.put i (.running ticket name (s.process t.context x))).write i []) :=
        .goes ht (.enters hp (eq_false_of_ne_true hc) hs)
      refine goOn_falls_of_steps hw ha (h.tail hstep) ht ?_
      rw [hp]
      exact (Prod.Lex.toLex_lt_toLex.mpr (.inl (Nat.lt_succ_self _))).le

/-- **A thread that is ready takes something away from what is before the run.** -/
theorem advance_declines (hw : w.Closed) (ha : w.Acyclic)
    (h : Scene.Steps (fun _ _ => True) (start setting memory identifier w input).scene r.scene)
    (ht : r.scene.threads[i]? = some t) (hready : t.phase.ticket?.isSome) :
    r.scene.Declines (r.advance setting i).scene := by
  unfold advance
  rw [show r.threads[i]? = some t from ht]
  dsimp only
  split
  · next hp => exact .inl (request_falls (linked_of_steps h) ht hp)
  · next hp => exact .inl (enter_falls hw ha h ht hp)
  · next ticket name process hp =>
    have hself : r.scene.put i (.running ticket name process) = r.scene := hp ▸ put_self ht
    exact .inl (goOn_falls_of_steps hw ha (hself.symm ▸ h) ht (hp ▸ le_rfl))
  · next hp => exact lookAround_declines ht hp
  · next hqueued hentering hrunning hforked =>
    exfalso
    cases hp : t.phase with
    | queued ticket x => exact hqueued ticket x hp
    | entering ticket name x => exact hentering ticket name x hp
    | running ticket name process => exact hrunning ticket name process hp
    | forked ticket f first name rest =>
      rw [hp] at hready
      obtain ⟨ticket, rfl⟩ := Option.isSome_iff_exists.mp hready
      exact hforked ticket f first name rest hp
    | _ =>
      rw [hp] at hready
      cases hready

/-! ## Moves that are due -/

/-- What is before a run: its cancellation, what is before its threads, the threads that are ready, and the
time until something is due. -/
noncomputable def measure (limits : Limits) (r : Run σ) :
    ℕ × Multiset (ℕ ×ₗ ℕ ×ₗ Ordinal.{0}) × ℕ × ℕ :=
  ((!r.isCancelled).toNat, r.scene.weights, r.scene.ready.card, (r.isIdle limits).toNat)

/-- There is less before one run than before another one. -/
def Below (limits : Limits) (r' r : Run σ) : Prop :=
  Prod.Lex (· < ·) (Prod.Lex Multiset.IsDershowitzMannaLT (Prod.Lex (· < ·) (· < ·)))
    (r'.measure limits) (r.measure limits)

theorem wellFounded_below (limits : Limits) : WellFounded (Below limits : Run σ → Run σ → Prop) :=
  InvImage.wf _ (WellFounded.prod_lex Nat.lt_wfRel.wf
    (WellFounded.prod_lex Multiset.wellFounded_isDershowitzMannaLT
      (WellFounded.prod_lex Nat.lt_wfRel.wf Nat.lt_wfRel.wf)))

theorem isCancelled_iff : r.isCancelled = true ↔
    ∃ t : Thread, r.scene.threads[0]? = some t ∧ t.cancelled = true := by
  unfold isCancelled
  rw [show r.scene.threads = r.threads from rfl]
  cases r.threads[0]? <;> simp

theorem isCancelled_of_steps {r' : Run σ} {allowed : Bool → Reply → Prop}
    (h : Scene.Steps allowed r.scene r'.scene) (hc : r.isCancelled = true) : r'.isCancelled = true := by
  obtain ⟨t, ht, hcan⟩ := isCancelled_iff.mp hc
  obtain ⟨t', ht', hcan'⟩ := h.follow (P := fun u _ => u.cancelled = true) (fun hb hu => by
    cases hb <;> first | rfl | exact hu) ht hcan
  exact isCancelled_iff.mpr ⟨t', ht', hcan'⟩

theorem below_of_declines {limits : Limits} {r' : Run σ} (h : r.scene.Declines r'.scene)
    (hc : r.isCancelled = true → r'.isCancelled = true) : Below limits r' r := by
  unfold Below measure
  cases hr : r.isCancelled with
  | false =>
    cases r'.isCancelled with
    | true => exact .left _ _ Nat.zero_lt_one
    | false =>
      rcases h with hfalls | ⟨hw, hready⟩
      · exact .right _ (.left _ _ hfalls)
      · rw [hw]
        exact .right _ (.right _ (.left _ _ hready))
  | true =>
    rw [hc hr]
    rcases h with hfalls | ⟨hw, hready⟩
    · exact .right _ (.left _ _ hfalls)
    · rw [hw]
      exact .right _ (.right _ (.left _ _ hready))

theorem rouse_falls {deadline since : Nat} {elapsed interrupted : StateProcess}
    (ht : r.scene.threads[i]? = some t) (hp : t.phase = .paused deadline since name elapsed interrupted)
    (hover : deadline ≤ r.now) : r.scene.Falls (r.rouse i).scene := by
  unfold rouse
  rw [phase_eq_some.mpr ⟨t, ht, hp⟩]
  dsimp only
  rw [if_pos hover]
  refine (Sinks.refl.put ht ?_).falls
  rw [hp]
  exact Phase.weight_lt_paused elapsed interrupted

/-- **Every move that is due leads down.** -/
theorem below_of_due {limits : Limits} {m : Move} (hw : w.Closed) (ha : w.Acyclic)
    (h : Scene.Steps (fun _ _ => True) (start setting memory identifier w input).scene r.scene)
    (hm : r.Due limits m) : Below limits (r.apply setting m) r := by
  have hsteps : Scene.Steps (fun _ _ => True) r.scene (r.apply setting m).scene :=
    steps_apply setting.allows_any (linked_of_steps h) m
  cases hm with
  | advance ht hready =>
    exact below_of_declines (advance_declines hw ha h ht hready) (isCancelled_of_steps hsteps)
  | rouse ht hp hover =>
    exact below_of_declines (.inl (rouse_falls ht hp hover)) (isCancelled_of_steps hsteps)
  | @wait time hidle hbusy =>
    unfold Below measure
    rw [hidle, show (r.apply setting (.wait time)).isIdle limits = false from hbusy]
    exact .right _ (.right _ (.right _ Nat.zero_lt_one))
  | cancel hc =>
    obtain ⟨t, ht, -⟩ := h.place (start_eq_some.mpr ⟨rfl, rfl⟩)
    have hcan : (r.apply setting .cancel).isCancelled = true :=
      isCancelled_iff.mpr ⟨_, cancelWhere_eq_some.mpr ⟨t, ht, rfl⟩, rfl⟩
    unfold Below measure
    rw [hc, hcan]
    exact .left _ _ Nat.zero_lt_one

end run

end Run

end StepFlow
