import StepFlow.Execution.Schedule
import StepFlow.Proofs.Execution.Moves

/-!
# What is due in a run

The schedule makes a move only if there is something to it: a thread that goes on is ready, a pause that
ends is over, the run is cancelled only once, and time passes only up to the next thing that is due.

* `firstThread?_eq_some`, `firstThread?_eq_none`: the search for a thread with the least key;
* `Run.isIdle`, `Run.Due`: nothing is due yet, and moves that are due;
* **`Run.due_of_choose`**: the moves of the schedule are due;
* `Run.idle_of_stuck`: the schedule is at its end only if no thread is ready and none pauses.
-/

namespace StepFlow

/-! ## The first thread -/

theorem earlier_eq_or (a b : (Nat × Nat) × Nat) : earlier a b = a ∨ earlier a b = b := by
  unfold earlier
  split
  · exact .inr rfl
  · exact .inl rfl

/-- One thread of the search for the least key. -/
def nextFirst (key : Thread → Option (Nat × Nat)) (found : Option ((Nat × Nat) × Nat) × Nat)
    (t : Thread) : Option ((Nat × Nat) × Nat) × Nat :=
  match key t, found.1 with
  | none, _ => (found.1, found.2 + 1)
  | some k, none => (some (k, found.2), found.2 + 1)
  | some k, some b => (some (earlier b (k, found.2)), found.2 + 1)

theorem firstThread?_eq (key : Thread → Option (Nat × Nat)) (threads : Array Thread) :
    firstThread? key threads = (threads.toList.foldl (nextFirst key) (none, 0)).1 := by
  unfold firstThread?
  rw [Array.foldl_toList]
  congr 2

variable {key : Thread → Option (Nat × Nat)} {threads : Array Thread}

/-- What is found is the start of the search or the key of a thread. -/
theorem foldl_nextFirst_eq_some {l : List Thread} {best : Option ((Nat × Nat) × Nat)} {n i : Nat}
    {k : Nat × Nat} (h : (l.foldl (nextFirst key) (best, n)).1 = some (k, i)) :
    best = some (k, i) ∨ ∃ m t, l[m]? = some t ∧ i = n + m ∧ key t = some k := by
  induction l generalizing best n with
  | nil => exact .inl h
  | cons t l ih =>
    rw [List.foldl_cons] at h
    have hlater : ∀ {best' : Option ((Nat × Nat) × Nat)},
        (l.foldl (nextFirst key) (best', n + 1)).1 = some (k, i) →
        best' = some (k, i) ∨ ∃ m u, (t :: l)[m]? = some u ∧ i = n + m ∧ key u = some k := fun h => by
      rcases ih h with hb | ⟨m, u, hu, rfl, hk⟩
      · exact .inl hb
      · exact .inr ⟨m + 1, u, hu, by omega, hk⟩
    unfold nextFirst at h
    dsimp only at h
    split at h
    · exact hlater h
    · next k' hk =>
      rcases hlater h with hb | hb
      · cases hb
        exact .inr ⟨0, t, rfl, rfl, hk⟩
      · exact .inr hb
    · next k' b hk =>
      rcases hlater h with hb | hb
      · rcases earlier_eq_or b (k', n) with he | he
        · exact .inl (by rw [← he]; exact hb)
        · rw [he] at hb
          cases hb
          exact .inr ⟨0, t, rfl, rfl, hk⟩
      · exact .inr hb

theorem foldl_nextFirst_eq_none {l : List Thread} {best : Option ((Nat × Nat) × Nat)} {n : Nat}
    (h : (l.foldl (nextFirst key) (best, n)).1 = none) : best = none ∧ ∀ t ∈ l, key t = none := by
  induction l generalizing best n with
  | nil => exact ⟨h, fun t ht => absurd ht List.not_mem_nil⟩
  | cons t l ih =>
    rw [List.foldl_cons] at h
    unfold nextFirst at h
    dsimp only at h
    split at h
    · next hk =>
      obtain ⟨hb, hall⟩ := ih h
      exact ⟨hb, List.forall_mem_cons.mpr ⟨hk, hall⟩⟩
    · cases (ih h).1
    · cases (ih h).1

theorem firstThread?_eq_some {k : Nat × Nat} {i : Nat} (h : firstThread? key threads = some (k, i)) :
    ∃ t, threads[i]? = some t ∧ key t = some k := by
  rw [firstThread?_eq] at h
  rcases foldl_nextFirst_eq_some h with hb | ⟨m, t, ht, rfl, hk⟩
  · cases hb
  · rw [Array.getElem?_toList] at ht
    exact ⟨t, by rwa [Nat.zero_add], hk⟩

theorem firstThread?_eq_none {i : Nat} {t : Thread} (h : firstThread? key threads = none)
    (ht : threads[i]? = some t) : key t = none := by
  rw [firstThread?_eq] at h
  refine (foldl_nextFirst_eq_none h).2 t ?_
  rw [← Array.getElem?_toList] at ht
  exact List.mem_of_getElem? ht

/-! ## What is due -/

namespace Run

variable {σ : Type} {limits : Limits} {r : Run σ} {i : Nat} {m : Move}

/-- Whether nothing is due yet: neither the end of a pause nor cancellation from outside. -/
def isIdle (limits : Limits) (r : Run σ) : Bool :=
  (r.nextDue?.all fun due => r.now < due.1) && (r.cancelDue? limits).all fun time => r.now < time

/-- There is something to the move. -/
inductive Due (limits : Limits) (r : Run σ) : Move → Prop where
  | advance {i : Nat} {t : Thread} : r.scene.threads[i]? = some t → t.phase.ticket?.isSome →
      Due limits r (.advance i)
  | rouse {i deadline since : Nat} {t : Thread} {name : String} {elapsed interrupted : StateProcess} :
      r.scene.threads[i]? = some t → t.phase = .paused deadline since name elapsed interrupted →
      deadline ≤ r.now → Due limits r (.rouse i)
  | wait {time : Nat} : r.isIdle limits = true →
      isIdle limits { r with now := max r.now time } = false → Due limits r (.wait time)
  | cancel : r.isCancelled = false → Due limits r .cancel

theorem nextReady?_eq_some (h : r.nextReady? = some i) :
    ∃ t, r.scene.threads[i]? = some t ∧ t.phase.ticket?.isSome := by
  obtain ⟨⟨k, j⟩, hfirst, rfl⟩ := Option.map_eq_some_iff.mp h
  obtain ⟨t, ht, hk⟩ := firstThread?_eq_some hfirst
  obtain ⟨ticket, hticket, -⟩ := Option.map_eq_some_iff.mp hk
  exact ⟨t, ht, Option.isSome_of_eq_some hticket⟩

theorem exists_paused_of_deadline? {phase : Phase} {key : Nat × Nat} (h : phase.deadline? = some key) :
    ∃ name elapsed interrupted, phase = .paused key.1 key.2 name elapsed interrupted := by
  cases phase with
  | paused deadline since name elapsed interrupted =>
    cases h
    exact ⟨name, elapsed, interrupted, rfl⟩
  | _ => cases h

theorem nextDue?_eq_some {time : Nat} (h : r.nextDue? = some (time, i)) :
    ∃ t since name elapsed interrupted, r.scene.threads[i]? = some t ∧
      t.phase = .paused time since name elapsed interrupted := by
  obtain ⟨⟨key, j⟩, hfirst, he⟩ := Option.map_eq_some_iff.mp h
  cases he
  obtain ⟨t, ht, hk⟩ := firstThread?_eq_some hfirst
  obtain ⟨name, elapsed, interrupted, hp⟩ := exists_paused_of_deadline? hk
  exact ⟨t, _, name, elapsed, interrupted, ht, hp⟩

theorem foldl_earliest (entry : Nat × Choice) (rest : List (Nat × Choice)) :
    (rest.foldl (fun best next => if next.1 < best.1 then next else best) entry) ∈ entry :: rest ∧
      ∀ e ∈ entry :: rest,
        (rest.foldl (fun best next => if next.1 < best.1 then next else best) entry).1 ≤ e.1 := by
  induction rest generalizing entry with
  | nil => exact ⟨List.mem_singleton_self _, fun e he => List.mem_singleton.mp he ▸ Nat.le_refl _⟩
  | cons next rest ih =>
    rw [List.foldl_cons]
    split
    · next hlt =>
      obtain ⟨hmem, hle⟩ := ih next
      refine ⟨List.mem_cons_of_mem _ hmem, fun e he => ?_⟩
      rcases List.mem_cons.mp he with rfl | he
      · exact Nat.le_of_lt (Nat.lt_of_le_of_lt (hle next List.mem_cons_self) hlt)
      · exact hle e he
    · next hlt =>
      obtain ⟨hmem, hle⟩ := ih entry
      refine ⟨?_, fun e he => ?_⟩
      · rcases List.mem_cons.mp hmem with he | he
        · exact List.mem_cons.mpr (.inl he)
        · exact List.mem_cons_of_mem _ (List.mem_cons_of_mem _ he)
      · rcases List.mem_cons.mp he with rfl | he
        · exact hle e List.mem_cons_self
        · rcases List.mem_cons.mp he with rfl | he
          · exact Nat.le_trans (hle entry List.mem_cons_self) (Nat.le_of_not_lt hlt)
          · exact hle e (List.mem_cons_of_mem _ he)

theorem jump_eq {choice : Choice} (h : r.jump limits = choice) :
    r.agenda limits = [] ∧ choice = .stuck ∨
      ∃ time, (time, choice) ∈ r.agenda limits ∧ ∀ e ∈ r.agenda limits, time ≤ e.1 := by
  unfold jump at h
  split at h
  · next hempty => exact .inl ⟨hempty, h.symm⟩
  · next entry rest hagenda =>
    obtain ⟨hmem, hle⟩ := foldl_earliest entry rest
    rw [hagenda]
    subst h
    exact .inr ⟨_, hmem, hle⟩

theorem mem_agenda {entry : Nat × Choice} : entry ∈ r.agenda limits ↔
    (∃ due, r.nextDue? = some due ∧ (due.1, .move (.wait due.1)) = entry) ∨
    (∃ time, r.cancelDue? limits = some time ∧
      (time, .move (if time ≤ r.now then .cancel else .wait time)) = entry) ∨
    ∃ time, limits.timeout = some time ∧ (time, .cutOff time) = entry := by
  unfold agenda
  simp only [List.mem_append, Option.mem_toList, Option.map_eq_some_iff, or_assoc]

/-- A jump leads to something that is due, if no pause is over already. -/
theorem due_of_jump (hnow : (r.nextDue?.all fun due => r.now < due.1) = true)
    (h : r.jump limits = .move m) : r.Due limits m := by
  rcases jump_eq h with ⟨-, hstuck⟩ | ⟨time, hmem, hle⟩
  · cases hstuck
  · rcases mem_agenda.mp hmem with ⟨due, hdue, he⟩ | ⟨time', hcancel, he⟩ | ⟨time', -, he⟩
    · -- time passes until a pause is over
      cases he
      have hlt : r.now < due.1 := by simpa [hdue] using hnow
      refine .wait (Bool.and_eq_true_iff.mpr ⟨hnow, ?_⟩) ?_
      · cases hc : r.cancelDue? limits with
        | none => rfl
        | some moment =>
          have := hle _ (mem_agenda.mpr (.inr (.inl ⟨moment, hc, rfl⟩)))
          exact decide_eq_true (Nat.lt_of_lt_of_le hlt this)
      · have hdue' : nextDue? { r with now := max r.now due.1 } = some due := hdue
        rw [isIdle, hdue', Option.all_some, decide_eq_false (by dsimp only; omega), Bool.false_and]
    · -- the run is cancelled, or time passes until then
      split at he
      · cases he
        unfold cancelDue? at hcancel
        split at hcancel
        · cases hcancel
        · next hc => exact .cancel (eq_false_of_ne_true hc)
      · next hlate =>
        cases he
        refine .wait (Bool.and_eq_true_iff.mpr ⟨hnow, ?_⟩) ?_
        · rw [hcancel]
          exact decide_eq_true (Nat.lt_of_not_le hlate)
        · have hcancel' : cancelDue? limits { r with now := max r.now time } = some time := hcancel
          rw [isIdle, hcancel', Option.all_some, decide_eq_false (by dsimp only; omega), Bool.and_false]
    · cases he

/-- **A move of the schedule is due.** -/
theorem due_of_choose (h : r.choose limits = .move m) : r.Due limits m := by
  unfold choose at h
  split at h
  · unfold chooseAtLimit at h
    split at h
    · cases h
    · next phase hphase =>
      obtain ⟨t, ht, rfl⟩ := phase_eq_some.mp hphase
      split at h
      · next hover =>
        cases h
        obtain ⟨key, hkey, hle⟩ := (Option.any_eq_true _ _).mp hover
        obtain ⟨name, elapsed, interrupted, hp⟩ := exists_paused_of_deadline? hkey
        exact .rouse ht hp (of_decide_eq_true hle)
      · split at h
        · next hready =>
          cases h
          exact .advance ht hready
        · cases h
  · unfold chooseInTime at h
    split at h
    · next time i _ hdue =>
      split at h
      · next hover =>
        cases h
        obtain ⟨t, since, name, elapsed, interrupted, ht, hp⟩ := nextDue?_eq_some hdue
        exact .rouse ht hp hover
      · next hearly =>
        have hnow : (r.nextDue?.all fun due => r.now < due.1) = true := by
          rw [hdue]
          exact decide_eq_true (Nat.lt_of_not_le hearly)
        split at h
        · next hready =>
          cases h
          obtain ⟨t, ht, hticket⟩ := nextReady?_eq_some hready
          exact .advance ht hticket
        · exact due_of_jump hnow h
    · next hdue hready =>
      cases h
      obtain ⟨t, ht, hticket⟩ := nextReady?_eq_some hready
      exact .advance ht hticket
    · next hdue hready => exact due_of_jump (by rw [hdue]; rfl) h

/-- The schedule is at its end only if no thread is ready and none pauses. -/
theorem idle_of_stuck (h : r.choose limits = .stuck) {t : Thread} (ht : r.scene.threads[i]? = some t) :
    t.phase.ticket? = none ∧ t.phase.deadline? = none := by
  have hjump : r.jump limits = .stuck → r.nextDue? = none := fun h => by
    cases hdue : r.nextDue? with
    | none => rfl
    | some due =>
      rcases jump_eq h with ⟨hempty, -⟩ | ⟨time, hmem, -⟩
      · have hmem : (due.1, Choice.move (.wait due.1)) ∈ r.agenda limits :=
          mem_agenda.mpr (.inl ⟨due, hdue, rfl⟩)
        rw [hempty] at hmem
        cases hmem
      · rcases mem_agenda.mp hmem with ⟨_, -, he⟩ | ⟨_, -, he⟩ | ⟨_, -, he⟩ <;> cases he
  obtain ⟨hdue, hready⟩ : r.nextDue? = none ∧ r.nextReady? = none := by
    unfold choose at h
    split at h
    · unfold chooseAtLimit at h
      split at h
      · cases h
      · split at h
        · cases h
        · split at h <;> cases h
    · unfold chooseInTime at h
      split at h
      · next hdue =>
        split at h
        · cases h
        · split at h
          · cases h
          · rw [hjump h] at hdue
            cases hdue
      · cases h
      · next hdue hready => exact ⟨hdue, hready⟩
  have hkey := firstThread?_eq_none (Option.map_eq_none_iff.mp hready) ht
  exact ⟨Option.map_eq_none_iff.mp hkey, firstThread?_eq_none (Option.map_eq_none_iff.mp hdue) ht⟩

end Run

end StepFlow
