import StepFlow.Proofs.Execution.FanOut
import StepFlow.Proofs.Execution.Scene

/-!
# Threads and their lanes

A thread that waits for lanes knows how far each of them has come, and a lane that has not ended is
waited for. A lane is cancelled exactly if the thread knows its lanes to be cancelled.

* `Scene.Mirrors`: the thread of a lane stands where its lane says;
* `Scene.Linked`: the invariant;
* `Scene.Linked.steps`: it is kept by every step.
-/

namespace StepFlow

/-- How far a thread has come. -/
def Phase.standing : Phase → Lane.Standing
  | .queued _ _ | .waiting _ => .outside
  | .entering _ _ _ | .running _ _ _ | .paused _ _ _ _ _ | .forked _ _ _ _ _ => .inside
  | .ended ending => .finished ending

theorem Phase.standing_eq_finished {phase : Phase} {ending : Ending} :
    phase.standing = .finished ending ↔ phase = .ended ending := by
  cases phase <;> simp [standing]

/-- The lanes that a thread waits for, with the number of the first one. -/
def Phase.lanes? : Phase → Option (FanOut × Nat)
  | .forked _ f first _ _ => some (f, first)
  | _ => none

theorem Phase.eq_forked_of_lanes? {phase : Phase} {f : FanOut} {first : Nat}
    (h : phase.lanes? = some (f, first)) :
    ∃ ticket name rest, phase = .forked ticket f first name rest := by
  cases phase with
  | forked ticket f' first' name rest =>
    cases h
    exact ⟨ticket, name, rest, rfl⟩
  | _ => cases h

theorem Phase.standing_of_lanes? {phase : Phase} {f : FanOut} {first : Nat}
    (h : phase.lanes? = some (f, first)) : phase.standing = .inside := by
  obtain ⟨ticket, name, rest, rfl⟩ := Phase.eq_forked_of_lanes? h
  rfl

namespace Thread

variable {allowed : Bool → Reply → Prop} {t : Thread} {phase : Phase} {notes : List Note} {first : Nat}
  {f : FanOut} {ending : Ending}

theorem Goes.standing (h : t.Goes allowed phase notes) :
    phase.standing = t.phase.standing ∨ t.parent = none := by
  cases h with
  | starts _ hp => exact .inr hp
  | asks hp | enters hp | writes hp | looks _ hp | wakes _ hp | sleeps hp | hears _ hp | awaits _ hp
  | rouses hp | leaves hp | refuses hp | collects hp | readies hp =>
    rw [hp]
    exact .inl rfl

theorem Goes.lanes? (h : t.Goes allowed phase notes) (hl : phase.lanes? = some (f, first)) :
    t.phase.lanes? = some (f, first) := by
  cases h with
  | readies hp =>
    rw [hp]
    exact hl
  | _ => cases hl

theorem Goes.left (h : t.Goes allowed phase notes) (hl : t.phase.lanes? = some (f, first)) :
    phase.lanes? = some (f, first) ∨ ∀ lane ∈ f.lanes, ∃ ending, lane = .seen ending := by
  cases h with
  | readies hp =>
    rw [hp] at hl
    exact .inl hl
  | collects hp ha =>
    rw [hp] at hl
    cases hl
    exact .inr (FanOut.seen_of_answer? ha)
  | starts hp | asks hp | enters hp | writes hp | looks _ hp | wakes _ hp | sleeps hp | hears _ hp
  | awaits _ hp | rouses hp | leaves hp | refuses hp =>
    rw [hp] at hl
    cases hl

theorem Ends.standing (h : t.Ends ending) : t.phase.standing = .inside ∧ t.phase.lanes? = none := by
  cases h with
  | cancelled hp | missing hp | stops _ hp | done hp =>
    rw [hp]
    exact ⟨rfl, rfl⟩

end Thread

theorem Phase.standing_cancel (ticket : Nat) (phase : Phase) :
    (phase.cancel ticket).standing = phase.standing := by
  cases phase <;> rfl

theorem Phase.lanes?_cancel (ticket : Nat) (phase : Phase) : (phase.cancel ticket).lanes? =
    phase.lanes?.map fun l => (l.1.take .interrupt, l.2) := by
  cases phase <;> rfl

namespace Scene

variable {allowed : Bool → Reply → Prop} {c c' : Scene} {i j k l first : Nat} {t u : Thread}
  {phase : Phase} {f f' : FanOut}

/-- The thread of lane `k` of thread `i` stands where its lane says. -/
structure Mirrors (i : Nat) (t : Thread) (f : FanOut) (k : Nat) (lane : Lane) (u : Thread) : Prop where
  parent : u.parent = some (i, k)
  ancestors : u.ancestors = i :: t.ancestors
  cancelled : u.cancelled = f.isCancelled
  standing : u.phase.standing = lane.standing

/-- Threads and their lanes agree. -/
structure Linked (c : Scene) : Prop where
  /-- Every lane has a thread. -/
  lane : ∀ (i : Nat) (t : Thread) (f : FanOut) (first k : Nat) (lane : Lane),
    c.threads[i]? = some t → t.phase.lanes? = some (f, first) → f.lanes[k]? = some lane →
    ∃ u, c.threads[first + k]? = some u ∧ Mirrors i t f k lane u
  /-- A lane that has not ended is waited for. -/
  live : ∀ (j : Nat) (u : Thread) (i k : Nat), c.threads[j]? = some u → u.parent = some (i, k) →
    (∀ ending, u.phase.standing ≠ .finished ending) → ∃ t f first, c.threads[i]? = some t ∧
      t.phase.lanes? = some (f, first) ∧ j = first + k ∧ k < f.lanes.length
  below : ∀ (i : Nat) (t : Thread), c.threads[i]? = some t → ∀ a ∈ t.ancestors, a < i
  interrupted : ∀ (i : Nat) (t : Thread) (f : FanOut) (first : Nat), c.threads[i]? = some t →
    t.phase.lanes? = some (f, first) → f.interrupted = t.cancelled

theorem put_eq_some : (c.put i phase).threads[l]? = some u ↔ ∃ v, c.threads[l]? = some v ∧
    u = { v with phase := if i = l then phase else v.phase } := by
  rw [getElem?_put]
  split
  · rw [Option.map_eq_some_iff]
    exact exists_congr fun v => and_congr_right fun _ => eq_comm
  · simp

theorem turn_eq_some {turn : FanOut.Turn} : (c.modify i (.turn turn)).threads[l]? = some u ↔
    ∃ v, c.threads[l]? = some v ∧
      u = { v with phase := if i = l then v.phase.turn turn else v.phase } := by
  rw [getElem?_modify]
  split
  · rw [Option.map_eq_some_iff]
    exact exists_congr fun v => and_congr_right fun _ => eq_comm
  · simp

theorem cancelWhere_eq_some {ticket : Nat} {p : Thread → Bool} :
    (c.cancelWhere ticket p).threads[l]? = some u ↔
      ∃ v, c.threads[l]? = some v ∧ u = if p v then v.cancel ticket else v := by
  rw [getElem?_cancelWhere, Option.map_eq_some_iff]
  exact exists_congr fun v => and_congr_right fun _ => eq_comm

/-! ## Threads that change in place -/

/-- Threads may change in place as long as they change together: a lane with the thread that mirrors
it, and what a thread knows of the end of its lanes with what they do. A thread leaves its lanes only
once all of them have been seen. -/
theorem Linked.change {g : Nat → Thread → Thread} (h : c.Linked)
    (hat : ∀ (l : Nat) (v' : Thread), c'.threads[l]? = some v' ↔
      ∃ v, c.threads[l]? = some v ∧ v' = g l v)
    (hpar : ∀ l v, (g l v).parent = v.parent) (hanc : ∀ l v, (g l v).ancestors = v.ancestors)
    (hlane : ∀ (l : Nat) (v : Thread) (f' : FanOut) (first k : Nat) (lane' : Lane),
      c.threads[l]? = some v → (g l v).phase.lanes? = some (f', first) → f'.lanes[k]? = some lane' →
      ∃ f lane, v.phase.lanes? = some (f, first) ∧ f.lanes[k]? = some lane ∧
        ∀ u, c.threads[first + k]? = some u → Mirrors l v f k lane u →
          (g (first + k) u).cancelled = f'.isCancelled ∧
          (g (first + k) u).phase.standing = lane'.standing)
    (hopen : ∀ (l : Nat) (v : Thread) (owner : Nat × Nat), c.threads[l]? = some v →
      v.parent = some owner → (∀ ending, (g l v).phase.standing ≠ .finished ending) →
      ∀ ending, v.phase.standing ≠ .finished ending)
    (hkeep : ∀ (l : Nat) (v : Thread) (f : FanOut) (first : Nat), c.threads[l]? = some v →
      v.phase.lanes? = some (f, first) →
      (∃ f', (g l v).phase.lanes? = some (f', first) ∧ f'.lanes.length = f.lanes.length) ∨
        ∀ lane ∈ f.lanes, ∃ ending, lane = .seen ending)
    (hint : ∀ (l : Nat) (v : Thread) (f' : FanOut) (first : Nat), c.threads[l]? = some v →
      (g l v).phase.lanes? = some (f', first) → f'.interrupted = (g l v).cancelled) :
    c'.Linked where
  lane i t' f' first k lane' ht' hl' hk' := by
    obtain ⟨t, ht, rfl⟩ := (hat i t').mp ht'
    obtain ⟨f, lane, hl, hk, hnew⟩ := hlane i t f' first k lane' ht hl' hk'
    obtain ⟨u, hu, hm⟩ := h.lane i t f first k lane ht hl hk
    obtain ⟨hcan, hs⟩ := hnew u hu hm
    exact ⟨_, (hat _ _).mpr ⟨u, hu, rfl⟩, (hpar _ u).trans hm.parent,
      by rw [hanc, hanc, hm.ancestors], hcan, hs⟩
  live j u' i k hu' hp ho := by
    obtain ⟨u, hu, rfl⟩ := (hat j u').mp hu'
    rw [hpar] at hp
    have hold := hopen j u (i, k) hu hp ho
    obtain ⟨t, f, first, ht, hl, rfl, hk⟩ := h.live j u i k hu hp hold
    rcases hkeep i t f first ht hl with ⟨f', hl', hlen⟩ | hseen
    · exact ⟨_, f', first, (hat i _).mpr ⟨t, ht, rfl⟩, hl', rfl, by rwa [hlen]⟩
    · obtain ⟨u', hu', hm⟩ := h.lane i t f first k _ ht hl (List.getElem?_eq_getElem hk)
      cases hu.symm.trans hu'
      obtain ⟨ending, he⟩ := hseen _ (List.getElem_mem hk)
      exact absurd (hm.standing.trans (by rw [he]; rfl)) (hold ending)
  below i t' ht' a ha := by
    obtain ⟨t, ht, rfl⟩ := (hat i t').mp ht'
    rw [hanc] at ha
    exact h.below i t ht a ha
  interrupted i t' f' first ht' hl' := by
    obtain ⟨t, ht, rfl⟩ := (hat i t').mp ht'
    exact hint i t f' first ht hl'

/-! ## A thread by itself -/

/-- A thread may go from one phase to another if its owner need not know, and it leaves its lanes only
once all of them have been seen. -/
theorem Linked.put (h : c.Linked) (ht : c.threads[i]? = some t)
    (hs : phase.standing = t.phase.standing ∨ t.parent = none)
    (hlanes : ∀ f first, phase.lanes? = some (f, first) → t.phase.lanes? = some (f, first))
    (hleft : ∀ f first, t.phase.lanes? = some (f, first) → phase.lanes? = some (f, first) ∨
      ∀ lane ∈ f.lanes, ∃ ending, lane = .seen ending) : (c.put i phase).Linked := by
  have hself : ∀ {l : Nat} {v : Thread}, c.threads[l]? = some v → i = l → v = t := fun hv hi => by
    rw [← hi, ht] at hv
    cases hv
    rfl
  have hold : ∀ {l : Nat} {v : Thread} {f : FanOut} {first : Nat}, c.threads[l]? = some v →
      (if i = l then phase else v.phase).lanes? = some (f, first) →
      v.phase.lanes? = some (f, first) := fun hv hl => by
    split at hl
    · next hi =>
      rw [hself hv hi]
      exact hlanes _ _ hl
    · exact hl
  have hstand : ∀ {l : Nat} {v : Thread} {owner : Nat × Nat}, c.threads[l]? = some v →
      v.parent = some owner →
      (if i = l then phase else v.phase).standing = v.phase.standing := fun hv hp => by
    split
    · next hi =>
      cases hself hv hi
      rcases hs with hs | hs
      · exact hs
      · rw [hp] at hs
        cases hs
    · rfl
  refine h.change (fun l v' => put_eq_some) (fun _ _ => rfl) (fun _ _ => rfl)
    (fun l v f first k lane hv hl hk => ?_) (fun l v owner hv hp ho => ?_)
    (fun l v f first hv hl => ?_) fun l v f first hv hl => ?_
  · exact ⟨f, lane, hold hv hl, hk, fun u hu hm =>
      ⟨hm.cancelled, (hstand hu hm.parent).trans hm.standing⟩⟩
  · rwa [hstand hv hp] at ho
  · dsimp only
    split
    · next hi =>
      cases hself hv hi
      exact (hleft f first hl).imp (fun hl => ⟨f, hl, rfl⟩) id
    · exact .inl ⟨f, hl, rfl⟩
  · exact h.interrupted l v f first hv (hold hv hl)

/-! ## A thread and its owner -/

theorem Linked.owner_lt (h : c.Linked) (ht : c.threads[i]? = some t)
    (hl : t.phase.lanes? = some (f, first)) (hk : k < f.lanes.length) : i < first + k := by
  obtain ⟨u, hu, hm⟩ := h.lane i t f first k _ ht hl (List.getElem?_eq_getElem hk)
  exact h.below _ u hu i (by rw [hm.ancestors]; exact List.mem_cons_self)

theorem turn_put_eq_some {turn : FanOut.Turn} :
    ((c.modify i (.turn turn)).put j phase).threads[l]? = some u ↔
      ∃ v, c.threads[l]? = some v ∧ u = { v with phase :=
        if j = l then phase else if i = l then v.phase.turn turn else v.phase } := by
  rw [put_eq_some]
  simp only [turn_eq_some]
  constructor
  · rintro ⟨_, ⟨v, hv, rfl⟩, rfl⟩
    exact ⟨v, hv, rfl⟩
  · rintro ⟨v, hv, rfl⟩
    exact ⟨_, ⟨v, hv, rfl⟩, rfl⟩

/-- Lane `k` of thread `i` takes a turn, and its thread `u` goes on into a phase with it. -/
structure Turns (c : Scene) (i k first : Nat) (t u : Thread) (f f' : FanOut) (turn : FanOut.Turn)
    (lane lane' : Lane) (phase : Phase) : Prop where
  owner : c.threads[i]? = some t
  lanes : t.phase.lanes? = some (f, first)
  thread : c.threads[first + k]? = some u
  lane : f.lanes[k]? = some lane
  applies : f.apply turn = some f'
  set : f'.lanes = f.lanes.set k lane'
  isCancelled : f'.isCancelled = f.isCancelled
  interrupted : f'.interrupted = f.interrupted
  standing : phase.standing = lane'.standing
  leads : phase.lanes? = none
  led : u.phase.lanes? = none
  goesOn : ∀ ending, u.phase.standing ≠ .finished ending

section turn

variable {taken : FanOut.Turn} {lane lane' : Lane} {v : Thread}

/-- The phase of a thread after the turn. -/
def turned (i j : Nat) (turn : FanOut.Turn) (phase : Phase) (l : Nat) (v : Thread) : Phase :=
  if j = l then phase else if i = l then v.phase.turn turn else v.phase

theorem Turns.lanes?_turn (h : c.Turns i k first t u f f' taken lane lane' phase) :
    (t.phase.turn taken).lanes? = some (f', first) := by
  obtain ⟨ticket, name, rest, hf⟩ := Phase.eq_forked_of_lanes? h.lanes
  rw [hf, Phase.turn, FanOut.take, h.applies]
  rfl

theorem Turns.standing_turn (h : c.Turns i k first t u f f' taken lane lane' phase) :
    (t.phase.turn taken).standing = t.phase.standing := by
  rw [Phase.standing_of_lanes? h.lanes?_turn, Phase.standing_of_lanes? h.lanes]

theorem Turns.turned_eq (h : c.Turns i k first t u f f' taken lane lane' phase)
    (hv : c.threads[l]? = some v) :
    first + k = l ∧ v = u ∧ turned i (first + k) taken phase l v = phase ∨
      i = l ∧ v = t ∧ turned i (first + k) taken phase l v = t.phase.turn taken ∨
      i ≠ l ∧ turned i (first + k) taken phase l v = v.phase := by
  unfold turned
  by_cases hj : first + k = l
  · subst hj
    exact .inl ⟨rfl, Option.some.inj (hv.symm.trans h.thread), if_pos rfl⟩
  · rw [if_neg hj]
    by_cases hi : i = l
    · subst hi
      obtain rfl := Option.some.inj (hv.symm.trans h.owner)
      exact .inr (.inl ⟨rfl, rfl, if_pos rfl⟩)
    · exact .inr (.inr ⟨hi, if_neg hi⟩)

/-- After the turn every lane is mirrored. -/
theorem Turns.mirrors (h : c.Turns i k first t u f f' taken lane lane' phase) (hc : c.Linked)
    {f₂ : FanOut} {first₂ k₂ : Nat} {lane₂ : Lane} (hv : c.threads[l]? = some v)
    (hl : (turned i (first + k) taken phase l v).lanes? = some (f₂, first₂))
    (hk : f₂.lanes[k₂]? = some lane₂) : ∃ f lane, v.phase.lanes? = some (f, first₂) ∧
      f.lanes[k₂]? = some lane ∧ ∀ u, c.threads[first₂ + k₂]? = some u → Mirrors l v f k₂ lane u →
        u.cancelled = f₂.isCancelled ∧
          (turned i (first + k) taken phase (first₂ + k₂) u).standing = lane₂.standing := by
  have hlt := hc.owner_lt h.owner h.lanes (List.getElem?_eq_some_iff.mp h.lane).1
  rcases h.turned_eq hv with ⟨-, -, he⟩ | ⟨rfl, rfl, he⟩ | ⟨hi, he⟩
  · rw [he, h.leads] at hl
    cases hl
  · rw [he, h.lanes?_turn] at hl
    cases hl
    rw [h.set] at hk
    rcases (getElem?_set_eq_some h.lane).mp hk with ⟨rfl, rfl⟩ | ⟨hne, hk⟩
    · refine ⟨f, lane, h.lanes, h.lane, fun w _ hm => ⟨hm.cancelled.trans h.isCancelled.symm, ?_⟩⟩
      rw [turned, if_pos rfl, h.standing]
    · refine ⟨f, lane₂, h.lanes, hk, fun w _ hm => ⟨hm.cancelled.trans h.isCancelled.symm, ?_⟩⟩
      have := hc.owner_lt h.owner h.lanes (List.getElem?_eq_some_iff.mp hk).1
      rw [turned, if_neg (by omega), if_neg (by omega), hm.standing]
  · rw [he] at hl
    refine ⟨f₂, lane₂, hl, hk, fun w hw hm => ⟨hm.cancelled, ?_⟩⟩
    rcases h.turned_eq hw with ⟨-, rfl, -⟩ | ⟨-, rfl, hw'⟩ | ⟨-, hw'⟩
    · -- the thread of the lane has no other owner
      obtain ⟨u', hu', hm'⟩ := hc.lane i t f first k lane h.owner h.lanes h.lane
      cases h.thread.symm.trans hu'
      cases hm'.parent.symm.trans hm.parent
      exact absurd rfl hi
    · rw [hw', h.standing_turn, hm.standing]
    · rw [hw', hm.standing]

/-- A lane and the thread of the lane may go on together. -/
theorem Linked.turn (hc : c.Linked) (h : c.Turns i k first t u f f' taken lane lane' phase) :
    ((c.modify i (.turn taken)).put (first + k) phase).Linked := by
  refine hc.change (g := fun l v => { v with phase := turned i (first + k) taken phase l v })
    (fun l v' => turn_put_eq_some) (fun _ _ => rfl) (fun _ _ => rfl)
    (fun l v f₂ first₂ k₂ lane₂ hv hl₂ hk₂ => h.mirrors hc hv hl₂ hk₂)
    (fun l v owner hv hp hopen => ?_) (fun l v f₂ first₂ hv hl₂ => ?_) fun l v f₂ first₂ hv hl₂ => ?_
  · rcases h.turned_eq hv with ⟨-, rfl, -⟩ | ⟨-, rfl, he⟩ | ⟨-, he⟩
    · exact h.goesOn
    · rwa [he, h.standing_turn] at hopen
    · rwa [he] at hopen
  · left
    rcases h.turned_eq hv with ⟨-, rfl, -⟩ | ⟨-, rfl, he⟩ | ⟨-, he⟩
    · rw [h.led] at hl₂
      cases hl₂
    · cases h.lanes.symm.trans hl₂
      exact ⟨f', by rw [he, h.lanes?_turn], by rw [h.set, List.length_set]⟩
    · exact ⟨f₂, by rw [he, hl₂], rfl⟩
  · rcases h.turned_eq hv with ⟨-, -, he⟩ | ⟨rfl, rfl, he⟩ | ⟨-, he⟩
    · rw [he, h.leads] at hl₂
      cases hl₂
    · rw [he, h.lanes?_turn] at hl₂
      cases hl₂
      exact h.interrupted.trans (hc.interrupted i v f first hv h.lanes)
    · rw [he] at hl₂
      exact hc.interrupted l v f₂ first₂ hv hl₂

end turn

theorem put_modify {g : Thread → Thread} (h : i ≠ j) :
    (c.put j phase).modify i g = (c.modify i g).put j phase := by
  unfold put modify
  refine congrArg (Scene.mk · c.journal) (Array.ext_getElem? fun l => ?_)
  simp only [Array.getElem?_modify]
  by_cases hi : i = l
  · have hj : j ≠ l := fun hj => h (hi.trans hj.symm)
    rw [if_pos hi, if_pos hi, if_neg hj, if_neg hj]
  · rw [if_neg hi, if_neg hi]

theorem Linked.goes {notes : List Note} (h : c.Linked) (ht : c.threads[i]? = some t)
    (hg : t.Goes allowed phase notes) : ((c.put i phase).write i notes).Linked := by
  have := h.put ht hg.standing (fun _ _ => hg.lanes?) fun _ _ => hg.left
  exact ⟨this.lane, this.live, this.below, this.interrupted⟩

theorem Linked.laneOf (h : c.Linked) (hu : c.threads[j]? = some u) (hp : u.parent = some (i, k))
    (hopen : ∀ ending, u.phase.standing ≠ .finished ending) : ∃ t f first lane, c.threads[i]? = some t ∧
      t.phase.lanes? = some (f, first) ∧ j = first + k ∧ f.lanes[k]? = some lane ∧
      Mirrors i t f k lane u := by
  obtain ⟨t, f, first, ht, hl, rfl, hk⟩ := h.live j u i k hu hp hopen
  obtain ⟨u', hu', hm⟩ := h.lane i t f first k _ ht hl (List.getElem?_eq_getElem hk)
  cases hu.symm.trans hu'
  exact ⟨t, f, first, _, ht, hl, rfl, List.getElem?_eq_getElem hk, hm⟩

theorem Linked.admits {ticket : Nat} {input : Json} (h : c.Linked) (hu : c.threads[j]? = some u)
    (hout : u.phase.outside? = some input) (hp : u.parent = some (i, k)) (ht : c.threads[i]? = some t)
    (hl : t.phase.lanes? = some (f, first)) (hroom : f.hasRoom = true) :
    ((c.modify i (.turn (.enter k))).put j (.entering ticket u.workflow.startAt input)).Linked := by
  have hstand : u.phase.standing = .outside := by
    cases hph : u.phase with
    | queued | waiting => rfl
    | _ =>
      rw [hph] at hout
      cases hout
  have hnone : u.phase.lanes? = none := by
    cases hph : u.phase with
    | forked =>
      rw [hph] at hout
      cases hout
    | _ => rfl
  have hopen : ∀ ending, u.phase.standing ≠ .finished ending := fun ending hfinished => by
    rw [hstand] at hfinished
    cases hfinished
  obtain ⟨t', f', first', lane, ht', hl', rfl, hk, hm⟩ := h.laneOf hu hp hopen
  cases ht.symm.trans ht'
  cases hl.symm.trans hl'
  have hwait : lane = .waiting := by
    have := hm.standing
    rw [hstand] at this
    cases lane with
    | waiting => rfl
    | _ => cases this
  subst hwait
  exact h.turn
    ⟨ht, hl, hu, hk, FanOut.apply_enter.mpr ⟨hk, hroom, rfl⟩, rfl, rfl, rfl, rfl, rfl, hnone, hopen⟩

theorem Linked.ends {ending : Ending} (h : c.Linked) (hu : c.threads[j]? = some u)
    (he : u.Ends ending) : ((c.put j (.ended ending)).tell u.parent ending).Linked := by
  obtain ⟨hstand, hnone⟩ := he.standing
  match hp : u.parent with
  | none =>
    refine h.put hu (.inr hp) (fun f first hl => ?_) fun f first hl => ?_
    · cases hl
    · rw [hnone] at hl
      cases hl
  | some (i, k) =>
    have hopen : ∀ ending, u.phase.standing ≠ .finished ending := fun ending hfinished => by
      rw [hstand] at hfinished
      cases hfinished
    obtain ⟨t, f, first, lane, ht, hl, rfl, hk, hm⟩ := h.laneOf hu hp hopen
    have hrun : lane = .running := by
      have := hm.standing
      rw [hstand] at this
      cases lane with
      | running => rfl
      | _ => cases this
    subst hrun
    have hlt := h.owner_lt ht hl (List.getElem?_eq_some_iff.mp hk).1
    rw [tell, put_modify (by omega)]
    exact h.turn ⟨ht, hl, hu, hk, FanOut.apply_finish.mpr ⟨hk, rfl⟩, rfl, rfl, rfl, rfl, rfl, hnone, hopen⟩

theorem lanes_lanes {limit count : Nat} :
    (t.lanes limit count).lanes = List.replicate count .waiting := by
  unfold Thread.lanes
  split <;> rfl

theorem lanes_interrupted {limit count : Nat} : (t.lanes limit count).interrupted = t.cancelled := by
  unfold Thread.lanes
  split
  · next h => exact h.symm
  · next h => exact (eq_false_of_ne_true h).symm

theorem lanes_isCancelled {limit count : Nat} : (t.lanes limit count).isCancelled = t.cancelled := by
  unfold Thread.lanes
  split
  · next h => exact h.symm
  · next h => exact (eq_false_of_ne_true h).symm

/-- A thread is an old one, which may have started the lanes, or the thread of a new lane. -/
theorem spawn_eq_some {ticket ticket' limit : Nat} {name : String} {jobs : List Job}
    {rest : Except Stop (List Json) → StateProcess} :
    (c.spawn i t ticket ticket' limit jobs name rest).threads[l]? = some u ↔
      (∃ v, c.threads[l]? = some v ∧ u = { v with phase :=
        if i = l then
          (.forked (some ticket) (t.lanes limit jobs.length) c.threads.size name rest)
        else v.phase }) ∨
      ∃ k job, jobs[k]? = some job ∧ l = c.threads.size + k ∧ u = t.ofJob i k (ticket' + k) job := by
  rw [getElem?_spawn]
  split
  · next hl =>
    rw [put_eq_some]
    constructor
    · exact .inl
    · rintro (hv | ⟨k, job, -, rfl, -⟩)
      · exact hv
      · omega
  · next hl =>
    rw [Option.map_eq_some_iff]
    constructor
    · rintro ⟨job, hjob, rfl⟩
      exact .inr ⟨_, job, hjob, by omega, rfl⟩
    · rintro (⟨v, hv, -⟩ | ⟨k, job, hjob, rfl, rfl⟩)
      · exact absurd (Array.getElem?_eq_some_iff.mp hv).1 hl
      · rw [Nat.add_sub_cancel_left]
        exact ⟨job, hjob, rfl⟩

section spawn

variable {ticket ticket' ticket'' limit : Nat} {name : String} {jobs : List Job}
  {rest : Except Stop (List Json) → StateProcess} {u' : Thread}

theorem standing_spawn (ht : c.threads[i]? = some t)
    (hp : t.phase = .running ticket name (.fork jobs limit rest)) {v : Thread} {f : FanOut} {first : Nat}
    (hv : c.threads[l]? = some v) :
    (if i = l then (.forked (some ticket') f first name rest) else v.phase).standing =
      v.phase.standing := by
  split
  · next hi =>
    subst hi
    cases ht.symm.trans hv
    rw [hp]
    rfl
  · rfl

/-- The new lanes are mirrored by their threads, and the old ones by the threads that were there. -/
theorem Linked.mirrors_spawn (h : c.Linked) (ht : c.threads[i]? = some t)
    (hp : t.phase = .running ticket name (.fork jobs limit rest)) {f₂ : FanOut} {first₂ k₂ : Nat}
    {lane₂ : Lane} (hu : (c.spawn i t ticket' ticket'' limit jobs name rest).threads[l]? = some u')
    (hl : u'.phase.lanes? = some (f₂, first₂)) (hk : f₂.lanes[k₂]? = some lane₂) :
    ∃ u, (c.spawn i t ticket' ticket'' limit jobs name rest).threads[first₂ + k₂]? = some u ∧
      Mirrors l u' f₂ k₂ lane₂ u := by
  rcases spawn_eq_some.mp hu with ⟨v, hv, rfl⟩ | ⟨k, job, -, -, rfl⟩
  · by_cases hi : i = l
    · subst hi
      cases ht.symm.trans hv
      rw [if_pos rfl] at hl
      cases hl
      rw [lanes_lanes] at hk
      obtain ⟨hlt, hlane⟩ := List.getElem?_eq_some_iff.mp hk
      rw [List.length_replicate] at hlt
      rw [List.getElem_replicate] at hlane
      subst hlane
      exact ⟨_, spawn_eq_some.mpr (.inr ⟨k₂, _, List.getElem?_eq_getElem hlt, rfl, rfl⟩), rfl, rfl,
        lanes_isCancelled.symm, rfl⟩
    · rw [if_neg hi] at hl
      obtain ⟨u, hu, hm⟩ := h.lane l v f₂ first₂ k₂ lane₂ hv hl hk
      exact ⟨_, spawn_eq_some.mpr (.inl ⟨u, hu, rfl⟩), hm.parent, hm.ancestors, hm.cancelled,
        (standing_spawn ht hp hu).trans hm.standing⟩
  · cases hl

/-- An old lane is waited for as it was, and a new one by the thread that has started it. -/
theorem Linked.live_spawn (h : c.Linked) (ht : c.threads[i]? = some t)
    (hp : t.phase = .running ticket name (.fork jobs limit rest)) {owner k₂ : Nat}
    (hu : (c.spawn i t ticket' ticket'' limit jobs name rest).threads[l]? = some u')
    (hpar : u'.parent = some (owner, k₂)) (hopen : ∀ ending, u'.phase.standing ≠ .finished ending) :
    ∃ v f first, (c.spawn i t ticket' ticket'' limit jobs name rest).threads[owner]? = some v ∧
      v.phase.lanes? = some (f, first) ∧ l = first + k₂ ∧ k₂ < f.lanes.length := by
  rcases spawn_eq_some.mp hu with ⟨v, hv, rfl⟩ | ⟨k, job, hjob, rfl, rfl⟩
  · have hold : ∀ ending, v.phase.standing ≠ .finished ending := fun ending hfinished =>
      hopen ending ((standing_spawn ht hp hv).trans hfinished)
    obtain ⟨t₂, f₂, first₂, ht₂, hl₂, hlk, hk₂⟩ := h.live l v owner k₂ hv hpar hold
    refine ⟨_, f₂, first₂, spawn_eq_some.mpr (.inl ⟨t₂, ht₂, rfl⟩), ?_, hlk, hk₂⟩
    rw [if_neg]
    · exact hl₂
    · -- a thread that starts lanes does not wait for others
      rintro rfl
      cases ht.symm.trans ht₂
      rw [hp] at hl₂
      cases hl₂
  · cases hpar
    refine ⟨_, _, _, spawn_eq_some.mpr (.inl ⟨t, ht, rfl⟩), by rw [if_pos rfl]; rfl, rfl, ?_⟩
    rw [lanes_lanes, List.length_replicate]
    exact (List.getElem?_eq_some_iff.mp hjob).1

theorem Linked.spawns (h : c.Linked) (ht : c.threads[i]? = some t)
    (hp : t.phase = .running ticket name (.fork jobs limit rest)) :
    (c.spawn i t ticket' ticket'' limit jobs name rest).Linked where
  lane _ _ _ _ _ _ hu hl hk := h.mirrors_spawn ht hp hu hl hk
  live _ _ _ _ hu hpar hopen := h.live_spawn ht hp hu hpar hopen
  below l u' hu a ha := by
    have hi : i < c.threads.size := (Array.getElem?_eq_some_iff.mp ht).1
    rcases spawn_eq_some.mp hu with ⟨v, hv, rfl⟩ | ⟨k, job, -, rfl, rfl⟩
    · exact h.below l v hv a ha
    · rcases List.mem_cons.mp ha with rfl | ha
      · omega
      · have := h.below i t ht a ha
        omega
  interrupted l u' f₂ first₂ hu hl := by
    rcases spawn_eq_some.mp hu with ⟨v, hv, rfl⟩ | ⟨k, job, -, -, rfl⟩
    · by_cases hi : i = l
      · subst hi
        cases ht.symm.trans hv
        rw [if_pos rfl] at hl
        cases hl
        exact lanes_interrupted
      · rw [if_neg hi] at hl
        exact h.interrupted l v f₂ first₂ hv hl
    · cases hl

end spawn

/-! ## All threads at once -/

theorem standing_of_map {f f' : FanOut} (h : f'.lanes.map Lane.standing = f.lanes.map Lane.standing)
    {lane' : Lane} (hk : f'.lanes[k]? = some lane') :
    ∃ lane, f.lanes[k]? = some lane ∧ lane.standing = lane'.standing := by
  have := congrArg (fun l => l[k]?) h
  simp only [List.getElem?_map, hk, Option.map_some] at this
  obtain ⟨lane, hl, hs⟩ := Option.map_eq_some_iff.mp this.symm
  exact ⟨lane, hl, hs⟩

/-- Threads may change together if every one keeps its place and its standing, lanes keep theirs, and
lanes are cancelled together with what their thread knows of them. -/
theorem Linked.map {g : Nat → Thread → Thread} (h : c.Linked)
    (hat : ∀ (l : Nat) (v' : Thread), c'.threads[l]? = some v' ↔
      ∃ v, c.threads[l]? = some v ∧ v' = g l v)
    (hpar : ∀ l v, (g l v).parent = v.parent) (hanc : ∀ l v, (g l v).ancestors = v.ancestors)
    (hstand : ∀ l v, c.threads[l]? = some v → (g l v).phase.standing = v.phase.standing)
    (hnew : ∀ l v f' first, c.threads[l]? = some v → (g l v).phase.lanes? = some (f', first) →
      ∃ f, v.phase.lanes? = some (f, first) ∧
        f'.lanes.map Lane.standing = f.lanes.map Lane.standing ∧ f'.interrupted = (g l v).cancelled ∧
        ∀ k u lane, c.threads[first + k]? = some u → f.lanes[k]? = some lane → Mirrors l v f k lane u →
          (g (first + k) u).cancelled = f'.isCancelled)
    (hold : ∀ l v f first, c.threads[l]? = some v → v.phase.lanes? = some (f, first) →
      ∃ f', (g l v).phase.lanes? = some (f', first)) : c'.Linked := by
  refine h.change hat hpar hanc (fun l v f' first k lane' hv hl' hk' => ?_)
    (fun l v owner hv _ ho => ?_) (fun l v f first hv hl => ?_) fun l v f' first hv hl' => ?_
  · obtain ⟨f, hl, hmap, -, hcan⟩ := hnew l v f' first hv hl'
    obtain ⟨lane, hk, hs⟩ := standing_of_map hmap hk'
    exact ⟨f, lane, hl, hk, fun u hu hm => ⟨hcan k u lane hu hk hm,
      (hstand _ u hu).trans (hm.standing.trans hs)⟩⟩
  · rwa [hstand l v hv] at ho
  · left
    obtain ⟨f', hl'⟩ := hold l v f first hv hl
    obtain ⟨f₂, hl₂, hmap, -, -⟩ := hnew l v f' first hv hl'
    cases hl.symm.trans hl₂
    have hlen := congrArg List.length hmap
    rw [List.length_map, List.length_map] at hlen
    exact ⟨f', hl', hlen⟩
  · obtain ⟨-, -, -, hint, -⟩ := hnew l v f' first hv hl'
    exact hint

theorem lanes?_cancel_iff {ticket : Nat} :
    (phase.cancel ticket).lanes? = some (f', first) ↔
      ∃ f, phase.lanes? = some (f, first) ∧ f' = f.take .interrupt := by
  rw [Phase.lanes?_cancel, Option.map_eq_some_iff]
  constructor
  · rintro ⟨⟨f, first'⟩, hl, he⟩
    cases he
    exact ⟨f, hl, rfl⟩
  · rintro ⟨f, hl, rfl⟩
    exact ⟨_, hl, rfl⟩

theorem Linked.cancels {ticket : Nat} (h : c.Linked) : (c.cancelWhere ticket fun _ => true).Linked := by
  refine h.map (g := fun _ v => v.cancel ticket) (fun l v' => by rw [cancelWhere_eq_some]; rfl)
    (fun _ _ => rfl) (fun _ _ => rfl) (fun l v _ => Phase.standing_cancel ticket v.phase)
    (fun l v f' first _ hl => ?_) fun l v f first _ hl => ?_
  · obtain ⟨f, hl', rfl⟩ := lanes?_cancel_iff.mp hl
    exact ⟨f, hl', rfl, rfl, fun _ _ _ _ _ _ => rfl⟩
  · exact ⟨_, lanes?_cancel_iff.mpr ⟨f, hl, rfl⟩⟩

theorem isCancelled_of_observes (h : f.Observes f')
    (hb : (f'.verdict.isSome && !f.isCancelled) = false) : f'.isCancelled = f.isCancelled := by
  cases hc : f.isCancelled with
  | true =>
    rw [FanOut.isCancelled_iff] at hc ⊢
    rw [h.interrupted]
    exact hc.imp id h.verdict
  | false =>
    rw [hc, Bool.not_false, Bool.and_true] at hb
    unfold FanOut.isCancelled at hc ⊢
    rw [Bool.or_eq_false_iff] at hc
    rw [h.interrupted, hc.1, hb]
    rfl

section sees

variable {ticket : Nat} {ticket' : Option Nat} {b : Bool} {name : String} {v : Thread}
  {rest : Except Stop (List Json) → StateProcess}

/-- A thread after thread `i` has gone into a phase and may have cancelled the threads below it. -/
def afterSight (i ticket : Nat) (cancels : Bool) (phase : Phase) (l : Nat) (v : Thread) : Thread :=
  let w := if cancels && v.ancestors.contains i then v.cancel ticket else v
  { w with phase := if i = l then phase else w.phase }

theorem sight_eq_some :
    ((c.cancelWhere ticket fun v => b && v.ancestors.contains i).put i phase).threads[l]? = some u ↔
      ∃ v, c.threads[l]? = some v ∧ u = afterSight i ticket b phase l v := by
  rw [put_eq_some]
  simp only [cancelWhere_eq_some]
  constructor
  · rintro ⟨_, ⟨v, hv, rfl⟩, rfl⟩
    exact ⟨v, hv, rfl⟩
  · rintro ⟨v, hv, rfl⟩
    exact ⟨_, ⟨v, hv, rfl⟩, rfl⟩

theorem parent_afterSight : (afterSight i ticket b phase l v).parent = v.parent := by
  unfold afterSight
  dsimp only
  split <;> rfl

theorem ancestors_afterSight : (afterSight i ticket b phase l v).ancestors = v.ancestors := by
  unfold afterSight
  dsimp only
  split <;> rfl

theorem phase_afterSight_self : (afterSight i ticket b phase i v).phase = phase := if_pos rfl

theorem phase_afterSight (hil : i ≠ l) : (afterSight i ticket b phase l v).phase =
    if b && v.ancestors.contains i then v.phase.cancel ticket else v.phase := by
  unfold afterSight
  dsimp only
  rw [if_neg hil]
  split <;> rfl

theorem cancelled_afterSight : (afterSight i ticket b phase l v).cancelled =
    (b && v.ancestors.contains i || v.cancelled) := by
  unfold afterSight
  dsimp only
  split
  · next h => rw [h, Bool.true_or]; rfl
  · next h => rw [eq_false_of_ne_true h, Bool.false_or]

theorem standing_afterSight (ht : c.threads[i]? = some t) (hs : phase.standing = t.phase.standing)
    (hv : c.threads[l]? = some v) :
    (afterSight i ticket b phase l v).phase.standing = v.phase.standing := by
  by_cases hil : i = l
  · subst hil
    obtain rfl := Option.some.inj (hv.symm.trans ht)
    rw [phase_afterSight_self, hs]
  · rw [phase_afterSight hil]
    split
    · exact Phase.standing_cancel ticket v.phase
    · rfl

theorem Linked.sight_self (h : c.Linked) (ht : c.threads[i]? = some t)
    (hl : t.phase.lanes? = some (f, first)) (hi : i ∉ t.ancestors) (hobs : f.Observes f')
    (hb : (f'.verdict.isSome && !f.isCancelled) = b) :
    f'.interrupted = (afterSight i ticket b phase i t).cancelled ∧
      ∀ k u lane, Mirrors i t f k lane u →
        (afterSight i ticket b phase (first + k) u).cancelled = f'.isCancelled := by
  refine ⟨?_, fun k u lane hm => ?_⟩
  · rw [cancelled_afterSight, List.contains_eq_mem, decide_eq_false hi, Bool.and_false, Bool.false_or,
      hobs.interrupted]
    exact h.interrupted i t f first ht hl
  · have hmem : u.ancestors.contains i = true := by simp [hm.ancestors]
    rw [cancelled_afterSight, hmem, Bool.and_true, hm.cancelled]
    cases b with
    | true =>
      have hverdict := (Bool.and_eq_true_iff.mp hb).1
      rw [Bool.true_or, FanOut.isCancelled, hverdict, Bool.or_true]
    | false => rw [Bool.false_or, isCancelled_of_observes hobs hb]

theorem Linked.sight_other (h : c.Linked) (hil : i ≠ l) (hv : c.threads[l]? = some v)
    (hl : (afterSight i ticket b phase l v).phase.lanes? = some (f', first)) :
    ∃ f, v.phase.lanes? = some (f, first) ∧
      f'.lanes.map Lane.standing = f.lanes.map Lane.standing ∧
      f'.interrupted = (afterSight i ticket b phase l v).cancelled ∧
      ∀ k u lane, Mirrors l v f k lane u →
        (afterSight i ticket b phase (first + k) u).cancelled = f'.isCancelled := by
  -- a lane is below the thread exactly if its owner is
  have hsame : ∀ {k u lane f}, Mirrors l v f k lane u → u.ancestors.contains i = v.ancestors.contains i := by
    intro k u lane f hm
    rw [hm.ancestors, List.contains_cons, beq_eq_false_iff_ne.mpr hil, Bool.false_or]
  rw [phase_afterSight hil] at hl
  rw [cancelled_afterSight]
  by_cases hpv : (b && v.ancestors.contains i) = true
  · rw [if_pos hpv] at hl
    obtain ⟨f₀, hl₀, rfl⟩ := lanes?_cancel_iff.mp hl
    refine ⟨f₀, hl₀, rfl, by rw [hpv, Bool.true_or]; rfl, fun k u lane hm => ?_⟩
    rw [cancelled_afterSight, hsame hm, hpv, Bool.true_or]
    rfl
  · rw [if_neg hpv] at hl
    refine ⟨f', hl, rfl, ?_, fun k u lane hm => ?_⟩
    · rw [eq_false_of_ne_true hpv, Bool.false_or]
      exact h.interrupted l v f' first hv hl
    · rw [cancelled_afterSight, hsame hm, eq_false_of_ne_true hpv, Bool.false_or, hm.cancelled]

theorem Linked.sees {ticket'' : Option Nat} (h : c.Linked) (ht : c.threads[i]? = some t)
    (hp : t.phase = .forked ticket' f first name rest) (hi : i ∉ t.ancestors) (hobs : f.Observes f') :
    ((c.cancelWhere ticket fun u =>
      f'.verdict.isSome && !f.isCancelled && u.ancestors.contains i).put i
        (.forked ticket'' f' first name rest)).Linked := by
  have hl : t.phase.lanes? = some (f, first) := by rw [hp]; rfl
  have hstand : (Phase.forked ticket'' f' first name rest).standing = t.phase.standing := by rw [hp]; rfl
  refine h.map (fun l v' => sight_eq_some) (fun _ _ => parent_afterSight) (fun _ _ => ancestors_afterSight)
    (fun l v hv => standing_afterSight ht hstand hv) (fun l v f₂ first₂ hv hl₂ => ?_)
    fun l v f₂ first₂ hv hl₂ => ?_
  · by_cases hil : i = l
    · subst hil
      obtain rfl := Option.some.inj (hv.symm.trans ht)
      rw [phase_afterSight_self] at hl₂
      cases hl₂
      obtain ⟨hint, hlanes⟩ := h.sight_self ht hl hi hobs rfl
      exact ⟨f, hl, hobs.standing, hint, fun k u lane _ _ hm => hlanes k u lane hm⟩
    · obtain ⟨f₀, hl₀, hmap, hint, hlanes⟩ := h.sight_other hil hv hl₂
      exact ⟨f₀, hl₀, hmap, hint, fun k u lane _ _ hm => hlanes k u lane hm⟩
  · by_cases hil : i = l
    · subst hil
      cases ht.symm.trans hv
      cases hl.symm.trans hl₂
      exact ⟨f', by rw [phase_afterSight_self]; rfl⟩
    · rw [phase_afterSight hil]
      split
      · exact ⟨_, lanes?_cancel_iff.mpr ⟨f₂, hl₂, rfl⟩⟩
      · exact ⟨f₂, hl₂⟩

end sees

/-! ## Runs -/

theorem Linked.step (h : c.Linked) (hs : Step allowed c c') : c'.Linked := by
  cases hs with
  | goes ht hg => exact h.goes ht hg
  | admits hu hout hp ht hf hroom => exact h.admits hu hout hp ht (by rw [hf]; rfl) hroom
  | ends ht he => exact h.ends ht he
  | spawns ht hp _ => exact h.spawns ht hp
  | sees ht hp hi hobs => exact h.sees ht hp hi hobs
  | cancels => exact h.cancels

/-- **Threads and their lanes agree after any steps.** -/
theorem Linked.steps (h : c.Linked) (hs : Steps allowed c c') : c'.Linked := by
  induction hs with
  | refl => exact h
  | tail _ hstep ih => exact ih.step hstep

end Scene

end StepFlow
