import StepFlow.Proofs.Execution.Moves

/-!
# Threads that wait

A thread that waits for lanes will be told of at least one of them, and a lane that waits for room has
another one beside it that runs. So as long as a workflow has not ended, some thread is ready or pauses.

* `FanOut.Clean`: lanes of which a state has seen no halt unless it gave up;
* `FanOut.exists_open`: a state that looks at its lanes and gets no answer waits for an open one;
* `Scene.Settled`: where the threads stand between two moves;
* **`Scene.Settled.exists_working`**: one of the threads is ready or pauses.
-/

namespace StepFlow

/-! ## Lanes that were looked at -/

/-- The workflow of the lane has not ended. -/
def Lane.Open (lane : Lane) : Prop := lane = .waiting ∨ lane = .running

namespace FanOut

variable {f f' : FanOut} {turn : Turn}

/-- The state has seen no halt unless it gave up. -/
def Clean (f : FanOut) : Prop :=
  f.verdict = none → ∀ (i : Nat) (ending : Ending), f.lanes[i]? = some (.seen ending) →
    ∃ out, ending = .ok out

theorem clean_start (limit count : Nat) : (start limit count).Clean := by
  intro _ i ending h
  obtain ⟨-, h⟩ := List.mem_replicate.mp (List.mem_of_getElem? h)
  cases h

theorem Clean.apply (h : f.Clean) (ha : f.apply turn = some f') : f'.Clean := by
  intro hv j ending hj
  cases turn with
  | enter i =>
    have hseen := (seen_enter ha).mp hj
    obtain ⟨-, -, rfl⟩ := apply_enter.mp ha
    exact h hv j ending hseen
  | finish i e =>
    have hseen := (seen_finish ha).mp hj
    obtain ⟨-, rfl⟩ := apply_finish.mp ha
    exact h hv j ending hseen
  | observe i =>
    obtain ⟨rank, e, hl, rfl⟩ := apply_observe.mp ha
    obtain ⟨hbefore, out, rfl⟩ := verdictAfter_eq_none hv
    rcases (getElem?_set_eq_some hl).mp hj with ⟨-, he⟩ | ⟨-, hseen⟩
    · cases he
      exact ⟨out, rfl⟩
    · exact h hbefore j ending hseen
  | interrupt =>
    cases ha
    exact h hv j ending hj
  | notice =>
    obtain ⟨-, rfl⟩ := apply_notice.mp ha
    exact h (Option.or_eq_none_iff.mp hv).1 j ending hj

theorem Clean.take (h : f.Clean) (turn : Turn) : (f.take turn).Clean := by
  rcases f.take_eq turn with he | ha
  · rwa [he]
  · exact h.apply ha

theorem Clean.observes (h : f.Clean) (ho : f.Observes f') : f'.Clean := by
  induction ho with
  | refl => exact h
  | tail _ hap ih => rcases hap with hap | ⟨i, hap⟩ <;> exact ih.apply hap

theorem Observes.running (h : f.Observes f') (hmem : .running ∈ f.lanes) : .running ∈ f'.lanes := by
  have hin : Lane.Standing.inside ∈ f'.lanes.map Lane.standing := by
    rw [h.standing]
    exact List.mem_map_of_mem hmem
  obtain ⟨lane, hlane, hs⟩ := List.mem_map.mp hin
  cases lane with
  | running => exact hlane
  | _ => cases hs

theorem firstEnded?_eq_some {lanes : List Lane} {i j rank : Nat}
    (h : firstEnded? i lanes = some (rank, j)) :
    ∃ k lane, j = i + k ∧ lanes[k]? = some lane ∧ lane.rank? = some rank := by
  induction lanes generalizing i with
  | nil => cases h
  | cons lane rest ih =>
    have hlater : firstEnded? (i + 1) rest = some (rank, j) →
        ∃ k lane', j = i + k ∧ (lane :: rest)[k]? = some lane' ∧ lane'.rank? = some rank := fun h => by
      obtain ⟨k, lane', rfl, hk, hr⟩ := ih h
      exact ⟨k + 1, lane', by omega, hk, hr⟩
    unfold firstEnded? at h
    split at h
    · next rank' rank'' j' hr hf =>
      split at h
      · cases h
        exact ⟨0, lane, rfl, rfl, hr⟩
      · rw [← hf] at h
        exact hlater h
    · next rank' hr hf =>
      cases h
      exact ⟨0, lane, rfl, rfl, hr⟩
    · exact hlater h

theorem firstEnded?_eq_none {lanes : List Lane} {i : Nat} (h : firstEnded? i lanes = none) :
    ∀ lane ∈ lanes, lane.rank? = none := by
  induction lanes generalizing i with
  | nil => exact fun lane hmem => absurd hmem List.not_mem_nil
  | cons lane rest ih =>
    unfold firstEnded? at h
    split at h
    · split at h <;> cases h
    · cases h
    · next hr => exact List.forall_mem_cons.mpr ⟨hr, ih h⟩

theorem eq_ended_of_rank? {lane : Lane} {rank : Nat} (h : lane.rank? = some rank) :
    ∃ ending, lane = .ended rank ending := by
  cases lane with
  | ended rank' ending =>
    cases h
    exact ⟨ending, rfl⟩
  | _ => cases h

theorem rank?_observeFirst {count : Nat}
    (h : f.lanes.countP (fun lane => lane.rank?.isSome) ≤ count) :
    ∀ lane ∈ (observeFirst count f).lanes, lane.rank? = none := by
  induction count generalizing f with
  | zero =>
    intro lane hmem
    have := List.countP_eq_zero.mp (Nat.le_zero.mp h) lane hmem
    simpa using this
  | succ count ih =>
    unfold observeFirst
    split
    · next hnone => exact firstEnded?_eq_none hnone
    · next rank i hsome =>
      obtain ⟨k, lane, rfl, hk, hr⟩ := firstEnded?_eq_some hsome
      obtain ⟨ending, rfl⟩ := eq_ended_of_rank? hr
      rw [Nat.zero_add]
      have happly := apply_observe.mpr ⟨rank, ending, hk, rfl⟩
      obtain ⟨hlt, hget⟩ := List.getElem?_eq_some_iff.mp hk
      have hcount : (f.lanes.set k (.seen ending)).countP (fun lane => lane.rank?.isSome) =
          f.lanes.countP (fun lane => lane.rank?.isSome) - 1 := by
        rw [List.countP_set hlt, hget]
        rfl
      refine ih ?_
      rw [take, happly, Option.getD_some]
      dsimp only
      omega

theorem rank?_lookAround : ∀ lane ∈ f.lookAround.lanes, lane.rank? = none := by
  have hsame : f.lookAround.lanes = (observeFirst f.lanes.length f).lanes := by
    unfold lookAround
    dsimp only
    split
    · rfl
    · rcases (observeFirst f.lanes.length f).take_eq .notice with he | ha
      · rw [he]
      · rw [(apply_notice.mp ha).2]
  rw [hsame]
  exact rank?_observeFirst List.countP_le_length

/-- **A state that looks at its lanes and gets no answer waits for an open lane.** -/
theorem exists_open (h : f.Clean) (ha : f.lookAround.answer? = none) :
    ∃ lane ∈ f.lookAround.lanes, lane.Open := by
  refine Classical.byContradiction fun hclosed => ?_
  have hnone : ∀ lane ∈ f.lookAround.lanes, ¬lane.Open := fun lane hmem ho => hclosed ⟨lane, hmem, ho⟩
  -- every lane has been seen
  have hseen : ∀ lane ∈ f.lookAround.lanes, ∃ ending, lane = .seen ending := by
    intro lane hmem
    have hr := rank?_lookAround lane hmem
    cases lane with
    | waiting => exact absurd (.inl rfl) (hnone _ hmem)
    | running => exact absurd (.inr rfl) (hnone _ hmem)
    | ended rank ending => cases hr
    | seen ending => exact ⟨ending, rfl⟩
  cases hv : f.lookAround.verdict with
  | some stop =>
    rw [answer?_error.mpr ⟨hv, hseen⟩] at ha
    cases ha
  | none =>
    have hclean := h.observes (Run.observes_lookAround f) hv
    obtain ⟨results, hr⟩ := exists_outputs fun lane hmem => by
      obtain ⟨ending, rfl⟩ := hseen lane hmem
      obtain ⟨i, hi⟩ := List.getElem?_of_mem hmem
      obtain ⟨out, rfl⟩ := hclean i ending hi
      exact ⟨out, rfl⟩
    rw [answer?_ok.mpr ⟨hv, outputs?_eq_some.mp hr⟩] at ha
    cases ha

theorem lanes_take_enter (f : FanOut) (k : Nat) :
    (f.take (.enter k)).lanes = f.lanes ∨ .running ∈ (f.take (.enter k)).lanes := by
  rcases f.take_eq (.enter k) with he | ha
  · exact .inl (congrArg lanes he)
  · obtain ⟨hl, -, he⟩ := apply_enter.mp ha
    rw [he]
    exact .inr (List.mem_iff_getElem?.mpr ⟨k, (getElem?_set_eq_some hl).mpr (.inl ⟨rfl, rfl⟩)⟩)

theorem running_of_no_room (h : f.hasRoom ≠ true) : .running ∈ f.lanes := by
  unfold hasRoom running at h
  have hpos : 0 < f.lanes.countP Lane.isRunning := by
    simp only [ne_eq, Bool.or_eq_true, decide_eq_true_eq, not_or] at h
    omega
  obtain ⟨lane, hmem, hrun⟩ := List.countP_pos_iff.mp hpos
  cases lane with
  | running => exact hmem
  | _ => cases hrun

end FanOut

/-! ## Threads that wait -/

/-- The thread waits neither for lanes nor for room. -/
def Phase.Free (phase : Phase) : Prop := phase.lanes? = none ∧ ∀ x, phase ≠ .waiting x

namespace Phase

variable {ticket : Nat} {name : String}

theorem free_entering {input : Json} : (entering ticket name input).Free := ⟨rfl, nofun⟩

theorem free_running {p : StateProcess} : (running ticket name p).Free := ⟨rfl, nofun⟩

theorem free_paused {deadline : Nat} {p p' : StateProcess} :
    (paused deadline ticket name p p').Free := ⟨rfl, nofun⟩

theorem free_ended {ending : Ending} : (ended ending).Free := ⟨rfl, nofun⟩

end Phase

namespace Scene

variable {c c' : Scene} {i : Nat} {t : Thread} {phase : Phase} {but but' : Option Nat}
  {g : Nat → Thread → Thread}

/-- A thread that waits for lanes, other than one, will be told of a lane. -/
def Awake (c : Scene) (but : Option Nat) : Prop :=
  ∀ (i : Nat) (t : Thread) (f : FanOut) (first : Nat) (name : String)
    (rest : Except Stop (List Json) → StateProcess), some i ≠ but → c.threads[i]? = some t →
    t.phase = .forked none f first name rest → ∃ lane ∈ f.lanes, lane.Open

/-- A lane that waits for room, other than one of one thread, has another one beside it that runs. -/
def Fed (c : Scene) (but : Option Nat) : Prop :=
  ∀ (j : Nat) (u : Thread) (x : Json) (owner k : Nat) (t : Thread) (f : FanOut) (first : Nat),
    some owner ≠ but → c.threads[j]? = some u → u.phase = .waiting x → u.parent = some (owner, k) →
    c.threads[owner]? = some t → t.phase.lanes? = some (f, first) → .running ∈ f.lanes

theorem Awake.put (h : c.Awake but) (hp : ∀ f first name rest, phase = .forked none f first name rest →
    ∃ lane ∈ f.lanes, lane.Open) : (c.put i phase).Awake but := by
  intro l v' f first name rest hl hv' hf
  obtain ⟨v, hv, rfl⟩ := put_eq_some.mp hv'
  dsimp only at hf
  split at hf
  · exact hp f first name rest hf
  · exact h l v f first name rest hl hv hf

/-- A thread that is made ready need not be told any more. -/
theorem Awake.put_self (h : c.Awake (some i))
    (hp : ∀ f first name rest, phase ≠ .forked none f first name rest) : (c.put i phase).Awake none := by
  intro l v' f first name rest _ hv' hf
  obtain ⟨v, hv, rfl⟩ := put_eq_some.mp hv'
  dsimp only at hf
  split at hf
  · exact absurd hf (hp f first name rest)
  · next hne => exact h l v f first name rest (fun he => hne (Option.some.inj he).symm) hv hf

theorem Fed.put (h : c.Fed but) (ht : c.threads[i]? = some t)
    (hwait : ∀ x owner k v f first, phase = .waiting x → t.parent = some (owner, k) →
      c.threads[owner]? = some v → v.phase.lanes? = some (f, first) → .running ∈ f.lanes)
    (hlanes : ∀ f first, phase.lanes? = some (f, first) → (∃ f₀ first₀,
      t.phase.lanes? = some (f₀, first₀) ∧ (.running ∈ f₀.lanes → .running ∈ f.lanes))) :
    (c.put i phase).Fed but := by
  intro j u' x owner k v' f first hbut hu' hp hpar hv' hf
  obtain ⟨u, hu, rfl⟩ := put_eq_some.mp hu'
  obtain ⟨v, hv, rfl⟩ := put_eq_some.mp hv'
  dsimp only at hp hpar hf
  split at hf
  · -- the thread whose lane it is
    next hio =>
    subst hio
    obtain ⟨f₀, first₀, hf₀, hrun⟩ := hlanes f first hf
    cases ht.symm.trans hv
    split at hp
    · rw [hp] at hf
      cases hf
    · exact hrun (h j u x i k t f₀ first₀ hbut hu hp hpar hv hf₀)
  · split at hp
    · next hij =>
      subst hij
      cases ht.symm.trans hu
      exact hwait x owner k v f first hp hpar hv hf
    · exact h j u x owner k v f first hbut hu hp hpar hv hf

theorem Awake.put_free (h : c.Awake but) (hp : phase.Free) : (c.put i phase).Awake but :=
  h.put fun f first name rest he => by
    rw [he] at hp
    cases hp.1

theorem Fed.put_free (h : c.Fed but) (ht : c.threads[i]? = some t) (hp : phase.Free) :
    (c.put i phase).Fed but := by
  refine h.put ht (fun x owner k v f first he => absurd he (hp.2 x)) fun f first hf => ?_
  rw [hp.1] at hf
  cases hf

theorem Awake.change (h : c.Awake but)
    (hat : ∀ (l : Nat) (v' : Thread), c'.threads[l]? = some v' ↔ ∃ v, c.threads[l]? = some v ∧ v' = g l v)
    (hbut : ∀ l : Nat, some l ≠ but' → some l ≠ but)
    (hopen : ∀ l v f' first name rest, some l ≠ but' → c.threads[l]? = some v →
      (g l v).phase = .forked none f' first name rest → ∃ f, v.phase = .forked none f first name rest ∧
        ((∃ lane ∈ f.lanes, lane.Open) → ∃ lane ∈ f'.lanes, lane.Open)) : c'.Awake but' := by
  intro l v' f' first name rest hl hv' hf
  obtain ⟨v, hv, rfl⟩ := (hat l v').mp hv'
  obtain ⟨f, hf, hto⟩ := hopen l v f' first name rest hl hv hf
  exact hto (h l v f first name rest (hbut l hl) hv hf)

/-- Threads may change together if none comes to wait for room and lanes that run go on to do so. -/
theorem Fed.change (h : c.Fed but)
    (hat : ∀ (l : Nat) (v' : Thread), c'.threads[l]? = some v' ↔ ∃ v, c.threads[l]? = some v ∧ v' = g l v)
    (hbut : ∀ l : Nat, some l ≠ but' → some l ≠ but)
    (hpar : ∀ l v, (g l v).parent = v.parent)
    (hwait : ∀ l v x, (g l v).phase = .waiting x → v.phase = .waiting x)
    (hrun : ∀ l v f' first, some l ≠ but' → c.threads[l]? = some v →
      (g l v).phase.lanes? = some (f', first) → ∃ f, v.phase.lanes? = some (f, first) ∧
        (.running ∈ f.lanes → .running ∈ f'.lanes)) : c'.Fed but' := by
  intro j u' x owner k v' f' first ho hu' hp hparent hv' hf
  obtain ⟨u, hu, rfl⟩ := (hat j u').mp hu'
  obtain ⟨v, hv, rfl⟩ := (hat owner v').mp hv'
  rw [hpar] at hparent
  obtain ⟨f, hf, hto⟩ := hrun owner v f' first ho hv hf
  exact hto (h j u x owner k v f first (hbut owner ho) hu (hwait j u x hp) hparent hv hf)

theorem Fed.of_running (h : c.Fed (some i)) (hrun : ∀ (t : Thread) (f : FanOut) (first : Nat),
    c.threads[i]? = some t → t.phase.lanes? = some (f, first) → .running ∈ f.lanes) : c.Fed none := by
  intro j u x owner k t f first _ hu hp hpar ht hf
  by_cases ho : owner = i
  · subst ho
    exact hrun t f first ht hf
  · exact h j u x owner k t f first (fun he => ho (Option.some.inj he)) hu hp hpar ht hf

theorem Fed.of_none_waiting {f : FanOut} {first : Nat} (h : c.Fed (some i)) (hr : c.Linked)
    (ht : c.threads[i]? = some t) (hf : t.phase.lanes? = some (f, first))
    (hnone : ∀ (k : Nat) (u : Thread) (x : Json), k < f.lanes.length → c.threads[first + k]? = some u →
      u.phase ≠ .waiting x) : c.Fed none := by
  intro j u x owner k t' f' first' _ hu hp hpar ht' hf'
  by_cases ho : owner = i
  · subst ho
    obtain ⟨v, f₂, first₂, hv, hl, rfl, hk⟩ := hr.live j u owner k hu hpar fun ending he => by
      rw [hp] at he
      cases he
    cases ht.symm.trans hv
    cases hf.symm.trans hl
    exact absurd hp (hnone k u x hk hu)
  · exact h j u x owner k t' f' first' (fun he => ho (Option.some.inj he)) hu hp hpar ht' hf'

theorem Linked.waiting_lane {f : FanOut} {first k : Nat} {u : Thread} {x : Json} (h : c.Linked)
    (ht : c.threads[i]? = some t) (hf : t.phase.lanes? = some (f, first)) (hk : k < f.lanes.length)
    (hu : c.threads[first + k]? = some u) (hp : u.phase = .waiting x) :
    f.lanes[k]? = some .waiting := by
  have hlane : f.lanes[k]? = some f.lanes[k] := List.getElem?_eq_getElem hk
  obtain ⟨v, hv, hm⟩ := h.lane i t f first k _ ht hf hlane
  cases hu.symm.trans hv
  have hstand := hm.standing
  rw [hp] at hstand
  rw [hlane]
  generalize f.lanes[k] = lane at hstand
  cases lane with
  | waiting => rfl
  | _ => cases hstand

theorem turn_at (turn : FanOut.Turn) (l : Nat) (v' : Thread) :
    (c.modify i (.turn turn)).threads[l]? = some v' ↔ ∃ v, c.threads[l]? = some v ∧
      v' = { v with phase := if i = l then v.phase.turn turn else v.phase } := turn_eq_some

theorem turn_eq_forked {turn : FanOut.Turn} {ticket : Option Nat} {f' : FanOut} {first : Nat}
    {name : String} {rest : Except Stop (List Json) → StateProcess}
    (h : phase.turn turn = .forked ticket f' first name rest) :
    ∃ f, phase = .forked ticket f first name rest ∧ f' = f.take turn := by
  cases phase with
  | forked =>
    cases h
    exact ⟨_, rfl, rfl⟩
  | _ => cases h

theorem turn_eq_waiting {turn : FanOut.Turn} {x : Json} (h : phase.turn turn = .waiting x) :
    phase = .waiting x := by
  cases phase with
  | waiting => exact h
  | _ => cases h

theorem lanes?_turn {turn : FanOut.Turn} {f' : FanOut} {first : Nat}
    (h : (phase.turn turn).lanes? = some (f', first)) :
    ∃ f, phase.lanes? = some (f, first) ∧ f' = f.take turn := by
  cases phase with
  | forked =>
    cases h
    exact ⟨_, rfl, rfl⟩
  | _ => cases h

/-- A lane that gets room leaves every thread as it should be. -/
theorem Awake.turn_enter {k : Nat} (h : c.Awake but) : (c.modify i (.turn (.enter k))).Awake but := by
  refine h.change (turn_at _) (fun _ hl => hl) fun l v f' first name rest _ _ hf => ?_
  dsimp only at hf
  split at hf
  · obtain ⟨f, hbefore, rfl⟩ := turn_eq_forked hf
    refine ⟨f, hbefore, fun ho => ?_⟩
    rcases f.lanes_take_enter k with he | hrun
    · rwa [he]
    · exact ⟨_, hrun, .inr rfl⟩
  · exact ⟨f', hf, id⟩

theorem Fed.turn_enter {k : Nat} (h : c.Fed but) : (c.modify i (.turn (.enter k))).Fed but := by
  refine h.change (turn_at _) (fun _ hl => hl) (fun _ _ => rfl) (fun l v x hp => ?_)
    fun l v f' first _ _ hf => ?_
  · dsimp only at hp
    split at hp
    · exact turn_eq_waiting hp
    · exact hp
  · dsimp only at hf
    split at hf
    · obtain ⟨f, hbefore, rfl⟩ := lanes?_turn hf
      refine ⟨f, hbefore, fun hrun => ?_⟩
      rcases f.lanes_take_enter k with he | hrun'
      · rwa [he]
      · exact hrun'
    · exact ⟨f', hf, id⟩

/-- A lane that ends concerns no thread but the one whose lane it is. -/
theorem Awake.turn_other {turn : FanOut.Turn} (h : c.Awake none) :
    (c.modify i (.turn turn)).Awake (some i) := by
  refine h.change (turn_at _) (fun _ _ => nofun) fun l v f' first name rest hl _ hf => ?_
  dsimp only at hf
  rw [if_neg fun he => hl (congrArg some he.symm)] at hf
  exact ⟨f', hf, id⟩

theorem Fed.turn_other {turn : FanOut.Turn} (h : c.Fed none) :
    (c.modify i (.turn turn)).Fed (some i) := by
  refine h.change (turn_at _) (fun _ _ => nofun) (fun _ _ => rfl) (fun l v x hp => ?_)
    fun l v f' first hl _ hf => ?_
  · dsimp only at hp
    split at hp
    · exact turn_eq_waiting hp
    · exact hp
  · dsimp only at hf
    rw [if_neg fun he => hl (congrArg some he.symm)] at hf
    exact ⟨f', hf, id⟩

theorem Awake.cancelWhere {ticket : Nat} {p : Thread → Bool} (h : c.Awake but) :
    (c.cancelWhere ticket p).Awake but := by
  refine h.change (g := fun _ v => if p v then v.cancel ticket else v) (fun l v' => cancelWhere_eq_some)
    (fun _ hl => hl) fun l v f' first name rest _ _ hf => ?_
  split at hf
  · rw [Thread.cancel] at hf
    cases hp : v.phase with
    | forked ticket' => cases ticket' <;> (rw [hp] at hf; cases hf)
    | _ =>
      rw [hp] at hf
      cases hf
  · exact ⟨f', hf, id⟩

theorem Fed.cancelWhere {ticket : Nat} {p : Thread → Bool} (h : c.Fed but) :
    (c.cancelWhere ticket p).Fed but := by
  refine h.change (g := fun _ v => if p v then v.cancel ticket else v) (fun l v' => cancelWhere_eq_some)
    (fun _ hl => hl) (fun l v => ?_) (fun l v x hp => ?_) fun l v f' first _ _ hf => ?_
  · split <;> rfl
  · split at hp
    · rw [Thread.cancel] at hp
      cases hv : v.phase with
      | waiting =>
        rw [hv] at hp
        exact hp
      | _ =>
        rw [hv] at hp
        cases hp
    · exact hp
  · split at hf
    · obtain ⟨f, hbefore, rfl⟩ := lanes?_cancel_iff.mp hf
      exact ⟨f, hbefore, id⟩
    · exact ⟨f', hf, id⟩

/-! ### Threads that start lanes -/

section spawn

variable {ticket ticket' limit : Nat} {jobs : List Job} {name : String}
  {rest : Except Stop (List Json) → StateProcess}

theorem Awake.spawn (h : c.Awake but) : (c.spawn i t ticket ticket' limit jobs name rest).Awake but := by
  intro l u f first name' rest' hl hu hf
  rcases spawn_eq_some.mp hu with ⟨v, hv, rfl⟩ | ⟨k, job, -, -, rfl⟩
  · dsimp only at hf
    split at hf
    · cases hf
    · exact h l v f first name' rest' hl hv hf
  · cases hf

/-- The new lanes have not asked for room yet, and no other thread waits for their thread. -/
theorem Fed.spawn (h : c.Fed but) (hr : c.Linked) (ht : c.threads[i]? = some t)
    (hp : t.phase.lanes? = none) : (c.spawn i t ticket ticket' limit jobs name rest).Fed but := by
  intro j u' x owner k v' f first hbut hu' hw hpar hv' hf
  rcases spawn_eq_some.mp hu' with ⟨u, hu, rfl⟩ | ⟨_, _, -, -, rfl⟩
  · dsimp only at hw hpar
    split at hw
    · cases hw
    · rcases spawn_eq_some.mp hv' with ⟨v, hv, rfl⟩ | ⟨_, _, -, -, rfl⟩
      · dsimp only at hf
        split at hf
        · next hio =>
          subst hio
          obtain ⟨w, f', first', hw', hl, -, -⟩ := hr.live j u i k hu hpar fun ending he => by
            rw [hw] at he
            cases he
          cases ht.symm.trans hw'
          rw [hp] at hl
          cases hl
        · exact h j u x owner k v f first hbut hu hw hpar hv hf
      · cases hf
  · cases hw

end spawn

/-! ### Between two moves -/

/-- Where the threads stand between two moves. -/
structure Settled (c : Scene) : Prop where
  awake : c.Awake none
  fed : c.Fed none

theorem Settled.put_free (h : c.Settled) (ht : c.threads[i]? = some t) (hp : phase.Free) :
    (c.put i phase).Settled := ⟨h.awake.put_free hp, h.fed.put_free ht hp⟩

theorem Settled.cancelWhere {ticket : Nat} {p : Thread → Bool} (h : c.Settled) :
    (c.cancelWhere ticket p).Settled := ⟨h.awake.cancelWhere, h.fed.cancelWhere⟩

/-- **As long as a workflow runs that has not ended, a thread is ready or pauses.** -/
theorem Settled.exists_working (h : c.Settled) (hr : c.Linked) (ht : c.threads[i]? = some t)
    (hin : t.phase.standing = .inside) :
    ∃ (l : Nat) (u : Thread), c.threads[l]? = some u ∧
      (u.phase.ticket?.isSome ∨ u.phase.deadline?.isSome) := by
  -- the threads of lanes come after the thread whose lanes they are
  induction hn : c.threads.size - i using Nat.strongRecOn generalizing i t with
  | _ n ih =>
    have hready : t.phase.ticket?.isSome → ∃ (l : Nat) (u : Thread), c.threads[l]? = some u ∧
        (u.phase.ticket?.isSome ∨ u.phase.deadline?.isSome) := fun hs => ⟨i, t, ht, .inl hs⟩
    cases hp : t.phase with
    | entering | running => exact hready (by rw [hp]; rfl)
    | paused => exact ⟨i, t, ht, .inr (by rw [hp]; rfl)⟩
    | queued | waiting | ended =>
      rw [hp] at hin
      cases hin
    | forked ticket f first name rest =>
      cases ticket with
      | some ticket => exact hready (by rw [hp]; rfl)
      | none =>
        have hl : t.phase.lanes? = some (f, first) := by
          rw [hp]
          rfl
        have hrunning : .running ∈ f.lanes → ∃ (l : Nat) (u : Thread), c.threads[l]? = some u ∧
            (u.phase.ticket?.isSome ∨ u.phase.deadline?.isSome) := fun hmem => by
          obtain ⟨k, hk⟩ := List.getElem?_of_mem hmem
          obtain ⟨u, hu, hm⟩ := hr.lane i t f first k _ ht hl hk
          have hlt := hr.owner_lt ht hl (List.getElem?_eq_some_iff.mp hk).1
          have hsize : first + k < c.threads.size := (Array.getElem?_eq_some_iff.mp hu).1
          exact ih _ (by omega) hu hm.standing rfl
        obtain ⟨lane, hmem, hopen⟩ := h.awake i t f first name rest nofun ht hp
        rcases hopen with rfl | rfl
        · obtain ⟨k, hk⟩ := List.getElem?_of_mem hmem
          obtain ⟨u, hu, hm⟩ := hr.lane i t f first k _ ht hl hk
          have hout : u.phase.standing = .outside := hm.standing
          cases hpu : u.phase with
          | queued => exact ⟨_, u, hu, .inl (by rw [hpu]; rfl)⟩
          | waiting x => exact hrunning (h.fed _ u x i k t f first nofun hu hpu hm.parent ht hl)
          | _ =>
            rw [hpu] at hout
            cases hout
        · exact hrunning hmem

end Scene

end StepFlow
