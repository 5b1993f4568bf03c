import Mathlib.Data.Multiset.DershowitzManna
import Mathlib.SetTheory.Ordinal.Family
import StepFlow.Proofs.Execution.Acyclic
import StepFlow.Proofs.Execution.Links

/-!
# The weight of a run

What is still before a thread is measured by the size of its workflow, by the rank of the state that it
stands at, and by the height of what is left of that state. The threads of a run are measured together: a
thread that goes on becomes lighter, and the lanes that it starts are lighter than it was.

* `Process.height`: the height of a process, which is a tree with branches without end in number;
* `Phase.weight`, `Thread.weight`: how much a thread has before it;
* `Scene.Falls`, `Scene.falls_of_lighter`: threads that become lighter together;
* `Scene.Sinks`, `Scene.SinksAt`: no thread becomes heavier, and one becomes lighter.
-/

namespace StepFlow

/-! ## Processes -/

namespace Process

variable {α : Type}

/-- How much is left of a process, whatever the answers are. A process that waits is measured between the
node where it waits and the branches from there. -/
noncomputable def height : Process α → Ordinal.{0}
  | done _ => 0
  | note _ rest => rest.height + 1
  | look rest => (⨆ present, (rest present).height) + 1
  | sleep _ rest => (⨆ wake, (rest wake).height) + 1 + 1
  | call _ _ rest => (⨆ reply, (rest reply).height) + 1 + 1
  | fork _ _ rest => (⨆ answer, (rest answer).height) + 1 + 1 + 1

variable {p : Process α}

theorem height_look {rest : Present → Process α} (present : Present) :
    (rest present).height < (look rest).height :=
  Order.lt_add_one_iff.mpr (Ordinal.le_iSup (fun present => (rest present).height) present)

/-- A sleep stands above the place where it is slept, and that one above what follows. -/
theorem height_sleep {d : Duration} {rest : Wake → Process α} (wake : Wake) :
    (rest wake).height + 1 < (sleep d rest).height :=
  Order.lt_add_one_iff.mpr
    (add_le_add_left (Ordinal.le_iSup (fun wake => (rest wake).height) wake) 1)

theorem height_call {request : TaskRequest} {limit : Option Duration} {rest : Reply → Process α}
    (reply : Reply) : (rest reply).height + 1 < (call request limit rest).height :=
  Order.lt_add_one_iff.mpr
    (add_le_add_left (Ordinal.le_iSup (fun reply => (rest reply).height) reply) 1)

theorem height_fork {jobs : List Job} {limit : Nat} {rest : Except Stop (List Json) → Process α}
    (answer : Except Stop (List Json)) : (rest answer).height < (fork jobs limit rest).height :=
  (Ordinal.le_iSup (fun answer => (rest answer).height) answer).trans_lt
    (Order.lt_add_one_iff.mpr (le_self_add.trans le_self_add))

theorem height_proceed (present : Nat → Present) (cancelled : Bool) (looks : Nat) (notes : List Note) :
    (p.proceed present cancelled looks notes).2.2.height ≤ p.height := by
  induction p generalizing looks notes with
  | note n rest ih => exact (ih _ _).trans le_self_add
  | look rest ih => exact (ih _ _ _).trans (height_look _).le
  | sleep d rest ih =>
    have hle : ∀ wake, (rest wake).height ≤ (sleep d rest).height := fun wake =>
      le_self_add.trans (height_sleep wake).le
    unfold proceed
    split
    · exact (ih _ _ _).trans (hle _)
    · split
      · exact (ih _ _ _).trans (hle _)
      · exact le_rfl
  | done | call | fork => exact le_rfl

end Process

/-! ## Threads -/

/-- How much a thread of a workflow has before it: the rank of the state that it stands at, and what is
left of that state. A state that is not told of its cancellation yet has that before it, too. -/
noncomputable def Phase.weight (w : Workflow) : Phase → ℕ ×ₗ Ordinal.{0}
  | .queued _ _ => toLex (2 * w.rank w.startAt + 4, 0)
  | .waiting _ => toLex (2 * w.rank w.startAt + 3, 0)
  | .entering _ name _ => toLex (2 * w.rank name + 2, 0)
  | .running _ name p => toLex (2 * w.rank name + 1, p.height)
  | .paused _ _ name elapsed interrupted =>
    toLex (2 * w.rank name + 1, max elapsed.height interrupted.height + 1)
  | .forked _ f _ name rest => toLex (2 * w.rank name + 1,
      (⨆ answer, (rest answer).height) + 1 + if f.isCancelled then 0 else 1)
  | .ended _ => toLex (0, 0)

/-- How much a thread has before it. Whatever a nested workflow does counts for less than a single step of
the one around it. -/
noncomputable def Thread.weight (t : Thread) : ℕ ×ₗ ℕ ×ₗ Ordinal.{0} :=
  toLex (sizeOf t.workflow, t.phase.weight t.workflow)

theorem Thread.weight_le {t t' : Thread} (hw : t'.workflow = t.workflow)
    (h : t'.phase.weight t.workflow ≤ t.phase.weight t.workflow) : t'.weight ≤ t.weight := by
  unfold Thread.weight
  rw [hw]
  exact Prod.Lex.toLex_le_toLex.mpr (.inr ⟨rfl, h⟩)

theorem Thread.weight_lt {t t' : Thread} (hw : t'.workflow = t.workflow)
    (h : t'.phase.weight t.workflow < t.phase.weight t.workflow) : t'.weight < t.weight := by
  unfold Thread.weight
  rw [hw]
  exact Prod.Lex.toLex_lt_toLex.mpr (.inr ⟨rfl, h⟩)

section phase

variable {w : Workflow} {ticket ticket' : Option Nat} {f f' : FanOut} {first : Nat} {name : String}
  {rest : Except Stop (List Json) → StateProcess} {phase : Phase} {p p' q : StateProcess}
  {ticket₁ ticket₂ ticket₃ : Nat}

theorem FanOut.isCancelled_take {turn : FanOut.Turn} (h : f.isCancelled = true) :
    (f.take turn).isCancelled = true := by
  rcases f.take_eq turn with he | ha
  · rwa [he]
  · generalize f.take turn = f' at ha
    rw [isCancelled_iff] at h ⊢
    cases turn with
    | enter i =>
      obtain ⟨-, -, rfl⟩ := apply_enter.mp ha
      exact h
    | finish i ending =>
      obtain ⟨-, rfl⟩ := apply_finish.mp ha
      exact h
    | observe i =>
      obtain ⟨rank, ending, -, rfl⟩ := apply_observe.mp ha
      exact h.imp id fun hv he => hv (verdictAfter_eq_none he).1
    | interrupt =>
      cases ha
      exact .inl rfl
    | notice =>
      obtain ⟨hi, rfl⟩ := apply_notice.mp ha
      exact .inl hi

theorem FanOut.Observes.isCancelled (h : f.Observes f') (hc : f.isCancelled = true) :
    f'.isCancelled = true := by
  rw [isCancelled_iff] at hc ⊢
  rw [h.interrupted]
  exact hc.imp id h.verdict

theorem Phase.weight_running_lt (h : p.height < q.height) :
    (Phase.running ticket₁ name p).weight w < (Phase.running ticket₂ name q).weight w :=
  Prod.Lex.toLex_lt_toLex.mpr (.inr ⟨rfl, h⟩)

theorem Phase.weight_running_le (h : p.height ≤ q.height) :
    (Phase.running ticket₁ name p).weight w ≤ (Phase.running ticket₂ name q).weight w :=
  Prod.Lex.toLex_le_toLex.mpr (.inr ⟨rfl, h⟩)

theorem Phase.weight_ended_lt (ending : Ending) :
    (Phase.ended ending).weight w < (Phase.running ticket₁ name p).weight w :=
  Prod.Lex.toLex_lt_toLex.mpr (.inl (Nat.succ_pos _))

/-- A pause stands between what follows it and the process that makes it. -/
theorem Phase.weight_paused_lt (hp : p.height + 1 < q.height) (hp' : p'.height + 1 < q.height) :
    (Phase.paused ticket₁ ticket₂ name p p').weight w < (Phase.running ticket₃ name q).weight w := by
  refine Prod.Lex.toLex_lt_toLex.mpr (.inr ⟨rfl, ?_⟩)
  rcases max_choice p.height p'.height with h | h
  · rwa [h]
  · rwa [h]

theorem Phase.weight_lt_paused (p p' : StateProcess) :
    (Phase.running ticket₁ name p).weight w < (Phase.paused ticket₂ ticket₃ name p p').weight w :=
  Prod.Lex.toLex_lt_toLex.mpr (.inr ⟨rfl, Order.lt_add_one_iff.mpr (le_max_left _ _)⟩)

theorem Phase.weight_forked_fork (jobs : List Job) (limit : Nat) : (Phase.forked ticket f first name
    rest).weight w < (Phase.running ticket₁ name (.fork jobs limit rest)).weight w := by
  refine Prod.Lex.toLex_lt_toLex.mpr (.inr ⟨rfl, Order.lt_add_one_iff.mpr (add_le_add_right ?_ _)⟩)
  split
  · exact zero_le_one
  · exact le_rfl

theorem Phase.weight_lt_forked (answer : Except Stop (List Json)) :
    (Phase.running ticket₁ name (rest answer)).weight w <
      (Phase.forked ticket f first name rest).weight w := by
  refine Prod.Lex.toLex_lt_toLex.mpr (.inr ⟨rfl, ?_⟩)
  exact (Order.lt_add_one_iff.mpr (Ordinal.le_iSup (fun answer => (rest answer).height) answer)).trans_le
    le_self_add

/-- Lanes do not become heavier, since they do not cease to be cancelled. -/
theorem Phase.weight_forked_le (h : f.isCancelled = true → f'.isCancelled = true) :
    (Phase.forked ticket' f' first name rest).weight w ≤
      (Phase.forked ticket f first name rest).weight w := by
  refine Prod.Lex.toLex_le_toLex.mpr (.inr ⟨rfl, add_le_add_right ?_ _⟩)
  by_cases hc : f.isCancelled = true
  · rw [if_pos hc, if_pos (h hc)]
  · rw [if_neg hc]
    split
    · exact zero_le_one
    · exact le_rfl

theorem Phase.weight_forked_lt (h : f.isCancelled = false) (h' : f'.isCancelled = true) :
    (Phase.forked ticket' f' first name rest).weight w <
      (Phase.forked ticket f first name rest).weight w := by
  refine Prod.Lex.toLex_lt_toLex.mpr (.inr ⟨rfl, ?_⟩)
  rw [if_pos h', h, if_neg Bool.false_ne_true, add_zero]
  exact Order.lt_add_one_iff.mpr le_rfl

theorem Phase.weight_turn_le (turn : FanOut.Turn) : (phase.turn turn).weight w ≤ phase.weight w := by
  rcases phase.forked_or_turn turn with ⟨ticket, f, first, name, rest, rfl⟩ | h
  · exact weight_forked_le FanOut.isCancelled_take
  · rw [h]

theorem Phase.weight_cancel_le (ticket : Nat) : (phase.cancel ticket).weight w ≤ phase.weight w := by
  cases phase with
  | paused deadline ticket name elapsed interrupted =>
    exact Prod.Lex.toLex_le_toLex.mpr (.inr ⟨rfl, (le_max_right _ _).trans le_self_add⟩)
  | forked => exact weight_forked_le FanOut.isCancelled_take
  | _ => exact le_rfl

end phase

/-! ## Threads together -/

theorem isDershowitzMannaLT_map_range {α : Type*} [PartialOrder α] {a b : Nat → α} {m n i : Nat}
    (hmn : m ≤ n) (hi : i < m) (hlt : b i < a i)
    (hothers : ∀ l < n, l < m ∧ b l ≤ a l ∨ b l < a i) :
    Multiset.IsDershowitzMannaLT ((Multiset.range n).map b) ((Multiset.range m).map a) := by
  classical
  -- the positions where nothing changes
  let same : Nat → Prop := fun l => l < m ∧ a l = b l
  have hsame : (Multiset.range n).filter same = (Multiset.range m).filter same := by
    refine (Multiset.Nodup.ext ((Multiset.nodup_range n).filter _)
      ((Multiset.nodup_range m).filter _)).mpr fun l => ?_
    rw [Multiset.mem_filter, Multiset.mem_filter, Multiset.mem_range, Multiset.mem_range]
    exact ⟨fun h => ⟨h.2.1, h.2⟩, fun h => ⟨h.1.trans_le hmn, h.2⟩⟩
  have hchanged : i ∈ (Multiset.range m).filter fun l => ¬same l :=
    Multiset.mem_filter.mpr ⟨Multiset.mem_range.mpr hi, fun h => hlt.ne' h.2⟩
  have hsplit : ∀ (f : Nat → α) (k : Nat), (Multiset.range k).map f =
      ((Multiset.range k).filter same).map f + ((Multiset.range k).filter fun l => ¬same l).map f :=
    fun f k => by rw [← Multiset.map_add, Multiset.filter_add_not]
  refine ⟨((Multiset.range m).filter same).map a, ((Multiset.range n).filter fun l => ¬same l).map b,
    ((Multiset.range m).filter fun l => ¬same l).map a, ?_, ?_, hsplit a m, ?_⟩
  · exact fun h => Multiset.notMem_zero _ (h ▸ Multiset.mem_map_of_mem a hchanged)
  · rw [hsplit b n, hsame, Multiset.map_congr rfl fun l hl => ((Multiset.mem_filter.mp hl).2.2).symm]
  · intro y hy
    obtain ⟨l, hl, rfl⟩ := Multiset.mem_map.mp hy
    obtain ⟨hl, hne⟩ := Multiset.mem_filter.mp hl
    rcases hothers l (Multiset.mem_range.mp hl) with ⟨hlm, hle⟩ | hlt
    · refine ⟨a l, Multiset.mem_map_of_mem a (Multiset.mem_filter.mpr
        ⟨Multiset.mem_range.mpr hlm, hne⟩), lt_of_le_of_ne hle fun he => hne ⟨hlm, he.symm⟩⟩
    · exact ⟨a i, Multiset.mem_map_of_mem a hchanged, hlt⟩

namespace Scene

variable {c c' c'' : Scene} {i : Nat} {t t' : Thread} {phase : Phase}

/-- The weight of thread `l`. -/
noncomputable def weightAt (c : Scene) (l : Nat) : ℕ ×ₗ ℕ ×ₗ Ordinal.{0} :=
  (c.threads[l]?.map Thread.weight).getD (toLex (0, toLex (0, 0)))

noncomputable def weights (c : Scene) : Multiset (ℕ ×ₗ ℕ ×ₗ Ordinal.{0}) :=
  (Multiset.range c.threads.size).map c.weightAt

theorem weightAt_eq (h : c.threads[i]? = some t) : c.weightAt i = t.weight := by
  rw [weightAt, h]
  rfl

/-- The threads have become lighter together: some of them have been replaced by any number of lighter
ones. -/
def Falls (c c' : Scene) : Prop := Multiset.IsDershowitzMannaLT c'.weights c.weights

/-- **Threads become lighter together** if one of them does, and if every other one is either no heavier
than before, or new and lighter than that one was. -/
theorem falls_of_lighter (hsize : c.threads.size ≤ c'.threads.size) (ht : c.threads[i]? = some t)
    (ht' : c'.threads[i]? = some t') (hlt : t'.weight < t.weight)
    (hothers : ∀ (l : Nat) (u' : Thread), c'.threads[l]? = some u' →
      (∃ u : Thread, c.threads[l]? = some u ∧ u'.weight ≤ u.weight) ∨ u'.weight < t.weight) :
    c.Falls c' := by
  refine isDershowitzMannaLT_map_range hsize (Array.getElem?_eq_some_iff.mp ht).1 ?_ fun l hl => ?_
  · rwa [weightAt_eq ht, weightAt_eq ht']
  · have hu' : c'.threads[l]? = some c'.threads[l] := Array.getElem?_eq_getElem hl
    rw [weightAt_eq hu', weightAt_eq ht]
    rcases hothers l _ hu' with ⟨u, hu, hle⟩ | hlt
    · rw [weightAt_eq hu]
      exact .inl ⟨(Array.getElem?_eq_some_iff.mp hu).1, hle⟩
    · exact .inr hlt

/-- No thread becomes heavier. -/
structure Sinks (c c' : Scene) : Prop where
  size : c'.threads.size = c.threads.size
  thread : ∀ (l : Nat) (t' : Thread), c'.threads[l]? = some t' → ∃ t : Thread,
    c.threads[l]? = some t ∧ t'.workflow = t.workflow ∧ t'.phase.weight t.workflow ≤ t.phase.weight t.workflow

/-- No thread becomes heavier, and thread `i` becomes lighter. -/
structure SinksAt (i : Nat) (c c' : Scene) : Prop extends Sinks c c' where
  lighter : ∃ t t' : Thread, c.threads[i]? = some t ∧ c'.threads[i]? = some t' ∧
    t'.workflow = t.workflow ∧ t'.phase.weight t.workflow < t.phase.weight t.workflow

theorem Sinks.refl : c.Sinks c := ⟨rfl, fun _ t ht => ⟨t, ht, rfl, le_rfl⟩⟩

theorem Sinks.trans (h : c.Sinks c') (h' : c'.Sinks c'') : c.Sinks c'' := by
  refine ⟨h'.size.trans h.size, fun l t'' ht'' => ?_⟩
  obtain ⟨t', ht', hw', hle'⟩ := h'.thread l t'' ht''
  obtain ⟨t, ht, hw, hle⟩ := h.thread l t' ht'
  rw [hw] at hw' hle'
  exact ⟨t, ht, hw', hle'.trans hle⟩

theorem SinksAt.trans (h : c.SinksAt i c') (h' : c'.Sinks c'') : c.SinksAt i c'' := by
  refine ⟨h.toSinks.trans h', ?_⟩
  obtain ⟨t, t', ht, ht', hw, hlt⟩ := h.lighter
  have hi : i < c''.threads.size := by
    rw [h'.size]
    exact (Array.getElem?_eq_some_iff.mp ht').1
  have ht'' : c''.threads[i]? = some c''.threads[i] := Array.getElem?_eq_getElem hi
  obtain ⟨u, hu, hw', hle⟩ := h'.thread i _ ht''
  cases ht'.symm.trans hu
  rw [hw] at hw' hle
  exact ⟨t, _, ht, ht'', hw', hle.trans_lt hlt⟩

theorem SinksAt.falls (h : c.SinksAt i c') : c.Falls c' := by
  obtain ⟨t, t', ht, ht', hw, hlt⟩ := h.lighter
  refine falls_of_lighter h.size.ge ht ht' (Thread.weight_lt hw hlt) fun l u' hu' => ?_
  obtain ⟨u, hu, hw, hle⟩ := h.thread l u' hu'
  exact .inl ⟨u, hu, Thread.weight_le hw hle⟩

theorem Sinks.weights_eq_or (h : c.Sinks c') : c'.weights = c.weights ∨ c.Falls c' := by
  by_cases hall : ∀ l < c.threads.size, c'.weightAt l = c.weightAt l
  · left
    unfold weights
    rw [h.size]
    exact Multiset.map_congr rfl fun l hl => hall l (Multiset.mem_range.mp hl)
  · right
    push Not at hall
    obtain ⟨i, hi, hne⟩ := hall
    have hi' : i < c'.threads.size := by rwa [h.size]
    have ht' : c'.threads[i]? = some c'.threads[i] := Array.getElem?_eq_getElem hi'
    obtain ⟨t, ht, hw, hle⟩ := h.thread i _ ht'
    refine SinksAt.falls (i := i) ⟨h, t, _, ht, ht', hw, lt_of_le_of_ne hle fun he => hne ?_⟩
    rw [weightAt_eq ht, weightAt_eq ht']
    unfold Thread.weight
    rw [hw, he]

/-! ## Changes of threads -/

/-- A thread may go on to a lighter phase while no other one becomes heavier. -/
theorem Sinks.put (h : c.Sinks c') (ht : c.threads[i]? = some t)
    (hlt : phase.weight t.workflow < t.phase.weight t.workflow) : c.SinksAt i (c'.put i phase) := by
  have hsize : (c'.put i phase).threads.size = c.threads.size := by
    rw [← h.size]
    exact Array.size_modify
  have hi : i < c'.threads.size := by
    rw [h.size]
    exact (Array.getElem?_eq_some_iff.mp ht).1
  obtain ⟨u, hu, hw, -⟩ := h.thread i _ (Array.getElem?_eq_getElem hi)
  cases ht.symm.trans hu
  refine ⟨⟨hsize, fun l v hv => ?_⟩, t, _, ht, put_eq_some.mpr ⟨_, Array.getElem?_eq_getElem hi, rfl⟩,
    hw, by rwa [if_pos rfl]⟩
  obtain ⟨v', hv', rfl⟩ := put_eq_some.mp hv
  obtain ⟨u, hu, hw, hle⟩ := h.thread l v' hv'
  refine ⟨u, hu, hw, ?_⟩
  dsimp only
  split
  · next hil =>
    subst hil
    cases ht.symm.trans hu
    exact hlt.le
  · exact hle

theorem sinks_modify {f : Thread → Thread} (hw : ∀ t, (f t).workflow = t.workflow)
    (hle : ∀ t : Thread, c.threads[i]? = some t →
      (f t).phase.weight t.workflow ≤ t.phase.weight t.workflow) : c.Sinks (c.modify i f) := by
  refine ⟨Array.size_modify, fun l t' ht' => ?_⟩
  rw [getElem?_modify] at ht'
  split at ht'
  · next hi =>
    subst hi
    obtain ⟨t, ht, rfl⟩ := Option.map_eq_some_iff.mp ht'
    exact ⟨t, ht, hw t, hle t ht⟩
  · exact ⟨t', ht', rfl, le_rfl⟩

theorem sinks_turn (turn : FanOut.Turn) : c.Sinks (c.modify i (.turn turn)) :=
  sinks_modify (fun _ => rfl) fun _ _ => Phase.weight_turn_le turn

theorem sinks_put (h : ∀ t : Thread, c.threads[i]? = some t →
    phase.weight t.workflow ≤ t.phase.weight t.workflow) : c.Sinks (c.put i phase) :=
  sinks_modify (fun _ => rfl) h

theorem sinks_cancelWhere {ticket : Nat} {p : Thread → Bool} : c.Sinks (c.cancelWhere ticket p) := by
  refine ⟨Array.size_map, fun l t' ht' => ?_⟩
  obtain ⟨t, ht, rfl⟩ := cancelWhere_eq_some.mp ht'
  refine ⟨t, ht, ?_⟩
  split
  · exact ⟨rfl, Phase.weight_cancel_le ticket⟩
  · exact ⟨rfl, le_rfl⟩

/-- A thread that starts lanes of smaller workflows becomes lighter, and the lanes are lighter than it
was. -/
theorem falls_spawn {ticket ticket' limit : Nat} {jobs : List Job} {name : String}
    {rest : Except Stop (List Json) → StateProcess} (ht : c.threads[i]? = some t)
    (hlt : ∀ f, (Phase.forked (some ticket) f c.threads.size name rest).weight t.workflow <
      t.phase.weight t.workflow)
    (hjobs : ∀ job ∈ jobs, sizeOf job.workflow < sizeOf t.workflow) :
    c.Falls (c.spawn i t ticket ticket' limit jobs name rest) := by
  have hi : i < c.threads.size := (Array.getElem?_eq_some_iff.mp ht).1
  have hself : (c.spawn i t ticket ticket' limit jobs name rest).threads[i]? = some { t with phase :=
      (.forked (some ticket) (t.lanes limit jobs.length) c.threads.size name rest) } :=
    spawn_eq_some.mpr (.inl ⟨t, ht, by rw [if_pos rfl]⟩)
  refine falls_of_lighter size_le_spawn ht hself (Thread.weight_lt rfl (hlt _)) fun l u' hu' => ?_
  rcases spawn_eq_some.mp hu' with ⟨u, hu, rfl⟩ | ⟨k, job, hjob, -, rfl⟩
  · refine .inl ⟨u, hu, Thread.weight_le rfl ?_⟩
    dsimp only
    split
    · next hil =>
      subst hil
      cases ht.symm.trans hu
      exact (hlt _).le
    · exact le_rfl
  · exact .inr (Prod.Lex.toLex_lt_toLex.mpr (.inl (hjobs job (List.mem_of_getElem? hjob))))

end Scene

end StepFlow
