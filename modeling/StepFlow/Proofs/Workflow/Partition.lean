import Mathlib.Data.List.Chain
import StepFlow.Workflow.Partition
import StepFlow.Proofs.Workflow.Transitions

/-!
# The branches of a table of states

* `StandsAt`, `State.Precedes`: where a state stands, and which one comes next in a branch;
* `Divides`: what branches and an index have to be like to hold the reachable states of a table;
* `Partition.Growing`: the invariant of a partition in the making, with its unfinished branch;
* `Partition.Growing.follow`, `Partition.Growing.enter`, `Partition.Growing.run`: the three loops keep
  the invariant;
* **`divides_partition`**: the partition of a coherent table divides its reachable states.
-/

namespace StepFlow

variable {W : Type}

/-- A state stands at a position of the branches. -/
def StandsAt (branches : List (List (State W))) (p : Position) (s : State W) : Prop :=
  ∃ b, branches[p.branch]? = some b ∧ b[p.offset]? = some s

/-- The transition of a state names the other one. -/
def State.Precedes (s t : State W) : Prop := s.next? = some t.name

/-- The branches hold the states of a table that are reachable from `start`, and the index tells where
they stand. -/
structure Divides (states : Keyed (State W)) (start : String) (branches : List (List (State W)))
    (index : Keyed Position) : Prop where
  sorted : index.Sorted
  mem_index : ∀ n, n ∈ index.keys ↔ Reachable states start n
  place : ∀ n p, Keyed.find? n index = some p ↔ ∃ s, StandsAt branches p s ∧ s.name = n
  /-- No state stands twice. -/
  nodup : (branches.flatten.map State.name).Nodup
  declared : ∀ p s, StandsAt branches p s → Keyed.find? s.name states = some s
  nonempty : ∀ b ∈ branches, b ≠ []
  linked : ∀ b ∈ branches, b.IsChain State.Precedes
  /-- The last state of a branch leads nowhere, or to a state of this branch or an earlier one. -/
  last : ∀ i b s n, branches[i]? = some b → b.getLast? = some s → s.next? = some n →
    ∃ p, Keyed.find? n index = some p ∧ p.branch ≤ i
  first : ∃ b s, branches[0]? = some b ∧ b.head? = some s ∧ s.name = start
  /-- A later branch starts with a name to which a state of an earlier one branches off. -/
  later : ∀ i b s, branches[i + 1]? = some b → b.head? = some s →
    ∃ p s', StandsAt branches p s' ∧ p.branch ≤ i ∧ s'.BranchesTo s.name
  closed : ∀ p s t, StandsAt branches p s → s.LeadsTo t → t ∈ index.keys

/-! ## Positions -/

theorem getElem?_snoc {α : Type} {l : List α} {a x : α} {i : Nat} :
    (l ++ [a])[i]? = some x ↔ l[i]? = some x ∨ i = l.length ∧ x = a := by
  rcases Nat.lt_trichotomy i l.length with hi | hi | hi
  · rw [List.getElem?_append_left hi]
    simp [Nat.ne_of_lt hi]
  · rw [hi, List.getElem?_concat_length, List.getElem?_eq_none le_rfl]
    simp [eq_comm]
  · rw [List.getElem?_eq_none (by simp; omega), List.getElem?_eq_none hi.le]
    simp [Nat.ne_of_gt hi]

section StandsAt

variable {bs cs : List (List (State W))} {last : List (State W)} {p : Position} {s x : State W}

theorem StandsAt.lt (h : StandsAt bs p s) : p.branch < bs.length := by
  obtain ⟨b, hb, -⟩ := h
  exact (List.getElem?_eq_some_iff.mp hb).1

theorem StandsAt.append (h : StandsAt bs p s) (cs : List (List (State W))) :
    StandsAt (bs ++ cs) p s := by
  obtain ⟨b, hb, hs⟩ := h
  exact ⟨b, by rw [List.getElem?_append_left (List.getElem?_eq_some_iff.mp hb).1, hb], hs⟩

theorem standsAt_last : StandsAt (bs ++ [last]) p s ↔
    StandsAt bs p s ∨ p.branch = bs.length ∧ last[p.offset]? = some s := by
  simp only [StandsAt, getElem?_snoc]
  constructor
  · rintro ⟨b, hb | ⟨hp, rfl⟩, hs⟩
    · exact .inl ⟨b, hb, hs⟩
    · exact .inr ⟨hp, hs⟩
  · rintro (⟨b, hb, hs⟩ | ⟨hp, hs⟩)
    · exact ⟨b, .inl hb, hs⟩
    · exact ⟨last, .inr ⟨hp, rfl⟩, hs⟩

theorem standsAt_nil : StandsAt (bs ++ [[]]) p s ↔ StandsAt bs p s := by
  rw [standsAt_last]
  simp

theorem standsAt_snoc : StandsAt (bs ++ [last ++ [x]]) p s ↔
    StandsAt (bs ++ [last]) p s ∨ p = ⟨bs.length, last.length⟩ ∧ s = x := by
  obtain ⟨i, j⟩ := p
  rw [standsAt_last, standsAt_last, or_assoc, getElem?_snoc, and_or_left, Position.mk.injEq, and_assoc]

theorem mem_flatten_iff : s ∈ bs.flatten ↔ ∃ p, StandsAt bs p s := by
  rw [List.mem_flatten]
  constructor
  · rintro ⟨b, hb, hs⟩
    obtain ⟨i, hi⟩ := List.mem_iff_getElem?.mp hb
    obtain ⟨j, hj⟩ := List.mem_iff_getElem?.mp hs
    exact ⟨⟨i, j⟩, b, hi, hj⟩
  · rintro ⟨p, b, hb, hs⟩
    exact ⟨b, List.mem_of_getElem? hb, List.mem_of_getElem? hs⟩

end StandsAt

/-! ## The invariant -/

namespace Partition

variable {states : Keyed (State W)} {start : String} {hand : List String} {p : Partition W}
  {current : List (State W)}

/-- **A partition in the making**: its finished branches, the branch `current` in which states are being
put, and the entry points `hand` that were taken from those that wait. -/
structure Growing (states : Keyed (State W)) (start : String) (hand : List String) (p : Partition W)
    (current : List (State W)) : Prop where
  sorted : p.index.Sorted
  place : ∀ n q, Keyed.find? n p.index = some q ↔
    ∃ s, StandsAt (p.branches ++ [current]) q s ∧ s.name = n
  nodup : ((p.branches ++ [current]).flatten.map State.name).Nodup
  left : ∀ n, Keyed.find? n p.left = if p.holds n then none else Keyed.find? n states
  declared : ∀ q s, StandsAt (p.branches ++ [current]) q s →
    Keyed.find? s.name states = some s ∧ Reachable states start s.name
  entries : ∀ e ∈ p.entries, ∃ q s, StandsAt (p.branches ++ [current]) q s ∧ s.BranchesTo e
  pending : ∀ q s t, StandsAt (p.branches ++ [current]) q s → s.BranchesTo t →
    p.holds t ∨ t ∈ hand ∨ t ∈ p.entries
  linked : ∀ b ∈ p.branches ++ [current], b.IsChain State.Precedes
  nonempty : ∀ b ∈ p.branches, b ≠ []
  last : ∀ i b s n, p.branches[i]? = some b → b.getLast? = some s → s.next? = some n →
    ∃ q, Keyed.find? n p.index = some q ∧ q.branch ≤ i
  first : ∀ b s, p.branches[0]? = some b → b.head? = some s → s.name = start
  later : ∀ i b s, p.branches[i + 1]? = some b → b.head? = some s →
    ∃ q s', StandsAt p.branches q s' ∧ q.branch ≤ i ∧ s'.BranchesTo s.name

theorem holds_iff {n : String} : p.holds n = true ↔ ∃ q, Keyed.find? n p.index = some q := by
  rw [holds, Option.isSome_iff_exists]

theorem holds_place {n name : String} {s : State W} {k : Nat} :
    (p.place name s k).holds n = true ↔ name = n ∨ p.holds n = true := by
  rw [holds_iff, place, Keyed.find?_insert, holds_iff]
  split
  · next h => simp [h]
  · next h => simp [h]

theorem growing_start (states : Keyed (State W)) (start : String) (hand : List String) :
    Growing states start hand ⟨[], [], states, []⟩ [] where
  sorted := List.Pairwise.nil
  place n q := by simp [StandsAt, List.getElem?_singleton]
  nodup := List.nodup_nil
  left n := rfl
  declared q s h := by simpa using standsAt_nil.mp h |>.lt
  entries e he := absurd he List.not_mem_nil
  pending q s t h := by simpa using standsAt_nil.mp h |>.lt
  linked b hb := by
    rw [List.nil_append, List.mem_singleton] at hb
    exact hb ▸ List.isChain_nil
  nonempty b hb := absurd hb List.not_mem_nil
  last i b s n h := by simp at h
  first b s h := by simp at h
  later i b s h := by simp at h

theorem Growing.mem_flatten (g : Growing states start hand p current) {n : String} :
    n ∈ (p.branches ++ [current]).flatten.map State.name ↔ p.holds n = true := by
  simp only [List.mem_map, mem_flatten_iff, holds_iff, g.place]
  constructor
  · rintro ⟨s, ⟨q, hq⟩, hn⟩
    exact ⟨q, s, hq, hn⟩
  · rintro ⟨q, s, hq, hn⟩
    exact ⟨s, ⟨q, hq⟩, hn⟩

theorem Growing.branch_le (g : Growing states start hand p current) {n : String} {q : Position}
    (h : Keyed.find? n p.index = some q) : q.branch ≤ p.branches.length := by
  obtain ⟨s, hs, -⟩ := (g.place n q).mp h
  have := hs.lt
  simp only [List.length_append, List.length_singleton] at this
  omega

theorem Growing.find?_left (g : Growing states start hand p current) {n : String}
    (h : p.holds n = false) : Keyed.find? n p.left = Keyed.find? n states := by
  rw [g.left, h]
  rfl

/-! ## One more state -/

section put

variable {name n : String} {s t : State W} {q : Position} {k : Nat}

theorem find?_index_place (hheld : p.holds name = false) :
    Keyed.find? n (p.place name s k).index = some q ↔
      Keyed.find? n p.index = some q ∨ q = ⟨p.branches.length, k⟩ ∧ name = n := by
  rw [Partition.place, Keyed.find?_insert]
  split
  · next h =>
    have hn : ¬ Keyed.find? n p.index = some q := fun hq => by
      rw [← h] at hq
      rw [holds_iff.mpr ⟨q, hq⟩] at hheld
      exact Bool.noConfusion hheld
    simp only [hn, h, and_true, false_or, Option.some.injEq]
    exact eq_comm
  · next h => simp [h]

theorem Growing.place_put (g : Growing states start hand p current) (hheld : p.holds name = false)
    (hname : s.name = name) : Keyed.find? n (p.place name s current.length).index = some q ↔
      ∃ t, StandsAt (p.branches ++ [current ++ [s]]) q t ∧ t.name = n := by
  rw [find?_index_place hheld, g.place]
  simp only [standsAt_snoc]
  constructor
  · rintro (⟨t, ht, hn⟩ | ⟨hq, hn⟩)
    · exact ⟨t, .inl ht, hn⟩
    · exact ⟨s, .inr ⟨hq, rfl⟩, hname.trans hn⟩
  · rintro ⟨t, ht | ⟨hq, rfl⟩, hn⟩
    · exact .inl ⟨t, ht, hn⟩
    · exact .inr ⟨hq, hname.symm.trans hn⟩

theorem Growing.nodup_put (g : Growing states start hand p current) (hheld : p.holds name = false)
    (hname : s.name = name) : ((p.branches ++ [current ++ [s]]).flatten.map State.name).Nodup := by
  have hnew : s.name ∉ (p.branches ++ [current]).flatten.map State.name := by
    rw [g.mem_flatten, hname, hheld]
    exact Bool.false_ne_true
  have hflat : (p.branches ++ [current ++ [s]]).flatten = (p.branches ++ [current]).flatten ++ [s] := by
    simp
  simp only [hflat, List.map_append, List.map_cons, List.map_nil]
  exact List.nodup_append.mpr ⟨g.nodup, List.pairwise_singleton _ _, fun a ha b hb hab =>
    hnew (by rw [← List.mem_singleton.mp hb, ← hab]; exact ha)⟩

theorem Growing.left_put (g : Growing states start hand p current) :
    Keyed.find? n (p.place name s k).left =
      if (p.place name s k).holds n then none else Keyed.find? n states := by
  have hheld := @holds_place W p n name s k
  have hleft : (p.place name s k).left = Keyed.erase name p.left := rfl
  rw [hleft, Keyed.find?_erase, g.left]
  by_cases h : name = n
  · rw [if_pos h, if_pos (hheld.mpr (.inl h))]
  · rw [if_neg h]
    by_cases h' : p.holds n = true
    · rw [if_pos h', if_pos (hheld.mpr (.inr h'))]
    · rw [if_neg h', if_neg fun h'' => (hheld.mp h'').elim h h']

theorem Growing.entries_put (g : Growing states start hand p current) {e : String}
    (he : e ∈ (p.place name s current.length).entries) :
    ∃ q t, StandsAt (p.branches ++ [current ++ [s]]) q t ∧ t.BranchesTo e := by
  simp only [Partition.place, List.mem_append, List.mem_filter] at he
  rcases he with he | ⟨he, -⟩
  · obtain ⟨q, t, ht, hte⟩ := g.entries e he
    exact ⟨q, t, standsAt_snoc.mpr (.inl ht), hte⟩
  · exact ⟨_, s, standsAt_snoc.mpr (.inr ⟨rfl, rfl⟩), State.mem_branchTargets.mp he⟩

theorem Growing.pending_put (g : Growing states start hand p current) {u : String}
    (ht : StandsAt (p.branches ++ [current ++ [s]]) q t) (hu : t.BranchesTo u) :
    (p.place name s current.length).holds u ∨ u ∈ hand ∨ u ∈ (p.place name s current.length).entries := by
  rw [holds_place]
  simp only [Partition.place, List.mem_append, List.mem_filter]
  rcases standsAt_snoc.mp ht with ht | ⟨-, rfl⟩
  · rcases g.pending q t u ht hu with h | h | h
    · exact .inl (.inr h)
    · exact .inr (.inl h)
    · exact .inr (.inr (.inl h))
  · by_cases h : (p.place name t current.length).holds u = true
    · exact .inl (holds_place.mp h)
    · rw [holds, Bool.not_eq_true, Option.isSome_eq_false_iff] at h
      exact .inr (.inr (.inr ⟨State.mem_branchTargets.mpr hu, h⟩))

theorem Growing.linked_put (g : Growing states start hand p current)
    (hlast : ∀ t, current.getLast? = some t → t.Precedes s) {b : List (State W)}
    (hb : b ∈ p.branches ++ [current ++ [s]]) : b.IsChain State.Precedes := by
  rw [List.mem_append, List.mem_singleton] at hb
  rcases hb with hb | rfl
  · exact g.linked b (List.mem_append_left _ hb)
  · refine List.isChain_append.mpr ⟨g.linked current (by simp), List.isChain_singleton s, ?_⟩
    intro x hx y hy
    rw [List.head?_singleton, Option.mem_some_iff] at hy
    exact hy ▸ hlast x hx

/-- **Putting a state at the end of the branch in the making keeps the invariant.** -/
theorem Growing.put (g : Growing states start hand p current)
    (hheld : p.holds name = false) (hs : Keyed.find? name states = some s) (hname : s.name = name)
    (hr : Reachable states start name) (hlast : ∀ t, current.getLast? = some t → t.Precedes s) :
    Growing states start hand (p.place name s current.length) (current ++ [s]) where
  sorted := g.sorted.insert _ _
  place _ _ := g.place_put hheld hname
  nodup := g.nodup_put hheld hname
  left _ := g.left_put
  declared q t ht := by
    rcases standsAt_snoc.mp ht with ht | ⟨-, rfl⟩
    · exact g.declared q t ht
    · exact ⟨hname ▸ hs, hname ▸ hr⟩
  entries _ he := g.entries_put he
  pending _ _ _ ht hu := g.pending_put ht hu
  linked _ hb := g.linked_put hlast hb
  nonempty := g.nonempty
  last i b t n hb ht hn := by
    obtain ⟨q, hq, hi⟩ := g.last i b t n hb ht hn
    exact ⟨q, (find?_index_place hheld).mpr (.inl hq), hi⟩
  first := g.first
  later := g.later

end put

/-! ## The loops -/

theorem follow_zero (k : Nat) (name : String) (p : Partition W) : follow 0 k name p = ([], p) := rfl

theorem follow_succ (bound k : Nat) (name : String) (p : Partition W) :
    follow (bound + 1) k name p =
      if p.holds name then ([], p)
      else match Keyed.find? name p.left with
        | none => ([], p)
        | some s =>
          match s.next? with
          | none => ([s], p.place name s k)
          | some next =>
            (s :: (follow bound (k + 1) next (p.place name s k)).1,
              (follow bound (k + 1) next (p.place name s k)).2) := rfl

/-- What following the transitions from `name` on leads to: the branch `current` goes on with `branch`,
and the last state leads nowhere or to a state that is held. -/
structure Followed (states : Keyed (State W)) (start : String) (hand : List String) (p : Partition W)
    (current : List (State W)) (name : String) (branch : List (State W)) (p' : Partition W) : Prop where
  growing : Growing states start hand p' (current ++ branch)
  branches : p'.branches = p.branches
  holds : p'.holds name = true
  last : ∀ t n, (current ++ branch).getLast? = some t → t.next? = some n → p'.holds n = true
  head : p.holds name = false → ∃ s, branch.head? = some s ∧ s.name = name

section follow

variable {name : String}

theorem Growing.holds_of_left_eq_nil (g : Growing states start hand p current)
    (hc : Coherent states start) (hnil : p.left = []) (hr : Reachable states start name) :
    p.holds name = true := by
  by_contra hh
  obtain ⟨s, hs⟩ := hc.declared hr
  have hleft := g.left name
  rw [if_neg hh, hs, hnil] at hleft
  cases hleft

theorem Growing.followed_nil (g : Growing states start hand p current) (hh : p.holds name = true)
    (hlast : ∀ t, current.getLast? = some t → t.next? = some name) :
    Followed states start hand p current name [] p := by
  refine ⟨by rwa [List.append_nil], rfl, hh, fun t n ht hn => ?_, fun h => absurd hh (by simp [h])⟩
  rw [List.append_nil] at ht
  rw [hlast t ht, Option.some.injEq] at hn
  exact hn ▸ hh

theorem Growing.followed_last {s : State W}
    (g : Growing states start hand (p.place name s current.length) (current ++ [s]))
    (hname : s.name = name) (hnone : s.next? = none) :
    Followed states start hand p current name [s] (p.place name s current.length) := by
  refine ⟨g, rfl, holds_place.mpr (.inl rfl), fun t n ht hn => ?_, fun _ => ⟨s, rfl, hname⟩⟩
  rw [List.getLast?_concat, Option.some.injEq] at ht
  rw [← ht, hnone] at hn
  cases hn

/-- What follows the next state follows the state in front of it. -/
theorem Followed.cons {s : State W} {next : String} {branch : List (State W)} {p' : Partition W}
    (f : Followed states start hand (p.place name s current.length) (current ++ [s]) next branch p')
    (hname : s.name = name) : Followed states start hand p current name (s :: branch) p' := by
  have happend : current ++ [s] ++ branch = current ++ s :: branch := by
    rw [List.append_assoc, List.singleton_append]
  have hg := f.growing
  rw [happend] at hg
  refine ⟨hg, f.branches, ?_, fun t n ht hn => f.last t n (happend ▸ ht) hn, fun _ => ⟨s, rfl, hname⟩⟩
  exact holds_iff.mpr ⟨⟨_, current.length⟩, (hg.place name _).mpr
    ⟨s, standsAt_last.mpr (.inr ⟨rfl, by simp⟩), hname⟩⟩

/-- **A branch is followed to its end.** The induction is on the number of states that are left. -/
theorem Growing.follow (hc : Coherent states start) (bound : Nat)
    (g : Growing states start hand p current) (hb : p.left.length ≤ bound)
    (hr : Reachable states start name)
    (hlast : ∀ t, current.getLast? = some t → t.next? = some name) :
    Followed states start hand p current name (follow bound current.length name p).1
      (follow bound current.length name p).2 := by
  induction bound generalizing name p current with
  | zero =>
    have hnil : p.left = [] := List.length_eq_zero_iff.mp (Nat.le_zero.mp hb)
    rw [follow_zero]
    exact g.followed_nil (g.holds_of_left_eq_nil hc hnil hr) hlast
  | succ bound ih =>
    rw [follow_succ]
    split
    · next hh => exact g.followed_nil hh hlast
    · next hh =>
      rw [Bool.not_eq_true] at hh
      obtain ⟨s, hs⟩ := hc.declared hr
      have hl : Keyed.find? name p.left = some s := (g.find?_left hh).trans hs
      have hname := hc.named name s hs
      have g' := g.put hh hs hname hr fun t ht => by rw [State.Precedes, hlast t ht, hname]
      have hb' : (p.place name s current.length).left.length ≤ bound := by
        have := Keyed.length_erase_lt hl
        simp only [Partition.place]
        omega
      simp only [hl]
      split
      · next hn => exact g'.followed_last hname hn
      · next next hn =>
        have hr' : Reachable states start next := hr.step hs (.inl hn)
        have f := ih g' hb' hr' fun t ht => by
          rw [List.getLast?_concat, Option.some.injEq] at ht
          exact ht ▸ hn
        rw [List.length_append, List.length_singleton] at f
        exact f.cons hname

end follow

/-- A branch that was followed to its end is put beside the finished ones. -/
theorem Followed.close {e : String} {branch : List (State W)} {p' : Partition W}
    (f : Followed states start hand p [] e branch p') (hh : p.holds e = false)
    (he : p.branches = [] ∧ e = start ∨ ∃ q s, StandsAt p.branches q s ∧ s.BranchesTo e) :
    Growing states start hand { p' with branches := p'.branches ++ [branch] } [] := by
  obtain ⟨x, hx, hxe⟩ := f.head hh
  have hg := f.growing
  rw [List.nil_append] at hg
  have hlen : p'.branches.length = p.branches.length := by rw [f.branches]
  have hat : ∀ q s, StandsAt (p'.branches ++ [branch] ++ [[]]) q s ↔
      StandsAt (p'.branches ++ [branch]) q s := fun q s => standsAt_nil
  refine ⟨hg.sorted, fun n q => ?_, ?_, hg.left, fun q s hs => hg.declared q s ((hat q s).mp hs),
    fun t ht => ?_, fun q s t hs ht => hg.pending q s t ((hat q s).mp hs) ht, fun b hb => ?_,
    fun b hb => ?_, fun i b s n hb hs hn => ?_, fun b s hb hs => ?_, fun i b s hb hs => ?_⟩
  · simp only [hat]
    exact hg.place n q
  · simpa using hg.nodup
  · obtain ⟨q, s, hs, hst⟩ := hg.entries t ht
    exact ⟨q, s, (hat q s).mpr hs, hst⟩
  · rw [List.mem_append, List.mem_singleton] at hb
    rcases hb with hb | rfl
    · exact hg.linked b hb
    · exact List.isChain_nil
  · rw [List.mem_append, List.mem_singleton] at hb
    rcases hb with hb | rfl
    · exact hg.nonempty b hb
    · rintro rfl
      cases hx
  -- a finished branch is an earlier one or the one that is put beside them
  · rcases getElem?_snoc.mp hb with hb | ⟨rfl, rfl⟩
    · exact hg.last i b s n hb hs hn
    · obtain ⟨q, hq⟩ := holds_iff.mp (f.last s n hs hn)
      exact ⟨q, hq, hg.branch_le hq⟩
  · rcases getElem?_snoc.mp hb with hb | ⟨h0, rfl⟩
    · exact hg.first b s hb hs
    · rw [hx, Option.some.injEq] at hs
      rcases he with ⟨-, he⟩ | ⟨q, t, ht, -⟩
      · rw [← hs, hxe, he]
      · have := ht.lt
        omega
  · rcases getElem?_snoc.mp hb with hb | ⟨hi, rfl⟩
    · obtain ⟨q, t, ht, hi, hts⟩ := hg.later i b s hb hs
      exact ⟨q, t, ht.append _, hi, hts⟩
    · rw [hx, Option.some.injEq] at hs
      rcases he with ⟨hnil, -⟩ | ⟨q, t, ht, hte⟩
      · rw [hnil, List.length_nil] at hlen
        omega
      · have := ht.lt
        rw [← f.branches] at ht
        exact ⟨q, t, ht.append _, by omega, by rwa [← hs, hxe]⟩

/-- **Entering at a name keeps the invariant**, and the name is held after that. -/
theorem Growing.enter (hc : Coherent states start) {e : String} (g : Growing states start hand p [])
    (hr : Reachable states start e)
    (he : p.branches = [] ∧ e = start ∨ ∃ q s, StandsAt p.branches q s ∧ s.BranchesTo e) :
    Growing states start hand (p.enter e) [] ∧ (p.enter e).holds e = true ∧
      (p.enter e).branches ≠ [] := by
  rw [Partition.enter]
  split
  · next hh =>
    refine ⟨g, hh, ?_⟩
    obtain ⟨q, hq⟩ := holds_iff.mp hh
    obtain ⟨s, hs, -⟩ := (g.place e q).mp hq
    have := (standsAt_nil.mp hs).lt
    exact List.ne_nil_of_length_pos (by omega)
  · next hh =>
    rw [Bool.not_eq_true] at hh
    have f := g.follow hc p.left.length le_rfl hr fun t ht => by cases ht
    exact ⟨f.close hh he, f.holds, by simp⟩

/-! ## The entry points run out -/

/-- The number of entry points that the states of a table can bring in. -/
def owed (t : Keyed (State W)) : Nat := t.foldr (fun e n => e.2.branchTargets.length + n) 0

theorem owed_cons (e : String × State W) (t : Keyed (State W)) :
    owed (e :: t) = e.2.branchTargets.length + owed t := rfl

theorem entryBound_eq (t : Keyed (State W)) : entryBound t = owed t + 1 := by
  induction t with
  | nil => rfl
  | cons e t ih =>
    have : entryBound (e :: t) = e.2.branchTargets.length + entryBound t := rfl
    rw [this, ih, owed_cons, Nat.add_assoc]

theorem owed_erase_le (k : String) (t : Keyed (State W)) : owed (Keyed.erase k t) ≤ owed t := by
  induction t with
  | nil => exact le_rfl
  | cons e t ih =>
    unfold Keyed.erase at ih ⊢
    rw [List.filter_cons]
    split
    · rw [owed_cons, owed_cons]
      omega
    · rw [owed_cons]
      omega

theorem owed_erase {k : String} {s : State W} {t : Keyed (State W)} (h : Keyed.find? k t = some s) :
    owed (Keyed.erase k t) + s.branchTargets.length ≤ owed t := by
  induction t with
  | nil => cases h
  | cons e t ih =>
    obtain ⟨l, v⟩ := e
    rw [Keyed.find?_cons] at h
    split at h
    · next hl =>
      cases h
      have := owed_erase_le k t
      unfold Keyed.erase at this ⊢
      rw [List.filter_cons_of_neg (by simp [hl]), owed_cons]
      dsimp only
      omega
    · next hl =>
      have := ih h
      unfold Keyed.erase at this ⊢
      rw [List.filter_cons_of_pos (by simp [hl]), owed_cons, owed_cons]
      omega

/-- The entry points that wait, and those that the states that are left can bring in. -/
def due (p : Partition W) : Nat := p.entries.length + owed p.left

theorem due_place_le {name : String} {s : State W} {k : Nat} (h : Keyed.find? name p.left = some s) :
    due (p.place name s k) ≤ due p := by
  have h₁ := owed_erase h
  have h₂ := List.length_filter_le
    (fun t => (Keyed.find? t (Keyed.insert name ⟨p.branches.length, k⟩ p.index)).isNone) s.branchTargets
  simp only [due, place, List.length_append]
  omega

theorem due_follow_le (bound k : Nat) (name : String) (p : Partition W) :
    due (follow bound k name p).2 ≤ due p := by
  induction bound generalizing k name p with
  | zero => exact le_rfl
  | succ bound ih =>
    rw [follow_succ]
    split
    · exact le_rfl
    · split
      · exact le_rfl
      · next s hs =>
        split
        · exact due_place_le hs
        · exact (ih _ _ _).trans (due_place_le hs)

theorem due_enter_le (e : String) (p : Partition W) : due (p.enter e) ≤ due p := by
  rw [enter]
  split
  · exact le_rfl
  · exact due_follow_le _ _ _ p

theorem Growing.take (g : Growing states start [] p []) {e : String} {rest : List String}
    (he : p.entries = e :: rest) : Growing states start [e] { p with entries := rest } [] :=
  { g with
    entries := fun t ht => g.entries t (he ▸ List.mem_cons_of_mem e ht)
    pending := fun q s t hs ht => by
      rcases g.pending q s t hs ht with h | h | h
      · exact .inl h
      · exact .inr (.inl (absurd h List.not_mem_nil))
      · rw [he, List.mem_cons] at h
        exact .inr (h.imp List.mem_singleton.mpr id) }

theorem Growing.release {e : String} (g : Growing states start [e] p []) (he : p.holds e = true) :
    Growing states start [] p [] :=
  { g with
    pending := fun q s t hs ht => by
      rcases g.pending q s t hs ht with h | h | h
      · exact .inl h
      · exact .inl (List.mem_singleton.mp h ▸ he)
      · exact .inr (.inr h) }

/-- **All entry points are taken.** The induction is on the number of those that are due. -/
theorem Growing.run (hc : Coherent states start) (bound : Nat) (g : Growing states start [] p [])
    (hb : p.branches ≠ []) (hd : due p ≤ bound) :
    Growing states start [] (p.run bound) [] ∧ (p.run bound).entries = [] ∧
      (p.run bound).branches ≠ [] := by
  induction bound generalizing p with
  | zero =>
    refine ⟨g, List.length_eq_zero_iff.mp ?_, hb⟩
    rw [due] at hd
    change p.entries.length = 0
    omega
  | succ bound ih =>
    rw [Partition.run]
    split
    · next he => exact ⟨g, he, hb⟩
    · next e rest he =>
      obtain ⟨q, s, hs, hse⟩ := g.entries e (he ▸ List.mem_cons_self)
      obtain ⟨hf, hr⟩ := g.declared q s hs
      obtain ⟨g', hheld, hb'⟩ := (g.take he).enter hc (hr.step hf (.inr hse))
        (.inr ⟨q, s, standsAt_nil.mp hs, hse⟩)
      refine ih (g'.release hheld) hb' ((due_enter_le _ _).trans ?_)
      rw [due, he, List.length_cons] at hd
      simp only [due]
      omega

/-- **When no entry point waits, the states that are reachable are held.** -/
theorem Growing.divides (g : Growing states start [] p [])
    (he : p.entries = []) (hb : p.branches ≠ []) : Divides states start p.branches p.index := by
  have hplace : ∀ n q, Keyed.find? n p.index = some q ↔ ∃ s, StandsAt p.branches q s ∧ s.name = n :=
    fun n q => by simpa only [standsAt_nil] using g.place n q
  have hdecl : ∀ q s, StandsAt p.branches q s →
      Keyed.find? s.name states = some s ∧ Reachable states start s.name :=
    fun q s hs => g.declared q s (standsAt_nil.mpr hs)
  have hclosed : ∀ q s t, StandsAt p.branches q s → s.LeadsTo t → t ∈ p.index.keys := by
    rintro q s t ⟨b, hq, hs⟩ (ht | ht)
    · have hbmem := List.mem_of_getElem? hq
      cases hs' : b[q.offset + 1]? with
      | none =>
        have hlast : b.getLast? = some s := by
          have h₁ := (List.getElem?_eq_some_iff.mp hs).1
          have h₂ := List.getElem?_eq_none_iff.mp hs'
          rw [List.getLast?_eq_getElem?, show b.length - 1 = q.offset by omega, hs]
        obtain ⟨q', hq', -⟩ := g.last q.branch b s t hq hlast ht
        exact Keyed.mem_keys.mpr ⟨q', hq'⟩
      | some t' =>
        have hlink : s.next? = some t'.name := by
          obtain ⟨h₁, rfl⟩ := List.getElem?_eq_some_iff.mp hs
          obtain ⟨h₂, rfl⟩ := List.getElem?_eq_some_iff.mp hs'
          exact List.isChain_iff_getElem.mp (g.linked b (List.mem_append_left _ hbmem)) q.offset h₂
        rw [ht, Option.some.injEq] at hlink
        exact Keyed.mem_keys.mpr ⟨⟨q.branch, q.offset + 1⟩, (hplace t _).mpr ⟨t', ⟨b, hq, hs'⟩, hlink.symm⟩⟩
    · rcases g.pending q s t (standsAt_nil.mpr ⟨b, hq, hs⟩) ht with h | h | h
      · exact Keyed.mem_keys.mpr (holds_iff.mp h)
      · exact absurd h List.not_mem_nil
      · exact absurd h (he ▸ List.not_mem_nil)
  have hfirst : ∃ b s, p.branches[0]? = some b ∧ b.head? = some s ∧ s.name = start := by
    obtain ⟨b, bs, hbs⟩ := List.exists_cons_of_ne_nil hb
    have h0 : p.branches[0]? = some b := by rw [hbs]; rfl
    obtain ⟨s, c, rfl⟩ := List.exists_cons_of_ne_nil (g.nonempty b (List.mem_of_getElem? h0))
    exact ⟨_, s, h0, rfl, g.first _ s h0 rfl⟩
  refine ⟨g.sorted, fun n => ⟨fun hn => ?_, fun hn => ?_⟩, hplace, by simpa using g.nodup,
    fun q s hs => (hdecl q s hs).1, g.nonempty,
    fun b hb => g.linked b (List.mem_append_left _ hb), g.last, hfirst, g.later, hclosed⟩
  · obtain ⟨q, hq⟩ := Keyed.mem_keys.mp hn
    obtain ⟨s, hs, rfl⟩ := (hplace n q).mp hq
    exact (hdecl q s hs).2
  · induction hn with
    | start =>
      obtain ⟨b, s, h0, hs, hname⟩ := hfirst
      rw [List.head?_eq_getElem?] at hs
      exact Keyed.mem_keys.mpr ⟨⟨0, 0⟩, (hplace start _).mpr ⟨s, ⟨b, h0, hs⟩, hname⟩⟩
    | step _ hs ht ih =>
      obtain ⟨q, hq⟩ := Keyed.mem_keys.mp ih
      obtain ⟨s', hs', rfl⟩ := (hplace _ q).mp hq
      rw [(hdecl q s' hs').1, Option.some.injEq] at hs
      exact hclosed q s' _ hs' (hs ▸ ht)

end Partition

/-- **The partition of a coherent table divides the states that are reachable in it.** -/
theorem divides_partition {states : Keyed (State W)} {start : String} (hc : Coherent states start) :
    Divides states start (partition start states).branches (partition start states).index := by
  obtain ⟨g, hheld, hb⟩ := (Partition.growing_start states start [start]).enter hc .start
    (.inl ⟨rfl, rfl⟩)
  have hd := Partition.due_enter_le start (⟨[], [], states, []⟩ : Partition W)
  rw [show (⟨[], [], states, []⟩ : Partition W).due = Partition.owed states from Nat.zero_add _] at hd
  obtain ⟨g', he, hb'⟩ := (g.release hheld).run hc (Partition.owed states) hb hd
  rw [partition, Partition.entryBound_eq]
  exact g'.divides he hb'

end StepFlow
