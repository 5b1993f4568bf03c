import Mathlib.Data.Finset.Card
import Mathlib.Logic.Relation
import StepFlow.Proofs.Execution.Closed

/-!
# Acyclic workflows

A workflow is acyclic if no state can be followed, sooner or later, by itself, and if the workflows nested
in it are acyclic as well. Then every state has a rank, which falls whenever one state follows another.

* `Workflow.Follows`, `Workflow.Acyclic`: the order of the states, and workflows without a cycle;
* `Workflow.rank`, `Workflow.rank_lt`: the number of states that are still to come;
* `Workflow.nodup_of_chain`: states that follow each other are different;
* `Workflow.sizeOf_nested`: a nested workflow is smaller;
* `Workflow.descends`, `Workflow.acyclic_of_descends`: a test for concrete workflows.
-/

namespace StepFlow.Workflow

/-- A state of the workflow can be followed by another one. -/
def Follows (w : Workflow) (n m : String) : Prop := ∃ s, w.state? n = some s ∧ m ∈ s.successors

/-- No state follows itself, neither at once nor later, in the workflow and in those nested in it. -/
inductive Acyclic : Workflow → Prop where
  | mk {w : Workflow} : (∀ n, ¬Relation.TransGen w.Follows n n) →
      (∀ n s v, w.state? n = some s → v ∈ s.nested → v.Acyclic) → w.Acyclic

variable {w v : Workflow} {n m : String} {s : State Workflow}

theorem Acyclic.irrefl (h : w.Acyclic) (n : String) : ¬Relation.TransGen w.Follows n n := by
  obtain ⟨hi, -⟩ := h
  exact hi n

theorem Acyclic.nested (h : w.Acyclic) (hs : w.state? n = some s) (hv : v ∈ s.nested) : v.Acyclic := by
  obtain ⟨-, hn⟩ := h
  exact hn n s v hs hv

/-! ## Ranks -/

theorem mem_keys_of_state? (h : w.state? n = some s) : n ∈ w.index.keys := by
  obtain ⟨p, hp, -⟩ := Option.bind_eq_some_iff.mp h
  exact Keyed.mem_keys.mpr ⟨p, hp⟩

theorem Closed.follows (hw : w.Closed) (h : w.Follows n m) : ∃ s, w.state? m = some s := by
  obtain ⟨s, hs, hm⟩ := h
  exact hw.leads hs (State.mem_successors.mp hm)

open Classical in
/-- The number of states that can still come after a state. -/
noncomputable def rank (w : Workflow) (n : String) : Nat :=
  (w.index.keys.toFinset.filter fun m => Relation.TransGen w.Follows n m).card

/-- **The rank falls from a state to the next one.** Everything that can come after the next state can
come after this one, and so can the next state itself, which does not come after itself. -/
theorem rank_lt (hw : w.Closed) (ha : w.Acyclic) (h : w.Follows n m) : w.rank m < w.rank n := by
  classical
  refine Finset.card_lt_card (Finset.ssubset_iff_of_subset ?_ |>.mpr ⟨m, ?_, ?_⟩)
  · intro k hk
    rw [Finset.mem_filter] at hk ⊢
    exact ⟨hk.1, .trans (.single h) hk.2⟩
  · obtain ⟨s, hs⟩ := hw.follows h
    rw [Finset.mem_filter, List.mem_toFinset]
    exact ⟨mem_keys_of_state? hs, .single h⟩
  · rw [Finset.mem_filter]
    exact fun hk => ha.irrefl m hk.2

theorem nodup_of_chain (hw : w.Closed) (ha : w.Acyclic) {names : List String}
    (h : names.IsChain fun later earlier => w.Follows earlier later) : names.Nodup := by
  have hrank : (names.map w.rank).IsChain (· < ·) :=
    (List.isChain_map w.rank).mpr (h.imp fun _ _ hf => rank_lt hw ha hf)
  exact List.Nodup.of_map w.rank (hrank.pairwise.imp fun hlt => Nat.ne_of_lt hlt)

/-! ## Nested workflows -/

theorem sizeOf_nested_state (h : v ∈ s.nested) : sizeOf v < sizeOf s := by
  cases s with
  | parallel s =>
    obtain ⟨name, comment, paths, handling, recovery, branches, transition⟩ := s
    have : sizeOf v < sizeOf branches := List.sizeOf_lt_of_mem h
    simp only [State.parallel.sizeOf_spec, ParallelState.mk.sizeOf_spec]
    omega
  | map s =>
    obtain ⟨name, comment, paths, handling, recovery, iterator, itemsPath, maxConcurrency, transition⟩ := s
    cases List.mem_singleton.mp h
    simp only [State.map.sizeOf_spec, MapState.mk.sizeOf_spec]
    omega
  | _ => cases h

theorem sizeOf_nested (hs : w.state? n = some s) (hv : v ∈ s.nested) : sizeOf v < sizeOf w := by
  obtain ⟨p, -, h⟩ := Option.bind_eq_some_iff.mp hs
  obtain ⟨branch, hb, hs⟩ := Option.bind_eq_some_iff.mp h
  have hbranch := List.sizeOf_lt_of_mem (List.mem_of_getElem? hb)
  have hstate := List.sizeOf_lt_of_mem (List.mem_of_getElem? hs)
  have hnested := sizeOf_nested_state hv
  obtain ⟨header, branches, index⟩ := w
  simp only [Workflow.branches, Workflow.mk.sizeOf_spec] at *
  omega

/-! ## Concrete workflows -/

/-- In the workflow, and in those nested in it down to some depth, every state leads only to states that
are given a lower number. -/
def descends (number : String → Nat) : Nat → Workflow → Bool
  | 0, _ => false
  | depth + 1, w => w.index.all fun entry => (w.state? entry.1).all fun s =>
      s.successors.all (fun m => number m < number entry.1) && s.nested.all (descends number depth)

theorem acyclic_of_descends {number : String → Nat} {depth : Nat} (h : descends number depth w = true) :
    w.Acyclic := by
  induction depth generalizing w with
  | zero => cases h
  | succ depth ih =>
    have hstate : ∀ n s, w.state? n = some s → (∀ m ∈ s.successors, number m < number n) ∧
        ∀ v ∈ s.nested, descends number depth v = true := by
      intro n s hs
      obtain ⟨p, hp, -⟩ := Option.bind_eq_some_iff.mp hs
      have hentry := List.all_eq_true.mp h (n, p) (Keyed.mem_of_find? hp)
      rw [hs, Option.all_some, Bool.and_eq_true_iff, List.all_eq_true, List.all_eq_true] at hentry
      exact ⟨fun m hm => of_decide_eq_true (hentry.1 m hm), hentry.2⟩
    refine .mk (fun n hn => ?_) fun n s v hs hv => ih ((hstate n s hs).2 v hv)
    have hfalls : ∀ m, Relation.TransGen w.Follows n m → number m < number n := by
      intro m hm
      induction hm with
      | single h =>
        obtain ⟨s, hs, hm⟩ := h
        exact (hstate _ s hs).1 _ hm
      | tail _ h ih =>
        obtain ⟨s, hs, hm⟩ := h
        exact Nat.lt_trans ((hstate _ s hs).1 _ hm) ih
    exact Nat.lt_irrefl _ (hfalls n hn)

end StepFlow.Workflow
