import StepFlow.Workflow.State
import StepFlow.Proofs.Keyed

/-!
# Where a state may lead

A state leads on by its transition, and it branches off by the targets of its rules, its default and
its catchers.

* `State.BranchesTo`, `State.LeadsTo`: the two ways together, as relations;
* `State.mem_branchTargets`, `State.mem_successors`: the lists of targets hold exactly these names;
* `Reachable`: the names to which the states of a table lead, from a start on.
-/

namespace StepFlow

variable {W : Type}

namespace State

/-- The state branches off to the state with a name: by a rule, its default or a catcher. -/
def BranchesTo (s : State W) (t : String) : Prop := t ∈ s.choiceTargets ∨ t ∈ s.catchTargets

/-- The state can be followed by the state with a name. -/
def LeadsTo (s : State W) (t : String) : Prop := s.next? = some t ∨ s.BranchesTo t

theorem mem_foldl_distinct {t : String} (l seen : List String) :
    t ∈ l.foldl (fun seen t => if seen.contains t then seen else seen ++ [t]) seen ↔
      t ∈ seen ∨ t ∈ l := by
  induction l generalizing seen with
  | nil => simp
  | cons a l ih =>
    rw [List.foldl_cons, ih, List.mem_cons]
    split
    · next h =>
      have ha : a ∈ seen := by simpa using h
      constructor
      · rintro (h | h)
        · exact .inl h
        · exact .inr (.inr h)
      · rintro (h | rfl | h)
        · exact .inl h
        · exact .inl ha
        · exact .inr h
    · rw [List.mem_append, List.mem_singleton, or_assoc]

theorem mem_branchTargets {s : State W} {t : String} : t ∈ s.branchTargets ↔ s.BranchesTo t := by
  rw [branchTargets, mem_foldl_distinct, List.mem_append, BranchesTo]
  simp

theorem mem_successors {s : State W} {t : String} : t ∈ s.successors ↔ s.LeadsTo t := by
  rw [successors, mem_foldl_distinct, Option.mem_toList, mem_branchTargets, LeadsTo]

end State

/-- The names to which the states of a table lead, from `start` on. -/
inductive Reachable (states : Keyed (State W)) (start : String) : String → Prop where
  | start : Reachable states start start
  | step {n t : String} {s : State W} : Reachable states start n → Keyed.find? n states = some s →
      s.LeadsTo t → Reachable states start t

/-- Every state stands under its own name, the start is declared, and so is every name to which a state
leads. -/
structure Coherent (states : Keyed (State W)) (start : String) : Prop where
  named : ∀ n s, Keyed.find? n states = some s → s.name = n
  start : ∃ s, Keyed.find? start states = some s
  closed : ∀ n s t, Keyed.find? n states = some s → s.LeadsTo t → ∃ s', Keyed.find? t states = some s'

theorem Coherent.declared {states : Keyed (State W)} {start n : String} (h : Coherent states start)
    (hn : Reachable states start n) : ∃ s, Keyed.find? n states = some s := by
  cases hn with
  | start => exact h.start
  | step _ hs ht => exact h.closed _ _ _ hs ht

end StepFlow
