import StepFlow.Proofs.Execution.Descent
import StepFlow.Proofs.Execution.Progress
import StepFlow.Proofs.Execution.Rounds

/-!
# Executions come to an end

In an acyclic workflow every move that is due leads down, and the schedule finds such a move until the
workflow has ended. So an execution of it comes to an end, whatever the tasks answer.

* `Run.not_forever`: moves that are due do not go on for ever, in whatever order they are made;
* `Run.exists_drive`: the schedule leads a run to its end;
* **`terminates_of_acyclic`**: executions of acyclic workflows are bounded and come to an end.
-/

namespace StepFlow

namespace Run

variable {σ : Type} {setting : Setting σ} {limits : Limits} {r : Run σ} {w : Workflow} {memory : σ}
  {identifier : String} {input : Json}

/-- **Moves that are due do not go on for ever**, in whatever order they are made. -/
theorem not_forever (hw : w.Closed) (ha : w.Acyclic) (runs : Nat → Run σ)
    (hfirst : runs 0 = start setting memory identifier w input) :
    ¬∀ n, ∃ m, (runs n).Due limits m ∧ runs (n + 1) = (runs n).apply setting m := by
  intro hmoves
  have hsteps : ∀ n, Scene.Steps (fun _ _ => True) (start setting memory identifier w input).scene
      (runs n).scene := by
    intro n
    induction n with
    | zero =>
      rw [hfirst]
      exact .refl
    | succ n ih =>
      obtain ⟨m, -, he⟩ := hmoves n
      rw [he]
      exact ih.trans (steps_apply setting.allows_any (linked_of_steps ih) m)
  have hbelow : ∀ n, Below limits (runs (n + 1)) (runs n) := fun n => by
    obtain ⟨m, hm, he⟩ := hmoves n
    rw [he]
    exact below_of_due hw ha (hsteps n) hm
  exact (wellFounded_iff_isEmpty_descending_chain.mp (wellFounded_below limits)).false ⟨runs, hbelow⟩

/-- **The schedule leads a run to its end.** -/
theorem exists_drive (hw : w.Closed) (ha : w.Acyclic)
    (h : Scene.Steps (fun _ _ => True) (start setting memory identifier w input).scene r.scene)
    (hs : r.scene.Settled) : ∃ fuel result, r.drive setting limits fuel = some result := by
  induction r using (wellFounded_below limits).induction with
  | _ r ih =>
    cases he : r.ending? with
    | some ending => exact ⟨1, _, by rw [drive, he]⟩
    | none =>
      cases hc : r.choose limits with
      | move m =>
        have hsteps := h.trans (steps_apply setting.allows_any (linked_of_steps h) m)
        obtain ⟨fuel, result, hd⟩ := ih _ (below_of_due hw ha h (due_of_choose hc)) hsteps
          (settled_apply h hs m)
        exact ⟨fuel + 1, result, by rw [drive, he, hc]; exact hd⟩
      | cutOff time => exact ⟨1, _, by rw [drive, he, hc]⟩
      | stuck => exact absurd hc (not_stuck h hs he)

theorem drive_add {fuel : Nat} {result : Run σ × Close} (h : r.drive setting limits fuel = some result)
    (more : Nat) : r.drive setting limits (fuel + more) = some result := by
  induction fuel generalizing r with
  | zero => cases h
  | succ fuel ih =>
    rw [Nat.succ_add]
    unfold drive at h ⊢
    split at h
    · exact h
    · split at h
      · exact ih h
      · exact h
      · cases h

end Run

section run

variable {σ : Type} {setting : Setting σ} {memory : σ} {identifier : String} {w : Workflow} {input : Json}

theorem exists_report (hw : w.Closed) (ha : w.Acyclic) (limit : Option Duration) (cancelAt : Option Nat) :
    ∃ fuel report, ∀ more,
      w.executeWithin (fuel + more) setting memory identifier limit cancelAt input = some report := by
  unfold Workflow.executeWithin
  dsimp only
  generalize hfirst : (if cancelAt = some 0 then
    (Run.start setting memory identifier w input).apply setting .cancel
    else Run.start setting memory identifier w input) = first
  have hreach : Scene.Steps (fun _ _ => True) (Run.start setting memory identifier w input).scene
      first.scene ∧ first.scene.Settled := by
    subst hfirst
    split
    · exact ⟨Run.steps_apply setting.allows_any Run.linked_start .cancel,
        Run.settled_start.cancelWhere⟩
    · exact ⟨.refl, Run.settled_start⟩
  obtain ⟨fuel, ⟨r, close⟩, hd⟩ := Run.exists_drive hw ha hreach.1 hreach.2
  cases close with
  | ended ending => exact ⟨fuel, _, fun more => by rw [Run.drive_add hd more]⟩
  | cutOff => exact ⟨fuel, _, fun more => by rw [Run.drive_add hd more]⟩

/-- **Executions of acyclic workflows are bounded and come to an end.** Every thread was given a job, and
in every order of steps it enters no state of its workflow twice and makes no more attempts of a state than
the retriers of the state allow. Moves that are due cannot go on for ever, and the execution gives a report,
whatever the tasks answer, and whether or not it is limited in time or cancelled. -/
theorem terminates_of_acyclic {document : Json} (h : Workflow.compile document = .ok w) (ha : w.Acyclic)
    (setting : Setting σ) (memory : σ) (identifier : String) (input : Json) :
    (∀ c, Scene.Steps (fun _ _ => True) (Run.start setting memory identifier w input).scene c →
      (∀ (i : Nat) (t : Thread), c.threads[i]? = some t →
        ∃ job, Assigned (fun _ _ => True) (Run.job setting identifier w input)
          (Run.start setting memory identifier w input).scene c i job) ∧
      ∀ i job, Assigned (fun _ _ => True) (Run.job setting identifier w input)
        (Run.start setting memory identifier w input).scene c i job → c.Bounded i job) ∧
    (∀ (limits : Limits) (runs : Nat → Run σ), runs 0 = Run.start setting memory identifier w input →
      ¬∀ n, ∃ m, (runs n).Due limits m ∧ runs (n + 1) = (runs n).apply setting m) ∧
    ∀ limit cancelAt, ∃ fuel report,
      Scene.Steps (fun _ _ => True) (Run.start setting memory identifier w input).scene
        report.run.scene ∧
      ∀ more,
        w.executeWithin (fuel + more) setting memory identifier limit cancelAt input = some report := by
  have hw := closed_compile h
  refine ⟨fun c hc => ⟨fun i t ht => exists_assigned (fun _ _ ht => (Run.start_eq_some.mp ht).1) hc ht,
      fun i job hjob => rounds_of_steps hw ha hc hjob⟩,
    fun limits runs hfirst => Run.not_forever hw ha runs hfirst,
    fun limit cancelAt => ?_⟩
  obtain ⟨fuel, report, hr⟩ := exists_report hw ha limit cancelAt
  exact ⟨fuel, report, (Run.steps_executeWithin setting.allows_any (hr 0)).1, hr⟩

end run

/-- A document whose first task is retried and then caught, and whose last state runs a branch. -/
def recoveringDocument : Json :=
  .obj [("StartAt", .str "A"), ("States", .obj [
    ("A", .obj [
      ("Catch", .arr [.obj [("ErrorEquals", .arr [.str "States.ALL"]), ("Next", .str "B")]]),
      ("Next", .str "C"),
      ("Resource", .str "script:x"),
      ("Retry", .arr [.obj [("ErrorEquals", .arr [.str "States.ALL"]), ("MaxAttempts", .int 2)]]),
      ("Type", .str "Task")]),
    ("B", .obj [("Next", .str "C"), ("Type", .str "Pass")]),
    ("C", .obj [("Branches", .arr [taskBranch]), ("End", .bool true), ("Type", .str "Parallel")])])]

/-- The first task of its execution is attempted as often as it may be when every task fails. -/
theorem terminates_of_recoveringDocument : ∃ w report, Workflow.compile recoveringDocument = .ok w ∧
    w.Acyclic ∧
    (∃ fuel, w.executeWithin fuel failingSetting () "run" none none (.obj []) = some report) ∧
    report.run.scene.Bounded 0 (Run.job failingSetting "run" w (.obj [])) ∧
    (w.executeWithin 60 failingSetting () "run" none none (.obj [])).map
      (fun r => attemptsOf "A" (r.run.scene.notes 0)) = some 3 := by
  obtain ⟨w, hw⟩ : ∃ w, Workflow.compile recoveringDocument = .ok w := ⟨_, by rfl⟩
  have hdescends : (Workflow.compile recoveringDocument).toOption.map
      (Workflow.descends (["C", "B", "A"].idxOf ·) 2) = some true := by decide +kernel
  have hattempts : ((Workflow.compile recoveringDocument).toOption.bind fun w =>
      (w.executeWithin 60 failingSetting () "run" none none (.obj [])).map fun r =>
        attemptsOf "A" (r.run.scene.notes 0)) = some 3 := by decide +kernel
  rw [hw] at hdescends hattempts
  have ha : w.Acyclic := Workflow.acyclic_of_descends (Option.some.inj hdescends)
  obtain ⟨hbounded, -, hends⟩ := terminates_of_acyclic hw ha failingSetting () "run" (.obj [])
  obtain ⟨fuel, report, hsteps, hr⟩ := hends none none
  exact ⟨w, report, hw, ha, ⟨fuel, hr 0⟩, (hbounded _ hsteps).2 0 _ .root, hattempts⟩

end StepFlow
