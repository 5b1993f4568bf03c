import StepFlow.Execution.Work

/-!
# Names of failures

A state fails by itself with one of the names that the library gives. So does each of the computations
that a state consists of, from the first cut of its input to the last cut of its output.

* `RaisesBuiltins`: the computations whose failures have such names, and how they are put together;
* `raisesBuiltins_cut`, `raisesBuiltins_resolve`, `raisesBuiltins_complete`: the flow of data;
* `PassState.raisesBuiltins_step` and its like: what the states compute.
-/

namespace StepFlow

/-- Every failure of a computation has a name that the library gives. -/
def RaisesBuiltins {α : Type} (r : Except Trouble α) : Prop :=
  ∀ f, r = .error (.failure f) → f.name ∈ ErrorName.builtins

namespace RaisesBuiltins

variable {α β : Type} {r : Except Trouble α} {name : ErrorName} {cause : String}

theorem ok (a : α) : RaisesBuiltins (.ok a) := nofun

theorem failure (h : name ∈ ErrorName.builtins) :
    RaisesBuiltins (.error (.failure ⟨name, cause⟩) : Except Trouble α) := fun _ he => by
  cases he
  exact h

theorem bind {k : α → Except Trouble β} (hr : RaisesBuiltins r) (hk : ∀ a, RaisesBuiltins (k a)) :
    RaisesBuiltins (r >>= k) := by
  cases r with
  | ok a => exact hk a
  | error t => exact fun f he => hr f (by cases he; rfl)

theorem map {g : α → β} (hr : RaisesBuiltins r) : RaisesBuiltins (r.map g) := by
  cases r with
  | ok a => exact ok (g a)
  | error t => exact fun f he => hr f (by cases he; rfl)

theorem path (e : PathError) (h : name ∈ ErrorName.builtins) :
    RaisesBuiltins (.error (e.trouble ⟨name, cause⟩) : Except Trouble α) := by
  cases e with
  | overrun => exact nofun
  | _ => exact failure h

theorem call (e : IntrinsicError) (h : name ∈ ErrorName.builtins) :
    RaisesBuiltins (.error (e.trouble ⟨name, cause⟩) : Except Trouble α) := by
  cases e with
  | unresolved e => exact path e h
  | _ => exact failure h

theorem condition (e : ConditionError) (h : name ∈ ErrorName.builtins) :
    RaisesBuiltins (.error (e.trouble ⟨name, cause⟩) : Except Trouble α) := by
  cases e with
  | path e => exact path e h
  | _ => exact failure h

end RaisesBuiltins

/-! ## The flow of data -/

variable {context : Context} {input value : Json} {supply : Supply}

theorem raisesBuiltins_cut {field : String} {spec : Option (PathSpec Path)} :
    RaisesBuiltins (cut field spec context value) := by
  unfold cut
  split
  · exact .ok _
  · exact .ok _
  · split
    · exact .ok _
    · exact .path _ (by decide)

namespace Payload

theorem raisesBuiltins_resolveText {key text : String} :
    RaisesBuiltins (resolveText .parameterPathFailure context input supply key text) := by
  unfold resolveText
  split
  · split
    · exact .failure (by decide)
    · split
      · exact .ok _
      · exact .path _ (by decide)
  · split
    · split
      · exact .ok _
      · exact .call _ (by decide)
    · exact .ok _

theorem raisesBuiltins_resolveDynamic {key : String} {content : Json} :
    RaisesBuiltins (resolveDynamic .parameterPathFailure context input supply key content) := by
  unfold resolveDynamic
  split
  · exact raisesBuiltins_resolveText
  · exact .failure (by decide)

mutual

theorem raisesBuiltins_resolve (supply : Supply) (template : Json) :
    RaisesBuiltins (resolve .parameterPathFailure context input supply template) := by
  match template with
  | .obj members => exact (raisesBuiltins_resolveMembers supply 0 [] members).map
  | .arr items => exact (raisesBuiltins_resolveItems supply 0 items).map
  | .null | .bool _ | .num _ | .str _ => exact .ok _

theorem raisesBuiltins_resolveMembers (supply : Supply) (i : Nat) (filled : Keyed Json)
    (members : List (String × Json)) :
    RaisesBuiltins (resolveMembers .parameterPathFailure context input supply i filled members) := by
  match members with
  | [] => exact .ok _
  | (key, value) :: rest =>
    rw [resolveMembers]
    split
    · exact .bind raisesBuiltins_resolveDynamic fun _ => raisesBuiltins_resolveMembers supply _ _ rest
    · exact .bind (raisesBuiltins_resolve _ value) fun _ => raisesBuiltins_resolveMembers supply _ _ rest

theorem raisesBuiltins_resolveItems (supply : Supply) (i : Nat) (items : List Json) :
    RaisesBuiltins (resolveItems .parameterPathFailure context input supply i items) := by
  match items with
  | [] => exact .ok _
  | value :: rest =>
    exact .bind (raisesBuiltins_resolve _ value) fun _ =>
      .bind (raisesBuiltins_resolveItems supply _ rest) fun _ => .ok _

end

end Payload

theorem raisesBuiltins_reshape {template : Option Json} :
    RaisesBuiltins (reshape template context supply value) := by
  unfold reshape
  split
  · exact .ok _
  · exact Payload.raisesBuiltins_resolve _ _

theorem name_of_merge {spec : Option (PathSpec ReferencePath)} {result : Json} {f : Failure}
    (h : merge spec context input result = .error f) : f.name ∈ ErrorName.builtins := by
  unfold merge at h
  split at h
  · cases h
  · cases h
  · split at h
    · cases h
    · cases h
      exact (by decide : ErrorName.resultPathMatchFailure ∈ ErrorName.builtins)

theorem raisesBuiltins_complete {paths : DataPaths} {handling : ResultHandling} {selector : Option Json}
    {transition : Transition} {result : Json} :
    RaisesBuiltins (complete paths handling selector transition context supply input result) := by
  unfold complete
  refine .bind raisesBuiltins_reshape fun selected => .bind ?_ fun joined =>
    .bind raisesBuiltins_cut fun output => .ok _
  cases h : merge handling.resultPath context input selected with
  | ok joined => exact .ok _
  | error f => exact .failure (name_of_merge h)

/-! ## What the states compute -/

theorem raisesBuiltins_readData {p : Path} : RaisesBuiltins (readData p context value) := by
  unfold readData
  split
  · exact .ok _
  · exact .path _ (by decide)

theorem PassState.raisesBuiltins_step {s : PassState} : RaisesBuiltins (s.step context supply input) := by
  unfold PassState.step
  refine .bind raisesBuiltins_cut fun effective => ?_
  dsimp only
  split
  · exact .bind (.ok _) fun _ => raisesBuiltins_complete
  · exact .bind raisesBuiltins_reshape fun _ => raisesBuiltins_complete

theorem raisesBuiltins_chosen? {rules : List ChoiceRule} :
    RaisesBuiltins (chosen? context input rules) := by
  induction rules with
  | nil => exact .ok _
  | cons rule rest ih =>
    unfold chosen?
    split
    · exact .condition _ (by decide)
    · exact .ok _
    · exact ih

theorem ChoiceState.raisesBuiltins_step {s : ChoiceState} : RaisesBuiltins (s.step context input) := by
  unfold ChoiceState.step
  refine .bind raisesBuiltins_cut fun effective => .bind raisesBuiltins_chosen? fun chosen => ?_
  split
  · exact .bind raisesBuiltins_cut fun _ => .ok _
  · exact .failure (by decide)

theorem SucceedState.raisesBuiltins_step {s : SucceedState} : RaisesBuiltins (s.step context input) :=
  .bind raisesBuiltins_cut fun _ => .bind raisesBuiltins_cut fun _ => .ok _

theorem TaskState.raisesBuiltins_request {s : TaskState} :
    RaisesBuiltins (s.request context supply input) :=
  .bind raisesBuiltins_cut fun _ => .bind raisesBuiltins_reshape fun _ => .ok _

theorem WaitDuration.raisesBuiltins_length {d : WaitDuration} {now : Timestamp} :
    RaisesBuiltins (d.length context now input) := by
  unfold WaitDuration.length
  split
  · exact .ok _
  · exact .ok _
  · refine .bind raisesBuiltins_readData fun value => ?_
    split
    · exact .ok _
    · exact .failure (by decide)
  · refine .bind raisesBuiltins_readData fun value => ?_
    split
    · exact .ok _
    · exact .failure (by decide)

theorem WaitState.raisesBuiltins_pause {s : WaitState} {now : Timestamp} :
    RaisesBuiltins (s.pause context now input) :=
  .bind raisesBuiltins_cut fun _ => .bind WaitDuration.raisesBuiltins_length fun _ => .ok _

theorem WaitState.raisesBuiltins_resume {s : WaitState} : RaisesBuiltins (s.resume context input) :=
  .bind raisesBuiltins_cut fun _ => .ok _

theorem ParallelState.raisesBuiltins_jobs {s : ParallelState Workflow} :
    RaisesBuiltins (s.jobs context supply input) :=
  .bind raisesBuiltins_cut fun _ => .bind raisesBuiltins_reshape fun _ => .ok _

namespace MapState

variable {s : MapState Workflow}

theorem raisesBuiltins_items : RaisesBuiltins (s.items context input) := by
  unfold MapState.items
  refine .bind raisesBuiltins_readData fun value => ?_
  split
  · exact .ok _
  · exact .failure (by decide)

theorem raisesBuiltins_job {index : Nat} {item : Json} :
    RaisesBuiltins (s.job context supply input index item) := by
  unfold MapState.job
  dsimp only
  split
  · exact .ok _
  · exact .bind (Payload.raisesBuiltins_resolve _ _) fun _ => .ok _

theorem raisesBuiltins_jobsFrom {index : Nat} {items : List Json} :
    RaisesBuiltins (s.jobsFrom context supply input index items) := by
  induction items generalizing index with
  | nil => exact .ok _
  | cons item items ih => exact .bind raisesBuiltins_job fun _ => .bind ih fun _ => .ok _

theorem raisesBuiltins_jobs : RaisesBuiltins (s.jobs context supply input) :=
  .bind raisesBuiltins_cut fun _ => .bind raisesBuiltins_items fun _ => raisesBuiltins_jobsFrom

end MapState

end StepFlow
