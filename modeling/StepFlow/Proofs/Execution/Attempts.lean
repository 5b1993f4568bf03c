import Mathlib.Algebra.GroupWithZero.Nat
import StepFlow.Execution.Recovery
import StepFlow.Proofs.Keyed

/-!
# The attempts of a state

What retriers and catchers make of the outcomes of the attempts of a state. The policy is stated on
the history of the attempts alone: an error belongs to the first retrier that applies to it, and how
often a retrier was used is the number of the earlier errors that belong to it.

* `Process.Ends`: what a process does, and how it ends, if no sleep is interrupted;
* `Retrier.owner?`, `Retrier.uses`, `Retrier.delay?`: the policy of the retriers;
* `State.Retried`: the attempts that were retried, one after the other;
* `State.IsLast`, `State.settle`, `State.close`: what becomes of the last attempt;
* `State.recover_by_policy`: the attempts of a state are those of the policy.
-/

namespace StepFlow

/-! ## What processes do -/

/-- What a process does, seen from outside. -/
inductive Act where
  | wrote (note : Note)
  | slept (duration : Duration)
  | asked (request : TaskRequest) (limit : Option Duration)
  | forked (jobs : List Job) (limit : Nat)

namespace Process

variable {α β : Type}

/-- The process does `acts` and ends in a value, for some answers of the surroundings. All that they
answer is possible, but no sleep is interrupted. -/
inductive Ends : Process α → List Act → α → Prop
  | done {a : α} : Ends (.done a) [] a
  | note {n : Note} {rest : Process α} {acts : List Act} {a : α} :
    Ends rest acts a → Ends (.note n rest) (.wrote n :: acts) a
  | look {rest : Present → Process α} {acts : List Act} {a : α} (present : Present) :
    Ends (rest present) acts a → Ends (.look rest) acts a
  | sleep {d : Duration} {rest : Wake → Process α} {acts : List Act} {a : α} :
    Ends (rest .elapsed) acts a → Ends (.sleep d rest) (.slept d :: acts) a
  | call {request : TaskRequest} {limit : Option Duration} {rest : Reply → Process α}
    {acts : List Act} {a : α} (reply : Reply) :
    Ends (rest reply) acts a → Ends (.call request limit rest) (.asked request limit :: acts) a
  | fork {jobs : List Job} {limit : Nat} {rest : Except Stop (List Json) → Process α}
    {acts : List Act} {a : α} (answer : Except Stop (List Json)) :
    Ends (rest answer) acts a → Ends (.fork jobs limit rest) (.forked jobs limit :: acts) a

theorem Ends.bind {p : Process α} {f : α → Process β} {before after : List Act} {a : α} {b : β}
    (hp : p.Ends before a) (hf : (f a).Ends after b) : (p.bind f).Ends (before ++ after) b := by
  induction hp with
  | done => exact hf
  | note _ ih => exact .note (ih hf)
  | look present _ ih => exact .look present (ih hf)
  | sleep _ ih => exact .sleep (ih hf)
  | call reply _ ih => exact .call reply (ih hf)
  | fork answer _ ih => exact .fork answer (ih hf)

theorem ends_bind_iff {p : Process α} {f : α → Process β} {acts : List Act} {b : β} :
    (p.bind f).Ends acts b ↔
      ∃ before a after, p.Ends before a ∧ (f a).Ends after b ∧ acts = before ++ after := by
  constructor
  · intro h
    induction p generalizing acts with
    | done a => exact ⟨[], a, acts, .done, h, rfl⟩
    | note n rest ih =>
      cases h with
      | note h =>
        obtain ⟨before, a, after, hp, hf, rfl⟩ := ih h
        exact ⟨_, a, after, .note hp, hf, rfl⟩
    | look rest ih =>
      cases h with
      | look present h =>
        obtain ⟨before, a, after, hp, hf, rfl⟩ := ih present h
        exact ⟨_, a, after, .look present hp, hf, rfl⟩
    | sleep d rest ih =>
      cases h with
      | sleep h =>
        obtain ⟨before, a, after, hp, hf, rfl⟩ := ih .elapsed h
        exact ⟨_, a, after, .sleep hp, hf, rfl⟩
    | call request limit rest ih =>
      cases h with
      | call reply h =>
        obtain ⟨before, a, after, hp, hf, rfl⟩ := ih reply h
        exact ⟨_, a, after, .call reply hp, hf, rfl⟩
    | fork jobs limit rest ih =>
      cases h with
      | fork answer h =>
        obtain ⟨before, a, after, hp, hf, rfl⟩ := ih answer h
        exact ⟨_, a, after, .fork answer hp, hf, rfl⟩
  · rintro ⟨before, a, after, hp, hf, rfl⟩
    exact hp.bind hf

theorem ends_done_iff {a b : α} {acts : List Act} :
    (done a).Ends acts b ↔ acts = [] ∧ b = a := by
  constructor
  · intro h
    cases h
    exact ⟨rfl, rfl⟩
  · rintro ⟨rfl, rfl⟩
    exact .done

theorem ends_note_iff {n : Note} {rest : Process α} {a : α} {acts : List Act} :
    (note n rest).Ends acts a ↔ ∃ after, rest.Ends after a ∧ acts = .wrote n :: after := by
  constructor
  · intro h
    cases h with
    | note h => exact ⟨_, h, rfl⟩
  · rintro ⟨after, h, rfl⟩
    exact .note h

theorem ends_sleep_iff {d : Duration} {rest : Wake → Process α} {a : α} {acts : List Act} :
    (sleep d rest).Ends acts a ↔ ∃ after, (rest .elapsed).Ends after a ∧ acts = .slept d :: after := by
  constructor
  · intro h
    cases h with
    | sleep h => exact ⟨_, h, rfl⟩
  · rintro ⟨after, h, rfl⟩
    exact .sleep h

end Process

/-! ## The policy of the retriers -/

namespace Retrier

/-- The first retrier that applies to an error. -/
def owner? (retriers : List Retrier) (error : ErrorName) : Option Nat :=
  retriers.findIdx? fun r => r.applies error

/-- How often a retrier was used, which is the number of the errors that belong to it. -/
def uses (retriers : List Retrier) (earlier : List ErrorName) (k : Nat) : Nat :=
  earlier.countP fun error => owner? retriers error = some k

/-- The delay before the next attempt after an error, if the retrier that the error belongs to was used
less often than it may be. -/
def delay? (retriers : List Retrier) (earlier : List ErrorName) (error : ErrorName) :
    Option Duration := do
  let k ← owner? retriers error
  let r ← retriers[k]?
  if uses retriers earlier k < r.maxAttempts then some (r.delay (uses retriers earlier k)) else none

/-- The retriers with the number of the attempts that earlier errors used up. -/
def tally (retriers : List Retrier) (earlier : List ErrorName) : Tally :=
  retriers.mapIdx fun k r => (r, uses retriers earlier k)

theorem tally_nil (retriers : List Retrier) : tally retriers [] = .start retriers := by
  unfold tally Tally.start
  rw [List.mapIdx_eq_iff]
  intro i
  rw [List.getElem?_map]
  rfl

theorem uses_append (retriers : List Retrier) (earlier : List ErrorName) (error : ErrorName)
    (k : Nat) : uses retriers (earlier ++ [error]) k =
      if owner? retriers error = some k then uses retriers earlier k + 1
      else uses retriers earlier k := by
  unfold uses
  rw [List.countP_append, List.countP_singleton]
  simp only [decide_eq_true_eq]
  split <;> rfl

/-- The next retry of retriers that were used `used` times each. -/
theorem nextRetry_mapIdx (error : ErrorName) (retriers : List Retrier) (used : Nat → Nat) :
    Tally.nextRetry error (retriers.mapIdx fun k r => (r, used k)) =
      (owner? retriers error).bind fun k => retriers[k]?.bind fun r =>
        if used k < r.maxAttempts then
          some (r.delay (used k), retriers.mapIdx fun j r => (r, if k = j then used j + 1 else used j))
        else none := by
  induction retriers generalizing used with
  | nil => rfl
  | cons r rest ih =>
    rw [List.mapIdx_cons, Tally.nextRetry]
    unfold owner? at ih ⊢
    rw [List.findIdx?_cons]
    split
    · simp only [Option.bind_some, List.getElem?_cons_zero, List.mapIdx_cons, if_pos]
      split
      · simp
      · rfl
    · rw [ih fun k => used (k + 1)]
      cases List.findIdx? (fun r => r.applies error) rest with
      | none => rfl
      | some k =>
        simp only [Option.bind_some, Option.map_some, List.getElem?_cons_succ]
        cases rest[k]? with
        | none => rfl
        | some owner =>
          simp only [Option.bind_some]
          split
          · simp [List.mapIdx_cons]
          · rfl

theorem nextRetry_tally (retriers : List Retrier) (earlier : List ErrorName) (error : ErrorName) :
    Tally.nextRetry error (tally retriers earlier) =
      (delay? retriers earlier error).map fun d => (d, tally retriers (earlier ++ [error])) := by
  unfold tally delay?
  rw [nextRetry_mapIdx]
  simp only [uses_append]
  cases owner? retriers error with
  | none => rfl
  | some k =>
    simp only [Option.bind_some, Option.bind_eq_bind, Option.some.injEq]
    cases retriers[k]? with
    | none => rfl
    | some r =>
      simp only [Option.bind_some]
      split <;> rfl

end Retrier

/-! ## One attempt -/

/-- An attempt of a state: what it does, and how it ends. -/
structure Trial where
  acts : List Act
  outcome : Except Stop Step

namespace Trial

/-- The error of an attempt, if that is what it ends in. -/
def failure? (t : Trial) : Option Failure :=
  match t.outcome with
  | .error (.failure f) => some f
  | _ => none

theorem failure?_eq_some {t : Trial} {f : Failure} :
    t.failure? = some f ↔ t.outcome = .error (.failure f) := by
  unfold failure?
  split
  · next g hg => rw [hg, Option.some.injEq, Except.error.injEq, Stop.failure.injEq]
  · next h => exact iff_of_false (Option.some_ne_none f).symm (h f)

/-- The names of the errors of some attempts. -/
def errors (trials : List Trial) : List ErrorName :=
  trials.filterMap fun t => t.failure?.map Failure.name

theorem errors_append {trials : List Trial} {t : Trial} {f : Failure} (h : t.failure? = some f) :
    errors (trials ++ [t]) = errors trials ++ [f.name] := by
  simp [errors, h]

end Trial

namespace Context

/-- What a path selects in a context and a document. -/
def select (c : Context) (path : String) (document : Json) : Except PathError Json := do
  (← Path.parse path).read c.value document

/-- The number of retries is there to be read in the context of an attempt. -/
theorem select_retryCount (c : Context) (state : String) (retries : Nat) (now : Timestamp)
    (document : Json) :
    (c.atState state retries now).select "$$.State.RetryCount" document = .ok (.nat retries) := by
  have hpath : Path.parse "$$.State.RetryCount" = .ok ⟨"$$.State.RetryCount", true,
      ⟨"$.State.RetryCount", .root, [.child "State", .child "RetryCount"]⟩⟩ := by
    with_unfolding_all rfl
  have hstate : (c.atState state retries now).value.member? "State" = some (.ofMembers
      [("Name", .str state), ("EnteredTime", .str now.render), ("RetryCount", .nat retries)]) := by
    simp only [atState, withSection, Json.member?, Keyed.find?_insert, if_pos]
  have hcount : (Json.ofMembers [("Name", .str state), ("EnteredTime", .str now.render),
      ("RetryCount", .nat retries)]).member? "RetryCount" = some (.nat retries) := by
    simp only [Json.ofMembers, Keyed.ofList, List.foldl_cons, List.foldl_nil, Json.member?,
      Keyed.find?_insert, if_pos]
  unfold select
  rw [hpath]
  change Path.read _ _ _ = _
  unfold Path.read Query.read Query.overruns Query.get Path.target
  simp only [selectAll, Segment.select, overrunsAlong, Segment.overruns, List.any_cons, List.any_nil,
    Bool.or_false, Bool.false_eq_true, if_false, List.flatMap_cons, List.flatMap_nil, List.append_nil,
    if_pos, hstate, hcount, Option.toList_some]

end Context

namespace State

open Process

variable (s : State Workflow) (context : Context) (input : Json)

/-- The attempt with number `n` can do this, and end so. -/
def Tries (n : Nat) (t : Trial) : Prop :=
  (s.attemptOnce context n input).Ends t.acts t.outcome

/-- The error of an attempt and the delay before the next one, if there is to be one. -/
def retry? (earlier : List Trial) (t : Trial) : Option (Failure × Duration) := do
  let f ← t.failure?
  return (f, ← Retrier.delay? s.retriers (Trial.errors earlier) f.name)

/-- The announcement of the retry that follows earlier ones, and the delay before it. -/
def pause (earlier : List Trial) (f : Failure) (d : Duration) : List Act :=
  [.wrote (.event (.retried s.name f (earlier.length + 1) d)), .slept d]

/-- Attempts that were retried, one after the other, and all that was done until the next one. -/
inductive Retried : List Trial → List Act → Prop
  | start : Retried [] []
  | again {earlier : List Trial} {acts : List Act} {t : Trial} {f : Failure} {d : Duration} :
    Retried earlier acts → s.Tries context input earlier.length t → s.retry? earlier t = some (f, d) →
      earlier.length < maxCount → Retried (earlier ++ [t]) (acts ++ t.acts ++ s.pause earlier f d)

/-- The attempt is not retried, or the retry cannot be counted any more. -/
def IsLast (earlier : List Trial) (t : Trial) : Prop :=
  s.retry? earlier t = none ∨ maxCount ≤ earlier.length

/-- What is done after an attempt that is not to be retried, and how the state ends. An error goes to
the first catcher that applies to it; every other outcome is the outcome of the state. -/
def settle (t : Trial) : Trial :=
  match t.failure? with
  | none => ⟨[], t.outcome⟩
  | some f =>
    match s.catchers.find? fun c => c.applies f.name with
    | none => ⟨[], t.outcome⟩
    | some c =>
      ⟨[.wrote (.event (.caught s.name f c.next))],
        match merge c.resultPath context input f.document with
        | .ok output => .ok ⟨.next c.next, output⟩
        | .error e => .error (.failure e)⟩

/-- What is done after the last attempt, and how the state ends: it breaks off if the attempt is to be
retried all the same. -/
def close (earlier : List Trial) (t : Trial) : Trial :=
  if (s.retry? earlier t).isSome then ⟨[], .error .brokenOff⟩ else s.settle context input t

/-- The number of retries that the retriers allow together. -/
def allowance : Nat := (s.retriers.map Retrier.maxAttempts).sum

variable {s context input}

theorem retry?_eq_some {earlier : List Trial} {t : Trial} {f : Failure} {d : Duration} :
    s.retry? earlier t = some (f, d) ↔
      t.failure? = some f ∧ Retrier.delay? s.retriers (Trial.errors earlier) f.name = some d := by
  unfold retry?
  simp only [Option.bind_eq_bind, Option.bind_eq_some_iff, pure, Option.some.injEq, Prod.mk.injEq]
  constructor
  · rintro ⟨g, hg, e, he, rfl, rfl⟩
    exact ⟨hg, he⟩
  · rintro ⟨hf, hd⟩
    exact ⟨f, hf, d, hd, rfl, rfl⟩

theorem retry?_eq_none {earlier : List Trial} {t : Trial} : s.retry? earlier t = none ↔
    ∀ f, t.failure? = some f → Retrier.delay? s.retriers (Trial.errors earlier) f.name = none := by
  unfold retry?
  simp only [Option.bind_eq_bind, Option.bind_eq_none_iff, pure, reduceCtorEq, imp_false]
  refine forall_congr' fun f => imp_congr_right fun _ => ?_
  exact Option.eq_none_iff_forall_ne_some.symm

theorem close_of_retry {earlier : List Trial} {t : Trial} {next : Failure × Duration}
    (h : s.retry? earlier t = some next) : s.close context input earlier t = ⟨[], .error .brokenOff⟩ := by
  rw [close, h]
  rfl

theorem close_of_settled {earlier : List Trial} {t : Trial} (h : s.retry? earlier t = none) :
    s.close context input earlier t = s.settle context input t := by
  rw [close, h]
  rfl

theorem ends_handle_iff {t : Trial} {f : Failure} {acts : List Act} {result : Except Stop Step}
    (hf : t.failure? = some f) : (s.handle context input f).Ends acts result ↔
      acts = (s.settle context input t).acts ∧ result = (s.settle context input t).outcome := by
  unfold handle settle
  rw [hf]
  dsimp only
  cases s.catchers.find? fun c => c.applies f.name with
  | none => rw [ends_done_iff, Trial.failure?_eq_some.mp hf]
  | some c =>
    simp only [ends_note_iff, ends_done_iff]
    constructor
    · rintro ⟨after, ⟨rfl, rfl⟩, rfl⟩
      exact ⟨rfl, rfl⟩
    · rintro ⟨rfl, rfl⟩
      exact ⟨[], ⟨rfl, rfl⟩, rfl⟩

/-- The attempts of a state that are still to come after some that were retried. -/
def remainder (s : State Workflow) (context : Context) (input : Json) (earlier : List Trial) :
    Process (Except Stop Step) :=
  s.recover context input (Retrier.tally s.retriers (Trial.errors earlier)) earlier.length

theorem remainder_nil :
    s.remainder context input [] = s.recover context input (.start s.retriers) 0 := by
  unfold remainder
  rw [Trial.errors, List.filterMap_nil, Retrier.tally_nil, List.length_nil]

theorem ends_remainder {earlier : List Trial} {acts : List Act} {result : Except Stop Step}
    (h : (s.remainder context input earlier).Ends acts result) :
    ∃ t, s.Tries context input earlier.length t ∧
      ((∃ f d after, s.retry? earlier t = some (f, d) ∧ earlier.length < maxCount ∧
        (s.remainder context input (earlier ++ [t])).Ends after result ∧
        acts = t.acts ++ s.pause earlier f d ++ after) ∨
      s.IsLast earlier t ∧ acts = t.acts ++ (s.close context input earlier t).acts ∧
        result = (s.close context input earlier t).outcome) := by
  unfold remainder at h
  rw [recover] at h
  obtain ⟨done, outcome, after, hdone, hafter, rfl⟩ := ends_bind_iff.mp h
  refine ⟨⟨done, outcome⟩, hdone, ?_⟩
  split at hafter
  · next f =>
    have hf : Trial.failure? ⟨done, .error (.failure f)⟩ = some f := rfl
    split at hafter
    · next d _ hnext =>
      rw [Retrier.nextRetry_tally] at hnext
      obtain ⟨d, hd, heq⟩ := Option.map_eq_some_iff.mp hnext
      cases heq
      have hretry : s.retry? earlier ⟨done, .error (.failure f)⟩ = some (f, d) :=
        retry?_eq_some.mpr ⟨hf, hd⟩
      split at hafter
      · next hcount =>
        left
        obtain ⟨_, hsleep, rfl⟩ := ends_note_iff.mp hafter
        obtain ⟨rest, hrest, rfl⟩ := ends_sleep_iff.mp hsleep
        refine ⟨f, d, rest, hretry, hcount, ?_, (List.append_assoc done (s.pause earlier f d) rest).symm⟩
        unfold remainder
        rw [Trial.errors_append hf, List.length_append, List.length_singleton]
        exact hrest
      · next hcount =>
        right
        obtain ⟨rfl, rfl⟩ := ends_done_iff.mp hafter
        rw [close_of_retry hretry]
        exact ⟨.inr (Nat.le_of_not_lt hcount), rfl, rfl⟩
    · next hnext =>
      right
      rw [Retrier.nextRetry_tally, Option.map_eq_none_iff] at hnext
      obtain ⟨rfl, rfl⟩ := (ends_handle_iff hf).mp hafter
      have hretry : s.retry? earlier ⟨done, .error (.failure f)⟩ = none :=
        retry?_eq_none.mpr fun g hg => by
          cases hf.symm.trans hg
          exact hnext
      rw [close_of_settled hretry]
      exact ⟨.inl hretry, rfl, rfl⟩
  · next hout =>
    right
    have hf : Trial.failure? ⟨done, outcome⟩ = none :=
      Option.eq_none_iff_forall_ne_some.mpr fun f hf => hout f (Trial.failure?_eq_some.mp hf)
    obtain ⟨rfl, rfl⟩ := ends_done_iff.mp hafter
    have hretry : s.retry? earlier ⟨done, result⟩ = none :=
      retry?_eq_none.mpr fun g hg => by cases hf.symm.trans hg
    rw [close_of_settled hretry, settle, hf]
    exact ⟨.inl hretry, rfl, rfl⟩

theorem ends_remainder_of_retry {earlier : List Trial} {t : Trial} {after : List Act} {f : Failure}
    {d : Duration} {result : Except Stop Step} (ht : s.Tries context input earlier.length t)
    (hretry : s.retry? earlier t = some (f, d)) (hcount : earlier.length < maxCount)
    (h : (s.remainder context input (earlier ++ [t])).Ends after result) :
    (s.remainder context input earlier).Ends (t.acts ++ s.pause earlier f d ++ after) result := by
  obtain ⟨hf, hd⟩ := retry?_eq_some.mp hretry
  have hnext : Tally.nextRetry f.name (Retrier.tally s.retriers (Trial.errors earlier)) =
      some (d, Retrier.tally s.retriers (Trial.errors (earlier ++ [t]))) := by
    rw [Retrier.nextRetry_tally, hd, Trial.errors_append hf]
    rfl
  unfold remainder at h ⊢
  rw [recover, List.append_assoc]
  refine Ends.bind ht ?_
  rw [Trial.failure?_eq_some.mp hf]
  dsimp only
  split
  · next hnext' =>
    cases hnext.symm.trans hnext'
    rw [List.length_append] at h
    rw [if_pos hcount]
    exact .note (.sleep h)
  · next hnext' => cases hnext.symm.trans hnext'

theorem ends_remainder_of_uncounted {earlier : List Trial} {t : Trial} {f : Failure} {d : Duration}
    (ht : s.Tries context input earlier.length t) (hretry : s.retry? earlier t = some (f, d))
    (hcount : maxCount ≤ earlier.length) :
    (s.remainder context input earlier).Ends t.acts (.error .brokenOff) := by
  obtain ⟨hf, hd⟩ := retry?_eq_some.mp hretry
  unfold remainder
  rw [recover, ← List.append_nil t.acts]
  refine Ends.bind ht ?_
  rw [Trial.failure?_eq_some.mp hf]
  dsimp only
  split
  · rw [if_neg (Nat.not_lt_of_le hcount)]
    exact .done
  · next hnext =>
    rw [Retrier.nextRetry_tally, hd] at hnext
    cases hnext

theorem ends_remainder_of_settled {earlier : List Trial} {t : Trial}
    (ht : s.Tries context input earlier.length t) (hretry : s.retry? earlier t = none) :
    (s.remainder context input earlier).Ends (t.acts ++ (s.settle context input t).acts)
      (s.settle context input t).outcome := by
  unfold remainder
  rw [recover]
  refine Ends.bind ht ?_
  split
  · next f hout =>
    have hf := Trial.failure?_eq_some.mpr hout
    split
    · next hnext =>
      rw [Retrier.nextRetry_tally, retry?_eq_none.mp hretry f hf] at hnext
      cases hnext
    · exact (ends_handle_iff hf).mpr ⟨rfl, rfl⟩
  · next hout =>
    have hf : t.failure? = none :=
      Option.eq_none_iff_forall_ne_some.mpr fun f hf => hout f (Trial.failure?_eq_some.mp hf)
    unfold settle
    rw [hf]
    exact .done

theorem ends_remainder_of_isLast {earlier : List Trial} {t : Trial}
    (ht : s.Tries context input earlier.length t) (hlast : s.IsLast earlier t) :
    (s.remainder context input earlier).Ends (t.acts ++ (s.close context input earlier t).acts)
      (s.close context input earlier t).outcome := by
  cases hretry : s.retry? earlier t with
  | none =>
    rw [close_of_settled hretry]
    exact ends_remainder_of_settled ht hretry
  | some next =>
    rw [close_of_retry hretry, List.append_nil]
    exact ends_remainder_of_uncounted ht hretry (hlast.resolve_left (by rw [hretry]; exact nofun))

/-! ## All attempts -/

theorem remaining_start : (Tally.start s.retriers).remaining = s.allowance := by
  unfold allowance Tally.start
  induction s.retriers with
  | nil => rfl
  | cons r rest ih =>
    rw [List.map_cons, Tally.remaining, ih, List.map_cons, List.sum_cons, Nat.sub_zero]

theorem remaining_of_retry {earlier : List Trial} {t : Trial} {f : Failure} {d : Duration}
    (h : s.retry? earlier t = some (f, d)) :
    (Retrier.tally s.retriers (Trial.errors (earlier ++ [t]))).remaining + 1 =
      (Retrier.tally s.retriers (Trial.errors earlier)).remaining := by
  obtain ⟨hf, hd⟩ := retry?_eq_some.mp h
  rw [Trial.errors_append hf]
  have hnext : Tally.nextRetry f.name (Retrier.tally s.retriers (Trial.errors earlier)) =
      some (d, Retrier.tally s.retriers (Trial.errors earlier ++ [f.name])) := by
    rw [Retrier.nextRetry_tally, hd]
    rfl
  exact Tally.remaining_nextRetry hnext

theorem Retried.length_add {earlier : List Trial} {acts : List Act}
    (h : s.Retried context input earlier acts) : earlier.length +
      (Retrier.tally s.retriers (Trial.errors earlier)).remaining = s.allowance := by
  induction h with
  | start =>
    rw [Trial.errors, List.filterMap_nil, Retrier.tally_nil, remaining_start]
    exact Nat.zero_add _
  | again hearlier ht hretry hcount ih =>
    have := remaining_of_retry hretry
    rw [List.length_append, List.length_singleton]
    omega

theorem Retried.length_le {earlier : List Trial} {acts : List Act}
    (h : s.Retried context input earlier acts) : earlier.length ≤ maxCount := by
  cases h with
  | start => exact Nat.zero_le _
  | again hearlier ht hretry hcount =>
    rw [List.length_append, List.length_singleton]
    exact hcount

theorem Retried.retry?_eq_none {earlier : List Trial} {acts : List Act} {t : Trial}
    (h : s.Retried context input earlier acts) (hfits : s.allowance ≤ maxCount)
    (hlast : s.IsLast earlier t) : s.retry? earlier t = none := by
  rcases hlast with hretry | hcount
  · exact hretry
  · refine Option.eq_none_iff_forall_ne_some.mpr fun next hretry => ?_
    have hrest := remaining_of_retry hretry
    have := h.length_add
    omega

/-- What follows attempts that were retried follows the start. -/
theorem Retried.ends {earlier : List Trial} {before acts : List Act} {result : Except Stop Step}
    (h : s.Retried context input earlier before)
    (hends : (s.remainder context input earlier).Ends acts result) :
    (s.remainder context input []).Ends (before ++ acts) result := by
  induction h generalizing acts with
  | start => exact hends
  | again hearlier ht hretry hcount ih =>
    rw [List.append_assoc _ _ (pause _ _ _ _), List.append_assoc]
    exact ih (ends_remainder_of_retry ht hretry hcount hends)

theorem Retried.exists_last {earlier : List Trial} {before acts : List Act}
    {result : Except Stop Step} (h : s.Retried context input earlier before)
    (hends : (s.remainder context input earlier).Ends acts result) :
    ∃ earlier' before' last, s.Retried context input earlier' before' ∧
      s.Tries context input earlier'.length last ∧ s.IsLast earlier' last ∧
      before ++ acts = before' ++ last.acts ++ (s.close context input earlier' last).acts ∧
      result = (s.close context input earlier' last).outcome := by
  obtain ⟨t, ht, ⟨f, d, after, hretry, hcount, hafter, rfl⟩ | ⟨hlast, rfl, rfl⟩⟩ := ends_remainder hends
  · have := remaining_of_retry hretry
    rw [← List.append_assoc, ← List.append_assoc]
    exact (h.again ht hretry hcount).exists_last hafter
  · exact ⟨earlier, before, t, h, ht, hlast, (List.append_assoc _ _ _).symm, rfl⟩
termination_by (Retrier.tally s.retriers (Trial.errors earlier)).remaining

/-- Among the attempts of a state there is a last one, whatever their outcomes are. -/
theorem exists_last {o : Nat → Trial} (ho : ∀ n, s.Tries context input n (o n)) :
    ∃ m acts, s.Retried context input ((List.range m).map o) acts ∧
      s.IsLast ((List.range m).map o) (o m) := by
  have hall : ∀ n, (∃ m acts, s.Retried context input ((List.range m).map o) acts ∧
      s.IsLast ((List.range m).map o) (o m)) ∨
      ∃ acts, s.Retried context input ((List.range n).map o) acts := by
    intro n
    induction n with
    | zero => exact .inr ⟨[], .start⟩
    | succ n ih =>
      rcases ih with hdone | ⟨acts, hacts⟩
      · exact .inl hdone
      · cases hretry : s.retry? ((List.range n).map o) (o n) with
        | none => exact .inl ⟨n, acts, hacts, .inl hretry⟩
        | some next =>
          have ht : s.Tries context input ((List.range n).map o).length (o n) := by
            rw [List.length_map, List.length_range]
            exact ho n
          rcases Nat.lt_or_ge ((List.range n).map o).length maxCount with hcount | hcount
          · rw [List.range_succ, List.map_append]
            exact .inr ⟨_, hacts.again ht hretry hcount⟩
          · exact .inl ⟨n, acts, hacts, .inr hcount⟩
  rcases hall (s.allowance + 1) with hdone | ⟨acts, hacts⟩
  · exact hdone
  · have hlen := hacts.length_add
    rw [List.length_map, List.length_range] at hlen
    omega

/-- **A state is retried and caught by its policy.** What it does is a row of attempts that are retried
and a last one after which it is closed, and every such row is possible. There are never more retries than
the retriers allow together, and whatever the outcomes are, one of the first attempts is the last. If the
retries that are allowed can be counted, the last attempt is one that is not to be retried, and then the
catchers decide. Every attempt works on the input of the state, in a context in which the number of
retries can be read. -/
theorem recover_by_policy (s : State Workflow) (context : Context) (input : Json) :
    (∀ acts result, (s.recover context input (.start s.retriers) 0).Ends acts result ↔
      ∃ earlier before last, s.Retried context input earlier before ∧
        s.Tries context input earlier.length last ∧ s.IsLast earlier last ∧
        acts = before ++ last.acts ++ (s.close context input earlier last).acts ∧
        result = (s.close context input earlier last).outcome) ∧
    (∀ earlier before, s.Retried context input earlier before →
      earlier.length ≤ s.allowance ∧ earlier.length ≤ maxCount) ∧
    (∀ o : Nat → Trial, (∀ n, s.Tries context input n (o n)) →
      ∃ m acts, s.Retried context input ((List.range m).map o) acts ∧
        s.IsLast ((List.range m).map o) (o m)) ∧
    (s.allowance ≤ maxCount → ∀ earlier before last, s.Retried context input earlier before →
      s.IsLast earlier last → s.retry? earlier last = none ∧
        s.close context input earlier last = s.settle context input last) ∧
    ∀ n t, s.Tries context input n t ↔ ∃ present acts here,
      here = context.atState s.name n present.time ∧
      (∀ document, here.select "$$.State.RetryCount" document = .ok (.nat n)) ∧
      t.acts = .wrote (.attempt ⟨s.name, n, input, here⟩) :: acts ∧
      Process.Ends (s.work here present input) acts t.outcome := by
  refine ⟨fun acts result => ⟨fun h => ?_, ?_⟩, fun earlier before h => ⟨?_, h.length_le⟩,
    fun o => exists_last, fun hfits earlier before last hearlier hlast => ?_, fun n t => ⟨fun h => ?_, ?_⟩⟩
  · rw [← remainder_nil] at h
    exact Retried.start.exists_last h
  · rintro ⟨earlier, before, last, hearlier, ht, hlast, rfl, rfl⟩
    rw [← remainder_nil, List.append_assoc]
    exact hearlier.ends (ends_remainder_of_isLast ht hlast)
  · have := h.length_add
    omega
  · have hretry := hearlier.retry?_eq_none hfits hlast
    exact ⟨hretry, close_of_settled hretry⟩
  · cases h with
    | look present h =>
      obtain ⟨acts, hacts, heq⟩ := ends_note_iff.mp h
      exact ⟨present, acts, _, rfl, Context.select_retryCount _ _ _ _, heq, hacts⟩
  · rintro ⟨present, acts, here, rfl, -, heq, hacts⟩
    exact .look present (ends_note_iff.mpr ⟨acts, hacts, heq⟩)

/-- A task that is retried once after `A` and five times after other errors. -/
def fragile : State Workflow :=
  .task {
    name := "Call"
    comment := none
    paths := ⟨none, none⟩
    handling := ⟨none, none⟩
    recovery := ⟨none, [⟨["A"], 1, 1, 1⟩, ⟨[matchAll], 1, 5, 1⟩], [⟨[matchAll], "Recover", none⟩]⟩
    resource := ⟨"script", "x"⟩
    timeoutSeconds := 0
    transition := .done }

/-- The attempt of that task with number `n`, if the task fails with a name. -/
def fragileTrial (n : Nat) (error : String) : Trial :=
  ⟨[.wrote (.attempt ⟨"Call", n, .null, Context.empty.atState "Call" n .epoch⟩),
    .asked ⟨⟨"script", "x"⟩, .null⟩ none], .error (.failure ⟨.ofText error, "broken"⟩)⟩

theorem tries_fragile (n : Nat) (error : String) :
    fragile.Tries .empty .null n (fragileTrial n error) := by
  refine .look ⟨.epoch, default⟩ (.note ?_)
  exact .call (.answered (.error (.failed (some error) "broken"))) .done

/-- The second `A` is caught, although the other retrier applies to it and was used only once. -/
theorem recover_by_policy_fragile : fragile.allowance ≤ maxCount ∧
    ∃ acts, (fragile.recover .empty .null (.start fragile.retriers) 0).Ends acts
      (.ok ⟨.next "Recover", Failure.document ⟨.custom "A", "broken"⟩⟩) := by
  have hfirst : fragile.retry? [] (fragileTrial 0 "A") =
      some (⟨.custom "A", "broken"⟩, Retrier.delay ⟨["A"], 1, 1, 1⟩ 0) := by rfl
  have hsecond : fragile.retry? [fragileTrial 0 "A"] (fragileTrial 1 "B") =
      some (⟨.custom "B", "broken"⟩, Retrier.delay ⟨[matchAll], 1, 5, 1⟩ 0) := by rfl
  have hthird : fragile.retry? [fragileTrial 0 "A", fragileTrial 1 "B"] (fragileTrial 2 "A") =
      none := by rfl
  have hearlier := (Retried.start.again (tries_fragile 0 "A") hfirst (by decide)).again
    (tries_fragile 1 "B") hsecond (by decide)
  have hfits : fragile.allowance ≤ maxCount := by decide
  obtain ⟨hends, -, -, hcounted, -⟩ := recover_by_policy fragile .empty .null
  obtain ⟨-, hclose⟩ := hcounted hfits _ _ (fragileTrial 2 "A") hearlier (.inl hthird)
  exact ⟨hfits, _, (hends _ _).mpr
    ⟨_, _, fragileTrial 2 "A", hearlier, tries_fragile 2 "A", .inl hthird, rfl, by rw [hclose]; rfl⟩⟩

end State

end StepFlow
