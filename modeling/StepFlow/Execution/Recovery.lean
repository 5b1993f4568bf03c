import StepFlow.Execution.Work

/-!
# Retrying and catching in a run

A state that fails is run again as long as the first retrier that applies to the error has attempts
left. Every retrier counts its own attempts. After that the first catcher that applies leads on.

* `nextRetry`: the delay before the next attempt, and the attempts that are used up by it;
* `remaining_nextRetry`: every retry leaves fewer attempts;
* `maxCount`, `State.recover`: the attempts of a state, up to the last one that can be counted;
* `State.process`: a state from its entry to its exit.
-/

namespace StepFlow

/-- Retriers, each with the number of attempts that it has used up. -/
abbrev Tally : Type := List (Retrier × Nat)

namespace Tally

/-- The retriers before the first attempt. -/
def start (retriers : List Retrier) : Tally := retriers.map fun r => (r, 0)

def remaining : Tally → Nat
  | [] => 0
  | (r, used) :: rest => (r.maxAttempts - used) + remaining rest

/-- The delay before the next attempt after an error, and the attempts that are used up by it. The
first retrier that applies decides, also if it has no attempts left. -/
def nextRetry (error : ErrorName) : Tally → Option (Duration × Tally)
  | [] => none
  | (r, used) :: rest =>
    if r.applies error then
      if used < r.maxAttempts then some (r.delay used, (r, used + 1) :: rest) else none
    else (nextRetry error rest).map fun next => (next.1, (r, used) :: next.2)

/-- Every retry leaves fewer attempts. -/
theorem remaining_nextRetry {error : ErrorName} {t t' : Tally} {d : Duration}
    (h : nextRetry error t = some (d, t')) : remaining t' + 1 = remaining t := by
  induction t generalizing d t' with
  | nil => simp [nextRetry] at h
  | cons a rest ih =>
    obtain ⟨r, used⟩ := a
    simp only [nextRetry] at h
    split at h
    · split at h
      · simp only [Option.some.injEq, Prod.mk.injEq] at h
        obtain ⟨-, rfl⟩ := h
        simp only [remaining]
        omega
      · exact absurd h (by simp)
    · cases hr : nextRetry error rest with
      | none => simp [hr] at h
      | some next =>
        simp only [hr, Option.map_some, Option.some.injEq, Prod.mk.injEq] at h
        obtain ⟨-, rfl⟩ := h
        have := ih hr
        simp only [remaining]
        omega

end Tally

/-- The greatest number that counters of attempts and retries hold: `2 ^ 32 - 1`. -/
def maxCount : Nat := 4294967295

namespace State

def retriers (s : State Workflow) : List Retrier := (s.recovery?.map Recovery.retriers).getD []

def catchers (s : State Workflow) : List Catcher := (s.recovery?.map Recovery.catchers).getD []

/-- One attempt of a state with the context that belongs to it. -/
def attemptOnce (s : State Workflow) (context : Context) (retries : Nat) (input : Json) :
    Process (Except Stop Step) :=
  .look fun present =>
    let here := context.atState s.name retries present.time
    .note (.attempt ⟨s.name, retries, input, here⟩) (s.work here present input)

/-- The step to where a catcher leads, with the failure written into the input. -/
def caught (c : Catcher) (context : Context) (input : Json) (f : Failure) : Except Stop Step :=
  match merge c.resultPath context input f.document with
  | .ok output => .ok ⟨.next c.next, output⟩
  | .error e => .error (.failure e)

/-- What follows a failure that is not retried. -/
def handle (s : State Workflow) (context : Context) (input : Json) (f : Failure) :
    Process (Except Stop Step) :=
  match s.catchers.find? fun c => c.applies f.name with
  | some c => .note (.event (.caught s.name f c.next)) (.done (caught c context input f))
  | none => .done (.error (.failure f))

/-- The attempts of a state, of which `retries` have been retries already. A retry that cannot be counted
breaks the state off. -/
def recover (s : State Workflow) (context : Context) (input : Json) (tally : Tally) (retries : Nat) :
    Process (Except Stop Step) :=
  (s.attemptOnce context retries input).bind fun
    | .error (.failure f) =>
      match _h : tally.nextRetry f.name with
      | some (delay, tally') =>
        if retries < maxCount then
          .note (.event (.retried s.name f (retries + 1) delay)) <| .sleep delay fun
            | .elapsed => s.recover context input tally' (retries + 1)
            | .interrupted => .done (.error .cancelled)
        else .done (.error .brokenOff)
      | none => s.handle context input f
    | result => .done result
termination_by tally.remaining
decreasing_by
  have := Tally.remaining_nextRetry _h
  omega

/-- A state from its entry to its exit. -/
def process (s : State Workflow) (context : Context) (input : Json) : Process (Except Stop Step) :=
  .note (.event (.entered s.name input)) <|
    (s.recover context input (.start s.retriers) 0).bind fun
      | .ok step => .note (.event (.exited s.name step.output)) (.done (.ok step))
      | .error stop => .done (.error stop)

end State

end StepFlow
