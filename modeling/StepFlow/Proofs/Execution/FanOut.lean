import Mathlib.Algebra.GroupWithZero.Nat
import Mathlib.Logic.Relation
import StepFlow.Execution.FanOut

/-!
# The schedules of lanes

A schedule is a sequence of turns of which each can be taken, in any order at all. What comes of the
lanes depends on how their workflows end, and on nothing else.

* `Lane.Standing`: how far a lane has come;
* `FanOut.Played`: the lanes after a schedule, and `FanOut.Kept`: what every schedule keeps;
* `FanOut.Played.kept`: the invariant;
* `FanOut.Faithful`, `FanOut.Played.faithful`: the answer to the state is that of its lanes;
* `FanOut.Observes`: what the state sees in one go;
* `FanOut.Played.answer_of_succeed`: lanes that all come to an output give these outputs, whatever the
  schedule and the limit;
* `FanOut.Played.exists_expected`: as long as such lanes give no answer there is a turn to take.
-/

namespace StepFlow

/-- How far a lane has come, apart from what its state knows of it. -/
inductive Lane.Standing where
  | outside
  | inside
  | finished (ending : Ending)

/-- How far a lane has come. -/
def Lane.standing : Lane → Lane.Standing
  | waiting => .outside
  | running => .inside
  | ended _ ending | seen ending => .finished ending

/-- The number of turns that a lane has before it. -/
def Lane.ahead : Lane → Nat
  | waiting => 3
  | running => 2
  | ended _ _ => 1
  | seen _ => 0

theorem getElem?_set_eq_some {α : Type} {l : List α} {i j : Nat} {a b y : α} (h : l[i]? = some a) :
    (l.set i b)[j]? = some y ↔ i = j ∧ y = b ∨ i ≠ j ∧ l[j]? = some y := by
  have hi : i < l.length := (List.getElem?_eq_some_iff.mp h).1
  rw [List.getElem?_set, if_pos hi]
  split
  · next hij =>
    rw [Option.some.injEq]
    constructor
    · rintro rfl
      exact .inl ⟨hij, rfl⟩
    · rintro (⟨-, rfl⟩ | ⟨hne, -⟩)
      · rfl
      · exact absurd hij hne
  · next hij =>
    constructor
    · intro hj
      exact .inr ⟨hij, hj⟩
    · rintro (⟨h, -⟩ | ⟨-, hj⟩)
      · exact absurd h hij
      · exact hj

/-! ## Lanes in the text of a failure -/

/-- The failure of a branch says that it is that of a lane. -/
def Failure.Names (f : Failure) (lane : Nat) : Prop :=
  f.name = .branchFailed ∧ ∃ text, f.cause = "branch " ++ toString lane ++ " " ++ text

theorem Failure.Names.of_cause {f : Failure} {lane : Nat} (text rest : String)
    (hname : f.name = .branchFailed)
    (h : f.cause = "branch " ++ toString lane ++ (" " ++ text) ++ rest) : f.Names lane :=
  ⟨hname, text ++ rest, by rw [h]; simp only [String.append_assoc]⟩

theorem names_raise {halt : Halt} {lane : Nat} {f : Failure} (hname : f.name = .branchFailed)
    (h : halt.raise lane = .failure f) : f.Names lane := by
  cases halt with
  | unhandled state failure =>
    cases h
    refine .of_cause "failed at state '" (state ++ "': " ++ failure.text) rfl ?_
    simp only [String.append_assoc]
    rfl
  | failState error cause =>
    cases h
    refine .of_cause "reached a Fail state: " (error.getD "" ++ ": " ++ cause.getD "") rfl ?_
    simp only [String.append_assoc]
    rfl
  | noState name =>
    cases h
    refine .of_cause "has no state '" (name ++ "'") rfl ?_
    simp only [String.append_assoc]
    rfl
  | cancelled => cases h
  | brokenOff report =>
    cases h
    cases hname

theorem takeWhile_isDigit_toDigits (n : Nat) (text : List Char) :
    (Nat.toDigits 10 n ++ ' ' :: text).takeWhile Char.isDigit = Nat.toDigits 10 n := by
  rw [List.takeWhile_append_of_pos fun c hc => Nat.isDigit_of_mem_toDigits (by decide) (by decide) hc]
  simp

theorem Failure.Names.unique {f : Failure} {i j : Nat} (hi : f.Names i) (hj : f.Names j) : i = j := by
  obtain ⟨-, a, ha⟩ := hi
  obtain ⟨-, b, hb⟩ := hj
  have h := congrArg String.toList (ha.symm.trans hb)
  simp only [String.toList_append, List.append_assoc, Nat.toString_eq_repr, Nat.toList_repr] at h
  have h' := List.append_cancel_left h
  have hd : Nat.toDigits 10 i = Nat.toDigits 10 j := by
    rw [← takeWhile_isDigit_toDigits i a.toList, ← takeWhile_isDigit_toDigits j b.toList]
    exact congrArg _ h'
  rw [← Nat.ofDigitChars_ten_toDigits (n := i), hd, Nat.ofDigitChars_ten_toDigits]

namespace FanOut

variable {f f' : FanOut} {i limit count : Nat} {ending : Ending} {turns : List Turn}

/-! ## Turns -/

theorem apply_enter : f.apply (.enter i) = some f' ↔ f.lanes[i]? = some .waiting ∧ f.hasRoom ∧
    f' = { f with lanes := f.lanes.set i .running } := by
  unfold apply
  dsimp only
  split
  · next h =>
    rw [h]
    split
    · next hroom => simp [hroom, eq_comm]
    · next hroom => simp [hroom]
  · next h =>
    constructor
    · intro h'
      cases h'
    · rintro ⟨h', -⟩
      exact absurd h' h

theorem apply_finish : f.apply (.finish i ending) = some f' ↔ f.lanes[i]? = some .running ∧
    f' = { f with lanes := f.lanes.set i (.ended (f.lanes.countP Lane.hasEnded) ending) } := by
  unfold apply
  dsimp only
  split
  · next h => simp [h, eq_comm]
  · next h =>
    constructor
    · intro h'
      cases h'
    · rintro ⟨h', -⟩
      exact absurd h' h

theorem apply_observe : f.apply (.observe i) = some f' ↔ ∃ rank ending,
    f.lanes[i]? = some (.ended rank ending) ∧
      f' = { f with lanes := f.lanes.set i (.seen ending), verdict := f.verdictAfter i ending } := by
  unfold apply
  dsimp only
  split
  · next rank ending h =>
    constructor
    · rintro ⟨⟩
      exact ⟨rank, ending, h, rfl⟩
    · rintro ⟨rank', ending', h', rfl⟩
      cases h.symm.trans h'
      rfl
  · next h =>
    constructor
    · intro h'
      cases h'
    · rintro ⟨rank, ending, h', -⟩
      exact absurd h' (h rank ending)

theorem apply_notice : f.apply .notice = some f' ↔ f.interrupted = true ∧
    f' = { f with verdict := f.verdict.or (some .cancelled) } := by
  unfold apply
  dsimp only
  split
  · next h => simp [h, eq_comm]
  · next h => simp [h]

theorem apply_shape {turn : Turn} (h : f.apply turn = some f') :
    f'.limit = f.limit ∧ f'.lanes.length = f.lanes.length := by
  cases turn with
  | enter i =>
    obtain ⟨-, -, rfl⟩ := apply_enter.mp h
    exact ⟨rfl, List.length_set⟩
  | finish i ending =>
    obtain ⟨-, rfl⟩ := apply_finish.mp h
    exact ⟨rfl, List.length_set⟩
  | observe i =>
    obtain ⟨rank, ending, -, rfl⟩ := apply_observe.mp h
    exact ⟨rfl, List.length_set⟩
  | interrupt =>
    cases h
    exact ⟨rfl, rfl⟩
  | notice =>
    obtain ⟨-, rfl⟩ := apply_notice.mp h
    exact ⟨rfl, rfl⟩

theorem take_eq (turn : Turn) : f.take turn = f ∨ f.apply turn = some (f.take turn) := by
  unfold take
  cases f.apply turn with
  | none => exact .inl rfl
  | some f' => exact .inr rfl

theorem take_shape (turn : Turn) :
    (f.take turn).limit = f.limit ∧ (f.take turn).lanes.length = f.lanes.length := by
  rcases f.take_eq turn with h | h
  · rw [h]
    exact ⟨rfl, rfl⟩
  · exact apply_shape h

/-- The workflow of a lane has ended. -/
def Finished (f : FanOut) (i : Nat) (ending : Ending) : Prop :=
  ∃ lane, f.lanes[i]? = some lane ∧ lane.standing = .finished ending

section turns

variable {j : Nat} {e : Ending}

theorem finished_set {a b : Lane} (h : f.lanes[i]? = some a) (hb : f'.lanes = f.lanes.set i b) :
    f'.Finished j e ↔ i = j ∧ b.standing = .finished e ∨ i ≠ j ∧ f.Finished j e := by
  unfold Finished
  rw [hb]
  simp only [getElem?_set_eq_some h]
  constructor
  · rintro ⟨lane, ⟨hij, rfl⟩ | ⟨hij, hl⟩, hs⟩
    · exact .inl ⟨hij, hs⟩
    · exact .inr ⟨hij, lane, hl, hs⟩
  · rintro (⟨hij, hs⟩ | ⟨hij, lane, hl, hs⟩)
    · exact ⟨b, .inl ⟨hij, rfl⟩, hs⟩
    · exact ⟨lane, .inr ⟨hij, hl⟩, hs⟩

theorem finished_set_same {a b : Lane} (h : f.lanes[i]? = some a) (hb : f'.lanes = f.lanes.set i b)
    (hs : a.standing = b.standing) : f'.Finished j e ↔ f.Finished j e := by
  rw [finished_set h hb]
  constructor
  · rintro (⟨rfl, hb⟩ | ⟨-, ho⟩)
    · exact ⟨a, h, hs.trans hb⟩
    · exact ho
  · rintro ⟨lane, hl, ho⟩
    by_cases hij : i = j
    · subst hij
      cases h.symm.trans hl
      exact .inl ⟨rfl, hs.symm.trans ho⟩
    · exact .inr ⟨hij, lane, hl, ho⟩

theorem finished_set_open {a b : Lane} (h : f.lanes[i]? = some a) (hb : f'.lanes = f.lanes.set i b)
    (ha : ∀ e, a.standing ≠ .finished e) :
    f'.Finished j e ↔ i = j ∧ b.standing = .finished e ∨ f.Finished j e := by
  rw [finished_set h hb]
  constructor
  · rintro (hnow | ⟨-, ho⟩)
    · exact .inl hnow
    · exact .inr ho
  · rintro (hnow | ⟨lane, hlane, ho⟩)
    · exact .inl hnow
    · refine .inr ⟨?_, lane, hlane, ho⟩
      rintro rfl
      cases h.symm.trans hlane
      exact ha e ho

theorem finished_enter (h : f.apply (.enter i) = some f') : f'.Finished j e ↔ f.Finished j e := by
  obtain ⟨hl, -, rfl⟩ := apply_enter.mp h
  rw [finished_set_open hl rfl nofun]
  exact or_iff_right fun hnow => nomatch hnow.2

theorem finished_finish (h : f.apply (.finish i ending) = some f') :
    f'.Finished j e ↔ i = j ∧ ending = e ∨ f.Finished j e := by
  obtain ⟨hl, rfl⟩ := apply_finish.mp h
  rw [finished_set_open hl rfl nofun, Lane.standing, Lane.Standing.finished.injEq]

theorem finished_observe (h : f.apply (.observe i) = some f') : f'.Finished j e ↔ f.Finished j e := by
  obtain ⟨rank, ending, hl, rfl⟩ := apply_observe.mp h
  exact finished_set_same hl rfl rfl

theorem seen_set {a b : Lane} (h : f.lanes[i]? = some a) (ha : ∀ e, a ≠ .seen e)
    (hb : ∀ e, b ≠ .seen e) :
    (f.lanes.set i b)[j]? = some (.seen e) ↔ f.lanes[j]? = some (.seen e) := by
  rw [getElem?_set_eq_some h]
  constructor
  · rintro (⟨-, hnow⟩ | ⟨-, hj⟩)
    · exact absurd hnow.symm (hb e)
    · exact hj
  · intro hj
    refine .inr ⟨?_, hj⟩
    rintro rfl
    cases h.symm.trans hj
    exact ha e rfl

theorem seen_enter (h : f.apply (.enter i) = some f') :
    f'.lanes[j]? = some (.seen e) ↔ f.lanes[j]? = some (.seen e) := by
  obtain ⟨hl, -, rfl⟩ := apply_enter.mp h
  exact seen_set hl nofun nofun

theorem seen_finish (h : f.apply (.finish i ending) = some f') :
    f'.lanes[j]? = some (.seen e) ↔ f.lanes[j]? = some (.seen e) := by
  obtain ⟨hl, rfl⟩ := apply_finish.mp h
  exact seen_set hl nofun nofun

end turns

/-! ## Schedules -/

/-- A workflow comes to be cancelled only if the lanes are cancelled. -/
def Turn.Honest (f : FanOut) : Turn → Prop
  | finish _ (.error .cancelled) => f.isCancelled = true
  | _ => True

/-- The lanes after a schedule, whose latest turn stands first. -/
inductive Played (limit count : Nat) : List Turn → FanOut → Prop where
  | start : Played limit count [] (start limit count)
  | turn {turns : List Turn} {turn : Turn} {f f' : FanOut} : Played limit count turns f →
      f.apply turn = some f' → turn.Honest f → Played limit count (turn :: turns) f'

/-- What holds of the lanes after any schedule. -/
structure Kept (limit count : Nat) (turns : List Turn) (f : FanOut) : Prop where
  limit_eq : f.limit = limit
  length_eq : f.lanes.length = count
  room : 0 < limit → f.running ≤ limit
  finished : ∀ i ending, f.Finished i ending ↔ .finish i ending ∈ turns
  interrupted : f.interrupted = true ↔ .interrupt ∈ turns
  cancelled : ∀ i, f.Finished i (.error .cancelled) → f.isCancelled = true
  verdict : ∀ stop, f.verdict = some stop → stop = .cancelled ∧ f.interrupted = true ∨
    ∃ (i : Nat) (halt : Halt), f.lanes[i]? = some (.seen (.error halt)) ∧ halt ≠ .cancelled ∧
      stop = halt.raise i
  clean : f.verdict = none → ∀ (i : Nat) (ending : Ending), f.lanes[i]? = some (.seen ending) →
    ∃ out, ending = .ok out

theorem kept_start : Kept limit count [] (start limit count) where
  limit_eq := rfl
  length_eq := List.length_replicate
  room _ := by
    unfold running start
    rw [List.countP_replicate]
    exact Nat.zero_le _
  finished i ending := by
    constructor
    · rintro ⟨lane, hlane, hfinished⟩
      obtain ⟨-, rfl⟩ := List.mem_replicate.mp (List.mem_of_getElem? hlane)
      cases hfinished
    · intro h
      cases h
  interrupted := by simp [start]
  cancelled i := by
    rintro ⟨lane, hlane, hfinished⟩
    obtain ⟨-, rfl⟩ := List.mem_replicate.mp (List.mem_of_getElem? hlane)
    cases hfinished
  verdict stop h := by cases h
  clean _ i ending h := by
    obtain ⟨-, h⟩ := List.mem_replicate.mp (List.mem_of_getElem? h)
    cases h

theorem running_set {a b : Lane} (h : f.lanes[i]? = some a) :
    (f.lanes.set i b).countP Lane.isRunning =
      f.running - (if a.isRunning then 1 else 0) + (if b.isRunning then 1 else 0) := by
  obtain ⟨hi, ha⟩ := List.getElem?_eq_some_iff.mp h
  rw [List.countP_set hi, ha]
  rfl

theorem verdictAfter_eq_none (h : f.verdictAfter i ending = none) :
    f.verdict = none ∧ ∃ out, ending = .ok out := by
  unfold verdictAfter at h
  split at h
  · cases h
  · next out hv => exact ⟨hv, out, rfl⟩
  · cases h

theorem verdictAfter_eq_some {stop : Stop} (h : f.verdictAfter i ending = some stop) :
    f.verdict = some stop ∨ f.verdict = none ∧ ∃ halt, ending = .error halt ∧ stop = halt.raise i := by
  unfold verdictAfter at h
  split at h
  · next hv =>
    cases h
    exact .inl hv
  · cases h
  · next halt hv =>
    cases h
    exact .inr ⟨hv, halt, rfl, rfl⟩

theorem isCancelled_iff : f.isCancelled = true ↔ f.interrupted = true ∨ f.verdict ≠ none := by
  unfold isCancelled
  rw [Bool.or_eq_true, Option.isSome_iff_ne_none]

theorem Kept.enter (hk : Kept limit count turns f) (h : f.apply (.enter i) = some f') :
    Kept limit count (.enter i :: turns) f' := by
  have hfinished : ∀ j e, f'.Finished j e ↔ f.Finished j e := fun j e => finished_enter h
  have hseen : ∀ (j : Nat) (e : Ending), f'.lanes[j]? = some (.seen e) ↔ f.lanes[j]? = some (.seen e) :=
    fun j e => seen_enter h
  obtain ⟨hl, hroom, rfl⟩ := apply_enter.mp h
  refine ⟨hk.limit_eq, by rw [List.length_set]; exact hk.length_eq, fun hpos => ?_, fun j e => ?_, ?_,
    fun j ho => ?_, fun stop hv => ?_, fun hv j e hs => ?_⟩
  · have hlt : f.running < limit := by
      have := hk.limit_eq
      unfold hasRoom at hroom
      simp only [Bool.or_eq_true, decide_eq_true_eq] at hroom
      omega
    unfold running
    rw [running_set hl]
    simp only [Lane.isRunning, Bool.false_eq_true, if_false, if_true]
    omega
  · rw [hfinished, hk.finished, List.mem_cons]
    simp
  · rw [List.mem_cons]
    simpa using hk.interrupted
  · exact hk.cancelled j ((hfinished _ _).mp ho)
  · rcases hk.verdict stop hv with h | ⟨j, halt, hj, hne, hs⟩
    · exact .inl h
    · exact .inr ⟨j, halt, (hseen _ _).mpr hj, hne, hs⟩
  · exact hk.clean hv j e ((hseen _ _).mp hs)

theorem Kept.finish (hk : Kept limit count turns f) (h : f.apply (.finish i ending) = some f')
    (hon : Turn.Honest f (.finish i ending)) : Kept limit count (.finish i ending :: turns) f' := by
  have hfinished : ∀ j e, f'.Finished j e ↔ i = j ∧ ending = e ∨ f.Finished j e :=
    fun j e => finished_finish h
  have hseen : ∀ (j : Nat) (e : Ending), f'.lanes[j]? = some (.seen e) ↔ f.lanes[j]? = some (.seen e) :=
    fun j e => seen_finish h
  obtain ⟨hl, rfl⟩ := apply_finish.mp h
  refine ⟨hk.limit_eq, by rw [List.length_set]; exact hk.length_eq, fun hpos => ?_, fun j e => ?_, ?_,
    fun j ho => ?_, fun stop hv => ?_, fun hv j e hs => ?_⟩
  · have := hk.room hpos
    unfold running
    rw [running_set hl]
    simp only [Lane.isRunning, Bool.false_eq_true, if_false, if_true]
    omega
  · rw [hfinished, hk.finished, List.mem_cons]
    simp [eq_comm]
  · rw [List.mem_cons]
    simpa using hk.interrupted
  · rcases (hfinished _ _).mp ho with ⟨-, rfl⟩ | ho
    · exact hon
    · exact hk.cancelled j ho
  · rcases hk.verdict stop hv with h | ⟨j, halt, hj, hne, hs⟩
    · exact .inl h
    · exact .inr ⟨j, halt, (hseen _ _).mpr hj, hne, hs⟩
  · exact hk.clean hv j e ((hseen _ _).mp hs)

theorem Kept.observe (hk : Kept limit count turns f) (h : f.apply (.observe i) = some f') :
    Kept limit count (.observe i :: turns) f' := by
  have hfinished : ∀ j e, f'.Finished j e ↔ f.Finished j e := fun j e => finished_observe h
  obtain ⟨rank, ending, hl, rfl⟩ := apply_observe.mp h
  have hseen : ∀ (j : Nat) (e : Ending), (f.lanes.set i (.seen ending))[j]? = some (.seen e) ↔
      i = j ∧ ending = e ∨ i ≠ j ∧ f.lanes[j]? = some (.seen e) := fun j e => by
    rw [getElem?_set_eq_some hl, Lane.seen.injEq, eq_comm (a := e)]
  have hkeep : ∀ (j : Nat) (e : Ending), f.lanes[j]? = some (.seen e) →
      (f.lanes.set i (.seen ending))[j]? = some (.seen e) := fun j e hj => by
    refine (hseen j e).mpr (.inr ⟨?_, hj⟩)
    rintro rfl
    cases hl.symm.trans hj
  refine ⟨hk.limit_eq, by rw [List.length_set]; exact hk.length_eq, fun hpos => ?_, fun j e => ?_, ?_,
    fun j ho => ?_, fun stop hv => ?_, fun hv j e hs => ?_⟩
  · have := hk.room hpos
    unfold running
    rw [running_set hl]
    simp only [Lane.isRunning, Bool.false_eq_true, if_false]
    omega
  · rw [hfinished, hk.finished, List.mem_cons]
    simp
  · rw [List.mem_cons]
    simpa using hk.interrupted
  · rw [isCancelled_iff]
    rcases isCancelled_iff.mp (hk.cancelled j ((hfinished _ _).mp ho)) with hi | hv
    · exact .inl hi
    · exact .inr fun hnone => hv (verdictAfter_eq_none hnone).1
  · rcases verdictAfter_eq_some hv with hv | ⟨hnone, halt, rfl, rfl⟩
    · rcases hk.verdict stop hv with h | ⟨j, halt, hj, hne, hs⟩
      · exact .inl h
      · exact .inr ⟨j, halt, hkeep _ _ hj, hne, hs⟩
    -- a workflow that was cancelled can be the first to be seen only if the state was cancelled
    · by_cases hc : halt = .cancelled
      · subst hc
        refine .inl ⟨rfl, ?_⟩
        rcases isCancelled_iff.mp (hk.cancelled i ⟨_, hl, rfl⟩) with hi | hne
        · exact hi
        · exact absurd hnone hne
      · exact .inr ⟨i, halt, (hseen _ _).mpr (.inl ⟨rfl, rfl⟩), hc, rfl⟩
  · obtain ⟨hnone, out, rfl⟩ := verdictAfter_eq_none hv
    rcases (hseen j e).mp hs with ⟨-, rfl⟩ | ⟨-, hs⟩
    · exact ⟨out, rfl⟩
    · exact hk.clean hnone j e hs

theorem Kept.interrupt (hk : Kept limit count turns f) :
    Kept limit count (.interrupt :: turns) { f with interrupted := true } := by
  refine ⟨hk.limit_eq, hk.length_eq, hk.room, fun j e => ?_, ?_, fun _ _ => rfl, fun stop hv => ?_,
    hk.clean⟩
  · rw [List.mem_cons]
    refine (hk.finished j e).trans ?_
    simp
  · simp
  · rcases hk.verdict stop hv with ⟨h, -⟩ | h
    · exact .inl ⟨h, rfl⟩
    · exact .inr h

theorem Kept.notice (hk : Kept limit count turns f) (h : f.apply .notice = some f') :
    Kept limit count (.notice :: turns) f' := by
  obtain ⟨hint, rfl⟩ := apply_notice.mp h
  refine ⟨hk.limit_eq, hk.length_eq, hk.room, fun j e => ?_, ?_, fun j ho => ?_, fun stop hv => ?_,
    fun hv => ?_⟩
  · rw [List.mem_cons]
    refine (hk.finished j e).trans ?_
    simp
  · rw [List.mem_cons]
    simpa using hk.interrupted
  · exact isCancelled_iff.mpr (.inl hint)
  · rcases Option.or_eq_some_iff.mp hv with hv | ⟨-, hv⟩
    · exact hk.verdict stop hv
    · cases hv
      exact .inl ⟨rfl, hint⟩
  · exact hk.clean (Option.or_eq_none_iff.mp hv).1

/-- **Every schedule keeps the invariant.** -/
theorem Played.kept (h : Played limit count turns f) : Kept limit count turns f := by
  induction h with
  | start => exact kept_start
  | @turn turns turn f f' _ hap hon ih =>
    cases turn with
    | enter i => exact ih.enter hap
    | finish i ending => exact ih.finish hap hon
    | observe i => exact ih.observe hap
    | interrupt =>
      cases hap
      exact ih.interrupt
    | notice => exact ih.notice hap

/-! ## Answers -/

theorem outputs?_eq_some {lanes : List Lane} {results : List Json} :
    outputs? lanes = some results ↔ lanes = results.map fun out => .seen (.ok out) := by
  induction lanes generalizing results with
  | nil =>
    unfold outputs?
    rw [Option.some.injEq, eq_comm (a := []), eq_comm (a := []), List.map_eq_nil_iff]
  | cons lane rest ih =>
    unfold outputs?
    split
    · next h => cases h
    · next out rest' h =>
      cases h
      rw [Option.map_eq_some_iff]
      constructor
      · rintro ⟨outs, ho, rfl⟩
        rw [List.map_cons, ← ih.mp ho]
      · intro h
        obtain ⟨out', outs, rfl, hout, houts⟩ := List.map_eq_cons_iff.mp h.symm
        cases hout
        exact ⟨outs, ih.mpr houts.symm, rfl⟩
    · next hno =>
      constructor
      · intro h
        cases h
      · intro h
        obtain ⟨out', outs, rfl, hout, houts⟩ := List.map_eq_cons_iff.mp h.symm
        exact absurd (by rw [hout]) (hno out' rest)

theorem answer?_ok {results : List Json} : f.answer? = some (.ok results) ↔
    f.verdict = none ∧ f.lanes = results.map fun out => .seen (.ok out) := by
  unfold answer?
  split
  · next stop h =>
    rw [h]
    split <;> simp
  · next h =>
    rw [h, Option.map_eq_some_iff, ← outputs?_eq_some]
    simp

theorem answer?_error {stop : Stop} : f.answer? = some (.error stop) ↔
    f.verdict = some stop ∧ ∀ lane ∈ f.lanes, ∃ ending, lane = .seen ending := by
  have hall : (f.lanes.all fun lane => lane.seen?.isSome) = true ↔
      ∀ lane ∈ f.lanes, ∃ ending, lane = .seen ending := by
    rw [List.all_eq_true]
    refine forall₂_congr fun lane _ => ?_
    cases lane <;> simp [Lane.seen?]
  unfold answer?
  split
  · next stop' h =>
    rw [h, ← hall]
    split
    · next hl => simp [hl]
    · next hl => simp [hl]
  · next h => simp [h]

/-- What comes of the lanes is what comes of their workflows. -/
structure Faithful (limit count : Nat) (turns : List Turn) (f : FanOut) : Prop where
  /-- No more lanes run at one time than the limit allows. -/
  room : 0 < limit → f.running ≤ limit
  /-- The outputs are those of the lanes, each one in its place. -/
  outputs : ∀ results, f.answer? = some (.ok results) → results.length = count ∧
    ∀ (i : Nat) (out : Json), results[i]? = some out ↔ .finish i (.ok out) ∈ turns
  /-- An answer other than outputs comes after the end of every lane. -/
  drained : ∀ stop, f.answer? = some (.error stop) →
    ∀ i < count, ∃ ending, .finish i ending ∈ turns
  /-- A failure is that of a lane which came to a halt other than cancellation. -/
  failure : ∀ stop, f.answer? = some (.error stop) → stop ≠ .cancelled →
    ∃ i halt, .finish i (.error halt) ∈ turns ∧ halt ≠ .cancelled ∧ stop = halt.raise i
  /-- A lane that a failure names is the one that failed. -/
  named : ∀ failure, f.answer? = some (.error (.failure failure)) → ∀ i, failure.Names i →
    ∃ halt, .finish i (.error halt) ∈ turns ∧ halt ≠ .cancelled
  /-- Cancellation is passed on from the state. -/
  cancelled : f.answer? = some (.error .cancelled) → .interrupt ∈ turns

theorem Kept.seen (hk : Kept limit count turns f) (h : f.lanes[i]? = some (.seen ending)) :
    .finish i ending ∈ turns :=
  (hk.finished i ending).mp ⟨_, h, rfl⟩

theorem Kept.outputs (hk : Kept limit count turns f) {results : List Json}
    (h : f.answer? = some (.ok results)) : results.length = count ∧
      ∀ (i : Nat) (out : Json), results[i]? = some out ↔ .finish i (.ok out) ∈ turns := by
  obtain ⟨-, hl⟩ := answer?_ok.mp h
  refine ⟨by rw [← hk.length_eq, hl, List.length_map], fun i out => ?_⟩
  rw [← hk.finished, Finished, hl]
  simp only [List.getElem?_map, Option.map_eq_some_iff]
  constructor
  · intro hi
    exact ⟨_, ⟨out, hi, rfl⟩, rfl⟩
  · rintro ⟨_, ⟨out', hi, rfl⟩, ho⟩
    cases ho
    exact hi

theorem Kept.halt (hk : Kept limit count turns f) {stop : Stop}
    (h : f.answer? = some (.error stop)) (hs : stop ≠ .cancelled) :
    ∃ i halt, .finish i (.error halt) ∈ turns ∧ halt ≠ .cancelled ∧ stop = halt.raise i := by
  obtain ⟨hv, -⟩ := answer?_error.mp h
  rcases hk.verdict stop hv with ⟨hc, -⟩ | ⟨i, halt, hi, hne, hr⟩
  · exact absurd hc hs
  · exact ⟨i, halt, hk.seen hi, hne, hr⟩

/-- **The answer of lanes is faithful**, whatever their schedule. -/
theorem Played.faithful (h : Played limit count turns f) : Faithful limit count turns f where
  room := h.kept.room
  outputs _ := h.kept.outputs
  drained stop ha i hi := by
    obtain ⟨-, hall⟩ := answer?_error.mp ha
    rw [← h.kept.length_eq] at hi
    obtain ⟨ending, he⟩ := hall _ (List.getElem_mem hi)
    exact ⟨ending, h.kept.seen (List.getElem?_eq_some_iff.mpr ⟨hi, he⟩)⟩
  failure _ ha hs := h.kept.halt ha hs
  named failure ha i hn := by
    obtain ⟨j, halt, hj, hne, hr⟩ := h.kept.halt ha Stop.noConfusion
    rw [hn.unique (names_raise hn.1 hr.symm)]
    exact ⟨halt, hj, hne⟩
  cancelled ha := by
    obtain ⟨hv, -⟩ := answer?_error.mp ha
    rw [← h.kept.interrupted]
    rcases h.kept.verdict _ hv with ⟨-, hi⟩ | ⟨i, halt, -, hne, hr⟩
    · exact hi
    · cases halt <;> first | exact absurd rfl hne | cases hr

theorem seen_of_answer? {answer : Except Stop (List Json)} (h : f.answer? = some answer) :
    ∀ lane ∈ f.lanes, ∃ ending, lane = .seen ending := by
  cases answer with
  | ok results =>
    rw [(answer?_ok.mp h).2]
    intro lane hmem
    obtain ⟨out, -, rfl⟩ := List.mem_map.mp hmem
    exact ⟨_, rfl⟩
  | error stop => exact (answer?_error.mp h).2

/-! ## Seeing lanes -/

/-- The state sees some of its lanes, and may notice that it was cancelled. -/
def Observes : FanOut → FanOut → Prop :=
  Relation.ReflTransGen fun f f' => f.apply .notice = some f' ∨ ∃ i, f.apply (.observe i) = some f'

theorem Observes.shape (h : f.Observes f') :
    f'.limit = f.limit ∧ f'.lanes.length = f.lanes.length := by
  induction h with
  | refl => exact ⟨rfl, rfl⟩
  | @tail g g' _ hap ih =>
    have hg : g'.limit = g.limit ∧ g'.lanes.length = g.lanes.length := by
      rcases hap with hap | ⟨i, hap⟩ <;> exact apply_shape hap
    exact ⟨hg.1.trans ih.1, hg.2.trans ih.2⟩

theorem Observes.standing (h : f.Observes f') :
    f'.lanes.map Lane.standing = f.lanes.map Lane.standing := by
  induction h with
  | refl => rfl
  | @tail g g' _ hap ih =>
    rw [← ih]
    rcases hap with hap | ⟨i, hap⟩
    · rw [(apply_notice.mp hap).2]
    · obtain ⟨rank, ending, hl, rfl⟩ := apply_observe.mp hap
      obtain ⟨hi, hget⟩ := List.getElem?_eq_some_iff.mp hl
      have hi : i < (g.lanes.map Lane.standing).length := by rwa [List.length_map]
      have hs : (Lane.seen ending).standing = (g.lanes.map Lane.standing)[i] := by
        rw [List.getElem_map, hget]
        rfl
      rw [List.map_set, hs, List.set_getElem_self]

theorem Observes.interrupted (h : f.Observes f') : f'.interrupted = f.interrupted := by
  induction h with
  | refl => rfl
  | tail _ hap ih =>
    rw [← ih]
    rcases hap with hap | ⟨i, hap⟩
    · rw [(apply_notice.mp hap).2]
    · obtain ⟨rank, ending, -, rfl⟩ := apply_observe.mp hap
      rfl

theorem Observes.verdict (h : f.Observes f') (hv : f.verdict ≠ none) : f'.verdict ≠ none := by
  induction h with
  | refl => exact hv
  | tail _ hap ih =>
    rcases hap with hap | ⟨i, hap⟩
    · rw [(apply_notice.mp hap).2]
      exact fun hnone => ih (Option.or_eq_none_iff.mp hnone).1
    · obtain ⟨rank, ending, -, rfl⟩ := apply_observe.mp hap
      exact fun hnone => ih (verdictAfter_eq_none hnone).1

theorem Played.take {turn : Turn} (h : Played limit count turns f) (hon : turn.Honest f) :
    ∃ turns', Played limit count turns' (f.take turn) := by
  rcases f.take_eq turn with he | hap
  · exact ⟨turns, by rwa [he]⟩
  · exact ⟨_, h.turn hap hon⟩

theorem Played.observes (h : Played limit count turns f) (ho : f.Observes f') :
    ∃ turns', Played limit count turns' f' := by
  induction ho with
  | refl => exact ⟨turns, h⟩
  | tail _ hap ih =>
    obtain ⟨turns', ih⟩ := ih
    rcases hap with hap | ⟨i, hap⟩
    · exact ⟨_, ih.turn hap trivial⟩
    · exact ⟨_, ih.turn hap trivial⟩

/-! ## Lanes that all come to an output -/

/-- The workflows in the lanes come to these outputs. -/
def Succeed (turns : List Turn) (outs : List Json) : Prop :=
  ∀ i ending, Turn.finish i ending ∈ turns → ∃ out, outs[i]? = some out ∧ ending = .ok out

/-- **Lanes that all come to an output give these outputs**, whatever the schedule and the limit. -/
theorem Played.answer_of_succeed (h : Played limit count turns f) {outs : List Json}
    (hlen : outs.length = count) (hs : Succeed turns outs) (hi : .interrupt ∉ turns)
    {answer : Except Stop (List Json)} (ha : f.answer? = some answer) : answer = .ok outs := by
  cases answer with
  | ok results =>
    obtain ⟨hr, hres⟩ := h.kept.outputs ha
    refine congrArg _ (List.ext_getElem?_iff.mpr fun i => ?_)
    cases hout : results[i]? with
    | none =>
      have := List.getElem?_eq_none_iff.mp hout
      exact (List.getElem?_eq_none_iff.mpr (by omega)).symm
    | some out =>
      obtain ⟨out', hout', he⟩ := hs i _ ((hres i out).mp hout)
      cases he
      exact hout'.symm
  | error stop =>
    by_cases hc : stop = .cancelled
    · subst hc
      exact absurd (h.faithful.cancelled ha) hi
    · obtain ⟨i, halt, hfin, -, -⟩ := h.kept.halt ha hc
      obtain ⟨out, -, he⟩ := hs i _ hfin
      cases he

/-- The number of turns that the lanes have before them. -/
def ahead (f : FanOut) : Nat := (f.lanes.map Lane.ahead).sum

theorem sum_map_set {α : Type} {l : List α} {g : α → Nat} {i : Nat} {a b : α} (h : l[i]? = some a) :
    ((l.set i b).map g).sum + g a = (l.map g).sum + g b := by
  induction l generalizing i with
  | nil => cases h
  | cons x rest ih =>
    cases i with
    | zero =>
      cases h
      simp only [List.set_cons_zero, List.map_cons, List.sum_cons]
      omega
    | succ i =>
      have := ih (i := i) h
      simp only [List.set_cons_succ, List.map_cons, List.sum_cons]
      omega

theorem ahead_set {a b : Lane} (h : f.lanes[i]? = some a) (hb : f'.lanes = f.lanes.set i b) :
    f'.ahead + a.ahead = f.ahead + b.ahead := by
  unfold ahead
  rw [hb]
  exact sum_map_set h

theorem ahead_apply {turn : Turn} (h : f.apply turn = some f') (hi : turn ≠ .interrupt)
    (hn : turn ≠ .notice) : f'.ahead + 1 = f.ahead := by
  cases turn with
  | enter i =>
    obtain ⟨hl, -, hf⟩ := apply_enter.mp h
    have := ahead_set hl (congrArg lanes hf)
    simp only [Lane.ahead] at this
    omega
  | finish i ending =>
    obtain ⟨hl, hf⟩ := apply_finish.mp h
    have := ahead_set hl (congrArg lanes hf)
    simp only [Lane.ahead] at this
    omega
  | observe i =>
    obtain ⟨rank, ending, hl, hf⟩ := apply_observe.mp h
    have := ahead_set hl (congrArg lanes hf)
    simp only [Lane.ahead] at this
    omega
  | interrupt => exact absurd rfl hi
  | notice => exact absurd rfl hn

theorem Played.length_add_ahead (h : Played limit count turns f) (hi : .interrupt ∉ turns) :
    turns.length + f.ahead = 3 * count := by
  induction h with
  | start =>
    unfold ahead FanOut.start
    rw [List.map_replicate, List.sum_replicate_nat, List.length_nil, Nat.zero_add, Nat.mul_comm]
    rfl
  | @turn turns turn f f' hp hap hon ih =>
    have hold := ih fun hmem => hi (List.mem_cons_of_mem _ hmem)
    have hnotice : turn ≠ .notice := by
      rintro rfl
      have hint := (apply_notice.mp hap).1
      exact hi (List.mem_cons_of_mem _ (hp.kept.interrupted.mp hint))
    have hinterrupt : turn ≠ .interrupt := by
      rintro rfl
      exact hi List.mem_cons_self
    have := ahead_apply hap hinterrupt hnotice
    rw [List.length_cons]
    omega

/-- A turn of lanes whose workflows come to these outputs. -/
inductive Turn.Expected (outs : List Json) : Turn → Prop where
  | enter (i : Nat) : Expected outs (.enter i)
  | finish {i : Nat} {out : Json} : outs[i]? = some out → Expected outs (.finish i (.ok out))
  | observe (i : Nat) : Expected outs (.observe i)

/-- Lanes that have not all been seen can take a turn. -/
theorem exists_expected {outs : List Json} (hlen : outs.length = f.lanes.length)
    (h : ∃ lane ∈ f.lanes, ∀ ending, lane ≠ .seen ending) :
    ∃ turn f', Turn.Expected outs turn ∧ f.apply turn = some f' := by
  by_cases hended : ∃ rank ending, .ended rank ending ∈ f.lanes
  · obtain ⟨rank, ending, hmem⟩ := hended
    obtain ⟨i, hi⟩ := List.mem_iff_getElem?.mp hmem
    exact ⟨_, _, .observe i, apply_observe.mpr ⟨rank, ending, hi, rfl⟩⟩
  by_cases hrun : .running ∈ f.lanes
  · obtain ⟨i, hi⟩ := List.mem_iff_getElem?.mp hrun
    have hlt : i < outs.length := hlen ▸ (List.getElem?_eq_some_iff.mp hi).1
    exact ⟨_, _, .finish (List.getElem?_eq_getElem hlt), apply_finish.mpr ⟨hi, rfl⟩⟩
  -- a lane that has not been seen waits, and no lane takes up room
  obtain ⟨lane, hmem, hseen⟩ := h
  obtain ⟨i, hi⟩ := List.mem_iff_getElem?.mp hmem
  have hnone : f.running = 0 := by
    refine List.countP_eq_zero.mpr fun lane hmem hr => ?_
    cases lane with
    | running => exact hrun hmem
    | _ => cases hr
  have hroom : f.hasRoom = true := by
    unfold hasRoom
    rw [hnone, Bool.or_eq_true, decide_eq_true_eq, decide_eq_true_eq]
    omega
  cases lane with
  | waiting => exact ⟨_, _, .enter i, apply_enter.mpr ⟨hi, hroom, rfl⟩⟩
  | running => exact absurd hmem hrun
  | ended rank ending => exact absurd ⟨rank, ending, hmem⟩ hended
  | seen ending => exact absurd rfl (hseen ending)

theorem exists_outputs {lanes : List Lane} (h : ∀ lane ∈ lanes, ∃ out, lane = .seen (.ok out)) :
    ∃ results, outputs? lanes = some results := by
  induction lanes with
  | nil => exact ⟨[], rfl⟩
  | cons lane rest ih =>
    obtain ⟨out, rfl⟩ := h lane List.mem_cons_self
    obtain ⟨results, hr⟩ := ih fun lane hmem => h lane (List.mem_cons_of_mem _ hmem)
    exact ⟨out :: results, outputs?_eq_some.mpr (by rw [outputs?_eq_some.mp hr, List.map_cons])⟩

theorem Played.exists_answer (h : Played limit count turns f)
    (hall : ∀ lane ∈ f.lanes, ∃ ending, lane = .seen ending) : ∃ answer, f.answer? = some answer := by
  cases hv : f.verdict with
  | some stop => exact ⟨_, answer?_error.mpr ⟨hv, hall⟩⟩
  | none =>
    have hclean : ∀ lane ∈ f.lanes, ∃ out, lane = .seen (.ok out) := by
      intro lane hmem
      obtain ⟨ending, rfl⟩ := hall lane hmem
      obtain ⟨i, hi⟩ := List.mem_iff_getElem?.mp hmem
      obtain ⟨out, rfl⟩ := h.kept.clean hv i ending hi
      exact ⟨out, rfl⟩
    obtain ⟨results, hr⟩ := exists_outputs hclean
    exact ⟨_, answer?_ok.mpr ⟨hv, outputs?_eq_some.mp hr⟩⟩

/-- **Lanes come to an answer**: as long as there is none, there is a turn to take, whatever the limit. -/
theorem Played.exists_expected (h : Played limit count turns f) {outs : List Json}
    (hlen : outs.length = count) (ha : f.answer? = none) :
    ∃ turn f', Turn.Expected outs turn ∧ f.apply turn = some f' := by
  refine FanOut.exists_expected (by rw [hlen, h.kept.length_eq]) ?_
  refine Classical.byContradiction fun hno => ?_
  obtain ⟨answer, hsome⟩ := h.exists_answer fun lane hmem =>
    Classical.byContradiction fun hne => hno ⟨lane, hmem, fun ending he => hne ⟨ending, he⟩⟩
  rw [ha] at hsome
  cases hsome

end FanOut

end StepFlow
