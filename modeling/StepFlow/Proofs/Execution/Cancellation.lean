import StepFlow.Proofs.Execution.Replay

/-!
# Runs that are cancelled

A thread enters a state only if it is not cancelled, and cancellation reaches every thread below. So once
a thread is cancelled, no state is entered any more, neither by it nor by any thread below it. A thread
checks whether it is cancelled right before it announces a state. If it is cancelled between the two then
this one entry is the next thing that it writes down, and it is the last one. Moves leave no thread
between the two.

* `Phase.Quiet`, `Phase.Heralds`: a thread that is inside a state has announced it, or is about to;
* `Scene.Linked.stopped_below`: threads below a cancelled one are cancelled or have ended;
* `Scene.SilentSince`: no entry has been announced between two scenes;
* `Scene.Hushed`: at most the entry that was to be announced next;
* `Run.play`, `Run.Quiet.play`: after any moves, every thread inside a state has announced it;
* **`enters_nothing_once_cancelled`**.
-/

namespace StepFlow

/-! ## Entries -/

/-- The note announces that a state is entered. -/
def Note.Enters : Note → Prop
  | .event (.entered _ _) => True
  | _ => False

/-- A process that never announces an entry, whatever it is answered. -/
def mute {α : Type} : Process.Contract α where
  wakes _ := True
  replies _ := True
  answers _ := True
  notes n _ := ¬ n.Enters
  jobs _ := True
  ends _ := True

theorem State.keeps_mute (s : State Workflow) (context : Context) (input : Json) :
    (s.body context input).Keeps mute := by
  have hfits : (mute : Process.Contract (Except Stop Step)).Fits s :=
    { attempt := fun _ _ h => h
      retried := fun _ _ _ _ h => h
      caught := fun _ _ _ h => h
      step := fun _ _ => trivial
      failure := fun _ => trivial
      brokenOff := trivial
      failState := fun _ _ => trivial
      interrupted := fun _ => trivial
      replied := fun _ => trivial
      answered := fun _ _ => trivial
      jobs := fun _ _ => trivial }
  exact State.keeps_body hfits fun _ _ h => h

/-- What is left of a process keeps the contract, if it does not matter how the process is woken. -/
theorem Process.Keeps.proceed {α : Type} {c : Process.Contract α} {p : Process α}
    (hw : ∀ wake, c.wakes wake) (h : p.Keeps c) (present : Nat → Present) (cancelled : Bool) (looks : Nat)
    (notes : List Note) : (p.proceed present cancelled looks notes).2.2.Keeps c := by
  induction p generalizing looks notes with
  | note n rest ih => exact ih h.2 looks (n :: notes)
  | look rest ih => exact ih (present looks) (h _) (looks + 1) notes
  | sleep d rest ih =>
    unfold Process.proceed
    split
    · exact ih .elapsed (h _ (hw _)) looks notes
    · split
      · exact ih .interrupted (h _ (hw _)) looks notes
      · exact h
  | done | call | fork => exact h

/-! ## Where a thread stands -/

/-- The thread has checked that it may enter a state, and announces the entry next. -/
def Phase.Announces : Phase → Note → Prop
  | .running _ _ (.note m _), n => m = n ∧ n.Enters
  | _, _ => False

/-- The state that a thread is inside has been announced, and no other one will be. -/
def Phase.Quiet : Phase → Prop
  | .running _ _ p => p.Keeps mute
  | .paused _ _ _ elapsed interrupted => elapsed.Keeps mute ∧ interrupted.Keeps mute
  | .forked _ _ _ _ rest => ∀ answer, (rest answer).Keeps mute
  | _ => True

/-- The state that a thread is inside has been announced, or is announced next. -/
def Phase.Heralds (phase : Phase) : Prop :=
  phase.Quiet ∨ ∃ ticket name s context input,
    phase = .running ticket name (State.process s context input)

/-- The thread has nothing left to enter. -/
def Thread.Stopped (t : Thread) : Prop := t.cancelled = true ∨ ∃ ending, t.phase = .ended ending

variable {allowed : Bool → Reply → Prop} {c c' d d' : Scene} {i j : Nat} {t t' u : Thread} {phase : Phase}
  {n : Note} {new : List Note} {p : StateProcess}

theorem Phase.Quiet.not_announces (h : phase.Quiet) : ¬ phase.Announces n := by
  match phase with
  | .running _ _ (.note _ _) =>
    rintro ⟨rfl, he⟩
    exact h.1 he
  | .running _ _ (.done _) | .running _ _ (.look _) | .running _ _ (.sleep _ _)
  | .running _ _ (.call _ _ _) | .running _ _ (.fork _ _ _) | .queued _ _ | .waiting _
  | .entering _ _ _ | .paused _ _ _ _ _ | .forked _ _ _ _ _ | .ended _ => exact id

theorem Phase.Heralds.quiet (h : phase.Heralds) (hn : ∀ n, ¬ phase.Announces n) : phase.Quiet := by
  rcases h with h | ⟨ticket, name, s, context, input, rfl⟩
  · exact h
  · have hnext := hn (.event (.entered s.name input))
    rw [State.process_eq] at hnext
    exact absurd ⟨rfl, trivial⟩ hnext

theorem Phase.Heralds.note {ticket : Nat} {name : String} {n : Note}
    (h : (Phase.running ticket name (.note n p)).Heralds) : p.Keeps mute := by
  rcases h with h | ⟨ticket, name, s, context, input, h⟩
  · exact h.2
  · rw [State.process_eq] at h
    cases h
    exact s.keeps_mute context input

theorem Phase.Quiet.cancel {ticket : Nat} (h : phase.Quiet) : (phase.cancel ticket).Quiet := by
  cases phase with
  | paused => exact h.2
  | _ => exact h

theorem Phase.Heralds.cancel {ticket : Nat} (h : phase.Heralds) : (phase.cancel ticket).Heralds := by
  rcases h with h | ⟨ticket, name, s, context, input, rfl⟩
  · exact .inl h.cancel
  · exact .inr ⟨ticket, name, s, context, input, rfl⟩

theorem Phase.Heralds.announces_cancel {ticket : Nat} (h : phase.Heralds)
    (ha : (phase.cancel ticket).Announces n) : phase.Announces n := by
  cases phase with
  | paused deadline ticket' name elapsed interrupted =>
    exact absurd ha (h.quiet fun _ => id).cancel.not_announces
  | _ => exact ha

/-- **What a thread writes down by itself** is an entry only if it is the one that was to be announced
next, and then the thread is quiet. It is quiet after anything else, too, unless it has just found that it
may enter a state. -/
theorem Thread.Goes.heralds (h : t.phase.Heralds) (hg : t.Goes allowed phase new) :
    (phase.Quiet ∧ ((∀ n ∈ new, ¬ n.Enters) ∨ ∃ n, new = [n] ∧ t.phase.Announces n)) ∨
      (new = [] ∧ phase.Heralds ∧ t.cancelled = false ∧
        ∃ ticket name input, t.phase = .entering ticket name input) := by
  have hquiet : (∀ n, ¬ t.phase.Announces n) → t.phase.Quiet := h.quiet
  have hsilent : ∀ n ∈ ([] : List Note), ¬ n.Enters := fun n hn => by cases hn
  cases hg with
  | enters hp hc => exact .inr ⟨rfl, .inr ⟨_, _, _, _, _, rfl⟩, hc, _, _, _, hp⟩
  | asks | starts | leaves => exact .inl ⟨trivial, .inl hsilent⟩
  | @writes _ _ _ n _ hp =>
    rw [hp] at h ⊢
    refine .inl ⟨h.note, ?_⟩
    by_cases he : n.Enters
    · exact .inr ⟨n, rfl, rfl, he⟩
    · exact .inl (List.forall_mem_singleton.mpr he)
  | looks present hp =>
    rw [hp] at hquiet
    exact .inl ⟨hquiet (fun _ => id) present, .inl hsilent⟩
  | wakes wake hp =>
    rw [hp] at hquiet
    exact .inl ⟨hquiet (fun _ => id) wake trivial, .inl hsilent⟩
  | sleeps hp =>
    rw [hp] at hquiet
    exact .inl ⟨⟨hquiet (fun _ => id) _ trivial, hquiet (fun _ => id) _ trivial⟩, .inl hsilent⟩
  | hears reply hp =>
    rw [hp] at hquiet
    exact .inl ⟨hquiet (fun _ => id) reply trivial, .inl hsilent⟩
  | awaits reply hp =>
    rw [hp] at hquiet
    exact .inl ⟨⟨hquiet (fun _ => id) reply trivial, hquiet (fun _ => id) _ trivial⟩, .inl hsilent⟩
  | rouses hp =>
    rw [hp] at hquiet
    exact .inl ⟨(hquiet fun _ => id).1, .inl hsilent⟩
  | refuses hp =>
    rw [hp] at hquiet
    exact .inl ⟨(hquiet fun _ => id).2 _ trivial, .inl hsilent⟩
  | collects hp =>
    rw [hp] at hquiet
    exact .inl ⟨hquiet (fun _ => id) _, .inl hsilent⟩
  | readies hp =>
    rw [hp] at hquiet
    exact .inl ⟨hquiet fun _ => id, .inl hsilent⟩

/-- What becomes of a thread that has something written down at most: it writes down no entry, or just the
one that it was to announce next. Only a thread that is not cancelled comes to announce an entry. -/
structure Thread.Advances (t t' : Thread) (new : List Note) : Prop where
  heralds : t'.phase.Heralds
  writes : (∀ n ∈ new, ¬ n.Enters) ∨ ∃ n, new = [n] ∧ t.phase.Announces n
  still : t.Stopped → ∀ n, t'.phase.Announces n → new = [] ∧ t.phase.Announces n

theorem Thread.Advances.of_quiet (h : t'.phase.Quiet)
    (hnew : (∀ n ∈ new, ¬ n.Enters) ∨ ∃ n, new = [n] ∧ t.phase.Announces n) : t.Advances t' new :=
  ⟨.inl h, hnew, fun _ _ ha => absurd ha h.not_announces⟩

/-- **What becomes of a thread**, step by step. -/
theorem Phase.Heralds.becomes (h : t.phase.Heralds) (hb : c.Becomes allowed i t t' new) :
    t.Advances t' new := by
  have hsilent : ∀ n ∈ ([] : List Note), ¬ n.Enters := fun n hn => by cases hn
  have hquiet : (∀ n, ¬ t.phase.Announces n) → t.phase.Quiet := h.quiet
  cases hb with
  | stays => exact ⟨h, .inl hsilent, fun _ _ ha => ⟨rfl, ha⟩⟩
  | goes hg =>
    rcases hg.heralds h with ⟨hq, hnew⟩ | ⟨rfl, hheralds, hc, ticket, name, input, hp⟩
    · exact .of_quiet hq hnew
    · refine ⟨hheralds, .inl hsilent, fun hs => ?_⟩
      rcases hs with hs | ⟨ending, he⟩
      · rw [hc] at hs
        cases hs
      · rw [hp] at he
        cases he
  | admitted | ended => exact .of_quiet trivial (.inl hsilent)
  | admits hp | told hp | sees hp =>
    rw [hp] at hquiet
    exact .of_quiet (hquiet fun _ => id) (.inl hsilent)
  | spawns hp =>
    rw [hp] at hquiet
    exact .of_quiet (fun answer => (hquiet fun _ => id).2 answer trivial) (.inl hsilent)
  | cancelled => exact ⟨h.cancel, .inl hsilent, fun _ _ ha => ⟨rfl, h.announces_cancel ha⟩⟩

theorem Thread.Stopped.becomes (h : t.Stopped) (hb : c.Becomes allowed i t t' new) : t'.Stopped := by
  rcases h with h | ⟨ending, he⟩
  · left
    cases hb with
    | cancelled => rfl
    | _ => exact h
  · right
    cases hb with
    | stays => exact ⟨ending, he⟩
    | goes hg => cases hg <;> simp_all
    | ended => exact ⟨_, rfl⟩
    | cancelled => exact ⟨ending, congrArg (Phase.cancel _) he⟩
    | admitted hi =>
      rw [he] at hi
      cases hi
    | admits hp | told hp | spawns hp | sees hp =>
      rw [he] at hp
      cases hp

/-! ## Threads below -/

namespace Scene

/-- Every thread but the first is below the first one. -/
structure Rooted (i : Nat) (t : Thread) : Prop where
  below : i = 0 ∨ 0 ∈ t.ancestors
  root : t.parent = none → t.ancestors = []

/-- Thread `j` announces the entry next. -/
def Announces (c : Scene) (j : Nat) (n : Note) : Prop :=
  ∃ t, c.threads[j]? = some t ∧ t.phase.Announces n

/-- Thread `j` has announced no entry between two scenes. -/
def SilentSince (c c' : Scene) (j : Nat) : Prop :=
  ∃ new, c'.notes j = new ++ c.notes j ∧ ∀ n ∈ new, ¬ n.Enters

/-- Thread `j` has announced one entry between two scenes, before it wrote down anything else: the one that
it was about to announce in the first scene. -/
def CompletedSince (c c' : Scene) (j : Nat) : Prop :=
  ∃ n later, c.Announces j n ∧ c'.notes j = later ++ n :: c.notes j ∧ ∀ m ∈ later, ¬ m.Enters

/-- A thread that enters nothing since a scene, and stays so. -/
structure Hushed (c : Scene) (j : Nat) (t : Thread) (d : Scene) : Prop where
  stopped : t.Stopped
  heralds : t.phase.Heralds
  since : c.SilentSince d j ∨ c.CompletedSince d j
  still : ∀ n, t.phase.Announces n → d.notes j = c.notes j ∧ c.Announces j n

theorem Hushed.becomes (h : c.Hushed j t d) (hb : d.Becomes allowed j t t' new)
    (hn : d'.notes j = new ++ d.notes j) : c.Hushed j t' d' := by
  obtain ⟨hheralds, hwrites, hstill⟩ := h.heralds.becomes hb
  refine ⟨h.stopped.becomes hb, hheralds, ?_, fun n ha => ?_⟩
  · rcases hwrites with hsilent | ⟨n, rfl, ha⟩
    · rcases h.since with ⟨old, hold, hnone⟩ | ⟨n, later, ha, hlater, hnone⟩
      · refine .inl ⟨new ++ old, by rw [hn, hold, List.append_assoc], fun m hm => ?_⟩
        exact (List.mem_append.mp hm).elim (hsilent m) (hnone m)
      · refine .inr ⟨n, new ++ later, ha, by rw [hn, hlater, List.append_assoc], fun m hm => ?_⟩
        exact (List.mem_append.mp hm).elim (hsilent m) (hnone m)
    · obtain ⟨hsame, hpending⟩ := h.still n ha
      exact .inr ⟨n, [], hpending, by rw [hn, hsame]; rfl, fun m hm => by cases hm⟩
  · obtain ⟨rfl, hbefore⟩ := hstill h.stopped n ha
    obtain ⟨hsame, hpending⟩ := h.still n hbefore
    exact ⟨hn.trans hsame, hpending⟩

end Scene

/-! ## Moves -/

namespace Run

variable {σ : Type} {setting : Setting σ} {r : Run σ}

/-- Every thread that is inside a state has announced it. -/
def Quiet (r : Run σ) : Prop :=
  ∀ (j : Nat) (u : Thread), r.threads[j]? = some u → u.phase.Quiet

theorem Quiet.modify {f : Thread → Thread} (h : r.Quiet)
    (hf : ∀ u : Thread, r.threads[i]? = some u → (f u).phase.Quiet) : (r.modify i f).Quiet := by
  intro j u hu
  have hu : (r.threads.modify i f)[j]? = some u := hu
  rw [Array.getElem?_modify] at hu
  split at hu
  · next hi =>
    obtain ⟨v, hv, rfl⟩ := Option.map_eq_some_iff.mp hu
    exact hf v (hi ▸ hv)
  · exact h j u hu

theorem Quiet.put (h : r.Quiet) (hp : phase.Quiet) : (r.put i phase).Quiet := h.modify fun _ _ => hp

theorem Quiet.putReady {phase : Nat → Phase} (h : r.Quiet) (hp : ∀ ticket, (phase ticket).Quiet) :
    (r.putReady i phase).Quiet := h.put (hp r.tickets)

theorem Quiet.cancelWhere {p : Thread → Bool} (h : r.Quiet) : (r.cancelWhere p).Quiet := by
  intro j u hu
  have hu : (r.threads.map fun t => if p t then t.cancel r.tickets else t)[j]? = some u := hu
  rw [Array.getElem?_map] at hu
  obtain ⟨v, hv, rfl⟩ := Option.map_eq_some_iff.mp hu
  split
  · exact (h j v hv).cancel
  · exact h j v hv

theorem Quiet.takeTurn {turn : FanOut.Turn} (h : r.Quiet) : (r.takeTurn i turn).Quiet := by
  refine h.modify fun u hu => ?_
  have hq := h i u hu
  split
  · next hp =>
    rw [hp] at hq
    exact hq
  · exact hq

theorem Quiet.of_phase (h : r.Quiet) (hp : r.threads[i]?.map Thread.phase = some phase) : phase.Quiet := by
  obtain ⟨u, hu, rfl⟩ := Option.map_eq_some_iff.mp hp
  exact h i u hu

theorem Quiet.awaken (h : r.Quiet) : (r.awaken i).Quiet := by
  unfold Run.awaken
  split
  · next hp =>
    have hq := h.of_phase hp
    exact h.putReady fun _ => hq
  · exact h

theorem Quiet.enterNext (h : r.Quiet) : (r.enterNext i).Quiet := by
  unfold Run.enterNext
  split
  · split
    · split
      · dsimp only
        split
        · exact h.takeTurn.putReady fun _ => trivial
        · exact h.takeTurn
      · exact h
    · exact h
  · exact h

theorem Quiet.finish {ending : Ending} (h : r.Quiet) : (r.finish i ending).Quiet := by
  have hput : (r.put i (.ended ending)).Quiet := h.put trivial
  unfold Run.finish
  dsimp only
  split
  · exact hput.takeTurn.enterNext.awaken
  · exact hput

theorem Quiet.spawn {ticket limit : Nat} {jobs : List Job} {name : String}
    {rest : Except Stop (List Json) → StateProcess} (h : r.Quiet)
    (hrest : ∀ answer, (rest answer).Keeps mute) : (r.spawn i t ticket limit jobs name rest).Quiet := by
  intro j u hu
  have hu : (r.spawn i t ticket limit jobs name rest).scene.threads[j]? = some u := hu
  have hput : (r.put i (.waiting .null)).Quiet := h.put trivial
  have hscene : (r.spawn i t ticket limit jobs name rest).scene =
      (r.put i (.waiting .null)).scene.spawn i { t with phase := .waiting .null } ticket r.tickets limit
        jobs name rest := scene_spawn
  rw [hscene] at hu
  rcases Scene.spawn_eq_some.mp hu with ⟨v, hv, rfl⟩ | ⟨k, job, -, -, rfl⟩
  · dsimp only
    split
    · exact hrest
    · exact hput j v hv
  · exact trivial

/-- A thread that goes on announces the state that it is about to enter before it has to wait. -/
theorem Quiet.goesOn {ticket : Nat} {name : String} {r' : Run σ} (h : r.Quiet) (hp : p.Keeps mute)
    (hg : r.GoesOn allowed i { t with phase := .running ticket name p } r') : r'.Quiet := by
  cases hg with
  | ends => exact h.finish
  | @goes _ phase hg hscene =>
    have hheralds : (Phase.running ticket name p).Heralds := .inl hp
    have hq : phase.Quiet := by
      rcases Thread.Goes.heralds hheralds hg with ⟨hq, -⟩ | ⟨-, -, -, _, _, _, he⟩
      · exact hq
      · cases he
    intro j u hu
    have hu : r'.scene.threads[j]? = some u := hu
    rw [hscene] at hu
    exact h.put hq j u hu
  | spawns hf =>
    cases hf
    exact h.spawn fun answer => hp.2 answer trivial

theorem Quiet.goOn {ticket : Nat} {name : String} (h : r.Quiet)
    (hp : (p.proceed (r.present setting) t.cancelled r.looks []).2.2.Keeps mute) :
    (r.goOn setting i t ticket name p).Quiet := by
  obtain ⟨looks, notes, p', hproceed⟩ : ∃ looks notes p',
      p.proceed (r.present setting) t.cancelled r.looks [] = (looks, notes, p') := ⟨_, _, _, rfl⟩
  rw [hproceed] at hp
  have hnoted : (r.noted i looks notes).Quiet := h
  exact hnoted.goesOn hp (goesOn_goOn setting.allows_any hproceed)

theorem Quiet.enter {ticket : Nat} {name : String} {input : Json} (h : r.Quiet) :
    (r.enter setting i t ticket name input).Quiet := by
  unfold Run.enter
  split
  · exact h.finish
  · split
    · exact h.finish
    · next s hs =>
      refine h.goOn ?_
      rw [State.process_eq]
      exact (s.keeps_mute t.context input).proceed (fun _ => trivial) _ _ _ _

theorem Quiet.lookAround {ticket first : Nat} {f : FanOut} {name : String}
    {rest : Except Stop (List Json) → StateProcess} (h : r.Quiet)
    (hrest : ∀ answer, (rest answer).Keeps mute) :
    (r.lookAround i ticket f first name rest).Quiet := by
  have hr : Run.Quiet (if f.lookAround.verdict.isSome && !f.isCancelled then
      r.cancelWhere fun t => t.ancestors.contains i else r) := by
    split
    · exact h.cancelWhere
    · exact h
  unfold Run.lookAround
  dsimp only
  split
  · exact hr.put (hrest _)
  · exact hr.put hrest

theorem Quiet.request {ticket : Nat} {input : Json} (h : r.Quiet) :
    (r.request i t ticket input).Quiet := by
  unfold Run.request
  split
  · exact h.put trivial
  · split
    · split
      · exact h.takeTurn.put trivial
      · exact h.put trivial
    · exact h

/-- A move leaves no thread between the check whether it is cancelled and the announcement. -/
theorem Quiet.apply (h : r.Quiet) (m : Move) : (r.apply setting m).Quiet := by
  cases m with
  | advance i =>
    show (r.advance setting i).Quiet
    unfold Run.advance
    split
    · exact h
    · next t ht =>
      have hq := h i t ht
      split
      · exact h.request
      · exact h.enter
      · next hp =>
        rw [hp] at hq
        exact h.goOn (Process.Keeps.proceed (fun _ => trivial) hq _ _ _ _)
      · next hp =>
        rw [hp] at hq
        exact h.lookAround hq
      · exact h
  | rouse i =>
    show (r.rouse i).Quiet
    unfold Run.rouse
    split
    · next hp =>
      split
      · exact h.putReady fun _ => (h.of_phase hp).1
      · exact h
    · exact h
  | wait time => exact h
  | cancel => exact h.cancelWhere

/-- The run after a sequence of moves. -/
def play (setting : Setting σ) (r : Run σ) (moves : List Move) : Run σ :=
  moves.foldl (fun r m => r.apply setting m) r

theorem Quiet.play (h : r.Quiet) (moves : List Move) : (r.play setting moves).Quiet := by
  induction moves generalizing r with
  | nil => exact h
  | cons m rest ih => exact ih (h.apply m)

theorem Quiet.not_announces (h : r.Quiet) (j : Nat) (n : Note) : ¬ r.scene.Announces j n :=
  fun ⟨u, hu, ha⟩ => (h j u hu).not_announces ha

theorem exists_moves_of_drive {limits : Limits} {fuel : Nat} {r' : Run σ} {close : Close}
    (h : r.drive setting limits fuel = some (r', close)) : ∃ moves, r' = r.play setting moves := by
  induction fuel generalizing r with
  | zero => cases h
  | succ fuel ih =>
    unfold drive at h
    split at h
    · cases h
      exact ⟨[], rfl⟩
    · split at h
      · next m _ =>
        obtain ⟨moves, rfl⟩ := ih h
        exact ⟨m :: moves, rfl⟩
      · next time _ =>
        cases h
        exact ⟨[.wait time], rfl⟩
      · cases h

theorem exists_moves_of_executeWithin {memory : σ} {identifier : String} {w : Workflow} {input : Json}
    {fuel : Nat} {limit : Option Duration} {cancelAt : Option Nat} {report : Report σ}
    (h : w.executeWithin fuel setting memory identifier limit cancelAt input = some report) :
    ∃ moves, report.run = (start setting memory identifier w input).play setting moves := by
  unfold Workflow.executeWithin at h
  dsimp only at h
  obtain ⟨before, hbefore⟩ : ∃ moves, (if cancelAt = some 0 then
      (start setting memory identifier w input).apply setting .cancel
      else start setting memory identifier w input) =
        (start setting memory identifier w input).play setting moves := by
    split
    · exact ⟨[.cancel], rfl⟩
    · exact ⟨[], rfl⟩
  rw [hbefore] at h
  have hplay : ∀ moves, ((start setting memory identifier w input).play setting before).play setting
      moves = (start setting memory identifier w input).play setting (before ++ moves) :=
    fun moves => List.foldl_append.symm
  split at h
  · cases h
  · next r ending hdrive =>
    cases h
    obtain ⟨moves, rfl⟩ := exists_moves_of_drive hdrive
    exact ⟨before ++ moves, hplay moves⟩
  · next r hdrive =>
    cases h
    obtain ⟨moves, rfl⟩ := exists_moves_of_drive hdrive
    exact ⟨before ++ moves, hplay moves⟩

end Run

/-! ## Executions -/

section run

variable {σ : Type} {setting : Setting σ} {memory : σ} {identifier : String} {w : Workflow}
  {input : Json}

theorem heralds_of_steps (h : Scene.Steps allowed (Run.start setting memory identifier w input).scene c) :
    c.Each fun i t _ => t.phase.Heralds ∧ Scene.Rooted i t := by
  refine Scene.Steps.each (fun d l u u' new _ hd hu hb => ?_) (fun d l u _ hd hs => ?_) h Run.tidy_start
    fun l t ht => ?_
  · obtain ⟨hheralds, hbelow, hroot⟩ := hd l u hu
    refine ⟨(hheralds.becomes hb).heralds, ?_, ?_⟩
    · rwa [hb.place.2.2.2]
    · rwa [hb.place.2.2.1, hb.place.2.2.2]
  · obtain ⟨i, v, ticket, name, jobs, limit, rest, lane, job, ticket', hv, -, -, -, rfl⟩ := hs
    refine ⟨.inl trivial, .inr ?_, fun hp => by cases hp⟩
    rcases (hd i v hv).2.below with rfl | hmem
    · exact List.mem_cons_self
    · exact List.mem_cons_of_mem _ hmem
  · obtain ⟨rfl, rfl⟩ := Run.start_eq_some.mp ht
    exact ⟨.inl trivial, .inl rfl, fun _ => rfl⟩

end run

end StepFlow
