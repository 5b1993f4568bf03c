import StepFlow.Execution.Basic
import StepFlow.Proofs.Execution.Links

/-!
# Moves consist of steps

What a run does in one move is a sequence of steps, so whatever holds after any steps holds after any
moves, and at the end of an execution.

* `Setting.Allows`: which replies a setting gives to tasks;
* `Run.GoesOn`, `Run.goesOn_goOn`: what comes of a thread in the middle of a state;
* `Run.steps_apply`: a move consists of steps;
* `Run.steps_drive`, `Run.steps_executeWithin`: so does an execution.
-/

namespace StepFlow

/-- All replies that come of a setting are allowed. -/
structure Setting.Allows {σ : Type} (setting : Setting σ) (allowed : Bool → Reply → Prop) : Prop where
  answered : ∀ cancelled request memory,
    allowed cancelled (.answered (setting.performer request memory).1.result)
  timedOut : ∀ cancelled, allowed cancelled .timedOut
  interrupted : allowed true (.answered (.error .cancelled))

theorem Setting.allows_any {σ : Type} (setting : Setting σ) : setting.Allows fun _ _ => True :=
  ⟨fun _ _ _ => trivial, fun _ => trivial, trivial⟩

/-! ## Processes that have to wait -/

/-- The process neither writes nor looks, so that it has to wait for the run. -/
def Process.Halts {α : Type} : Process α → Prop
  | note _ _ | look _ => False
  | _ => True

theorem Process.halts_proceed {α : Type} {p : Process α} (present : Nat → Present) (cancelled : Bool)
    (looks : Nat) (notes : List Note) : (p.proceed present cancelled looks notes).2.2.Halts := by
  induction p generalizing looks notes with
  | note n rest ih => exact ih _ _
  | look rest ih => exact ih _ _ _
  | sleep d rest ih =>
    unfold proceed
    split
    · exact ih _ _ _
    · split
      · exact ih _ _ _
      · trivial
  | done | call | fork => trivial

/-! ## Steps one after the other -/

namespace Scene

variable {allowed : Bool → Reply → Prop} {c c' c'' : Scene} {i : Nat} {t : Thread} {phase phase' : Phase}
  {notes new : List Note}

theorem Steps.refl : Steps allowed c c := Relation.ReflTransGen.refl

theorem Steps.tail (h : Steps allowed c c') (hs : Scene.Step allowed c' c'') : Steps allowed c c'' :=
  Relation.ReflTransGen.tail h hs

theorem Steps.trans (h : Steps allowed c c') (h' : Steps allowed c' c'') : Steps allowed c c'' :=
  Relation.ReflTransGen.trans h h'

theorem Step.steps (h : Scene.Step allowed c c') : Steps allowed c c' := Relation.ReflTransGen.single h

theorem put_put : (c.put i phase).put i phase' = c.put i phase' := by
  unfold put modify
  refine congrArg (Scene.mk · c.journal) (Array.ext_getElem? fun l => ?_)
  simp only [Array.getElem?_modify]
  split
  · rw [Option.map_map]
    rfl
  · rfl

theorem put_self (ht : c.threads[i]? = some t) : c.put i t.phase = c := by
  unfold put modify
  refine congrArg (Scene.mk · c.journal) (Array.ext_getElem? fun l => ?_)
  simp only [Array.getElem?_modify]
  split
  · next hi =>
    subst hi
    rw [ht]
    rfl
  · rfl

theorem write_nil : c.write i [] = c := rfl

theorem write_write : (c.write i notes).write i new = c.write i (new ++ notes) := by
  unfold write
  rw [List.map_append, List.append_assoc]

theorem cancelWhere_false {ticket : Nat} : (c.cancelWhere ticket fun _ => false) = c := by
  unfold cancelWhere
  refine congrArg (Scene.mk · c.journal) (Array.ext_getElem? fun l => ?_)
  rw [Array.getElem?_map]
  cases c.threads[l]? <;> rfl

theorem getElem?_put_self (notes : List Note) (ht : c.threads[i]? = some t) :
    ((c.put i phase).write i notes).threads[i]? = some { t with phase } :=
  put_eq_some.mpr ⟨t, ht, by rw [if_pos rfl]⟩

theorem steps_goes (notes : List Note) (ht : c.threads[i]? = some t)
    (hg : Thread.Goes allowed { t with phase } phase' new) :
    Steps allowed ((c.put i phase).write i notes) ((c.put i phase').write i (new ++ notes)) := by
  have := Step.goes (getElem?_put_self notes ht) hg
  rw [show (((c.put i phase).write i notes).put i phase').write i new =
    ((((c.put i phase).put i phase').write i notes).write i new) from rfl, put_put, write_write] at this
  exact this.steps

/-- A process goes on until it has to ask something of the run. -/
theorem steps_proceed (ht : c.threads[i]? = some t) (ticket : Nat) (name : String)
    (present : Nat → Present) (process : StateProcess) (looks : Nat) (notes : List Note) :
    Steps allowed ((c.put i (.running ticket name process)).write i notes)
      ((c.put i (.running ticket name
        (process.proceed present t.cancelled looks notes).2.2)).write i
        (process.proceed present t.cancelled looks notes).2.1) := by
  induction process generalizing looks notes with
  | note n rest ih => exact (steps_goes _ ht (.writes rfl)).trans (ih looks (n :: notes))
  | look rest ih => exact (steps_goes _ ht (.looks (present looks) rfl)).trans (ih _ (looks + 1) notes)
  | sleep d rest ih =>
    unfold Process.proceed
    split
    · exact (steps_goes _ ht (.wakes .elapsed rfl Wake.noConfusion)).trans (ih _ looks notes)
    · split
      · next hc =>
        exact (steps_goes _ ht (.wakes .interrupted rfl fun _ => hc)).trans (ih _ looks notes)
      · exact .refl
  | done | call | fork => exact .refl

end Scene

namespace Run

open Scene

variable {σ : Type} {allowed : Bool → Reply → Prop} {setting : Setting σ} {r : Run σ} {i : Nat}
  {t : Thread} {phase : Phase} {ending : Ending}

theorem scene_takeTurn {turn : FanOut.Turn} :
    (r.takeTurn i turn).scene = r.scene.modify i (.turn turn) := by
  unfold takeTurn modify Run.scene Scene.modify
  dsimp only
  congr 2
  funext t
  unfold Thread.turn
  split
  · next h => rw [h, Phase.turn]
  · next h =>
    rcases t.phase.forked_or_turn turn with ⟨ticket, f, first, name, rest, hf⟩ | ht
    · exact absurd hf (h ticket f first name rest)
    · rw [ht]

theorem phase_eq_some : r.threads[i]?.map Thread.phase = some phase ↔
    ∃ t, r.scene.threads[i]? = some t ∧ t.phase = phase := Option.map_eq_some_iff

/-! ## Moves of a thread and its owner -/

theorem steps_awaken : Steps allowed r.scene (r.awaken i).scene := by
  unfold awaken
  split
  · next f first name rest h =>
    obtain ⟨t, ht, hp⟩ := phase_eq_some.mp h
    exact (Step.goes ht (.readies hp)).steps
  · exact .refl

theorem firstWaiting?_eq_some {first count j : Nat} {input : Json}
    (h : r.firstWaiting? first count = some (j, input)) :
    first ≤ j ∧ j < first + count ∧ r.threads[j]?.map Thread.phase = some (.waiting input) := by
  induction count generalizing first with
  | zero => cases h
  | succ count ih =>
    unfold firstWaiting? at h
    split at h
    · next hw =>
      cases h
      exact ⟨Nat.le_refl _, by omega, hw⟩
    · obtain ⟨hle, hlt, hw⟩ := ih h
      exact ⟨by omega, by omega, hw⟩

theorem steps_enterNext (hr : r.scene.Linked) : Steps allowed r.scene (r.enterNext i).scene := by
  unfold enterNext
  split
  · next ticket f first name rest h =>
    obtain ⟨t, ht, hp⟩ := phase_eq_some.mp h
    split
    · next j input hw =>
      split
      · next hroom =>
        obtain ⟨hle, hlt, hw⟩ := firstWaiting?_eq_some hw
        obtain ⟨u, hu, hpu⟩ := phase_eq_some.mp hw
        have hk : j - first < f.lanes.length := by omega
        obtain ⟨u', hu', hm⟩ := hr.lane i t f first (j - first) _ ht (by rw [hp]; rfl)
          (List.getElem?_eq_getElem hk)
        rw [Nat.add_sub_cancel' hle] at hu'
        cases hu.symm.trans hu'
        have hout : u.phase.outside? = some input := by
          rw [hpu]
          rfl
        have hstep : Scene.Step allowed r.scene ((r.scene.modify i (.turn (.enter (j - first)))).put j
            (.entering r.tickets u.workflow.startAt input)) :=
          .admits hu hout hm.parent ht hp hroom
        dsimp only
        split
        · next v hv =>
          have hv' : (r.takeTurn i (.enter (j - first))).scene.threads[j]? = some v := hv
          rw [scene_takeTurn] at hv'
          obtain ⟨w, hw, rfl⟩ := turn_eq_some.mp hv'
          cases hu.symm.trans hw
          rw [← scene_takeTurn] at hstep
          exact hstep.steps
        · next hv =>
          have hv' : (r.takeTurn i (.enter (j - first))).scene.threads[j]? = none := hv
          rw [scene_takeTurn, getElem?_modify, hu] at hv'
          split at hv' <;> cases hv'
      · exact .refl
    · exact .refl
  · exact .refl

theorem steps_told (ht : r.scene.threads[i]? = some t)
    (hl : ((r.scene.put i (.ended ending)).tell t.parent ending).Linked) :
    Steps allowed ((r.scene.put i (.ended ending)).tell t.parent ending) (r.finish i ending).scene := by
  have hbind : r.threads[i]?.bind Thread.parent = t.parent := by
    rw [show r.threads[i]? = some t from ht]
    rfl
  unfold finish
  dsimp only
  rw [hbind]
  split
  · next owner lane hp =>
    have hscene : ((r.put i (.ended ending)).takeTurn owner (.finish lane ending)).scene =
        (r.scene.put i (.ended ending)).tell (some (owner, lane)) ending := scene_takeTurn
    rw [hp, ← hscene] at hl
    rw [hp, ← hscene]
    exact (steps_enterNext hl).trans steps_awaken
  · next hp =>
    rw [hp]
    exact .refl

theorem steps_finish (ht : r.scene.threads[i]? = some t)
    (hl : (r.scene.put i phase).Linked) (he : Thread.Ends { t with phase } ending) :
    Steps allowed (r.scene.put i phase) (r.finish i ending).scene := by
  have hstep : Scene.Step allowed _ _ := .ends (getElem?_put_self [] ht) he
  rw [write_nil, put_put] at hstep
  have htold : Steps allowed ((r.scene.put i (.ended ending)).tell t.parent ending) _ :=
    steps_told ht (hl.step hstep)
  exact hstep.steps.trans htold

theorem steps_request {ticket : Nat} {input : Json} (ht : r.scene.threads[i]? = some t)
    (hp : t.phase = .queued ticket input) :
    Steps allowed r.scene (r.request i t ticket input).scene := by
  unfold request
  split
  · next hpar => exact (Step.goes ht (.starts hp hpar)).steps
  · next owner lane hpar =>
    split
    · next f first name rest h =>
      obtain ⟨u, hu, hpu⟩ := phase_eq_some.mp h
      split
      · next hroom =>
        have hout : t.phase.outside? = some input := by
          rw [hp]
          rfl
        have hstep : Scene.Step allowed r.scene ((r.scene.modify owner (.turn (.enter lane))).put i
            (.entering ticket t.workflow.startAt input)) :=
          .admits ht hout hpar hu hpu hroom
        rw [← scene_takeTurn] at hstep
        exact hstep.steps
      · exact (Step.goes ht (.asks hp)).steps
    · exact .refl

/-! ## Moves of a thread by itself -/

/-- What comes of thread `i` in the middle of a state, when it has to wait for the run: its workflow ends,
it goes on by itself, or it starts lanes. -/
inductive GoesOn (allowed : Bool → Reply → Prop) (r : Run σ) (i : Nat) (t : Thread) : Run σ → Prop where
  | ends {ending : Ending} : t.Ends ending → GoesOn allowed r i t (r.finish i ending)
  | goes {r' : Run σ} {phase : Phase} : t.Goes allowed phase [] → r'.scene = r.scene.put i phase →
      GoesOn allowed r i t r'
  | spawns {ticket limit : Nat} {jobs : List Job} {name : String}
      {rest : Except Stop (List Json) → StateProcess} :
      t.phase = .running ticket name (.fork jobs limit rest) → limit ≤ FanOut.maxLimit →
      GoesOn allowed r i t (r.spawn i t ticket limit jobs name rest)

section goOn

variable {ticket : Nat} {name : String} {process process' : StateProcess} {r' : Run σ} {looks : Nat}
  {notes : List Note}

theorem goesOn_perform {request : TaskRequest} {limit : Option Duration} {rest : Reply → StateProcess}
    (hs : setting.Allows allowed) :
    r.GoesOn allowed i { t with phase := .running ticket name (.call request limit rest) }
      (r.perform setting i t ticket name request limit rest) := by
  have hanswer := hs.answered t.cancelled request r.memory
  unfold perform
  dsimp only
  split
  · exact .goes (.hears _ rfl hanswer) rfl
  · split
    · next hc => exact .goes (.hears _ rfl (hc ▸ hs.interrupted)) rfl
    · split
      · split
        · exact .goes (.awaits _ rfl (hs.timedOut _)) rfl
        · exact .goes (.awaits _ rfl hanswer) rfl
      · exact .goes (.awaits _ rfl hanswer) rfl

/-- The run once thread `i` has written its notes. -/
def noted (r : Run σ) (i looks : Nat) (notes : List Note) : Run σ :=
  { r with looks, journal := notes.map (Entry.mk i) ++ r.journal }

/-- **A thread in the middle of a state writes its notes and then goes on** from where it has to wait. -/
theorem goesOn_goOn (hs : setting.Allows allowed)
    (h : process.proceed (r.present setting) t.cancelled r.looks [] = (looks, notes, process')) :
    (r.noted i looks notes).GoesOn allowed i { t with phase := .running ticket name process' }
      (r.goOn setting i t ticket name process) := by
  have hhalts : process'.Halts := by
    have := process.halts_proceed (r.present setting) t.cancelled r.looks []
    rwa [h] at this
  unfold goOn
  rw [h]
  match process', hhalts with
  | .done (.error stop), _ => exact .ends (.stops _ rfl)
  | .done (.ok ⟨.done, output⟩), _ => exact .ends (.done rfl)
  | .done (.ok ⟨.next next, output⟩), _ => exact .goes (.leaves rfl) rfl
  | .sleep d rest, _ => exact .goes (.sleeps rfl) rfl
  | .call request limit rest, _ => exact goesOn_perform hs
  | .fork jobs limit rest, _ =>
    dsimp only
    split
    · next hlimit => exact .spawns rfl hlimit
    · next hlimit => exact .goes (.refuses rfl (by omega)) rfl

theorem scene_spawn {ticket limit : Nat} {jobs : List Job} {name : String}
    {rest : Except Stop (List Json) → StateProcess} :
    (r.spawn i t ticket limit jobs name rest).scene =
      (r.scene.put i phase).spawn i { t with phase } ticket r.tickets limit jobs name rest := by
  unfold Scene.spawn
  rw [put_put, show (r.scene.put i phase).threads.size = r.threads.size from Array.size_modify]
  rfl

theorem GoesOn.steps (h : r.GoesOn allowed i { t with phase } r') (ht : r.scene.threads[i]? = some t)
    (hl : (r.scene.put i phase).Linked) : Steps allowed (r.scene.put i phase) r'.scene := by
  cases h with
  | ends he => exact steps_finish ht hl he
  | goes hg hscene =>
    rw [hscene]
    exact steps_goes [] ht hg
  | @spawns ticket limit jobs name rest hp hlimit =>
    have hscene : (r.spawn i { t with phase } ticket limit jobs name rest).scene =
        (r.scene.put i phase).spawn i { t with phase } ticket r.tickets limit jobs name rest := scene_spawn
    rw [hscene]
    exact (Step.spawns (getElem?_put_self [] ht) hp hlimit).steps

theorem steps_goOn (hs : setting.Allows allowed) (ht : r.scene.threads[i]? = some t)
    (hl : (r.scene.put i (.running ticket name process)).Linked) :
    Steps allowed (r.scene.put i (.running ticket name process))
      (r.goOn setting i t ticket name process).scene := by
  obtain ⟨looks, notes, process', hproceed⟩ : ∃ looks notes process',
      process.proceed (r.present setting) t.cancelled r.looks [] = (looks, notes, process') :=
    ⟨_, _, _, rfl⟩
  have hsteps : Steps allowed _ _ :=
    steps_proceed ht ticket name (r.present setting) process r.looks []
  rw [write_nil, hproceed] at hsteps
  have hrest : Steps allowed ((r.noted i looks notes).scene.put i (.running ticket name process')) _ :=
    (goesOn_goOn hs hproceed).steps ht (hl.steps hsteps)
  exact hsteps.trans hrest

end goOn

theorem steps_enter {ticket : Nat} {name : String} {input : Json} (hs : setting.Allows allowed)
    (hr : r.scene.Linked) (ht : r.scene.threads[i]? = some t)
    (hp : t.phase = .entering ticket name input) :
    Steps allowed r.scene (r.enter setting i t ticket name input).scene := by
  have hself : r.scene.put i t.phase = r.scene := put_self ht
  have hfinish : ∀ {ending : Ending}, t.Ends ending →
      Steps allowed r.scene (r.finish i ending).scene := fun he => by
    have : Steps allowed (r.scene.put i t.phase) _ := steps_finish ht (by rwa [hself]) he
    rwa [hself] at this
  unfold enter
  split
  · next hc => exact hfinish (.cancelled hp hc)
  · next hc =>
    have hc := eq_false_of_ne_true hc
    split
    · next hn => exact hfinish (.missing hp hc hn)
    · next s hn =>
      have hstep : Scene.Step allowed r.scene
          ((r.scene.put i (.running ticket name (s.process t.context input))).write i []) :=
        .goes ht (.enters hp hc hn)
      exact hstep.steps.trans (steps_goOn hs ht (hr.step hstep))

theorem observes_take {f : FanOut} {turn : FanOut.Turn}
    (hturn : turn = .notice ∨ ∃ i, turn = .observe i) : f.Observes (f.take turn) := by
  rcases f.take_eq turn with h | h
  · rw [h]
    exact .refl
  · refine .single ?_
    rcases hturn with rfl | ⟨i, rfl⟩
    · exact .inl h
    · exact .inr ⟨i, h⟩

theorem observes_observeFirst (count : Nat) (f : FanOut) : f.Observes (FanOut.observeFirst count f) := by
  induction count generalizing f with
  | zero => exact .refl
  | succ count ih =>
    unfold FanOut.observeFirst
    split
    · exact .refl
    · exact (observes_take (.inr ⟨_, rfl⟩)).trans (ih _)

theorem observes_lookAround (f : FanOut) : f.Observes f.lookAround := by
  unfold FanOut.lookAround
  dsimp only
  split
  · exact observes_observeFirst _ f
  · exact (observes_observeFirst _ f).trans (observes_take (.inl rfl))

theorem steps_lookAround {ticket first : Nat} {f : FanOut} {name : String}
    {rest : Except Stop (List Json) → StateProcess} (hr : r.scene.Linked)
    (ht : r.scene.threads[i]? = some t) (hp : t.phase = .forked (some ticket) f first name rest) :
    Steps allowed r.scene (r.lookAround i ticket f first name rest).scene := by
  have hi : i ∉ t.ancestors := fun hmem => Nat.lt_irrefl i (hr.below i t ht i hmem)
  have hobs := observes_lookAround f
  unfold lookAround
  dsimp only
  generalize f.lookAround = f' at hobs
  have hstep : Scene.Step allowed r.scene ((r.scene.cancelWhere r.tickets fun u =>
      f'.verdict.isSome && !f.isCancelled && u.ancestors.contains i).put i
        (.forked none f' first name rest)) := .sees ht hp hi hobs
  generalize hr' : (if (f'.verdict.isSome && !f.isCancelled) = true then
    r.cancelWhere fun u => u.ancestors.contains i else r) = r'
  have hscene : (r.scene.cancelWhere r.tickets fun u =>
      f'.verdict.isSome && !f.isCancelled && u.ancestors.contains i) = r'.scene := by
    subst hr'
    split
    · next hb =>
      simp only [hb, Bool.true_and]
      rfl
    · next hb =>
      simp only [eq_false_of_ne_true hb, Bool.false_and]
      exact cancelWhere_false
  rw [hscene] at hstep
  split
  · next answer ha =>
    have ht' : (r'.scene.put i (.forked none f' first name rest)).threads[i]? =
        some { t with phase := .forked none f' first name rest } := by
      rw [← hscene]
      refine put_eq_some.mpr ⟨_, cancelWhere_eq_some.mpr ⟨t, ht, rfl⟩, ?_⟩
      simp [hi]
    have hcollect : Scene.Step allowed (r'.scene.put i (.forked none f' first name rest))
        (((r'.scene.put i (.forked none f' first name rest)).put i
          (.running ticket name (rest answer))).write i []) := .goes ht' (.collects rfl ha)
    rw [write_nil, put_put] at hcollect
    exact hstep.steps.tail hcollect
  · exact hstep.steps

/-! ## Runs -/

theorem steps_advance (hs : setting.Allows allowed) (hr : r.scene.Linked) :
    Steps allowed r.scene (r.advance setting i).scene := by
  unfold advance
  split
  · exact .refl
  · next t ht =>
    split
    · next hp => exact steps_request ht hp
    · next hp => exact steps_enter hs hr ht hp
    · next ticket name process hp =>
      have hself : r.scene.put i (.running ticket name process) = r.scene := hp ▸ put_self ht
      have := steps_goOn hs ht (hself ▸ hr)
      rwa [hself] at this
    · next hp => exact steps_lookAround hr ht hp
    · exact .refl

/-- **A move consists of steps.** -/
theorem steps_apply (hs : setting.Allows allowed) (hr : r.scene.Linked) (m : Move) :
    Steps allowed r.scene (r.apply setting m).scene := by
  cases m with
  | advance i => exact steps_advance hs hr
  | rouse i =>
    unfold apply rouse
    dsimp only
    split
    · next h =>
      obtain ⟨t, ht, hp⟩ := phase_eq_some.mp h
      split
      · exact (Step.goes ht (.rouses hp)).steps
      · exact .refl
    · exact .refl
  | wait time => exact .refl
  | cancel => exact Step.cancels.steps

/-- **What a run does up to its end consists of steps**, and it ends as its first thread does. -/
theorem steps_drive {limits : Limits} {fuel : Nat} {r' : Run σ} {close : Close}
    (hs : setting.Allows allowed) (hr : r.scene.Linked)
    (h : r.drive setting limits fuel = some (r', close)) :
    Steps allowed r.scene r'.scene ∧ ∀ ending, close = .ended ending → r'.ending? = some ending := by
  induction fuel generalizing r with
  | zero => cases h
  | succ fuel ih =>
    unfold drive at h
    split at h
    · next ending he =>
      cases h
      refine ⟨.refl, fun ending' h => ?_⟩
      cases h
      exact he
    · split at h
      · next m _ =>
        have hsteps := steps_apply hs hr m
        obtain ⟨hrest, hend⟩ := ih (hr.steps hsteps) h
        exact ⟨hsteps.trans hrest, hend⟩
      · cases h
        exact ⟨.refl, fun _ h => by cases h⟩
      · cases h

/-! ## Executions -/

section start

variable {memory : σ} {identifier : String} {w : Workflow} {input : Json}

theorem start_eq_some {l : Nat} {t : Thread} :
    (start setting memory identifier w input).scene.threads[l]? = some t ↔ l = 0 ∧
      t = ⟨w, .ofRun identifier input (setting.clock 0), none, [], false, .entering 0 w.startAt input⟩ := by
  unfold start Run.scene
  cases l with
  | zero => simp [eq_comm]
  | succ l => simp

theorem tidy_start : (start setting memory identifier w input).scene.Tidy := fun _ h => by cases h

theorem linked_start : (start setting memory identifier w input).scene.Linked where
  lane i t f first k lane ht hl _ := by
    obtain ⟨-, rfl⟩ := start_eq_some.mp ht
    cases hl
  live j u i k hu hp _ := by
    obtain ⟨-, rfl⟩ := start_eq_some.mp hu
    cases hp
  below i t ht a ha := by
    obtain ⟨-, rfl⟩ := start_eq_some.mp ht
    cases ha
  interrupted i t f first ht hl := by
    obtain ⟨-, rfl⟩ := start_eq_some.mp ht
    cases hl

theorem linked_of_steps {c : Scene}
    (h : Steps allowed (start setting memory identifier w input).scene c) : c.Linked :=
  linked_start.steps h

theorem thread_of_ending? (h : r.ending? = some ending) :
    ∃ t, r.scene.threads[0]? = some t ∧ t.phase = .ended ending := by
  unfold ending? at h
  split at h
  · next hp =>
    cases h
    exact phase_eq_some.mp hp
  · cases h

/-- **An execution consists of steps**, and its outcome is the ending of its first thread, unless it is
cut off. -/
theorem steps_executeWithin {fuel : Nat} {limit : Option Duration} {cancelAt : Option Nat}
    {report : Report σ} (hs : setting.Allows allowed)
    (h : w.executeWithin fuel setting memory identifier limit cancelAt input = some report) :
    Steps allowed (start setting memory identifier w input).scene report.run.scene ∧
      ((∃ t ending, report.run.scene.threads[0]? = some t ∧ t.phase = .ended ending ∧
        report.outcome = .ofEnding ending) ∨ ∃ limit, report.outcome = .error (.timedOut limit)) := by
  unfold Workflow.executeWithin at h
  dsimp only at h
  generalize hfirst : (if cancelAt = some 0 then
    (start setting memory identifier w input).apply setting .cancel
    else start setting memory identifier w input) = first at h
  have hsteps : Steps allowed (start setting memory identifier w input).scene first.scene := by
    subst hfirst
    split
    · exact steps_apply hs linked_start .cancel
    · exact .refl
  split at h
  · cases h
  · next r ending hdrive =>
    cases h
    obtain ⟨hrest, hend⟩ := steps_drive hs (linked_of_steps hsteps) hdrive
    obtain ⟨t, ht, hp⟩ := thread_of_ending? (hend ending rfl)
    exact ⟨hsteps.trans hrest, .inl ⟨t, ending, ht, hp, rfl⟩⟩
  · next r hdrive =>
    cases h
    exact ⟨hsteps.trans (steps_drive hs (linked_of_steps hsteps) hdrive).1, .inr ⟨_, rfl⟩⟩

end start

end Run

end StepFlow
