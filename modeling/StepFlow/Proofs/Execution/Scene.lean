import StepFlow.Execution.Run
import StepFlow.Proofs.Execution.FanOut

/-!
# Steps of a run

A move of a run bundles many small things. A step is one of them: it concerns a single thread, or a
thread and the one whose lane it is. Steps can follow each other in any order that the lanes allow, and
a task may answer whatever it is allowed to, so the steps cover every interleaving of the threads.

* `Scene`: the threads of a run and its journal, without the clock and the performer;
* `Thread.Goes`, `Thread.Ends`: what a thread can do by itself, and how its workflow can end;
* `Scene.Step`, `Scene.Steps`: the steps, and sequences of them;
* `Scene.Becomes`, `Scene.ComesOf`, `Scene.Step.becomes`: what a step makes of one thread;
* `Scene.Steps.each`: an invariant of every thread by itself.
-/

namespace StepFlow

/-- The threads of a run, and what was written down. -/
structure Scene where
  threads : Array Thread
  journal : List Entry

def Run.scene {σ : Type} (r : Run σ) : Scene := ⟨r.threads, r.journal⟩

/-! ## Threads by themselves -/

/-- The input of a thread that has no room to run yet. -/
def Phase.outside? : Phase → Option Json
  | .queued _ input | .waiting input => some input
  | _ => none

/-- The phase after a turn of the lanes. -/
def Phase.turn (turn : FanOut.Turn) : Phase → Phase
  | .forked ticket f first name rest => .forked ticket (f.take turn) first name rest
  | phase => phase

theorem Phase.forked_or_turn (turn : FanOut.Turn) (phase : Phase) :
    (∃ ticket f first name rest, phase = .forked ticket f first name rest) ∨
      phase.turn turn = phase := by
  cases phase with
  | forked ticket f first name rest => exact .inl ⟨ticket, f, first, name, rest, rfl⟩
  | _ => exact .inr rfl

namespace Thread

/-- What a thread can do by itself: its next phase, and what it writes down. A task may give any reply
that is allowed, and sleeping and waiting may take any time. -/
inductive Goes (allowed : Bool → Reply → Prop) (t : Thread) : Phase → List Note → Prop where
  | asks {ticket : Nat} {input : Json} :
      t.phase = .queued ticket input → t.Goes allowed (.waiting input) []
  | starts {ticket ticket' : Nat} {input : Json} : t.phase = .queued ticket input →
      t.parent = none → t.Goes allowed (.entering ticket' t.workflow.startAt input) []
  | enters {ticket ticket' : Nat} {name : String} {input : Json} {s : State Workflow} :
      t.phase = .entering ticket name input → t.cancelled = false →
      t.workflow.state? name = some s →
      t.Goes allowed (.running ticket' name (s.process t.context input)) []
  | writes {ticket ticket' : Nat} {name : String} {n : Note} {rest : StateProcess} :
      t.phase = .running ticket name (.note n rest) → t.Goes allowed (.running ticket' name rest) [n]
  | looks {ticket ticket' : Nat} {name : String} {rest : Present → StateProcess}
      (present : Present) : t.phase = .running ticket name (.look rest) →
      t.Goes allowed (.running ticket' name (rest present)) []
  | wakes {ticket ticket' : Nat} {name : String} {d : Duration} {rest : Wake → StateProcess}
      (wake : Wake) : t.phase = .running ticket name (.sleep d rest) →
      (wake = .interrupted → t.cancelled = true) →
      t.Goes allowed (.running ticket' name (rest wake)) []
  | sleeps {ticket ticket' deadline : Nat} {name : String} {d : Duration}
      {rest : Wake → StateProcess} : t.phase = .running ticket name (.sleep d rest) →
      t.Goes allowed (.paused deadline ticket' name (rest .elapsed) (rest .interrupted)) []
  | hears {ticket ticket' : Nat} {name : String} {request : TaskRequest} {limit : Option Duration}
      {rest : Reply → StateProcess} (reply : Reply) :
      t.phase = .running ticket name (.call request limit rest) → allowed t.cancelled reply →
      t.Goes allowed (.running ticket' name (rest reply)) []
  | awaits {ticket ticket' deadline : Nat} {name : String} {request : TaskRequest}
      {limit : Option Duration} {rest : Reply → StateProcess} (reply : Reply) :
      t.phase = .running ticket name (.call request limit rest) → allowed t.cancelled reply →
      t.Goes allowed (.paused deadline ticket' name (rest reply)
        (rest (.answered (.error .cancelled)))) []
  | rouses {deadline ticket ticket' : Nat} {name : String} {elapsed interrupted : StateProcess} :
      t.phase = .paused deadline ticket name elapsed interrupted →
      t.Goes allowed (.running ticket' name elapsed) []
  | leaves {ticket ticket' : Nat} {name next : String} {output : Json} :
      t.phase = .running ticket name (.done (.ok ⟨.next next, output⟩)) →
      t.Goes allowed (.entering ticket' next output) []
  | refuses {ticket ticket' : Nat} {name : String} {jobs : List Job} {limit : Nat}
      {rest : Except Stop (List Json) → StateProcess} :
      t.phase = .running ticket name (.fork jobs limit rest) → FanOut.maxLimit < limit →
      t.Goes allowed (.running ticket' name (rest (.error .brokenOff))) []
  | collects {ticket : Option Nat} {ticket' : Nat} {f : FanOut} {first : Nat} {name : String}
      {rest : Except Stop (List Json) → StateProcess} {answer : Except Stop (List Json)} :
      t.phase = .forked ticket f first name rest → f.answer? = some answer →
      t.Goes allowed (.running ticket' name (rest answer)) []
  | readies {ticket ticket' : Option Nat} {f : FanOut} {first : Nat} {name : String}
      {rest : Except Stop (List Json) → StateProcess} :
      t.phase = .forked ticket f first name rest →
      t.Goes allowed (.forked ticket' f first name rest) []

/-- How the workflow of a thread can end. -/
inductive Ends (t : Thread) : Ending → Prop where
  | cancelled {ticket : Nat} {name : String} {input : Json} :
      t.phase = .entering ticket name input → t.cancelled = true → t.Ends (.error .cancelled)
  | missing {ticket : Nat} {name : String} {input : Json} :
      t.phase = .entering ticket name input → t.cancelled = false →
      t.workflow.state? name = none → t.Ends (.error (.noState name))
  | stops {ticket : Nat} {name : String} {stop : Stop} (report : String) :
      t.phase = .running ticket name (.done (.error stop)) → t.Ends (.error (.ofStop name report stop))
  | done {ticket : Nat} {name : String} {output : Json} :
      t.phase = .running ticket name (.done (.ok ⟨.done, output⟩)) → t.Ends (.ok output)

/-- Takes a turn of the lanes of the thread. -/
def turn (turn : FanOut.Turn) (t : Thread) : Thread := { t with phase := t.phase.turn turn }

/-- The lanes that a thread starts, which are interrupted if the thread is cancelled. -/
def lanes (t : Thread) (limit count : Nat) : FanOut :=
  if t.cancelled then (FanOut.start limit count).take .interrupt else .start limit count

end Thread

namespace Scene

/-! ## Steps -/

/-- What a thread has written down, the latest first. -/
def notes (c : Scene) (i : Nat) : List Note :=
  (c.journal.filter fun entry => entry.thread = i).map Entry.note

def modify (c : Scene) (i : Nat) (f : Thread → Thread) : Scene :=
  { c with threads := c.threads.modify i f }

def put (c : Scene) (i : Nat) (phase : Phase) : Scene := c.modify i fun t => { t with phase }

/-- Writes down notes of a thread, the latest first. -/
def write (c : Scene) (i : Nat) (notes : List Note) : Scene :=
  { c with journal := notes.map (Entry.mk i) ++ c.journal }

/-- Cancels the threads that a test selects. -/
def cancelWhere (c : Scene) (ticket : Nat) (p : Thread → Bool) : Scene :=
  { c with threads := c.threads.map fun t => if p t then t.cancel ticket else t }

/-- Lets the thread whose lane has ended know how. -/
def tell (c : Scene) (parent : Option (Nat × Nat)) (ending : Ending) : Scene :=
  match parent with
  | some (owner, lane) => c.modify owner (.turn (.finish lane ending))
  | none => c

/-- Starts the lanes of thread `i`, as threads of their own. -/
def spawn (c : Scene) (i : Nat) (t : Thread) (ticket ticket' limit : Nat) (jobs : List Job)
    (name : String) (rest : Except Stop (List Json) → StateProcess) : Scene :=
  let c' := c.put i (.forked (some ticket) (t.lanes limit jobs.length) c.threads.size name rest)
  { c' with threads := c'.threads ++ jobs.mapIdx fun lane job => t.ofJob i lane (ticket' + lane) job }

/-- One step of a run. -/
inductive Step (allowed : Bool → Reply → Prop) : Scene → Scene → Prop where
  /-- A thread goes on by itself. -/
  | goes {c : Scene} {i : Nat} {t : Thread} {phase : Phase} {notes : List Note} :
      c.threads[i]? = some t → t.Goes allowed phase notes →
      Step allowed c ((c.put i phase).write i notes)
  /-- A lane gets room to run. -/
  | admits {c : Scene} {i j lane first ticket : Nat} {t u : Thread} {input : Json}
      {ticket' : Option Nat} {f : FanOut} {name : String}
      {rest : Except Stop (List Json) → StateProcess} :
      c.threads[j]? = some u → u.phase.outside? = some input → u.parent = some (i, lane) →
      c.threads[i]? = some t → t.phase = .forked ticket' f first name rest → f.hasRoom →
      Step allowed c
        ((c.modify i (.turn (.enter lane))).put j (.entering ticket u.workflow.startAt input))
  /-- The workflow of a thread ends. -/
  | ends {c : Scene} {i : Nat} {t : Thread} {ending : Ending} :
      c.threads[i]? = some t → t.Ends ending →
      Step allowed c ((c.put i (.ended ending)).tell t.parent ending)
  /-- A thread starts lanes. -/
  | spawns {c : Scene} {i ticket ticket' ticket'' limit : Nat} {t : Thread} {name : String}
      {jobs : List Job} {rest : Except Stop (List Json) → StateProcess} :
      c.threads[i]? = some t → t.phase = .running ticket name (.fork jobs limit rest) →
      limit ≤ FanOut.maxLimit →
      Step allowed c (c.spawn i t ticket' ticket'' limit jobs name rest)
  /-- A thread sees some of its lanes, and cancels all of them if it gives up. -/
  | sees {c : Scene} {i first ticket : Nat} {t : Thread} {ticket' ticket'' : Option Nat}
      {f f' : FanOut} {name : String} {rest : Except Stop (List Json) → StateProcess} :
      c.threads[i]? = some t → t.phase = .forked ticket' f first name rest →
      i ∉ t.ancestors → f.Observes f' →
      Step allowed c ((c.cancelWhere ticket fun u =>
        f'.verdict.isSome && !f.isCancelled && u.ancestors.contains i).put i
          (.forked ticket'' f' first name rest))
  /-- The run is cancelled from outside. -/
  | cancels {c : Scene} {ticket : Nat} : Step allowed c (c.cancelWhere ticket fun _ => true)

/-- A sequence of steps. -/
def Steps (allowed : Bool → Reply → Prop) : Scene → Scene → Prop :=
  Relation.ReflTransGen (Step allowed)

variable {allowed : Bool → Reply → Prop} {c c' : Scene} {i l : Nat} {t : Thread} {phase : Phase}

theorem getElem?_modify {f : Thread → Thread} : (c.modify i f).threads[l]? =
    if i = l then c.threads[l]?.map f else c.threads[l]? := Array.getElem?_modify

theorem getElem?_put : (c.put i phase).threads[l]? =
    if i = l then c.threads[l]?.map fun t => { t with phase } else c.threads[l]? :=
  Array.getElem?_modify

theorem getElem?_cancelWhere {ticket : Nat} {p : Thread → Bool} :
    (c.cancelWhere ticket p).threads[l]? =
      c.threads[l]?.map fun t => if p t then t.cancel ticket else t := Array.getElem?_map

theorem getElem?_tell (parent : Option (Nat × Nat)) (ending : Ending) :
    (c.tell parent ending).threads[l]? = c.threads[l]? ∨
      ∃ lane, parent = some (l, lane) ∧
        (c.tell parent ending).threads[l]? = c.threads[l]?.map (.turn (.finish lane ending)) := by
  match parent with
  | none => exact .inl rfl
  | some (owner, lane) =>
    rw [tell, getElem?_modify]
    split
    · next h => exact .inr ⟨lane, by rw [h], rfl⟩
    · exact .inl rfl

theorem getElem?_spawn {ticket ticket' limit : Nat} {jobs : List Job} {name : String}
    {rest : Except Stop (List Json) → StateProcess} :
    (c.spawn i t ticket ticket' limit jobs name rest).threads[l]? =
      if l < c.threads.size then
        (c.put i (.forked (some ticket) (t.lanes limit jobs.length) c.threads.size name
          rest)).threads[l]?
      else jobs[l - c.threads.size]?.map
        (t.ofJob i (l - c.threads.size) (ticket' + (l - c.threads.size))) := by
  unfold spawn
  rw [← Array.getElem?_toList, Array.toList_appendList, List.getElem?_append, Array.length_toList,
    List.getElem?_mapIdx, Array.getElem?_toList]
  simp only [put, modify, Array.size_modify]

/-- The new thread is that of a lane which a thread starts. -/
def Starts (c : Scene) (u : Thread) : Prop :=
  ∃ (i : Nat) (t : Thread) (ticket : Nat) (name : String) (jobs : List Job) (limit : Nat)
    (rest : Except Stop (List Json) → StateProcess) (lane : Nat) (job : Job) (ticket' : Nat),
    c.threads[i]? = some t ∧ t.phase = .running ticket name (.fork jobs limit rest) ∧
    limit ≤ FanOut.maxLimit ∧ jobs[lane]? = some job ∧ u = t.ofJob i lane ticket' job

/-! ## What becomes of a thread -/

/-- What a step makes of thread `i`, and what the thread writes down in it, the latest first. -/
inductive Becomes (allowed : Bool → Reply → Prop) (c : Scene) (i : Nat) (t : Thread) :
    Thread → List Note → Prop where
  | stays : Becomes allowed c i t t []
  | goes {phase : Phase} {notes : List Note} :
      t.Goes allowed phase notes → Becomes allowed c i t { t with phase } notes
  | admitted {ticket : Nat} {input : Json} : t.phase.outside? = some input →
      Becomes allowed c i t { t with phase := .entering ticket t.workflow.startAt input } []
  | ended {ending : Ending} :
      t.Ends ending → Becomes allowed c i t { t with phase := .ended ending } []
  | admits {ticket : Option Nat} {f : FanOut} {first lane : Nat} {name : String}
      {rest : Except Stop (List Json) → StateProcess} :
      t.phase = .forked ticket f first name rest → f.hasRoom →
      Becomes allowed c i t
        { t with phase := .forked ticket (f.take (.enter lane)) first name rest } []
  | told {ticket : Option Nat} {f : FanOut} {first lane j : Nat} {name : String}
      {rest : Except Stop (List Json) → StateProcess} {u : Thread} {ending : Ending} :
      t.phase = .forked ticket f first name rest → c.threads[j]? = some u →
      u.parent = some (i, lane) → u.Ends ending →
      Becomes allowed c i t
        { t with phase := .forked ticket (f.take (.finish lane ending)) first name rest } []
  | spawns {ticket ticket' first limit : Nat} {name : String} {jobs : List Job}
      {rest : Except Stop (List Json) → StateProcess} :
      t.phase = .running ticket name (.fork jobs limit rest) → limit ≤ FanOut.maxLimit →
      Becomes allowed c i t
        { t with phase := .forked (some ticket') (t.lanes limit jobs.length) first name rest } []
  | sees {ticket ticket' : Option Nat} {f f' : FanOut} {first : Nat} {name : String}
      {rest : Except Stop (List Json) → StateProcess} :
      t.phase = .forked ticket f first name rest → f.Observes f' →
      Becomes allowed c i t { t with phase := .forked ticket' f' first name rest } []
  | cancelled {ticket : Nat} : Becomes allowed c i t (t.cancel ticket) []

theorem notes_write {notes : List Note} :
    (c.write i notes).notes l = if i = l then notes ++ c.notes l else c.notes l := by
  unfold write Scene.notes
  rw [List.filter_append, List.map_append, List.filter_map, List.map_map]
  split
  · next h =>
    subst h
    rw [List.filter_eq_self.mpr fun n _ => by simp]
    exact congrArg (· ++ _) (List.map_id' _)
  · next h => rw [List.filter_eq_nil_iff.mpr fun n _ => by simpa using h, List.map_nil, List.nil_append]

theorem notes_tell {parent : Option (Nat × Nat)} {ending : Ending} :
    (c.tell parent ending).notes l = c.notes l := by
  match parent with
  | none => rfl
  | some (owner, lane) => rfl

theorem becomes_turn {ending : Ending} {lane j : Nat} {u : Thread} (hj : c.threads[j]? = some u)
    (hp : u.parent = some (i, lane)) (hu : u.Ends ending) :
    c.Becomes allowed i t (t.turn (.finish lane ending)) [] := by
  unfold Thread.turn
  rcases t.phase.forked_or_turn (.finish lane ending) with ⟨ticket, f, first, name, rest, h⟩ | h
  · rw [h]
    exact .told h hj hp hu
  · rw [h]
    exact .stays

/-- Thread `u'`, which is at place `l` in the second scene, comes of the one that was there. -/
def ComesOf (allowed : Bool → Reply → Prop) (c c' : Scene) (l : Nat) (u' : Thread) : Prop :=
  ∃ u notes, c.threads[l]? = some u ∧ c.Becomes allowed l u u' notes ∧ c'.notes l = notes ++ c.notes l

theorem ComesOf.silent {u u' : Thread} (hu : c.threads[l]? = some u) (hb : c.Becomes allowed l u u' [])
    (hn : c'.notes l = c.notes l) : ComesOf allowed c c' l u' := ⟨u, [], hu, hb, hn⟩

section step

variable {u u' : Thread} {notes : List Note} {ending : Ending}

theorem comesOf_goes (ht : c.threads[i]? = some t) (hg : t.Goes allowed phase notes)
    (hu : ((c.put i phase).write i notes).threads[l]? = some u') :
    ComesOf allowed c ((c.put i phase).write i notes) l u' := by
  have hu : (c.put i phase).threads[l]? = some u' := hu
  rw [ComesOf, notes_write]
  rw [getElem?_put] at hu
  by_cases h : i = l
  · subst h
    rw [if_pos rfl, ht] at hu
    cases hu
    exact ⟨t, notes, ht, .goes hg, by rw [if_pos rfl]; rfl⟩
  · rw [if_neg h] at hu
    exact ⟨u', [], hu, .stays, by rw [if_neg h]; rfl⟩

theorem comesOf_admits {j lane first ticket : Nat} {ticket' : Option Nat} {input : Json} {f : FanOut}
    {name : String} {rest : Except Stop (List Json) → StateProcess}
    (hj : c.threads[j]? = some u) (hi : u.phase.outside? = some input)
    (ht : c.threads[i]? = some t) (hf : t.phase = .forked ticket' f first name rest) (hroom : f.hasRoom)
    (hu : ((c.modify i (.turn (.enter lane))).put j
      (.entering ticket u.workflow.startAt input)).threads[l]? = some u') :
    ComesOf allowed c
      ((c.modify i (.turn (.enter lane))).put j (.entering ticket u.workflow.startAt input)) l u' := by
  -- the lane is not the thread that it belongs to
  have hij : i ≠ j := by
    rintro rfl
    cases hj.symm.trans ht
    rw [hf] at hi
    cases hi
  rw [getElem?_put, getElem?_modify] at hu
  by_cases hjl : j = l
  · subst hjl
    rw [if_pos rfl, if_neg hij, hj] at hu
    cases hu
    exact .silent hj (.admitted hi) rfl
  · rw [if_neg hjl] at hu
    by_cases hil : i = l
    · subst hil
      rw [if_pos rfl, ht] at hu
      cases hu
      refine .silent ht ?_ rfl
      rw [Thread.turn, hf, Phase.turn]
      exact .admits hf hroom
    · rw [if_neg hil] at hu
      exact .silent hu .stays rfl

theorem comesOf_ends (ht : c.threads[i]? = some t) (he : t.Ends ending)
    (hu : ((c.put i (.ended ending)).tell t.parent ending).threads[l]? = some u') :
    ComesOf allowed c ((c.put i (.ended ending)).tell t.parent ending) l u' := by
  have hput : (c.put i (.ended ending)).threads[l]? =
      if i = l then c.threads[l]?.map fun t => { t with phase := .ended ending } else c.threads[l]? :=
    getElem?_put
  by_cases hil : i = l
  · -- what the thread is told about itself does not matter to it any more
    subst hil
    rw [if_pos rfl, ht] at hput
    obtain rfl : u' = { t with phase := .ended ending } := by
      rcases getElem?_tell (c := c.put i (.ended ending)) (l := i) t.parent ending with h | ⟨_, -, h⟩ <;>
        rw [h, hput] at hu <;> cases hu <;> rfl
    exact .silent ht (.ended he) notes_tell
  · rw [if_neg hil] at hput
    rcases getElem?_tell (c := c.put i (.ended ending)) (l := l) t.parent ending with h | ⟨lane, hp, h⟩
    · rw [h, hput] at hu
      exact .silent hu .stays notes_tell
    · rw [h, hput] at hu
      obtain ⟨u, hl, rfl⟩ := Option.map_eq_some_iff.mp hu
      exact .silent hl (becomes_turn ht hp he) notes_tell

theorem comesOf_or_starts {ticket ticket' ticket'' limit : Nat} {name : String} {jobs : List Job}
    {rest : Except Stop (List Json) → StateProcess} (ht : c.threads[i]? = some t)
    (hf : t.phase = .running ticket name (.fork jobs limit rest)) (hlimit : limit ≤ FanOut.maxLimit)
    (hu : (c.spawn i t ticket' ticket'' limit jobs name rest).threads[l]? = some u') :
    ComesOf allowed c (c.spawn i t ticket' ticket'' limit jobs name rest) l u' ∨
      (c.threads.size ≤ l ∧ c.Starts u' ∧
        (c.spawn i t ticket' ticket'' limit jobs name rest).notes l = c.notes l) := by
  rw [getElem?_spawn] at hu
  by_cases hl : l < c.threads.size
  · left
    rw [if_pos hl, getElem?_put] at hu
    by_cases hil : i = l
    · subst hil
      rw [if_pos rfl, ht] at hu
      cases hu
      exact .silent ht (.spawns hf hlimit) rfl
    · rw [if_neg hil] at hu
      exact .silent hu .stays rfl
  · right
    rw [if_neg hl] at hu
    obtain ⟨job, hjob, rfl⟩ := Option.map_eq_some_iff.mp hu
    exact ⟨Nat.le_of_not_lt hl, ⟨_, _, _, _, _, _, _, _, _, _, ht, hf, hlimit, hjob, rfl⟩, rfl⟩

theorem comesOf_cancelWhere {ticket : Nat} {p : Thread → Bool}
    (hu : (c.cancelWhere ticket p).threads[l]? = some u') (hn : c'.notes l = c.notes l) :
    ComesOf allowed c c' l u' := by
  rw [getElem?_cancelWhere] at hu
  obtain ⟨u, hl, rfl⟩ := Option.map_eq_some_iff.mp hu
  refine .silent hl ?_ hn
  split
  · exact .cancelled
  · exact .stays

theorem comesOf_sees {first ticket : Nat} {ticket' ticket'' : Option Nat} {f f' : FanOut} {name : String}
    {rest : Except Stop (List Json) → StateProcess} {p : Thread → Bool} (ht : c.threads[i]? = some t)
    (hf : t.phase = .forked ticket' f first name rest) (hp : p t = false) (hobs : f.Observes f')
    (hu : ((c.cancelWhere ticket p).put i (.forked ticket'' f' first name rest)).threads[l]? = some u') :
    ComesOf allowed c ((c.cancelWhere ticket p).put i (.forked ticket'' f' first name rest)) l u' := by
  rw [getElem?_put] at hu
  by_cases hil : i = l
  · subst hil
    rw [if_pos rfl, getElem?_cancelWhere, ht, Option.map_some, hp] at hu
    cases hu
    exact .silent ht (.sees hf hobs) rfl
  · rw [if_neg hil] at hu
    exact comesOf_cancelWhere hu rfl

end step

/-- **What a step makes of a thread.** A thread that was there becomes what its relation to the step
allows, and any other thread is a new lane. -/
theorem Step.becomes (h : Step allowed c c') {u' : Thread} (hu : c'.threads[l]? = some u') :
    (∃ u notes, c.threads[l]? = some u ∧ c.Becomes allowed l u u' notes ∧
      c'.notes l = notes ++ c.notes l) ∨
    (c.threads.size ≤ l ∧ c.Starts u' ∧ c'.notes l = c.notes l) := by
  cases h with
  | goes ht hg => exact .inl (comesOf_goes ht hg hu)
  | admits hj hi _ ht hf hroom => exact .inl (comesOf_admits hj hi ht hf hroom hu)
  | ends ht he => exact .inl (comesOf_ends ht he hu)
  | spawns ht hf hlimit => exact comesOf_or_starts ht hf hlimit hu
  | sees ht hf hi hobs => exact .inl (comesOf_sees ht hf (by simp [hi]) hobs hu)
  | cancels => exact .inl (comesOf_cancelWhere hu rfl)

theorem Becomes.place {u : Thread} {notes : List Note} (h : c.Becomes allowed i t u notes) :
    u.workflow = t.workflow ∧ u.context = t.context ∧ u.parent = t.parent ∧
      u.ancestors = t.ancestors := by
  cases h <;> exact ⟨rfl, rfl, rfl, rfl⟩

/-! ## Invariants of threads -/

/-- What was written down belongs to the threads that there are. -/
def Tidy (c : Scene) : Prop := ∀ entry ∈ c.journal, entry.thread < c.threads.size

theorem Tidy.notes_eq_nil (h : c.Tidy) (hl : c.threads.size ≤ l) : c.notes l = [] := by
  unfold Scene.notes
  rw [List.map_eq_nil_iff, List.filter_eq_nil_iff]
  intro entry hentry
  have := h entry hentry
  simp only [decide_eq_true_eq]
  omega

theorem Tidy.exists_thread {n : Note} (h : c.Tidy) (hn : n ∈ c.notes l) :
    ∃ t, c.threads[l]? = some t := by
  refine ⟨_, Array.getElem?_eq_getElem (Nat.lt_of_not_le fun hle => ?_)⟩
  rw [h.notes_eq_nil hle] at hn
  cases hn

theorem size_tell {parent : Option (Nat × Nat)} {ending : Ending} :
    (c.tell parent ending).threads.size = c.threads.size := by
  match parent with
  | none => rfl
  | some (owner, lane) => exact Array.size_modify

theorem journal_tell {parent : Option (Nat × Nat)} {ending : Ending} :
    (c.tell parent ending).journal = c.journal := by
  match parent with
  | none => rfl
  | some (owner, lane) => rfl

theorem size_le_spawn {ticket ticket' limit : Nat} {jobs : List Job} {name : String}
    {rest : Except Stop (List Json) → StateProcess} :
    c.threads.size ≤ (c.spawn i t ticket ticket' limit jobs name rest).threads.size := by
  unfold spawn
  rw [← Array.length_toList, ← Array.length_toList, Array.toList_appendList, List.length_append]
  simp only [put, modify, Array.length_toList, Array.size_modify, Nat.le_add_right]

theorem Step.size_le (h : Step allowed c c') : c.threads.size ≤ c'.threads.size := by
  cases h with
  | goes => simp only [write, put, modify, Array.size_modify, Nat.le_refl]
  | admits => simp only [put, modify, Array.size_modify, Nat.le_refl]
  | ends => simp only [size_tell, put, modify, Array.size_modify, Nat.le_refl]
  | spawns => exact size_le_spawn
  | sees => simp only [put, modify, cancelWhere, Array.size_modify, Array.size_map, Nat.le_refl]
  | cancels => simp only [cancelWhere, Array.size_map, Nat.le_refl]

theorem Tidy.step (ht : c.Tidy) (h : Step allowed c c') : c'.Tidy := by
  intro entry hentry
  have hold : entry ∈ c.journal → entry.thread < c'.threads.size :=
    fun hmem => Nat.lt_of_lt_of_le (ht entry hmem) h.size_le
  cases h with
  | @goes i t phase notes hi hg =>
    rcases List.mem_append.mp hentry with hnew | hmem
    · obtain ⟨n, -, rfl⟩ := List.mem_map.mp hnew
      have : i < c.threads.size := (Array.getElem?_eq_some_iff.mp hi).1
      simpa only [write, put, modify, Array.size_modify] using this
    · exact hold hmem
  | admits => exact hold hentry
  | ends =>
    rw [journal_tell] at hentry
    exact hold hentry
  | spawns => exact hold hentry
  | sees => exact hold hentry
  | cancels => exact hold hentry

theorem Tidy.steps (ht : c.Tidy) (h : Steps allowed c c') : c'.Tidy := by
  induction h with
  | refl => exact ht
  | tail _ hstep ih => exact ih.step hstep

theorem Steps.place (h : Steps allowed c c') {u : Thread} (hu : c.threads[l]? = some u) :
    ∃ u', c'.threads[l]? = some u' ∧ u'.workflow = u.workflow ∧ u'.context = u.context ∧
      u'.parent = u.parent ∧ u'.ancestors = u.ancestors := by
  induction h with
  | refl => exact ⟨u, hu, rfl, rfl, rfl, rfl⟩
  | @tail d d' _ hstep ih =>
    obtain ⟨v, hv, hw, hx, hp, ha⟩ := ih
    have hl : l < d.threads.size := (Array.getElem?_eq_some_iff.mp hv).1
    obtain ⟨v', hv'⟩ : ∃ v', d'.threads[l]? = some v' :=
      ⟨_, Array.getElem?_eq_getElem (Nat.lt_of_lt_of_le hl hstep.size_le)⟩
    refine ⟨v', hv', ?_⟩
    rcases hstep.becomes hv' with ⟨v₂, notes, hv₂, hbec, -⟩ | ⟨hle, -, -⟩
    · cases hv.symm.trans hv₂
      obtain ⟨hw', hx', hp', ha'⟩ := hbec.place
      exact ⟨hw'.trans hw, hx'.trans hx, hp'.trans hp, ha'.trans ha⟩
    · omega

/-- Every thread has a property, together with what it has written down. -/
def Each (P : Nat → Thread → List Note → Prop) (c : Scene) : Prop :=
  ∀ i t, c.threads[i]? = some t → P i t (c.notes i)

/-- **An invariant of every thread by itself**: it is kept by whatever becomes of a thread, and every
new lane starts with it. -/
theorem Steps.each {P : Nat → Thread → List Note → Prop}
    (hb : ∀ (d : Scene) (l : Nat) (u u' : Thread) (notes : List Note), Steps allowed c d → d.Each P →
      d.threads[l]? = some u → d.Becomes allowed l u u' notes → P l u' (notes ++ d.notes l))
    (hs : ∀ (d : Scene) (l : Nat) (u : Thread), Steps allowed c d → d.Each P → d.Starts u → P l u [])
    (h : Steps allowed c c') (ht : c.Tidy) (hc : c.Each P) : c'.Each P := by
  induction h with
  | refl => exact hc
  | @tail d d' hsteps hstep ih =>
    intro l u' hu
    rcases hstep.becomes hu with ⟨u, notes, hl, hbec, hn⟩ | ⟨hl, hstart, hn⟩
    · rw [hn]
      exact hb d l u u' notes hsteps ih hl hbec
    · rw [hn, (ht.steps hsteps).notes_eq_nil hl]
      exact hs d l u' hsteps ih hstart

end Scene

end StepFlow
