import StepFlow.Proofs.Condition.Rule
import StepFlow.Proofs.Path.Basic
import StepFlow.Proofs.Workflow.Compile

/-!
# What compiling checks

A run takes much for granted that is checked once, when a document is compiled: that lists of errors are
not empty, that the matcher for all errors comes last, that a choice has rules, that a result is written to
a place that a path names. The checks are made by different readers, and for the documents within a document
by compiling them.

* `ErrorsChecked`, `AllIsLast`, `Recovery.Checked`: policies;
* `Condition.Filled`: conditions that combine something wherever they combine;
* `ReferencePath.Plain`, `ResultHandling.Checked`, `WaitDuration.Plain`: paths and templates;
* `State.Checked`, `checked_decodeState`: all checks of one state;
* `Workflow.NestedIn`, `NestedIn.exists_document`: the workflows within a workflow, each of which is compiled;
* **`checked_compile`**.
-/

namespace StepFlow

/-! ## Policies -/

/-- The list names errors; the matcher for all errors stands alone. -/
structure ErrorsChecked (names : List String) : Prop where
  nonempty : names ≠ []
  alone : matchAll ∈ names → names = [matchAll]

/-- Only the last one of the lists may have the matcher for all errors. -/
def AllIsLast (lists : List (List String)) : Prop :=
  ∀ i names, lists[i]? = some names → matchAll ∈ names → i + 1 = lists.length

theorem errorsChecked_of_checkErrors {names : List String} {u : Unit} (h : checkErrors names = .ok u) :
    ErrorsChecked names := by
  unfold checkErrors at h
  split at h
  · cases h
  · next hempty =>
    split at h
    · cases h
    · next halone =>
      refine ⟨by simpa using hempty, fun hmem => ?_⟩
      have hlength : names.length ≤ 1 := by simpa [hmem] using halone
      match names, hmem, hlength with
      | [_], hmem, _ => rw [List.mem_singleton.mp hmem]

theorem allIsLast_of_checkAllIsLast {lists : List (List String)} {u : Unit}
    (h : checkAllIsLast lists = .ok u) : AllIsLast lists := by
  unfold checkAllIsLast at h
  split at h
  · cases h
  · next hany =>
    intro i names hi hmem
    have hlt : i < lists.length := (List.getElem?_eq_some_iff.mp hi).1
    by_contra hlast
    have hdrop : lists.dropLast[i]? = some names := by
      rw [List.getElem?_dropLast, if_pos (by omega), hi]
    exact hany (List.any_eq_true.mpr ⟨names, List.mem_of_getElem? hdrop, by simpa using hmem⟩)

/-- A retrier names errors, waits, and does not shorten its delays. -/
structure Retrier.Checked (r : Retrier) : Prop where
  errors : ErrorsChecked r.errorEquals
  interval : 1 ≤ r.intervalSeconds
  rate : r.backoffRate ≥ 1
  finite : r.backoffRate.isFinite = true

theorem Retrier.checked_of_check {r : Retrier} {u : Unit} (h : r.check = .ok u) : r.Checked := by
  unfold Retrier.check at h
  obtain ⟨_, herrors, h⟩ := Except.bind_eq_ok_iff.mp h
  dsimp only at h
  split at h
  · cases h
  · next hrate =>
    split at h
    · cases h
    · next hinterval =>
      have hboth : r.backoffRate ≥ 1 ∧ r.backoffRate.isFinite = true := by simpa using hrate
      exact ⟨errorsChecked_of_checkErrors herrors, Nat.one_le_iff_ne_zero.mpr hinterval, hboth.1, hboth.2⟩

/-! ## Paths and templates -/

/-- Neither a union nor a slice nor a filter. -/
def Segment.IsPlain : Segment → Prop
  | .union _ | .slice _ _ _ | .filter _ => False
  | _ => True

/-- The path starts at the root and has no union, slice or filter. -/
def ReferencePath.Plain (p : ReferencePath) : Prop :=
  p.path.query.anchor = .root ∧ ∀ s ∈ p.path.query.segments, s.IsPlain

/-- **Every reference path is plain**: it carries the proof of it. -/
theorem ReferencePath.plain (p : ReferencePath) : p.Plain := by
  refine ⟨p.anchor_eq, fun s hs => ?_⟩
  have hallowed := p.forbidden?_of_mem s hs
  cases s with
  | union _ | slice _ _ _ | filter _ => cases hallowed
  | _ => trivial

/-- What is given in a path field is plain. -/
def PlainSpec (spec : Option (PathSpec ReferencePath)) : Prop := ∀ p, spec = some (.path p) → p.Plain

/-- A template is an object where there is one. -/
def IsTemplate (value : Option Json) : Prop := ∀ j, value = some j → ∃ members, j = .obj members

theorem isTemplate_of_template {n field : String} {value value' : Option Json}
    (h : StateDraft.template n field value = .ok value') : IsTemplate value' := by
  unfold StateDraft.template at h
  split at h
  · next members =>
    cases h
    rintro _ ⟨⟩
    exact ⟨members, rfl⟩
  · cases h
  · cases h
    exact nofun

/-- The paths of a duration are plain. -/
def WaitDuration.Plain : WaitDuration → Prop
  | .secondsPath p => p.Plain
  | .timestampPath p => p.Plain
  | _ => True

theorem WaitDuration.plain (w : WaitDuration) : w.Plain := by
  cases w with
  | secondsPath p => exact p.plain
  | timestampPath p => exact p.plain
  | _ => trivial

/-! ## Conditions -/

/-- Wherever the condition combines conditions with `and` or `or`, there is one at least. -/
inductive Condition.Filled : Condition → Prop where
  | and {children : List Condition} : children ≠ [] → (∀ c ∈ children, c.Filled) → Filled (.and children)
  | or {children : List Condition} : children ≠ [] → (∀ c ∈ children, c.Filled) → Filled (.or children)
  | not {child : Condition} : child.Filled → Filled (.not child)
  | compare {kind : ValueKind} {relation : Relation} {left : Path} {right : Reference} :
      Filled (.compare kind relation left right)
  | stringMatches {subject : Path} {pattern : String} : Filled (.stringMatches subject pattern)
  | test {test : TypeTest} {subject : Path} {expected : Bool} : Filled (.test test subject expected)

theorem Spells.filled {rule : Keyed Json} {c : Condition} (h : Spells rule c) : c.Filled := by
  induction h with
  | and _ hne _ ih => exact .and (mt List.map_eq_nil_iff.mp hne) (List.forall_mem_map.mpr ih)
  | or _ hne _ ih => exact .or (mt List.map_eq_nil_iff.mp hne) (List.forall_mem_map.mpr ih)
  | not _ _ ih => exact .not ih
  | test => exact .test
  | stringMatches => exact .stringMatches
  | literal => exact .compare
  | path => exact .compare

/-! ## Parts of states -/

/-- The templates and paths of a state's result handling. -/
structure ResultHandling.Checked (h : ResultHandling) : Prop where
  parameters : IsTemplate h.parameters
  resultPath : PlainSpec h.resultPath

/-- The policies of a state. -/
structure Recovery.Checked (r : Recovery) : Prop where
  resultSelector : IsTemplate r.resultSelector
  retriers : ∀ x ∈ r.retriers, x.Checked
  catchers : ∀ c ∈ r.catchers, ErrorsChecked c.errorEquals ∧ PlainSpec c.resultPath
  retryAll : AllIsLast (r.retriers.map Retrier.errorEquals)
  catchAll : AllIsLast (r.catchers.map Catcher.errorEquals)

namespace StateDraft

variable {d : StateDraft} {n : String}

theorem checked_handling {r : ResultHandling} (h : d.handling n = .ok r) : r.Checked :=
  ⟨isTemplate_of_template (handling_eq_ok h).1, fun p _ => p.plain⟩

theorem checked_recovery {r : Recovery} (h : d.recovery n = .ok r) : r.Checked := by
  have hr := recovery_eq_ok h
  refine ⟨isTemplate_of_template hr.selector, fun x hx => ?_, fun c hc => ?_,
    allIsLast_of_checkAllIsLast hr.retryAll, allIsLast_of_checkAllIsLast hr.catchAll⟩
  · obtain ⟨j, -, hj⟩ := Except.exists_of_mem_mapM hr.retriers hx
    exact Retrier.checked_of_check (retrier_eq_ok hj).2
  · obtain ⟨t, -, ht⟩ := Except.exists_of_mem_mapM hr.catchers hc
    exact ⟨errorsChecked_of_checkErrors (catcher_eq_ok ht).1, fun p _ => p.plain⟩

theorem filled_of_choiceList {choices : List ChoiceRule} (h : d.choiceList n = .ok choices) :
    choices ≠ [] ∧ ∀ r ∈ choices, r.condition.Filled := by
  obtain ⟨hne, rules, -, hall⟩ := choiceList_eq_ok h
  refine ⟨hne, fun r hr => ?_⟩
  obtain ⟨rule, -, hrule⟩ := hall r hr
  exact (spells_of_ofRule hrule).filled

end StateDraft

/-! ## States -/

/-- **All checks of one state.** -/
structure State.Checked {W : Type} (s : State W) : Prop where
  handling : ∀ h, s.handling? = some h → h.Checked
  recovery : ∀ r, s.recovery? = some r → r.Checked
  choice : ∀ c, s = .choice c → c.choices ≠ [] ∧ ∀ r ∈ c.choices, r.condition.Filled
  parallel : ∀ p, s = .parallel p → p.branches ≠ []
  map : ∀ m, s = .map m → m.itemsPath.Plain
  wait : ∀ w, s = .wait w → w.duration.Plain

theorem checked_decodeState {W : Type} {f : Json → Except CompileError W} {n : String} {j : Json}
    {s : State W} (h : decodeState f n j = .ok s) : s.Checked := by
  obtain ⟨kind, d, -, -, h⟩ := decodeState_eq_ok h
  have hhandling : ∀ h, s.handling? = some h → h.Checked := by
    intro r hr
    cases h with
    | pass _ hh _ | task _ _ hh _ _ | parallel _ _ _ _ hh _ _ | map _ _ _ _ hh _ _ =>
      cases hr
      exact StateDraft.checked_handling hh
    | _ => cases hr
  have hrecovery : ∀ r, s.recovery? = some r → r.Checked := by
    intro r hr
    cases h with
    | task _ _ _ hrec _ | parallel _ _ _ _ _ hrec _ | map _ _ _ _ _ hrec _ =>
      cases hr
      exact StateDraft.checked_recovery hrec
    | _ => cases hr
  refine ⟨hhandling, hrecovery, ?_, ?_, fun m _ => m.itemsPath.plain, fun w _ => w.duration.plain⟩
  · rintro c rfl
    cases h with
    | choice _ hchoices => exact StateDraft.filled_of_choiceList hchoices
  · rintro p rfl
    cases h with
    | parallel _ hne hbranches =>
      intro hnil
      have hlength := (Except.getElem?_of_mapM hbranches).1
      dsimp only at hnil
      rw [hnil] at hlength
      exact hne (List.length_eq_zero_iff.mp hlength)

/-! ## Workflows -/

/-- The one workflow is the other one, or runs within one of its states, at any depth. -/
inductive Workflow.NestedIn (v : Workflow) : Workflow → Prop where
  | self : v.NestedIn v
  | state {w u : Workflow} {s : State Workflow} : s ∈ w.states → u ∈ s.nested → v.NestedIn u →
      v.NestedIn w

/-- **A workflow within a compiled one is compiled from a document of its own.** -/
theorem Workflow.NestedIn.exists_document {v w : Workflow} (hv : v.NestedIn w) {document : Json}
    (h : Workflow.compile document = .ok w) : ∃ x, Workflow.compile x = .ok v := by
  induction hv generalizing document with
  | self => exact ⟨document, h⟩
  | state hs hu _ ih =>
    obtain ⟨n, j, hdecode⟩ := exists_decodeState h hs
    obtain ⟨x, -, hx⟩ := (nested_decodeState hdecode).2 _ hu
    exact ih hx

/-- **What holds of every state of a compiled workflow**, and of every state of the workflows within it. -/
theorem checked_compile {document : Json} {w : Workflow} (h : Workflow.compile document = .ok w)
    {v : Workflow} (hv : v.NestedIn w) {s : State Workflow} (hs : s ∈ v.states) : s.Checked := by
  obtain ⟨x, hx⟩ := hv.exists_document h
  obtain ⟨n, j, hdecode⟩ := exists_decodeState hx hs
  exact checked_decodeState hdecode

/-- The workflows that the states of a workflow run. -/
def Workflow.inner (w : Workflow) : List Workflow := w.states.flatMap State.nested

theorem Workflow.NestedIn.of_head?_inner {v u w : Workflow} (hu : w.inner.head? = some u)
    (hv : v.NestedIn u) : v.NestedIn w := by
  obtain ⟨s, hs, hmem⟩ := List.mem_flatMap.mp (List.mem_of_head? hu)
  exact .state hs hmem hv

/-- A document with a task that has policies, and a choice that combines two tests. -/
def recoveringIterator : Json :=
  .obj [("StartAt", .str "X"), ("States", .obj [
    ("X", .obj [
      ("Catch", .arr [
        .obj [("ErrorEquals", .arr [.str "E"]), ("Next", .str "Y"), ("ResultPath", .str "$.error")],
        .obj [("ErrorEquals", .arr [.str "States.ALL"]), ("Next", .str "Y")]]),
      ("Next", .str "Y"),
      ("Resource", .str "script:x"),
      ("Retry", .arr [.obj [("ErrorEquals", .arr [.str "States.ALL"])]]),
      ("Type", .str "Task")]),
    ("Y", .obj [
      ("Choices", .arr [.obj [
        ("And", .arr [.obj [("IsPresent", .bool true), ("Variable", .str "$.a")],
          .obj [("Not", .obj [("IsNull", .bool true), ("Variable", .str "$.a")])]]),
        ("Next", .str "X")]]),
      ("Default", .str "Z"), ("Type", .str "Choice")]),
    ("Z", .obj [("Type", .str "Succeed")])])]

/-- A document that runs it for the items of an array, within a branch. -/
def recoveringBranches : Json :=
  .obj [("StartAt", .str "A"), ("States", .obj [
    ("A", .obj [
      ("Branches", .arr [.obj [("StartAt", .str "M"), ("States", .obj [
        ("M", .obj [("End", .bool true), ("ItemsPath", .str "$.items"), ("Iterator", recoveringIterator),
          ("Type", .str "Map")])])]]),
      ("End", .bool true), ("Type", .str "Parallel")])])]

/-- The policies of the task, two workflows down. -/
theorem checked_compile_recovering : ∃ (w v : Workflow) (s : State Workflow) (r : Recovery),
    Workflow.compile recoveringBranches = .ok w ∧ v.NestedIn w ∧ s ∈ v.states ∧
      s.recovery? = some r ∧ r.catchers.length = 2 ∧ s.Checked := by
  have hcount : ((Workflow.compile recoveringBranches).toOption.bind fun w => w.inner.head?.bind fun u =>
      u.inner.head?.bind fun v => v.states.head?.bind fun s => s.recovery?.map fun r =>
        r.catchers.length) = some 2 := by decide +kernel
  obtain ⟨w, hw, hcount⟩ := Option.bind_eq_some_iff.mp hcount
  obtain ⟨u, hu, hcount⟩ := Option.bind_eq_some_iff.mp hcount
  obtain ⟨v, hv, hcount⟩ := Option.bind_eq_some_iff.mp hcount
  obtain ⟨s, hs, hcount⟩ := Option.bind_eq_some_iff.mp hcount
  obtain ⟨r, hr, hcount⟩ := Option.map_eq_some_iff.mp hcount
  have hw := Except.toOption_eq_some_iff.mp hw
  have hnested : v.NestedIn w := .of_head?_inner hu (.of_head?_inner hv .self)
  have hmem := List.mem_of_head? hs
  exact ⟨w, v, s, r, hw, hnested, hmem, hr, hcount, checked_compile hw hnested hmem⟩

end StepFlow
