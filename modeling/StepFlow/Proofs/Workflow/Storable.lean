import Mathlib.Data.List.Perm.Subperm
import StepFlow.Proofs.Condition.Rule
import StepFlow.Proofs.Json.Regular
import StepFlow.Proofs.Path.Basic
import StepFlow.Proofs.Workflow.Compile

/-!
# What compiling ensures for storing

A stored workflow leaves out what is missing by writing `null`, and it writes paths as texts. Nothing is
lost by that because the compiler makes no value that is `null` itself, and no path other than by reading
its text.

* `Json.Inherited`: properties that a value passes on to its parts;
* `ReferencePath.Spelled`: reference paths that their texts spell;
* `State.Storable`, `Workflow.Storable`: what holds of the parts of a compiled workflow, where the values
  taken over from the document have a property `V`;
* `StateDraft.Within`, `Within.draftOf`: a draft takes its values from the declaration;
* `storable_ofRule`, `storable_decodeState`: conditions and states, and
* **`storable_compile`**: workflows.
-/

namespace StepFlow

/-! ## Properties that parts inherit -/

/-- A property that a value passes on to the values directly within it, of which there are fewer than a
machine can count. -/
structure Json.Inherited (V : Json → Prop) : Prop where
  child : ∀ {j c : Json}, V j → c ∈ j.children → V c
  count : ∀ {j : Json}, V j → j.children.length < 18446744073709551616

theorem Json.inherited_holdable : Json.Inherited Json.Holdable where
  child := fun ⟨_, h⟩ hc => h _ hc
  count := fun ⟨h, _⟩ => h

variable {V : Json → Prop}

theorem Json.Inherited.item (hV : Json.Inherited V) {items : List Json} {j : Json}
    (h : V (.arr items)) (hj : j ∈ items) : V j := hV.child h hj

theorem Json.Inherited.member (hV : Json.Inherited V) {members : Keyed Json} {e : String × Json}
    (h : V (.obj members)) (he : e ∈ members) : V e.2 :=
  hV.child h (List.mem_map_of_mem he)

/-! ## What can be stored -/

/-- The text of a reference path spells it. -/
def ReferencePath.Spelled (p : ReferencePath) : Prop := ReferencePath.parse p.source = .ok p

/-- The path in a path field has a property. -/
def PathSpec.Holds {P : Type} (S : P → Prop) (spec : Option (PathSpec P)) : Prop :=
  ∀ p, spec = some (.path p) → S p

/-- A value in a place that may be empty is not `null`. -/
def Given (V : Json → Prop) (value : Option Json) : Prop := ∀ v, value = some v → v ≠ .null ∧ V v

def DataPaths.Spelled (p : DataPaths) : Prop :=
  PathSpec.Holds Path.Spelled p.inputPath ∧ PathSpec.Holds Path.Spelled p.outputPath

def ResultHandling.Storable (V : Json → Prop) (h : ResultHandling) : Prop :=
  Given V h.parameters ∧ PathSpec.Holds ReferencePath.Spelled h.resultPath

def Retrier.Storable (r : Retrier) : Prop :=
  r.intervalSeconds < 18446744073709551616 ∧ r.maxAttempts < 4294967296

def Catcher.Storable (c : Catcher) : Prop := PathSpec.Holds ReferencePath.Spelled c.resultPath

structure Recovery.Storable (V : Json → Prop) (r : Recovery) : Prop where
  selector : Given V r.resultSelector
  retriers : ∀ x ∈ r.retriers, x.Storable
  catchers : ∀ c ∈ r.catchers, c.Storable

def Reference.Storable (V : Json → Prop) : Reference → Prop
  | .literal value => V value
  | .path p => p.Spelled

inductive Condition.Storable (V : Json → Prop) : Condition → Prop where
  | and {children : List Condition} : (∀ c ∈ children, Storable V c) → Storable V (.and children)
  | or {children : List Condition} : (∀ c ∈ children, Storable V c) → Storable V (.or children)
  | not {child : Condition} : Storable V child → Storable V (.not child)
  | compare {kind : ValueKind} {relation : Relation} {left : Path} {right : Reference} :
      left.Spelled → right.Storable V → Storable V (.compare kind relation left right)
  | stringMatches {subject : Path} {pattern : String} : subject.Spelled →
      Storable V (.stringMatches subject pattern)
  | test {test : TypeTest} {subject : Path} {expected : Bool} : subject.Spelled →
      Storable V (.test test subject expected)

def WaitDuration.Storable : WaitDuration → Prop
  | .seconds n => n < 18446744073709551616
  | .timestamp _ => True
  | .secondsPath p => p.Spelled
  | .timestampPath p => p.Spelled

/-- A state can be stored if its parts can; the workflows within it are left out. -/
def State.Storable {W : Type} (V : Json → Prop) : State W → Prop
  | .pass s => s.paths.Spelled ∧ s.handling.Storable V ∧ Given V s.result
  | .task s => s.paths.Spelled ∧ s.handling.Storable V ∧ s.recovery.Storable V ∧
      s.timeoutSeconds < 18446744073709551616
  | .choice s => s.paths.Spelled ∧ ∀ r ∈ s.choices, r.condition.Storable V
  | .wait s => s.paths.Spelled ∧ s.duration.Storable
  | .succeed s => s.paths.Spelled
  | .fail _ => True
  | .parallel s => s.paths.Spelled ∧ s.handling.Storable V ∧ s.recovery.Storable V
  | .map s => s.paths.Spelled ∧ s.handling.Storable V ∧ s.recovery.Storable V ∧
      s.itemsPath.Spelled ∧ s.maxConcurrency < 18446744073709551616

/-- A place that a machine can count up to. -/
def Position.Storable (p : Position) : Prop :=
  p.branch < 18446744073709551616 ∧ p.offset < 18446744073709551616

/-- **What a workflow has to be like to be stored without loss.** -/
inductive Workflow.Storable (V : Json → Prop) : Workflow → Prop where
  | intro {w : Workflow} : w.header.timeoutSeconds < 18446744073709551616 → w.index.Sorted →
      (∀ e ∈ w.index, e.2.Storable) → (∀ s ∈ w.states, s.Storable V) →
      (∀ s ∈ w.states, ∀ v ∈ s.nested, Storable V v) → Storable V w

/-! ## Paths -/

theorem ReferencePath.spelled_of_parse {text : String} {p : ReferencePath}
    (h : ReferencePath.parse text = .ok p) : p.Spelled := by
  have hs : p.source = text := by
    unfold ReferencePath.parse at h
    obtain ⟨q, hq, h⟩ := Except.bind_eq_ok_iff.mp h
    split at h
    · cases h
      exact Path.source_of_parse hq
    · cases h
  rw [ReferencePath.Spelled, hs, h]

theorem ReferencePath.spelled_root : ReferencePath.root.Spelled := by
  show ReferencePath.parse "$" = .ok .root
  with_unfolding_all rfl

/-! ## Conditions -/

theorem Spells.storable (hV : Json.Inherited V) {rule : Keyed Json} {c : Condition}
    (h : Spells rule c) (hr : V (.obj rule)) : c.Storable V := by
  have hparts : ∀ {rule : Keyed Json} {parts : List (Keyed Json × Condition)} {operator : String},
      V (.obj rule) → ruleOperator rule = .ok (operator, .arr (parts.map fun part => .obj part.1)) →
        (∀ part ∈ parts, V (.obj part.1) → part.2.Storable V) →
          ∀ c ∈ parts.map Prod.snd, c.Storable V := by
    intro rule parts operator hr ho ih
    have hargument := hV.member hr (mem_of_ruleOperator ho)
    exact List.forall_mem_map.mpr fun part hp => ih part hp (hV.item hargument (List.mem_map_of_mem hp))
  induction h with
  | and ho _ _ ih => exact .and (hparts hr ho ih)
  | or ho _ _ ih => exact .or (hparts hr ho ih)
  | not ho _ ih => exact .not (ih (hV.member hr (mem_of_ruleOperator ho)))
  | test _ hs => exact .test hs.spelled
  | stringMatches _ hs _ => exact .stringMatches hs.spelled
  | literal _ _ ho hs _ => exact .compare hs.spelled (hV.member hr (mem_of_ruleOperator ho))
  | path _ _ _ hs hp => exact .compare hs.spelled (Path.spelled_of_parse hp)

/-- **A condition that a rule spells can be stored.** -/
theorem storable_ofRule (hV : Json.Inherited V) {rule : Keyed Json} {c : Condition}
    (hr : V (.obj rule)) (h : Condition.ofRule rule = .ok c) : c.Storable V :=
  (spells_of_ofRule h).storable hV hr

/-! ## Drafts -/

namespace Json

theorem ne_null_of_optional {α : Type} {read : Json → Except ReadError α} {j : Json} {a : α}
    (h : optional read j = .ok (some a)) : j ≠ .null := by
  rintro rfl
  cases h

theorem given_of_optional {j : Json} {value : Option Json} (hj : V j)
    (h : optional StateDraft.asAny j = .ok value) : Given V value := by
  rintro v rfl
  have hv := optional_eq_ok h rfl
  cases hv
  exact ⟨ne_null_of_optional h, hj⟩

theorem asNat_eq_ok {bound n : Nat} {expected : String} {j : Json}
    (h : asNat bound expected j = .ok n) : n < bound := by
  unfold asNat at h
  split at h
  · split at h
    · cases h
      omega
    · cases h
  · cases h

theorem asNat64_eq_ok {n : Nat} {j : Json} (h : asNat64 j = .ok n) : n < 18446744073709551616 :=
  asNat_eq_ok h

end Json

/-! ## Retriers -/

/-- The numbers of a retrier in the making. -/
def RetrierDraft.Storable (d : RetrierDraft) : Prop :=
  d.intervalSeconds < 18446744073709551616 ∧ d.maxAttempts < 4294967296

theorem RetrierDraft.Storable.put {d d' : RetrierDraft} {field : String × Json} (hd : d.Storable)
    (h : d.put field = .ok d') : d'.Storable := by
  unfold RetrierDraft.put at h
  split at h
  case h_5 =>
    cases h
    exact hd
  all_goals
    obtain ⟨v, hv, h⟩ := Except.bind_eq_ok_iff.mp h
    cases h
  case h_2 => exact ⟨Json.asNat_eq_ok hv, hd.2⟩
  case h_3 => exact ⟨hd.1, Json.asNat_eq_ok hv⟩
  all_goals exact hd

theorem Retrier.storable_of_read {j : Json} {r : Retrier} (h : Retrier.read j = .ok r) :
    r.Storable := by
  have hfields : ∀ (fields : List (String × Json)) (d : RetrierDraft),
      fields.foldlM RetrierDraft.put {} = .ok d → d.finish = .ok r → r.Storable := by
    intro fields d hd hf
    have hs : d.Storable := Except.foldlM_keeps (P := RetrierDraft.Storable) hd ⟨by decide, by decide⟩
      fun e _ c c' hc hput => hc.put hput
    unfold RetrierDraft.finish at hf
    split at hf <;> cases hf
    exact hs
  unfold Retrier.read at h
  split at h
  · obtain ⟨d, hd, hf⟩ := Except.bind_eq_ok_iff.mp h
    exact hfields _ d hd hf
  · dsimp only at h
    split at h
    · cases h
    · obtain ⟨d, hd, h⟩ := Except.bind_eq_ok_iff.mp h
      obtain ⟨_, -, hf⟩ := Except.bind_eq_ok_iff.mp h
      exact hfields _ d hd hf
  · cases h

namespace StateDraft

/-- What a draft takes over from a declaration with the property `V`. -/
structure Within (V : Json → Prop) (d : StateDraft) : Prop where
  parameters : Given V d.parameters
  resultSelector : Given V d.resultSelector
  result : Given V d.result
  choices : ∀ rules, d.choices = some rules → ∀ j ∈ rules, V j
  documents : ∀ x ∈ d.documents, V x
  timeoutSeconds : ∀ n, d.timeoutSeconds = some n → n < 18446744073709551616
  seconds : ∀ n, d.seconds = some n → n < 18446744073709551616
  maxConcurrency : ∀ n, d.maxConcurrency = some n → n < 18446744073709551616

theorem Within.put (hV : Json.Inherited V) {d d' : StateDraft} {field : String × Json}
    (h : d.put field = .ok d') (hj : V field.2) (hd : d.Within V) : d'.Within V := by
  obtain ⟨k, j⟩ := field
  unfold StateDraft.put at h
  dsimp only at h hj
  split at h
  case h_26 =>
    cases h
    exact hd
  all_goals
    obtain ⟨v, hv, h⟩ := Except.bind_eq_ok_iff.mp h
    cases h
  case h_7 => exact { hd with parameters := Json.given_of_optional hj hv }
  case h_8 => exact { hd with resultSelector := Json.given_of_optional hj hv }
  case h_9 => exact { hd with result := Json.given_of_optional hj hv }
  case h_13 =>
    exact { hd with timeoutSeconds := fun n hn => Json.asNat64_eq_ok (Json.optional_eq_ok hv hn) }
  case h_14 =>
    refine { hd with choices := fun rules hr x hx => ?_ }
    have := Json.asList_eq_ok (Json.optional_eq_ok hv hr)
    exact hV.item (this ▸ hj) hx
  case h_16 =>
    exact { hd with seconds := fun n hn => Json.asNat64_eq_ok (Json.optional_eq_ok hv hn) }
  case h_22 =>
    refine { hd with documents := fun x hx => ?_ }
    rcases List.mem_append.mp hx with hx | hx
    · cases v with
      | none => exact absurd hx List.not_mem_nil
      | some items =>
        have := Json.asList_eq_ok (Json.optional_eq_ok hv rfl)
        exact hV.item (this ▸ hj) hx
    · exact hd.documents x (List.mem_append_right _ hx)
  case h_23 =>
    refine { hd with documents := fun x hx => ?_ }
    rcases List.mem_append.mp hx with hx | hx
    · exact hd.documents x (List.mem_append_left _ hx)
    · cases v with
      | none => exact absurd hx List.not_mem_nil
      | some y =>
        have hy := Json.optional_eq_ok hv rfl
        cases hy
        rwa [List.mem_singleton.mp hx]
  case h_25 =>
    exact { hd with maxConcurrency := fun n hn => Json.asNat_eq_ok (Json.optional_eq_ok hv hn) }
  -- the other members leave these fields as they are
  all_goals exact { hd with }

theorem Within.draftOf (hV : Json.Inherited V) {d : StateDraft} {state : String} {j : Json}
    (hj : V j) (h : draftOf state j = .ok d) : d.Within V := by
  have hempty : ({} : StateDraft).Within V :=
    ⟨nofun, nofun, nofun, nofun, nofun, nofun, nofun, nofun⟩
  unfold StepFlow.draftOf at h
  split at h
  · next d' hd =>
    cases h
    refine Except.foldlM_keeps (P := Within V) hd hempty fun e he c c' hc hput =>
      hc.put hV hput ?_
    cases j with
    | obj members => exact hV.member hj he
    | _ => exact absurd he List.not_mem_nil
  · cases h

/-! ## Parts of states -/

variable {d : StateDraft} {n : String}

theorem spelled_of_path {field text : String} {p : Path} (h : path n field text = .ok p) :
    p.Spelled := by
  unfold path at h
  split at h
  · next hp =>
    cases h
    exact Path.spelled_of_parse hp
  · cases h

theorem spelled_of_referencePath {field text : String} {p : ReferencePath}
    (h : referencePath n field text = .ok p) : p.Spelled := by
  unfold referencePath at h
  split at h
  · next hp =>
    cases h
    exact ReferencePath.spelled_of_parse hp
  · cases h

theorem holds_of_spec {P : Type} {S : P → Prop} {read : String → Except CompileError P}
    (hread : ∀ text p, read text = .ok p → S p) {given : Nullable String}
    {field : Option (PathSpec P)} (h : spec read given = .ok field) : PathSpec.Holds S field := by
  unfold spec at h
  split at h
  · cases h
    nofun
  · cases h
    nofun
  · obtain ⟨p, hp, rfl⟩ := Except.map_eq_ok_iff.mp h
    rintro q ⟨⟩
    exact hread _ _ hp

theorem spelled_dataPaths {p : DataPaths} (h : d.dataPaths n = .ok p) : p.Spelled := by
  unfold dataPaths at h
  obtain ⟨input, hi, h⟩ := Except.bind_eq_ok_iff.mp h
  obtain ⟨output, ho, h⟩ := Except.bind_eq_ok_iff.mp h
  cases h
  exact ⟨holds_of_spec (fun _ _ => spelled_of_path) hi, holds_of_spec (fun _ _ => spelled_of_path) ho⟩

theorem given_template {field : String} {value value' : Option Json} (hv : Given V value)
    (h : template n field value = .ok value') : Given V value' := by
  unfold template at h
  split at h <;> cases h <;> exact hv

theorem storable_handling {r : ResultHandling} (hd : d.Within V) (h : d.handling n = .ok r) :
    r.Storable V := by
  obtain ⟨hparameters, hresult⟩ := handling_eq_ok h
  exact ⟨given_template hd.parameters hparameters,
    holds_of_spec (fun _ _ => spelled_of_referencePath) hresult⟩

theorem storable_catcher {t : CatcherText} {c : Catcher} (h : catcher n t = .ok c) : c.Storable :=
  holds_of_spec (fun _ _ => spelled_of_referencePath) (catcher_eq_ok h).2

theorem storable_recovery {r : Recovery} (hd : d.Within V) (h : d.recovery n = .ok r) :
    r.Storable V := by
  have hr := recovery_eq_ok h
  refine ⟨given_template hd.resultSelector hr.selector, fun x hx => ?_, fun c hc => ?_⟩
  · obtain ⟨j, -, hj⟩ := Except.exists_of_mem_mapM hr.retriers hx
    exact Retrier.storable_of_read (retrier_eq_ok hj).1
  · obtain ⟨t, -, ht⟩ := Except.exists_of_mem_mapM hr.catchers hc
    exact storable_catcher ht

theorem storable_choiceList (hV : Json.Inherited V) {choices : List ChoiceRule} (hd : d.Within V)
    (h : d.choiceList n = .ok choices) : ∀ r ∈ choices, r.condition.Storable V := by
  obtain ⟨-, rules, hrules, hall⟩ := choiceList_eq_ok h
  intro r hr
  obtain ⟨rule, hmem, hrule⟩ := hall r hr
  exact storable_ofRule hV (hd.choices rules hrules _ hmem) hrule

theorem storable_duration {w : WaitDuration} (hd : d.Within V) (h : d.duration n = .ok w) :
    w.Storable := by
  unfold duration at h
  split at h
  · cases h
  · next hs _ _ _ =>
    cases h
    exact hd.seconds _ hs
  · split at h
    · cases h
      trivial
    · cases h
  · obtain ⟨p, hp, rfl⟩ := Except.map_eq_ok_iff.mp h
    exact spelled_of_referencePath hp
  · obtain ⟨p, hp, rfl⟩ := Except.map_eq_ok_iff.mp h
    exact spelled_of_referencePath hp
  · cases h

end StateDraft

/-! ## States -/

theorem spelled_decodeItemsPath {d : StateDraft} {n : String} {p : ReferencePath}
    (h : decodeItemsPath n d = .ok p) : p.Spelled := by
  unfold decodeItemsPath at h
  split at h
  · exact StateDraft.spelled_of_referencePath h
  · cases h
    exact ReferencePath.spelled_root

theorem getD_zero_lt {o : Option Nat} (h : ∀ k, o = some k → k < 18446744073709551616) :
    o.getD 0 < 18446744073709551616 := by
  cases o with
  | none => decide
  | some k => exact h k rfl

section Decode

variable {W : Type} {f : Json → Except CompileError W} {n : String} {j : Json} {s : State W}

open StateDraft

/-- **A state that a declaration describes can be stored.** -/
theorem storable_decodeState (hV : Json.Inherited V) (hj : V j) (h : decodeState f n j = .ok s) :
    s.Storable V := by
  obtain ⟨kind, d, -, hd, h⟩ := decodeState_eq_ok h
  have hw := Within.draftOf hV hj hd
  cases h with
  | pass hpaths hhandling _ =>
    exact ⟨spelled_dataPaths hpaths, storable_handling hw hhandling, hw.result⟩
  | task _ hpaths hhandling hrecovery _ =>
    exact ⟨spelled_dataPaths hpaths, storable_handling hw hhandling,
      storable_recovery hw hrecovery, getD_zero_lt hw.timeoutSeconds⟩
  | choice hpaths hchoices => exact ⟨spelled_dataPaths hpaths, storable_choiceList hV hw hchoices⟩
  | wait hpaths hduration _ => exact ⟨spelled_dataPaths hpaths, storable_duration hw hduration⟩
  | succeed hpaths => exact spelled_dataPaths hpaths
  | fail => trivial
  | parallel _ _ _ hpaths hhandling hrecovery _ =>
    exact ⟨spelled_dataPaths hpaths, storable_handling hw hhandling,
      storable_recovery hw hrecovery⟩
  | map _ hitems _ hpaths hhandling hrecovery _ =>
    exact ⟨spelled_dataPaths hpaths, storable_handling hw hhandling,
      storable_recovery hw hrecovery, spelled_decodeItemsPath hitems,
      getD_zero_lt hw.maxConcurrency⟩

theorem inherited_documentsIn (hV : Json.Inherited V) (hj : V j) : ∀ x ∈ documentsIn n j, V x := by
  intro x hx
  unfold documentsIn at hx
  split at hx
  · next hd => exact (Within.draftOf hV hj hd).documents x (List.mem_append_left _ hx)
  · next hd => exact (Within.draftOf hV hj hd).documents x (List.mem_append_right _ hx)
  · exact absurd hx List.not_mem_nil

theorem length_decodeStates {declared : Keyed Json} {states : Keyed (State W)}
    (h : decodeStates f declared = .ok states) : states.length = declared.length := by
  induction declared generalizing states with
  | nil =>
    cases h
    rfl
  | cons e declared ih =>
    obtain ⟨s, states', -, hd, rfl⟩ := decodeStates_cons_eq_ok_iff.mp h
    rw [List.length_cons, List.length_cons, ih hd]

end Decode

/-! ## Documents -/

namespace DocumentDraft

/-- What a draft takes over from a document with the property `V`. -/
structure Within (V : Json → Prop) (d : DocumentDraft) : Prop where
  timeoutSeconds : ∀ n, d.timeoutSeconds = some n → n < 18446744073709551616
  states : ∀ declared, d.states = some declared → V (.obj declared)

theorem Within.put {d d' : DocumentDraft} {field : String × Json} (h : d.put field = .ok d')
    (hj : V field.2) (hd : d.Within V) : d'.Within V := by
  obtain ⟨k, j⟩ := field
  unfold DocumentDraft.put at h
  dsimp only at h hj
  split at h
  case h_6 =>
    cases h
    exact hd
  all_goals
    obtain ⟨v, hv, h⟩ := Except.bind_eq_ok_iff.mp h
    cases h
  case h_4 =>
    exact { hd with timeoutSeconds := fun n hn => Json.asNat64_eq_ok (Json.optional_eq_ok hv hn) }
  case h_5 =>
    refine { hd with states := fun declared hs => ?_ }
    have := Json.asTable_eq_ok (Json.optional_eq_ok hv hs)
    exact this ▸ hj
  all_goals exact { hd with }

theorem Within.read (hV : Json.Inherited V) {document : Json} {d : DocumentDraft} (hj : V document)
    (h : DocumentDraft.read document = .ok d) : d.Within V := by
  have key : ∀ (fields : List (String × Json)) (d : DocumentDraft), (∀ e ∈ fields, V e.2) →
      fields.foldlM DocumentDraft.put {} = .ok d → d.Within V :=
    fun fields d hf hfold => Except.foldlM_keeps hfold ⟨nofun, nofun⟩
      fun e he c c' hc hput => hc.put hput (hf e he)
  unfold DocumentDraft.read at h
  split at h
  · exact key _ d (fun e he => hV.member hj he) h
  · obtain ⟨d', hfold, h⟩ := Except.bind_eq_ok_iff.mp h
    have hw := key _ d' (fun e he => hV.item hj (List.of_mem_zip he).2) hfold
    split at h
    · cases h
    · obtain ⟨_, -, h⟩ := Except.bind_eq_ok_iff.mp h
      cases h
      exact hw
  · cases h

end DocumentDraft

theorem length_le_length_flatten {α : Type} {bs : List (List α)} (h : ∀ b ∈ bs, b ≠ []) :
    bs.length ≤ bs.flatten.length := by
  induction bs with
  | nil => exact Nat.le_refl 0
  | cons b bs ih =>
    have hb : 0 < b.length := List.length_pos_iff.mpr (h b List.mem_cons_self)
    have := ih fun c hc => h c (List.mem_cons_of_mem b hc)
    rw [List.flatten_cons, List.length_append, List.length_cons]
    omega

theorem Divides.lt_length {W : Type} {states : Keyed (State W)} {start : String}
    {bs : List (List (State W))} {index : Keyed Position} (h : Divides states start bs index)
    {n : String} {p : Position} (hp : Keyed.find? n index = some p) :
    p.branch < states.length ∧ p.offset < states.length := by
  obtain ⟨s, ⟨b, hb, hs⟩, -⟩ := (h.place n p).mp hp
  have hsub : bs.flatten.map State.name ⊆ states.keys := by
    intro m hm
    obtain ⟨t, ht, rfl⟩ := List.mem_map.mp hm
    obtain ⟨q, hq⟩ := mem_flatten_iff.mp ht
    exact Keyed.mem_keys.mpr ⟨t, h.declared q t hq⟩
  have hall : bs.flatten.length ≤ states.length := by
    have := (h.nodup.subperm hsub).length_le
    rwa [List.length_map, Keyed.keys, List.length_map] at this
  have hbranch : p.branch < bs.length := (List.getElem?_eq_some_iff.mp hb).1
  have hbranches := length_le_length_flatten h.nonempty
  have hoffset : p.offset < b.length := (List.getElem?_eq_some_iff.mp hs).1
  have hlength := (List.sublist_flatten_of_mem (List.mem_of_getElem? hb)).length_le
  omega

/-- **A compiled workflow can be stored.** -/
theorem storable_compile (hV : Json.Inherited V) {document : Json} {w : Workflow} (hj : V document)
    (h : Workflow.compile document = .ok w) : w.Storable V := by
  induction hn : document.depth using Nat.strong_induction_on generalizing document w with
  | _ n ih =>
    subst hn
    obtain ⟨d, start, declared, states, hd, -, hdecl, hc, rfl⟩ := compile_eq_ok h
    obtain ⟨hdec, hcoh⟩ := coherent_of_checkedStates hc
    have hdiv := divides_partition hcoh
    have hw := DocumentDraft.Within.read hV hj hd
    have hdeclared := hw.states declared hdecl
    -- every state of the workflow is read from a declaration within the document
    have hstates : ∀ s ∈ (partition start states).branches.flatten, ∃ e ∈ declared,
        decodeState Workflow.compile e.1 e.2 = .ok s := by
      intro s hs
      obtain ⟨p, hp⟩ := mem_flatten_iff.mp hs
      obtain ⟨j, hj, hs⟩ := (find?_decodeStates hdec).mp (hdiv.declared p s hp)
      exact ⟨_, Keyed.mem_of_find? hj, hs⟩
    refine .intro (getD_zero_lt hw.timeoutSeconds) hdiv.sorted (fun e he => ?_) (fun s hs => ?_)
      fun s hs v hv => ?_
    · have hp : Keyed.find? e.1 (partition start states).index = some e.2 :=
        Keyed.find?_of_mem (Keyed.nodup_keys hdiv.sorted) he
      obtain ⟨hb, ho⟩ := hdiv.lt_length hp
      have hcount : states.length < 18446744073709551616 := by
        rw [length_decodeStates hdec, ← List.length_map (f := Prod.snd)]
        exact hV.count hdeclared
      exact ⟨Nat.lt_trans hb hcount, Nat.lt_trans ho hcount⟩
    · obtain ⟨e, he, hs⟩ := hstates s hs
      exact storable_decodeState hV (hV.member hdeclared he) hs
    · obtain ⟨e, he, hs⟩ := hstates s hs
      obtain ⟨x, hx, hxv⟩ := (nested_decodeState hs).2 v hv
      exact ih x.depth (depth_lt_of_mem_declared hd hdecl he hx)
        (inherited_documentsIn hV (hV.member hdeclared he) x hx) hxv rfl

end StepFlow
