import StepFlow.Proofs.Json.Regular
import StepFlow.Proofs.Workflow.RoundTrip

/-!
# What is written when a workflow is stored

* `Retrier.regular_encode`, `Condition.Storable.regular_encode`, `State.Storable.regular_encode`: the
  parts of a workflow that can be stored are written as regular values, and
* **`Workflow.Storable.regular_encode`**: so is the workflow.
-/

namespace StepFlow

open Json

variable {V : Json → Prop}

theorem regular_nat {n : Nat} (h : n < 18446744073709551616) : (nat n).Regular Number.Exact := by
  refine .num ?_
  have hlow : Number.minInt ≤ n := by
    unfold Number.minInt
    omega
  have hhigh : (n : Int) ≤ Number.maxInt := by
    unfold Number.maxInt
    omega
  simp [Number.Exact, Number.isExact, hlow, hhigh]

section Values

variable {P : Number → Prop}

theorem regular_obj {fields : Keyed Json} (hs : fields.Sorted)
    (h : (fields.map Prod.snd).Forall (Regular P)) : (obj fields).Regular P :=
  .obj hs fun _ he => List.forall_iff_forall_mem.mp h _ (List.mem_map_of_mem he)

theorem regular_record {fields : List (String × Json)} (h : (fields.map Prod.snd).Forall (Regular P)) :
    (ofMembers fields).Regular P :=
  regular_ofMembers fun _ he => List.forall_iff_forall_mem.mp h _ (List.mem_map_of_mem he)

theorem regular_list {α : Type} {encode : α → Json} {items : List α}
    (h : ∀ a ∈ items, (encode a).Regular P) : (arr (items.map encode)).Regular P :=
  .arr fun _ hj => by
    obtain ⟨a, ha, rfl⟩ := List.mem_map.mp hj
    exact h a ha

theorem regular_option {α : Type} {encode : α → Json} {o : Option α}
    (h : ∀ a, o = some a → (encode a).Regular P) : (encodeOption encode o).Regular P := by
  cases o with
  | none => exact .null
  | some a => exact h a rfl

theorem regular_text (o : Option String) : (encodeText o).Regular P :=
  regular_option fun s _ => .str s

theorem regular_texts (names : List String) : (arr (names.map .str)).Regular P :=
  regular_list fun s _ => .str s

theorem regular_tagged {name : String} {content : Json} (h : content.Regular P) :
    (tagged name content).Regular P :=
  regular_obj (List.pairwise_singleton _ _) h

theorem regular_pathSpec {Q : Type} {text : Q → String} (o : Option (PathSpec Q)) :
    (encodeOption (PathSpec.encode text) o).Regular P :=
  regular_option fun spec _ => by
    cases spec with
    | path p => exact regular_tagged (.str _)
    | discard => exact .str _

end Values

/-! ## Parts of states -/

theorem Transition.regular_encode (t : Transition) : t.encode.Regular Number.Exact := by
  cases t with
  | next name => exact regular_tagged (.str _)
  | done => exact .str _

theorem DataPaths.regular_encode (p : DataPaths) : p.encode.Regular Number.Exact :=
  regular_record ⟨regular_pathSpec _, regular_pathSpec _⟩

theorem Retrier.regular_encode {r : Retrier} (h : r.Storable) : r.encode.Regular Number.Exact :=
  regular_record ⟨.num trivial, regular_texts _, regular_nat h.1,
    regular_nat (Nat.lt_trans h.2 (by decide))⟩

theorem Catcher.regular_encode (c : Catcher) : c.encode.Regular Number.Exact :=
  regular_record ⟨regular_texts _, .str _, regular_pathSpec _⟩

theorem TaskResource.regular_encode (r : TaskResource) : r.encode.Regular Number.Exact :=
  regular_record ⟨.str _, .str _⟩

theorem WaitDuration.regular_encode {w : WaitDuration} (h : w.Storable) :
    w.encode.Regular Number.Exact := by
  cases w with
  | seconds n => exact regular_tagged (regular_nat h)
  | _ => exact regular_tagged (.str _)

theorem Position.regular_encode {p : Position} (h : p.Storable) : p.encode.Regular Number.Exact :=
  regular_record ⟨regular_nat h.1, regular_nat h.2⟩

section Taken

variable (hV : ∀ j, V j → j.Regular Number.Exact)
include hV

theorem regular_given {o : Option Json} (h : Given V o) : (encodeValue o).Regular Number.Exact :=
  regular_option fun v hv => hV v (h v hv).2

theorem ResultHandling.regular_encode {h : ResultHandling} (hs : h.Storable V) :
    h.encode.Regular Number.Exact := regular_record ⟨regular_given hV hs.1, regular_pathSpec _⟩

theorem Recovery.regular_encode {r : Recovery} (h : r.Storable V) : r.encode.Regular Number.Exact :=
  regular_record ⟨regular_list fun c _ => c.regular_encode, regular_given hV h.selector,
    regular_list fun x hx => Retrier.regular_encode (h.retriers x hx)⟩

theorem Reference.regular_encode {r : Reference} (h : r.Storable V) :
    r.encode.Regular Number.Exact := by
  cases r with
  | literal value => exact regular_tagged (hV value h)
  | path p => exact regular_tagged (.str _)

theorem Condition.Storable.regular_encode {c : Condition} (h : c.Storable V) :
    c.encode.Regular Number.Exact := by
  induction h with
  | and _ ih =>
    rw [Condition.encode, encodeConditions_eq_map]
    exact regular_tagged (regular_list ih)
  | or _ ih =>
    rw [Condition.encode, encodeConditions_eq_map]
    exact regular_tagged (regular_list ih)
  | not _ ih => exact regular_tagged ih
  | compare _ hright =>
    exact regular_tagged (regular_record ⟨.str _, .str _, Reference.regular_encode hV hright, .str _⟩)
  | stringMatches => exact regular_tagged (regular_record ⟨.str _, .str _⟩)
  | test => exact regular_tagged (regular_record ⟨.bool _, .str _, .str _⟩)

theorem ChoiceRule.regular_encode {r : ChoiceRule} (h : r.condition.Storable V) :
    r.encode.Regular Number.Exact := regular_record ⟨h.regular_encode hV, .str _⟩

/-- **A state is written as a regular value**, if the workflows within it are. -/
theorem State.Storable.regular_encode {s : State Workflow} (h : s.Storable V)
    (hn : ∀ w ∈ s.nested, w.encode.Regular Number.Exact) : (encodeState s).Regular Number.Exact := by
  cases s with
  | pass s =>
    obtain ⟨-, hhandling, hresult⟩ := h
    rw [encodeState]
    exact regular_record ⟨.str _, regular_text _, .str _, ResultHandling.regular_encode hV hhandling,
      s.paths.regular_encode, regular_given hV hresult, s.transition.regular_encode⟩
  | task s =>
    obtain ⟨-, hhandling, hrecovery, htimeout⟩ := h
    rw [encodeState]
    exact regular_record ⟨.str _, regular_text _, .str _, ResultHandling.regular_encode hV hhandling,
      s.paths.regular_encode, Recovery.regular_encode hV hrecovery, s.resource.regular_encode,
      regular_nat htimeout, s.transition.regular_encode⟩
  | choice s =>
    obtain ⟨-, hchoices⟩ := h
    rw [encodeState]
    exact regular_record ⟨.str _, regular_text _, .str _,
      regular_list fun r hr => ChoiceRule.regular_encode hV (hchoices r hr), regular_text _,
      s.paths.regular_encode⟩
  | wait s =>
    obtain ⟨-, hduration⟩ := h
    rw [encodeState]
    exact regular_record ⟨.str _, regular_text _, .str _, WaitDuration.regular_encode hduration,
      s.paths.regular_encode, s.transition.regular_encode⟩
  | succeed s =>
    rw [encodeState]
    exact regular_record ⟨.str _, regular_text _, .str _, s.paths.regular_encode⟩
  | fail s =>
    rw [encodeState]
    exact regular_record ⟨.str _, regular_text _, .str _, regular_text _, regular_text _⟩
  | parallel s =>
    obtain ⟨-, hhandling, hrecovery⟩ := h
    rw [encodeState, encodeParallel, encodeWorkflows_eq_map]
    exact regular_record ⟨.str _, regular_text _, .str _, regular_list hn,
      ResultHandling.regular_encode hV hhandling, s.paths.regular_encode,
      Recovery.regular_encode hV hrecovery, s.transition.regular_encode⟩
  | map s =>
    obtain ⟨-, hhandling, hrecovery, -, hmax⟩ := h
    rw [encodeState, encodeMap]
    exact regular_record ⟨.str _, regular_text _, .str _, ResultHandling.regular_encode hV hhandling,
      .str _, hn _ List.mem_cons_self, regular_nat hmax, s.paths.regular_encode,
      Recovery.regular_encode hV hrecovery, s.transition.regular_encode⟩

/-! ## Workflows -/

/-- **A workflow that can be stored is written as a regular value**, with integers that a document can
hold. -/
theorem Workflow.Storable.regular_encode {w : Workflow} (h : w.Storable V) :
    w.encode.Regular Number.Exact := by
  induction h with
  | @intro w htimeout _ hindex hstates _ ih =>
    obtain ⟨header, branches, index⟩ := w
    rw [Workflow.encode, encodeBranches_eq_map]
    have hbranches : (arr (branches.map fun b => arr (b.map encodeState))).Regular Number.Exact :=
      regular_list fun b hb => regular_list fun s hs =>
        have hs : s ∈ branches.flatten := List.mem_flatten_of_mem hb hs
        (hstates s hs).regular_encode hV (ih s hs)
    have hplaces : (ofMembers (index.map fun e => (e.1, e.2.encode))).Regular Number.Exact :=
      regular_ofMembers fun m hm => by
        obtain ⟨e, he, rfl⟩ := List.mem_map.mp hm
        exact Position.regular_encode (hindex e he)
    exact regular_record ⟨hbranches, regular_text _, hplaces, .str _, regular_nat htimeout, .str _⟩

end Taken

end StepFlow
