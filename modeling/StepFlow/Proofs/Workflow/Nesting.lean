import StepFlow.Workflow.Compile
import StepFlow.Proofs.Except
import StepFlow.Proofs.Json.Depth
import StepFlow.Proofs.Workflow.Transitions

/-!
# Documents within documents

* `StateDraft.documents`: the documents of workflows that a draft of a state holds;
* `Workflow.compile_eq`: the depth up to which documents are compiled makes no difference, so that a
  document is compiled by compiling the documents within it.
-/

namespace StepFlow

namespace Json

theorem optional_eq_ok {α : Type} {read : Json → Except ReadError α} {j : Json} {o : Option α}
    (h : optional read j = .ok o) {a : α} (ha : o = some a) : read j = .ok a := by
  subst ha
  unfold optional at h
  split at h
  · cases h
  · obtain ⟨a', ha', h⟩ := Except.map_eq_ok_iff.mp h
    cases h
    exact ha'

theorem asList_eq_ok {j : Json} {items : List Json} (h : asList j = .ok items) : j = .arr items := by
  unfold asList at h
  split at h
  · cases h
    rfl
  · cases h

theorem asTable_eq_ok {j : Json} {members : Keyed Json} (h : asTable j = .ok members) :
    j = .obj members := by
  unfold asTable at h
  split at h
  · cases h
    rfl
  · cases h

end Json

/-! ## Documents that a draft of a state holds -/

namespace StateDraft

/-- The documents of the workflows within a state, whatever its type. -/
def documents (d : StateDraft) : List Json := d.branches.getD [] ++ d.iterator.toList

/-- A member adds documents to a draft only from within itself. -/
theorem depth_documents_put {d d' : StateDraft} {field : String × Json} {n : Nat}
    (h : d.put field = .ok d') (hj : field.2.depth < n) (hd : ∀ x ∈ d.documents, x.depth < n) :
    ∀ x ∈ d'.documents, x.depth < n := by
  obtain ⟨k, j⟩ := field
  unfold put at h
  dsimp only at h hj
  split at h
  case h_22 =>
    obtain ⟨v, hv, h⟩ := Except.bind_eq_ok_iff.mp h
    cases h
    intro x hx
    rcases List.mem_append.mp hx with hx | hx
    · cases v with
      | none => exact absurd hx List.not_mem_nil
      | some items =>
        rw [Json.asList_eq_ok (Json.optional_eq_ok hv rfl)] at hj
        exact Nat.lt_trans (Json.depth_lt_of_mem_items hx) hj
    · exact hd x (List.mem_append_right _ hx)
  case h_23 =>
    obtain ⟨v, hv, h⟩ := Except.bind_eq_ok_iff.mp h
    cases h
    intro x hx
    rcases List.mem_append.mp hx with hx | hx
    · exact hd x (List.mem_append_left _ hx)
    · cases v with
      | none => exact absurd hx List.not_mem_nil
      | some y =>
        have hy := Json.optional_eq_ok hv rfl
        cases hy
        rw [List.mem_singleton.mp hx]
        exact hj
  case h_26 =>
    cases h
    exact hd
  -- the other members leave both fields as they are
  all_goals
    obtain ⟨v, hv, h⟩ := Except.bind_eq_ok_iff.mp h
    cases h
    exact hd

theorem depth_documents {d : StateDraft} {members : Keyed Json} (h : read members = .ok d) :
    ∀ x ∈ d.documents, x.depth < (Json.obj members).depth :=
  Except.foldlM_keeps (P := fun d => ∀ x ∈ d.documents, x.depth < (Json.obj members).depth) h
    (fun _ hx => absurd hx List.not_mem_nil)
    fun _ he _ _ hc hput => depth_documents_put hput (Json.depth_lt_of_mem_members he) hc

theorem depth_documents_draftOf {d : StateDraft} {state : String} {j : Json}
    (h : draftOf state j = .ok d) : ∀ x ∈ d.documents, x.depth < j.depth := by
  unfold draftOf at h
  split at h
  · next d' hd =>
    cases h
    cases j with
    | obj members => exact depth_documents hd
    | _ =>
      cases hd
      exact fun x hx => absurd hx List.not_mem_nil
  · cases h

end StateDraft

/-! ## Declarations that a draft of a document holds -/

namespace DocumentDraft

theorem depth_states_put {d d' : DocumentDraft} {field : String × Json} {n : Nat}
    (h : d.put field = .ok d') (hj : field.2.depth < n)
    (hd : ∀ declared, d.states = some declared → (Json.obj declared).depth < n) :
    ∀ declared, d'.states = some declared → (Json.obj declared).depth < n := by
  obtain ⟨k, j⟩ := field
  unfold put at h
  dsimp only at h hj
  split at h
  case h_5 =>
    obtain ⟨v, hv, h⟩ := Except.bind_eq_ok_iff.mp h
    cases h
    intro declared hs
    rwa [Json.asTable_eq_ok (Json.optional_eq_ok hv hs)] at hj
  case h_6 =>
    cases h
    exact hd
  all_goals
    obtain ⟨v, hv, h⟩ := Except.bind_eq_ok_iff.mp h
    cases h
    exact hd

/-- The declarations of a document are less deep than the document. -/
theorem depth_states {document : Json} {d : DocumentDraft} {declared : Keyed Json}
    (h : read document = .ok d) (hs : d.states = some declared) :
    (Json.obj declared).depth < document.depth := by
  have key : ∀ fields : List (String × Json), (∀ e ∈ fields, e.2.depth < document.depth) →
      fields.foldlM put {} = .ok d → (Json.obj declared).depth < document.depth := by
    intro fields hf hfold
    refine Except.foldlM_keeps (P := fun d : DocumentDraft => ∀ declared, d.states = some declared →
      (Json.obj declared).depth < document.depth) hfold (fun _ h => by cases h) ?_ declared hs
    exact fun e he c c' hc hput => depth_states_put hput (hf e he) hc
  unfold read at h
  split at h
  · exact key _ (fun e he => Json.depth_lt_of_mem_members he) h
  · next items =>
    obtain ⟨d', hfold, h⟩ := Except.bind_eq_ok_iff.mp h
    have hd : d' = d := by
      split at h
      · cases h
      · obtain ⟨_, _, h⟩ := Except.bind_eq_ok_iff.mp h
        cases h
        rfl
    rw [hd] at hfold
    exact key _ (fun e he => Json.depth_lt_of_mem_items (List.of_mem_zip he).2) hfold
  · cases h

end DocumentDraft

/-! ## Compiling documents within documents -/

section Congr

variable {W : Type} {f g : Json → Except CompileError W}

theorem nestedWorkflow_congr (state : String) {x : Json} (h : f x = g x) :
    nestedWorkflow f state x = nestedWorkflow g state x := by
  rw [nestedWorkflow, nestedWorkflow, h]

theorem decodeKind_congr (state : String) (d : StateDraft) (kind : StateKind)
    (h : ∀ x ∈ d.documents, f x = g x) : decodeKind f state d kind = decodeKind g state d kind := by
  cases kind with
  | parallel =>
    have hb : ∀ bs, d.branches = some bs →
        bs.mapM (nestedWorkflow f state) = bs.mapM (nestedWorkflow g state) :=
      fun bs hbs => Except.mapM_congr fun x hx =>
        nestedWorkflow_congr state (h x (List.mem_append_left _ (by rwa [hbs])))
    unfold decodeKind decodeParallel
    cases hbs : d.branches with
    | none => rfl
    | some bs =>
      cases bs with
      | nil => rfl
      | cons b bs =>
        dsimp only
        rw [pure_bind, pure_bind, hb _ hbs]
  | map =>
    unfold decodeKind decodeMap
    cases hi : d.iterator with
    | none => rfl
    | some x =>
      dsimp only
      rw [pure_bind, pure_bind, nestedWorkflow_congr state (h x (List.mem_append_right _ (by simp [hi])))]
  | _ => rfl

theorem decodeState_congr (state : String) {j : Json} (h : ∀ x, x.depth < j.depth → f x = g x) :
    decodeState f state j = decodeState g state j := by
  unfold decodeState
  cases hd : draftOf state j with
  | error e => rfl
  | ok d =>
    have hk := fun kind => decodeKind_congr state d kind fun x hx =>
      h x (StateDraft.depth_documents_draftOf hd x hx)
    simp only [Except.ok_bind, hk]

theorem decodeStates_congr {declared : Keyed Json}
    (h : ∀ x, x.depth < (Json.obj declared).depth → f x = g x) :
    decodeStates f declared = decodeStates g declared := by
  induction declared with
  | nil => rfl
  | cons e declared ih =>
    obtain ⟨n, j⟩ := e
    rw [decodeStates, decodeStates, decodeState_congr n fun x hx =>
        h x (Nat.lt_trans hx (Json.depth_lt_of_mem_members List.mem_cons_self)), ih fun x hx => h x ?_]
    rw [Json.depth, Json.depthMembers] at *
    omega

end Congr

theorem compileWith_congr {f g : Json → Except CompileError Workflow} {document : Json}
    (h : ∀ x, x.depth < document.depth → f x = g x) : compileWith f document = compileWith g document := by
  unfold compileWith
  cases hd : DocumentDraft.read document with
  | error e => rfl
  | ok d =>
    simp only [pure_bind]
    cases d.startAt with
    | none => rfl
    | some start =>
      cases hs : d.states with
      | none => rfl
      | some declared =>
        simp only [checkedStates, decodeStates_congr fun x hx =>
          h x (Nat.lt_trans hx (DocumentDraft.depth_states hd hs))]

namespace Workflow

theorem compileAt_congr {m n : Nat} {document : Json} (hm : document.depth < m)
    (hn : document.depth < n) : compileAt m document = compileAt n document := by
  induction m generalizing n document with
  | zero => omega
  | succ m ih =>
    cases n with
    | zero => omega
    | succ n => exact compileWith_congr fun x hx => ih (by omega) (by omega)

/-- **A document is compiled by compiling the documents within it.** -/
theorem compile_eq (document : Json) : compile document = compileWith compile document :=
  compileWith_congr fun _ hx => compileAt_congr hx (Nat.lt_succ_self _)

end Workflow

end StepFlow
