import StepFlow.Proofs.Workflow.Nesting
import StepFlow.Proofs.Workflow.Partition

/-!
# What a compiled workflow holds

* `StateDraft.recovery_eq_ok`, `StateDraft.choiceList_eq_ok`, `Decoded`, `decodeState_eq_ok`: what the parts
  of a state and the state are made of;
* `find?_decodeStates`, `coherent_of_checkedStates`: the states that a document declares, read one by
  one, make a coherent table;
* `documentsIn`, `Within`: the documents that are compiled within a document;
* `compile_eq_ok`, `exists_decodeState`: a workflow is the partition of the states that its document
  declares, and each of its states is read from a declaration;
* `Workflow.Represents`: what a workflow has to be like to stand for a document;
* **`represents_compile`**: the workflows of a document and of all documents within it hold the
  reachable part of what is declared, each state once.
-/

namespace StepFlow

/-! ## Parts of states -/

namespace StateDraft

variable {d : StateDraft} {n : String}

theorem handling_eq_ok {r : ResultHandling} (h : d.handling n = .ok r) :
    template n "Parameters" d.parameters = .ok r.parameters ∧
      spec (referencePath n "ResultPath") d.resultPath = .ok r.resultPath := by
  unfold handling at h
  obtain ⟨parameters, hparameters, h⟩ := Except.bind_eq_ok_iff.mp h
  obtain ⟨resultPath, hresult, h⟩ := Except.bind_eq_ok_iff.mp h
  cases h
  exact ⟨hparameters, hresult⟩

theorem retrier_eq_ok {j : Json} {r : Retrier} (h : retrier n j = .ok r) :
    Retrier.read j = .ok r ∧ r.check = .ok () := by
  unfold retrier at h
  split at h
  · cases h
  · next hread =>
    split at h
    · next hcheck =>
      cases h
      exact ⟨hread, hcheck⟩
    · cases h

theorem catcher_eq_ok {t : CatcherText} {c : Catcher} (h : catcher n t = .ok c) :
    checkErrors c.errorEquals = .ok () ∧
      spec (referencePath n "Catch.ResultPath") t.resultPath = .ok c.resultPath := by
  unfold catcher at h
  split at h
  · cases h
  · next hcheck =>
    obtain ⟨resultPath, hresult, h⟩ := Except.bind_eq_ok_iff.mp h
    cases h
    exact ⟨hcheck, hresult⟩

/-- What policies are made of: each retrier and each catcher is read, and both lists are checked. -/
structure Recovers (d : StateDraft) (n : String) (r : Recovery) : Prop where
  selector : template n "ResultSelector" d.resultSelector = .ok r.resultSelector
  retriers : (d.retry.getD []).mapM (retrier n) = .ok r.retriers
  retryAll : checkAllIsLast (r.retriers.map Retrier.errorEquals) = .ok ()
  catchers : (d.catchers.getD []).mapM (catcher n) = .ok r.catchers
  catchAll : checkAllIsLast (r.catchers.map Catcher.errorEquals) = .ok ()

theorem recovery_eq_ok {r : Recovery} (h : d.recovery n = .ok r) : d.Recovers n r := by
  unfold recovery at h
  obtain ⟨selector, hselector, h⟩ := Except.bind_eq_ok_iff.mp h
  obtain ⟨retriers, hretriers, h⟩ := Except.bind_eq_ok_iff.mp h
  dsimp only at h
  split at h
  · next hretryAll =>
    obtain ⟨catchers, hcatchers, h⟩ := Except.bind_eq_ok_iff.mp h
    split at h
    · next hcatchAll =>
      cases h
      exact ⟨hselector, hretriers, hretryAll, hcatchers, hcatchAll⟩
    · cases h
  · cases h

theorem choiceRule_eq_ok {index : Nat} {j : Json} {r : ChoiceRule} (h : choiceRule n index j = .ok r) :
    ∃ rule, j = .obj rule ∧ Condition.ofRule rule = .ok r.condition := by
  unfold choiceRule at h
  split at h
  · next rule =>
    split at h
    · split at h
      · next hc =>
        cases h
        exact ⟨rule, rfl, hc⟩
      · cases h
    · cases h
  · cases h

theorem choiceRules_eq_ok {rules : List Json} {index : Nat} {choices : List ChoiceRule}
    (h : choiceRules n index rules = .ok choices) : choices.length = rules.length ∧
      ∀ r ∈ choices, ∃ rule, .obj rule ∈ rules ∧ Condition.ofRule rule = .ok r.condition := by
  induction rules generalizing index choices with
  | nil =>
    cases h
    exact ⟨rfl, nofun⟩
  | cons j rules ih =>
    obtain ⟨first, hfirst, h⟩ := Except.bind_eq_ok_iff.mp h
    obtain ⟨others, hothers, h⟩ := Except.bind_eq_ok_iff.mp h
    cases h
    obtain ⟨rule, rfl, hrule⟩ := choiceRule_eq_ok hfirst
    obtain ⟨hlength, hall⟩ := ih hothers
    refine ⟨congrArg (· + 1) hlength, List.forall_mem_cons.mpr ⟨?_, fun r hr => ?_⟩⟩
    · exact ⟨rule, List.mem_cons_self, hrule⟩
    · obtain ⟨rule', hmem, hrule'⟩ := hall r hr
      exact ⟨rule', List.mem_cons_of_mem _ hmem, hrule'⟩

/-- The rules of a choice are read one by one, and there is at least one. -/
theorem choiceList_eq_ok {choices : List ChoiceRule} (h : d.choiceList n = .ok choices) :
    choices ≠ [] ∧ ∃ rules, d.choices = some rules ∧
      ∀ r ∈ choices, ∃ rule, .obj rule ∈ rules ∧ Condition.ofRule rule = .ok r.condition := by
  unfold choiceList at h
  split at h
  · cases h
  · cases h
  · next rules hne hrules =>
    obtain ⟨hlength, hall⟩ := choiceRules_eq_ok h
    refine ⟨?_, rules, hrules, hall⟩
    rintro rfl
    exact hne (List.length_eq_zero_iff.mp hlength.symm)

end StateDraft

section Decode

variable {W : Type} {f : Json → Except CompileError W} {n : String} {j : Json} {s : State W}
  {declared : Keyed Json} {states : Keyed (State W)}

/-! ## One state -/

theorem nestedWorkflow_eq_ok {x : Json} {w : W} : nestedWorkflow f n x = .ok w ↔ f x = .ok w := by
  unfold nestedWorkflow
  cases f x <;> simp

/-- **What a state of a type is made of.** The parts of a draft are read one by one, and the documents
within it are compiled by `f`. -/
inductive Decoded (f : Json → Except CompileError W) (n : String) (d : StateDraft) :
    StateKind → State W → Prop where
  | pass {paths : DataPaths} {handling : ResultHandling} {transition : Transition} :
      d.dataPaths n = .ok paths → d.handling n = .ok handling → d.transition n = .ok transition →
      Decoded f n d .pass (.pass ⟨n, d.comment, paths, handling, d.result, transition⟩)
  | task {resource : TaskResource} {paths : DataPaths} {handling : ResultHandling} {recovery : Recovery}
      {transition : Transition} :
      decodeResource n d = .ok resource → d.dataPaths n = .ok paths → d.handling n = .ok handling →
      d.recovery n = .ok recovery → d.transition n = .ok transition →
      Decoded f n d .task (.task ⟨n, d.comment, paths, handling, recovery, resource,
        d.timeoutSeconds.getD 0, transition⟩)
  | choice {paths : DataPaths} {choices : List ChoiceRule} :
      d.dataPaths n = .ok paths → d.choiceList n = .ok choices →
      Decoded f n d .choice (.choice ⟨n, d.comment, paths, choices, d.default⟩)
  | wait {paths : DataPaths} {duration : WaitDuration} {transition : Transition} :
      d.dataPaths n = .ok paths → d.duration n = .ok duration → d.transition n = .ok transition →
      Decoded f n d .wait (.wait ⟨n, d.comment, paths, duration, transition⟩)
  | succeed {paths : DataPaths} : d.dataPaths n = .ok paths →
      Decoded f n d .succeed (.succeed ⟨n, d.comment, paths⟩)
  | fail : Decoded f n d .fail (.fail ⟨n, d.comment, d.error, d.cause⟩)
  | parallel {documents : List Json} {branches : List W} {paths : DataPaths} {handling : ResultHandling}
      {recovery : Recovery} {transition : Transition} :
      d.branches = some documents → documents ≠ [] →
      documents.mapM (nestedWorkflow f n) = .ok branches → d.dataPaths n = .ok paths →
      d.handling n = .ok handling → d.recovery n = .ok recovery → d.transition n = .ok transition →
      Decoded f n d .parallel (.parallel ⟨n, d.comment, paths, handling, recovery, branches, transition⟩)
  | map {document : Json} {itemsPath : ReferencePath} {iterator : W} {paths : DataPaths}
      {handling : ResultHandling} {recovery : Recovery} {transition : Transition} :
      d.iterator = some document → decodeItemsPath n d = .ok itemsPath → f document = .ok iterator →
      d.dataPaths n = .ok paths → d.handling n = .ok handling → d.recovery n = .ok recovery →
      d.transition n = .ok transition →
      Decoded f n d .map (.map ⟨n, d.comment, paths, handling, recovery, iterator, itemsPath,
        d.maxConcurrency.getD 0, transition⟩)

theorem decoded_of_decodeParallel {d : StateDraft} {p : ParallelState W}
    (h : decodeParallel f n d = .ok p) : Decoded f n d .parallel (.parallel p) := by
  unfold decodeParallel at h
  dsimp only at h
  split at h
  · cases h
  · cases h
  · next documents hne hdocuments =>
    rw [pure_bind] at h
    obtain ⟨branches, hbranches, h⟩ := Except.bind_eq_ok_iff.mp h
    obtain ⟨paths, hpaths, h⟩ := Except.bind_eq_ok_iff.mp h
    obtain ⟨handling, hhandling, h⟩ := Except.bind_eq_ok_iff.mp h
    obtain ⟨recovery, hrecovery, h⟩ := Except.bind_eq_ok_iff.mp h
    obtain ⟨transition, htransition, h⟩ := Except.bind_eq_ok_iff.mp h
    cases h
    exact .parallel hdocuments hne hbranches hpaths hhandling hrecovery htransition

theorem decoded_of_decodeMap {d : StateDraft} {m : MapState W} (h : decodeMap f n d = .ok m) :
    Decoded f n d .map (.map m) := by
  unfold decodeMap at h
  dsimp only at h
  split at h
  · cases h
  · next document hdocument =>
    rw [pure_bind] at h
    obtain ⟨itemsPath, hitems, h⟩ := Except.bind_eq_ok_iff.mp h
    obtain ⟨iterator, hiterator, h⟩ := Except.bind_eq_ok_iff.mp h
    obtain ⟨paths, hpaths, h⟩ := Except.bind_eq_ok_iff.mp h
    obtain ⟨handling, hhandling, h⟩ := Except.bind_eq_ok_iff.mp h
    obtain ⟨recovery, hrecovery, h⟩ := Except.bind_eq_ok_iff.mp h
    obtain ⟨transition, htransition, h⟩ := Except.bind_eq_ok_iff.mp h
    cases h
    exact .map hdocument hitems (nestedWorkflow_eq_ok.mp hiterator) hpaths hhandling hrecovery htransition

/-- **A state that is read is made of what its draft gives.** -/
theorem decoded_of_decodeKind {d : StateDraft} {kind : StateKind} (h : decodeKind f n d kind = .ok s) :
    Decoded f n d kind s := by
  cases kind with
  | pass =>
    obtain ⟨p, hp, rfl⟩ := Except.map_eq_ok_iff.mp h
    obtain ⟨paths, hpaths, hp⟩ := Except.bind_eq_ok_iff.mp hp
    obtain ⟨handling, hhandling, hp⟩ := Except.bind_eq_ok_iff.mp hp
    obtain ⟨transition, htransition, hp⟩ := Except.bind_eq_ok_iff.mp hp
    cases hp
    exact .pass hpaths hhandling htransition
  | task =>
    obtain ⟨p, hp, rfl⟩ := Except.map_eq_ok_iff.mp h
    obtain ⟨resource, hresource, hp⟩ := Except.bind_eq_ok_iff.mp hp
    obtain ⟨paths, hpaths, hp⟩ := Except.bind_eq_ok_iff.mp hp
    obtain ⟨handling, hhandling, hp⟩ := Except.bind_eq_ok_iff.mp hp
    obtain ⟨recovery, hrecovery, hp⟩ := Except.bind_eq_ok_iff.mp hp
    obtain ⟨transition, htransition, hp⟩ := Except.bind_eq_ok_iff.mp hp
    cases hp
    exact .task hresource hpaths hhandling hrecovery htransition
  | choice =>
    obtain ⟨p, hp, rfl⟩ := Except.map_eq_ok_iff.mp h
    obtain ⟨paths, hpaths, hp⟩ := Except.bind_eq_ok_iff.mp hp
    obtain ⟨choices, hchoices, hp⟩ := Except.bind_eq_ok_iff.mp hp
    cases hp
    exact .choice hpaths hchoices
  | wait =>
    obtain ⟨p, hp, rfl⟩ := Except.map_eq_ok_iff.mp h
    obtain ⟨paths, hpaths, hp⟩ := Except.bind_eq_ok_iff.mp hp
    obtain ⟨duration, hduration, hp⟩ := Except.bind_eq_ok_iff.mp hp
    obtain ⟨transition, htransition, hp⟩ := Except.bind_eq_ok_iff.mp hp
    cases hp
    exact .wait hpaths hduration htransition
  | succeed =>
    obtain ⟨paths, hpaths, h⟩ := Except.bind_eq_ok_iff.mp h
    cases h
    exact .succeed hpaths
  | fail =>
    cases h
    exact .fail
  | parallel =>
    obtain ⟨p, hp, rfl⟩ := Except.map_eq_ok_iff.mp h
    exact decoded_of_decodeParallel hp
  | map =>
    obtain ⟨m, hm, rfl⟩ := Except.map_eq_ok_iff.mp h
    exact decoded_of_decodeMap hm

theorem decodeState_eq_ok (h : decodeState f n j = .ok s) :
    ∃ kind d, stateKind n j = .ok kind ∧ draftOf n j = .ok d ∧ Decoded f n d kind s := by
  obtain ⟨kind, hk, h⟩ := Except.bind_eq_ok_iff.mp h
  obtain ⟨d, hd, h⟩ := Except.bind_eq_ok_iff.mp h
  exact ⟨kind, d, hk, hd, decoded_of_decodeKind h⟩

theorem name_of_decodeState (h : decodeState f n j = .ok s) : s.name = n := by
  obtain ⟨kind, d, -, -, h⟩ := decodeState_eq_ok h
  cases h <;> rfl

/-! ## The documents within a state -/

/-- The documents of the workflows that a declared state runs: the branches of a parallel state and the
iterator of a map. -/
def documentsIn (n : String) (j : Json) : List Json :=
  match stateKind n j, draftOf n j with
  | .ok .parallel, .ok d => d.branches.getD []
  | .ok .map, .ok d => d.iterator.toList
  | _, _ => []

/-- **The workflows of a state are those of the documents within its declaration.** -/
theorem nested_decodeState (h : decodeState f n j = .ok s) :
    (∀ x ∈ documentsIn n j, ∃ w ∈ s.nested, f x = .ok w) ∧
      ∀ w ∈ s.nested, ∃ x ∈ documentsIn n j, f x = .ok w := by
  obtain ⟨kind, d, hk, hd, h⟩ := decodeState_eq_ok h
  unfold documentsIn
  rw [hk, hd]
  cases h with
  | parallel hdocuments _ hbranches =>
    simp only [hdocuments, Option.getD_some]
    refine ⟨fun x hx => ?_, fun w hw => ?_⟩
    · obtain ⟨w, hw, hx⟩ := Except.exists_mem_mapM hbranches hx
      exact ⟨w, hw, nestedWorkflow_eq_ok.mp hx⟩
    · obtain ⟨x, hx, hw⟩ := Except.exists_of_mem_mapM hbranches hw
      exact ⟨x, hx, nestedWorkflow_eq_ok.mp hw⟩
  | map hdocument _ hiterator =>
    simp only [hdocument, State.nested, Option.toList_some, List.mem_singleton, forall_eq]
    exact ⟨⟨_, rfl, hiterator⟩, ⟨_, rfl, hiterator⟩⟩
  | _ => exact ⟨fun x hx => absurd hx List.not_mem_nil, fun w hw => absurd hw List.not_mem_nil⟩

theorem depth_of_mem_documentsIn {x : Json} (h : x ∈ documentsIn n j) : x.depth < j.depth := by
  unfold documentsIn at h
  split at h
  · next hd => exact StateDraft.depth_documents_draftOf hd x (List.mem_append_left _ h)
  · next hd => exact StateDraft.depth_documents_draftOf hd x (List.mem_append_right _ h)
  · exact absurd h List.not_mem_nil

/-! ## All declared states -/

theorem decodeStates_cons_eq_ok_iff {e : String × Json} :
    decodeStates f (e :: declared) = .ok states ↔
      ∃ s states', decodeState f e.1 e.2 = .ok s ∧ decodeStates f declared = .ok states' ∧
        (e.1, s) :: states' = states := by
  obtain ⟨n, j⟩ := e
  rw [decodeStates, Except.bind_eq_ok_iff]
  refine exists_congr fun s => ?_
  rw [Except.bind_eq_ok_iff]
  constructor
  · rintro ⟨hs, states', hd, h⟩
    cases h
    exact ⟨states', hs, hd, rfl⟩
  · rintro ⟨states', hs, hd, rfl⟩
    exact ⟨hs, states', hd, rfl⟩

/-- The state with a name is the one that is read from the declaration with that name. -/
theorem find?_decodeStates (h : decodeStates f declared = .ok states) :
    Keyed.find? n states = some s ↔
      ∃ j, Keyed.find? n declared = some j ∧ decodeState f n j = .ok s := by
  induction declared generalizing states with
  | nil =>
    cases h
    simp
  | cons e declared ih =>
    obtain ⟨s', states', hs, hd, rfl⟩ := decodeStates_cons_eq_ok_iff.mp h
    obtain ⟨m, j⟩ := e
    rw [Keyed.find?_cons, Keyed.find?_cons]
    split
    · next hm =>
      subst hm
      dsimp only at hs
      simp [hs]
    · exact ih hd

theorem exists_of_mem_declared (h : decodeStates f declared = .ok states) {e : String × Json}
    (he : e ∈ declared) : ∃ s, decodeState f e.1 e.2 = .ok s := by
  induction declared generalizing states with
  | nil => exact absurd he List.not_mem_nil
  | cons e' declared ih =>
    obtain ⟨s', states', hs, hd, -⟩ := decodeStates_cons_eq_ok_iff.mp h
    rcases List.mem_cons.mp he with rfl | he
    · exact ⟨s', hs⟩
    · exact ih hd he

/-- **The check of transitions makes a coherent table.** -/
theorem coherent_of_checkedStates {start : String} (h : checkedStates f start declared = .ok states) :
    decodeStates f declared = .ok states ∧ Coherent states start := by
  unfold checkedStates at h
  obtain ⟨states', hd, h⟩ := Except.bind_eq_ok_iff.mp h
  dsimp only at h
  split at h
  · cases h
  · next hstart =>
    split at h
    · cases h
    · next hdangling =>
      cases h
      refine ⟨hd, fun n s hs => ?_, ?_, fun n s t hs ht => ?_⟩
      · obtain ⟨j, -, hj⟩ := (find?_decodeStates hd).mp hs
        exact name_of_decodeState hj
      · exact Option.ne_none_iff_exists'.mp fun hn => hstart (by rw [hn]; rfl)
      · have hnone := List.findSome?_eq_none_iff.mp hdangling (n, s) (Keyed.mem_of_find? hs)
        rw [Option.map_eq_none_iff, List.find?_eq_none] at hnone
        exact Option.ne_none_iff_exists'.mp fun hn =>
          hnone t (State.mem_successors.mpr ht) (by rw [hn]; rfl)

end Decode

/-! ## Documents -/

theorem compile_eq_ok {document : Json} {w : Workflow} (h : Workflow.compile document = .ok w) :
    ∃ d start declared states, DocumentDraft.read document = .ok d ∧ d.startAt = some start ∧
      d.states = some declared ∧ checkedStates Workflow.compile start declared = .ok states ∧
      w = ⟨⟨d.comment, start, d.version.getD defaultVersion, d.timeoutSeconds.getD 0⟩,
        (partition start states).branches, (partition start states).index⟩ := by
  rw [Workflow.compile_eq] at h
  unfold compileWith at h
  dsimp only at h
  split at h
  · next d hd =>
    rw [pure_bind] at h
    split at h
    · cases h
    · cases h
    · next start declared hstart hstates =>
      obtain ⟨states, hc, h⟩ := Except.bind_eq_ok_iff.mp h
      cases h
      exact ⟨d, start, declared, states, hd, hstart, hstates, hc, rfl⟩
  · cases h

/-- The documents within the declarations of a document are less deep than the document. -/
theorem depth_lt_of_mem_declared {document x : Json} {d : DocumentDraft} {declared : Keyed Json}
    {e : String × Json} (hd : DocumentDraft.read document = .ok d) (hdecl : d.states = some declared)
    (he : e ∈ declared) (hx : x ∈ documentsIn e.1 e.2) : x.depth < document.depth :=
  calc x.depth < e.2.depth := depth_of_mem_documentsIn hx
    _ < (Json.obj declared).depth := Json.depth_lt_of_mem_members he
    _ < document.depth := DocumentDraft.depth_states hd hdecl

/-- Every state of a compiled workflow is read from a declaration of the document. -/
theorem exists_decodeState {document : Json} {w : Workflow} (h : Workflow.compile document = .ok w)
    {s : State Workflow} (hs : s ∈ w.states) : ∃ n j, decodeState Workflow.compile n j = .ok s := by
  obtain ⟨d, start, declared, states, -, -, -, hc, rfl⟩ := compile_eq_ok h
  obtain ⟨hdec, hcoh⟩ := coherent_of_checkedStates hc
  obtain ⟨p, hp⟩ := mem_flatten_iff.mp hs
  obtain ⟨j, -, hj⟩ := (find?_decodeStates hdec).mp ((divides_partition hcoh).declared p s hp)
  exact ⟨s.name, j, hj⟩

/-- A document is compiled in the course of compiling another one. -/
inductive Within (sub : Json) : Json → Prop where
  | self : Within sub sub
  | nested {document inner : Json} {d : DocumentDraft} {declared : Keyed Json} {e : String × Json} :
      DocumentDraft.read document = .ok d → d.states = some declared → e ∈ declared →
      inner ∈ documentsIn e.1 e.2 → Within sub inner → Within sub document

/-- **The documents within a document that is accepted are accepted as well.** -/
theorem Within.compile {sub document : Json} {w : Workflow} (hs : Within sub document)
    (h : Workflow.compile document = .ok w) : ∃ w', Workflow.compile sub = .ok w' := by
  induction hs generalizing w with
  | self => exact ⟨w, h⟩
  | nested hd hdecl he hi _ ih =>
    obtain ⟨d, start, declared, states, hd', -, hdecl', hc, -⟩ := compile_eq_ok h
    rw [hd] at hd'
    cases hd'
    rw [hdecl] at hdecl'
    cases hdecl'
    obtain ⟨s, hs⟩ := exists_of_mem_declared (coherent_of_checkedStates hc).1 he
    obtain ⟨v, -, hv⟩ := (nested_decodeState hs).1 _ hi
    exact ih hv

theorem state?_eq_some_iff {w : Workflow} {states : Keyed (State Workflow)} {start n : String}
    {s : State Workflow} (h : Divides states start w.branches w.index) :
    w.state? n = some s ↔ Reachable states start n ∧ Keyed.find? n states = some s := by
  have hstand : ∀ p : Position, ((w.branches[p.branch]?).bind fun b => b[p.offset]?) = some s ↔
      StandsAt w.branches p s := fun p => Option.bind_eq_some_iff
  rw [Workflow.state?, Option.bind_eq_some_iff]
  simp only [hstand]
  constructor
  · rintro ⟨p, hp, hs⟩
    obtain ⟨t, ht, hn⟩ := (h.place n p).mp hp
    have hts : t = s := by
      have := ((hstand p).mpr hs).symm.trans (Option.bind_eq_some_iff.mpr ht)
      exact (Option.some.inj this).symm
    subst hts
    exact ⟨(h.mem_index n).mp (Keyed.mem_keys.mpr ⟨p, hp⟩), hn ▸ h.declared p t hs⟩
  · rintro ⟨hr, hf⟩
    obtain ⟨p, hp⟩ := Keyed.mem_keys.mp ((h.mem_index n).mpr hr)
    obtain ⟨t, ht, hn⟩ := (h.place n p).mp hp
    have := h.declared p t ht
    rw [hn, hf, Option.some.injEq] at this
    exact ⟨p, hp, this ▸ ht⟩

/-- **A workflow represents a document**: its branches and its index divide the reachable part of the
states that are read from the declarations one by one, a name leads to the state that was declared under
it, and the workflows within its states are those of documents within the document. -/
def Workflow.Represents (w : Workflow) (document : Json) : Prop :=
  ∃ d start declared states, DocumentDraft.read document = .ok d ∧ d.startAt = some start ∧
    d.states = some declared ∧
    (∀ n s, Keyed.find? n states = some s ↔
      ∃ j, Keyed.find? n declared = some j ∧ decodeState Workflow.compile n j = .ok s) ∧
    w.startAt = start ∧ Divides states start w.branches w.index ∧
    (∀ n s, w.state? n = some s ↔ Reachable states start n ∧ Keyed.find? n states = some s) ∧
    ∀ s ∈ w.states, ∀ v ∈ s.nested, ∃ x, Within x document ∧ Workflow.compile x = .ok v

/-- **Compiling divides the reachable part of a document**, and of every document within it. -/
theorem represents_compile {document : Json} {w : Workflow} (h : Workflow.compile document = .ok w)
    {sub : Json} (hs : Within sub document) :
    ∃ v, Workflow.compile sub = .ok v ∧ v.Represents sub := by
  obtain ⟨v, hv⟩ := hs.compile h
  refine ⟨v, hv, ?_⟩
  obtain ⟨d, start, declared, states, hd, hstart, hdecl, hc, rfl⟩ := compile_eq_ok hv
  obtain ⟨hdec, hcoh⟩ := coherent_of_checkedStates hc
  have hdiv := divides_partition hcoh
  refine ⟨d, start, declared, states, hd, hstart, hdecl, fun n s => find?_decodeStates hdec, rfl,
    hdiv, fun n s => state?_eq_some_iff hdiv, fun s hs v hv => ?_⟩
  obtain ⟨p, hp⟩ := mem_flatten_iff.mp hs
  obtain ⟨j, hj, hs⟩ := (find?_decodeStates hdec).mp (hdiv.declared p s hp)
  obtain ⟨x, hx, hxv⟩ := (nested_decodeState hs).2 v hv
  exact ⟨x, .nested hd hdecl (Keyed.mem_of_find? hj) hx .self, hxv⟩

/-- A document with a loop and a state that nothing leads to. -/
def loopingBranch : Json :=
  .obj [("StartAt", .str "X"), ("States", .obj [
    ("X", .obj [("Next", .str "X"), ("Type", .str "Pass")]),
    ("Y", .obj [("Type", .str "Succeed")])])]

/-- A document with a loop through a parallel state, which has two catchers. -/
def loopingDocument : Json :=
  .obj [("StartAt", .str "A"), ("States", .obj [
    ("A", .obj [("Next", .str "B"), ("Type", .str "Pass")]),
    ("B", .obj [("Branches", .arr [loopingBranch]),
        ("Catch", .arr [
          .obj [("ErrorEquals", .arr [.str "E"]), ("Next", .str "C")],
          .obj [("ErrorEquals", .arr [.str "States.ALL"]), ("Next", .str "A")]]),
        ("Next", .str "A"), ("Type", .str "Parallel")]),
    ("C", .obj [("Next", .str "A"), ("Type", .str "Pass")]),
    ("D", .obj [("Type", .str "Succeed")])])]

theorem represents_compile_looping :
    ∃ w, Workflow.compile loopingDocument = .ok w ∧ Within loopingBranch loopingDocument ∧
      ∃ v, Workflow.compile loopingBranch = .ok v ∧ v.Represents loopingBranch := by
  have hw : ∃ w, Workflow.compile loopingDocument = .ok w := ⟨_, by rfl⟩
  have hs : Within loopingBranch loopingDocument :=
    .nested (e := ("B", _)) (by rfl) (by rfl) (.tail _ (.head _)) (.head _) .self
  obtain ⟨w, hw⟩ := hw
  exact ⟨w, hw, hs, represents_compile hw hs⟩

end StepFlow
