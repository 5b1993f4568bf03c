import StepFlow.Workflow.Decode
import StepFlow.Proofs.Timestamp
import StepFlow.Proofs.Workflow.Storable

/-!
# Stored workflows are read as they were

* `HasFields`, `HasFields.required`, `HasFields.allowed`: the fields of a record are found where they were
  put;
* `decodeList_map`: lists;
* `Condition.decode_encode`, `State.decode_encode`: conditions and states, and
* **`decode_encode_compile`**: every workflow that comes of compiling a document.
-/

namespace StepFlow

open Json

/-! ## Records -/

section Fields

variable {r : Keyed Json} {fields : List (String × Json)} {field : String} {α : Type}
  {read : Json → Except ReadError α}

theorem optional_of_ne_null {j : Json} {a : α} (hj : j ≠ .null) (ha : read j = .ok a) :
    Json.optional read j = .ok (some a) := by
  unfold Json.optional
  split
  · exact absurd rfl hj
  · rw [ha]
    rfl

/-- A record holds the fields. -/
def HasFields (r : Keyed Json) (fields : List (String × Json)) : Prop :=
  ∀ e ∈ fields, Keyed.find? e.1 r = some e.2

theorem hasFields_ofList (h : (fields.map Prod.fst).Nodup) :
    HasFields (Keyed.ofList fields) fields := fun _ he => Keyed.find?_ofList h he

theorem read_ofMembers {a : α} (h : (fields.map Prod.fst).Nodup)
    (hread : ∀ r, HasFields r fields → read (.obj r) = .ok a) : read (ofMembers fields) = .ok a :=
  hread _ (hasFields_ofList h)

/-- A field that a record has to have is read from what was put at its place `i`. -/
theorem HasFields.required (h : HasFields r fields) (i : Nat) {j : Json} {a : α}
    (hi : fields[i]? = some (field, j)) (hj : read j = .ok a) :
    Json.required r field read = .ok a := by
  rw [Json.required, h _ (List.mem_of_getElem? hi)]
  exact hj

/-- A field that may be missing is read from what was put at its place `i`. -/
theorem HasFields.allowed (h : HasFields r fields) (i : Nat) {encode : α → Json} {o : Option α}
    (hi : fields[i]? = some (field, encodeOption encode o))
    (hread : ∀ a, o = some a → encode a ≠ .null ∧ read (encode a) = .ok a) :
    Json.allowed r field read = .ok o := by
  rw [Json.allowed, h _ (List.mem_of_getElem? hi)]
  cases o with
  | none => rfl
  | some a => exact optional_of_ne_null (hread a rfl).1 (hread a rfl).2

theorem HasFields.text (h : HasFields r fields) (i : Nat) {o : Option String}
    (hi : fields[i]? = some (field, encodeText o)) : Json.allowed r field asText = .ok o :=
  h.allowed i hi fun _ _ => ⟨nofun, rfl⟩

theorem HasFields.value (h : HasFields r fields) (i : Nat) {V : Json → Prop} {o : Option Json}
    (hi : fields[i]? = some (field, encodeValue o)) (ho : Given V o) :
    Json.allowed r field decodeAny = .ok o :=
  h.allowed i hi fun v hv => ⟨(ho v hv).1, rfl⟩

end Fields

theorem decodeList_map {α : Type} {encode : α → Json} {read : Json → Except ReadError α}
    {items : List α} (h : ∀ a ∈ items, read (encode a) = .ok a) :
    decodeList read (.arr (items.map encode)) = .ok items := Except.mapM_map_eq_ok h

theorem asTexts_map (names : List String) : asTexts (.arr (names.map .str)) = .ok names :=
  Except.mapM_map_eq_ok fun _ _ => rfl

theorem asNat_nat {bound n : Nat} {expected : String} (h : n < bound) :
    asNat bound expected (.nat n) = .ok n := by
  show (if 0 ≤ (n : Int) ∧ (n : Int) < bound then Except.ok (n : Int).toNat else _) = _
  rw [if_pos ⟨Int.natCast_nonneg n, Int.ofNat_lt.mpr h⟩, Int.toNat_natCast]

/-! ## Parts of states -/

theorem Path.Spelled.decode {p : Path} (h : p.Spelled) : decodePath (.str p.source) = .ok p := by
  simp only [decodePath, asText, Except.ok_bind, show Path.parse p.source = .ok p from h]
  rfl

theorem ReferencePath.Spelled.decode {p : ReferencePath} (h : p.Spelled) :
    decodeReferencePath (.str p.source) = .ok p := by
  simp only [decodeReferencePath, asText, Except.ok_bind,
    show ReferencePath.parse p.source = .ok p from h]
  rfl

section PathSpec

variable {P : Type} {S : P → Prop} {text : P → String} {read : Json → Except ReadError P}
  {lenient : Bool}

theorem PathSpec.encode_ne_null (spec : PathSpec P) : PathSpec.encode text spec ≠ .null := by
  cases spec <;> nofun

theorem PathSpec.decode_encode (hread : ∀ p, S p → read (.str (text p)) = .ok p) {spec : PathSpec P}
    (h : PathSpec.Holds S (some spec)) :
    PathSpec.decode lenient read (PathSpec.encode text spec) = .ok spec := by
  cases spec with
  | path p =>
    show (do return PathSpec.path (← read (.str (text p)))) = _
    rw [hread p (h p rfl)]
    rfl
  | discard => rfl

theorem HasFields.spec {r : Keyed Json} {fields : List (String × Json)} {field : String}
    (h : HasFields r fields) (i : Nat) (hread : ∀ p, S p → read (.str (text p)) = .ok p)
    {o : Option (PathSpec P)} (hi : fields[i]? = some (field, encodeOption (PathSpec.encode text) o))
    (ho : PathSpec.Holds S o) : Json.allowed r field (PathSpec.decode lenient read) = .ok o :=
  h.allowed i hi fun spec hs => ⟨spec.encode_ne_null, PathSpec.decode_encode hread (hs ▸ ho)⟩

end PathSpec

theorem Transition.decode_encode (t : Transition) : Transition.decode t.encode = .ok t := by
  cases t <;> rfl

theorem DataPaths.decode_encode {p : DataPaths} (h : p.Spelled) :
    DataPaths.decode p.encode = .ok p := by
  unfold DataPaths.encode
  refine read_ofMembers (by simp) fun r hr => ?_
  have hinput : allowed r "input_path" (PathSpec.decode true decodePath) = .ok p.inputPath :=
    hr.spec 0 (fun _ h => h.decode) rfl h.1
  have houtput : allowed r "output_path" (PathSpec.decode true decodePath) = .ok p.outputPath :=
    hr.spec 1 (fun _ h => h.decode) rfl h.2
  simp only [DataPaths.decode, asRecord, Except.ok_bind, hinput, houtput]
  rfl

variable {V : Json → Prop}

theorem ResultHandling.decode_encode {h : ResultHandling} (hs : h.Storable V) :
    ResultHandling.decode h.encode = .ok h := by
  unfold ResultHandling.encode
  refine read_ofMembers (by simp) fun r hr => ?_
  have hparameters : allowed r "parameters" decodeAny = .ok h.parameters := hr.value 0 rfl hs.1
  have hpath : allowed r "result_path" (PathSpec.decode true decodeReferencePath) =
      .ok h.resultPath := hr.spec 1 (fun _ h => h.decode) rfl hs.2
  simp only [ResultHandling.decode, asRecord, Except.ok_bind, hparameters, hpath]
  rfl

theorem Retrier.read_encode {r : Retrier} (h : r.Storable) : Retrier.read r.encode = .ok r := by
  have hkeys : ["BackoffRate", "ErrorEquals", "IntervalSeconds", "MaxAttempts"].Pairwise (· < ·) := by
    decide
  unfold Retrier.encode ofMembers
  rw [Keyed.ofList_of_sorted]
  · simp only [Retrier.read, List.foldlM_cons, RetrierDraft.put, asTexts_map, asDouble, asNat64,
      asNat32, asNat_nat h.1, asNat_nat h.2, Except.ok_bind, pure_bind]
    rfl
  · exact Keyed.sorted_of_keys rfl hkeys

theorem Catcher.decode_encode {c : Catcher} (h : c.Storable) :
    Catcher.decode true c.encode = .ok c := by
  obtain ⟨names, next, resultPath⟩ := c
  have hpath : optional (PathSpec.decode true decodeReferencePath)
      (encodeOption (PathSpec.encode ReferencePath.source) resultPath) = .ok resultPath := by
    cases resultPath with
    | none => rfl
    | some spec =>
      exact optional_of_ne_null spec.encode_ne_null (PathSpec.decode_encode (fun _ h => h.decode) h)
  have hkeys : ["error_equals", "next", "result_path"].Pairwise (· < ·) := by decide
  unfold Catcher.encode ofMembers
  rw [Keyed.ofList_of_sorted]
  · simp only [Catcher.decode, List.foldlM_cons, StoredCatcher.put, asTexts_map, hpath,
      Except.ok_bind, pure_bind]
    rfl
  · exact Keyed.sorted_of_keys rfl hkeys

theorem Recovery.decode_encode {r : Recovery} (h : r.Storable V) :
    Recovery.decode r.encode = .ok r := by
  unfold Recovery.encode
  refine read_ofMembers (by simp) fun m hm => ?_
  have hcatch : required m "catch" (decodeList (Catcher.decode true)) = .ok r.catchers :=
    hm.required 0 rfl (decodeList_map fun c hc => Catcher.decode_encode (h.catchers c hc))
  have hselector : allowed m "result_selector" decodeAny = .ok r.resultSelector :=
    hm.value 1 rfl h.selector
  have hretry : required m "retry" (decodeList Retrier.read) = .ok r.retriers :=
    hm.required 2 rfl (decodeList_map fun x hx => Retrier.read_encode (h.retriers x hx))
  simp only [Recovery.decode, asRecord, Except.ok_bind, hcatch, hselector, hretry]
  rfl

theorem TaskResource.decode_encode (r : TaskResource) : TaskResource.decode r.encode = .ok r := by
  unfold TaskResource.encode
  refine read_ofMembers (by simp) fun m hm => ?_
  have hpath : required m "Path" asText = .ok r.path := hm.required 0 rfl rfl
  have htype : required m "Type" asText = .ok r.resourceType := hm.required 1 rfl rfl
  simp only [TaskResource.decode, asRecord, Except.ok_bind, hpath, htype]
  rfl

/-! ## Conditions -/

theorem Reference.decode_encode {r : Reference} (h : r.Storable V) :
    Reference.decode r.encode = .ok r := by
  cases r with
  | literal value => rfl
  | path p =>
    show (do return Reference.path (← decodePath (.str p.source))) = _
    rw [Path.Spelled.decode h]
    rfl

theorem asOneOf_kind (kind : ValueKind) :
    asOneOf true ValueKind.all ValueKind.name (.str kind.name) = .ok kind := by
  cases kind <;> rfl

theorem asOneOf_relation (relation : Relation) :
    asOneOf true Relation.all Relation.name (.str relation.name) = .ok relation := by
  cases relation <;> rfl

theorem asOneOf_test (test : TypeTest) :
    asOneOf true typeTests TypeTest.name (.str test.name) = .ok test := by
  cases test <;> rfl

theorem depth_tagged (name : String) (content : Json) :
    (tagged name content).depth = content.depth + 1 := by
  simp [tagged, depth, depthMembers]

theorem encodeConditions_eq_map (cs : List Condition) :
    encodeConditions cs = cs.map Condition.encode := by
  induction cs with
  | nil => rfl
  | cons c cs ih => rw [encodeConditions, ih, List.map_cons]

theorem decodeCompare_encode (kind : ValueKind) (relation : Relation) {left : Path}
    {right : Reference} (hleft : left.Spelled) (hright : right.Storable V) :
    decodeCompare (ofMembers [("kind", .str kind.name), ("op", .str relation.name),
      ("operand", right.encode), ("variable", .str left.source)]) =
      .ok (.compare kind relation left right) := by
  refine read_ofMembers (by simp) fun m hm => ?_
  have hkind : required m "kind" (asOneOf true ValueKind.all ValueKind.name) = .ok kind :=
    hm.required 0 rfl (asOneOf_kind kind)
  have hop : required m "op" (asOneOf true Relation.all Relation.name) = .ok relation :=
    hm.required 1 rfl (asOneOf_relation relation)
  have hoperand : required m "operand" Reference.decode = .ok right :=
    hm.required 2 rfl (Reference.decode_encode hright)
  have hvariable : required m "variable" decodePath = .ok left := hm.required 3 rfl hleft.decode
  simp only [decodeCompare, asRecord, Except.ok_bind, hkind, hop, hoperand, hvariable]
  rfl

theorem decodeStringMatches_encode (pattern : String) {subject : Path} (h : subject.Spelled) :
    decodeStringMatches (ofMembers [("pattern", .str pattern), ("variable", .str subject.source)]) =
      .ok (.stringMatches subject pattern) := by
  refine read_ofMembers (by simp) fun m hm => ?_
  have hpattern : required m "pattern" asText = .ok pattern := hm.required 0 rfl rfl
  have hvariable : required m "variable" decodePath = .ok subject := hm.required 1 rfl h.decode
  simp only [decodeStringMatches, asRecord, Except.ok_bind, hpattern, hvariable]
  rfl

theorem decodeTest_encode (test : TypeTest) (expected : Bool) {subject : Path}
    (h : subject.Spelled) :
    decodeTest (ofMembers [("expected", .bool expected), ("test", .str test.name),
      ("variable", .str subject.source)]) = .ok (.test test subject expected) := by
  refine read_ofMembers (by simp) fun m hm => ?_
  have hexpected : required m "expected" asFlag = .ok expected := hm.required 0 rfl rfl
  have htest : required m "test" (asOneOf true typeTests TypeTest.name) = .ok test :=
    hm.required 1 rfl (asOneOf_test test)
  have hvariable : required m "variable" decodePath = .ok subject := hm.required 2 rfl h.decode
  simp only [decodeTest, asRecord, Except.ok_bind, hexpected, htest, hvariable]
  rfl

theorem decodeList_of_depth {α : Type} (encode : α → Json) {read : Json → Except ReadError α}
    {items : List α} {n : Nat} (h : ∀ a ∈ items, (encode a).depth < n → read (encode a) = .ok a)
    (hn : (Json.arr (items.map encode)).depth < n) :
    decodeList read (.arr (items.map encode)) = .ok items :=
  decodeList_map fun a ha =>
    h a ha (Nat.lt_trans (depth_lt_of_mem_items (List.mem_map_of_mem ha)) hn)

/-- A condition is read to any depth that is great enough for it. -/
theorem Condition.Storable.decodeAt {c : Condition} (h : c.Storable V) {n : Nat}
    (hn : c.encode.depth < n) : Condition.decodeAt n c.encode = .ok c := by
  induction n generalizing c with
  | zero => omega
  | succ n ih =>
    cases h with
    | @and children hc =>
      simp only [Condition.encode, depth_tagged, encodeConditions_eq_map] at hn ⊢
      show (do return Condition.and (← decodeList (Condition.decodeAt n) _)) = _
      rw [decodeList_of_depth Condition.encode (fun c hm => ih (hc c hm)) (by omega)]
      rfl
    | @or children hc =>
      simp only [Condition.encode, depth_tagged, encodeConditions_eq_map] at hn ⊢
      show (do return Condition.or (← decodeList (Condition.decodeAt n) _)) = _
      rw [decodeList_of_depth Condition.encode (fun c hm => ih (hc c hm)) (by omega)]
      rfl
    | @not child hc =>
      simp only [Condition.encode, depth_tagged] at hn ⊢
      show (do return Condition.not (← Condition.decodeAt n child.encode)) = _
      rw [ih hc (by omega)]
      rfl
    | compare hleft hright => exact decodeCompare_encode _ _ hleft hright
    | stringMatches hsubject => exact decodeStringMatches_encode _ hsubject
    | test hsubject => exact decodeTest_encode _ _ hsubject

theorem Condition.decode_encode {c : Condition} (h : c.Storable V) :
    Condition.decode c.encode = .ok c := h.decodeAt (Nat.lt_succ_self _)

theorem ChoiceRule.decode_encode {r : ChoiceRule} (h : r.condition.Storable V) :
    ChoiceRule.decode r.encode = .ok r := by
  unfold ChoiceRule.encode
  refine read_ofMembers (by simp) fun m hm => ?_
  have hcondition : required m "condition" Condition.decode = .ok r.condition :=
    hm.required 0 rfl (Condition.decode_encode h)
  have hnext : required m "next" asText = .ok r.next := hm.required 1 rfl rfl
  simp only [ChoiceRule.decode, asRecord, Except.ok_bind, hcondition, hnext]
  rfl

/-! ## States -/

theorem Timestamp.decode_render (t : Timestamp) : Timestamp.decode (.str t.render) = .ok t := by
  simp only [Timestamp.decode, asText, Except.ok_bind, Timestamp.parse_render]
  rfl

theorem asNat64_nat {n : Nat} (h : n < 18446744073709551616) : asNat64 (.nat n) = .ok n := by
  simp only [asNat64, asNat_nat h]

theorem asCount_nat {n : Nat} (h : n < 18446744073709551616) : asCount (.nat n) = .ok n := by
  simp only [asCount, asNat_nat h]

section Wait

variable (j : Json)

theorem WaitDuration.decode_seconds : decode (tagged "Seconds" j) = .seconds <$> asNat64 j := rfl

theorem WaitDuration.decode_timestamp :
    decode (tagged "Timestamp" j) = .timestamp <$> Timestamp.decode j := rfl

theorem WaitDuration.decode_secondsPath :
    decode (tagged "SecondsPath" j) = .secondsPath <$> decodeReferencePath j := rfl

theorem WaitDuration.decode_timestampPath :
    decode (tagged "TimestampPath" j) = .timestampPath <$> decodeReferencePath j := rfl

end Wait

theorem WaitDuration.decode_encode {w : WaitDuration} (h : w.Storable) :
    WaitDuration.decode w.encode = .ok w := by
  cases w with
  | seconds n =>
    rw [encode, decode_seconds, asNat64_nat h]
    rfl
  | timestamp t =>
    rw [encode, decode_timestamp, Timestamp.decode_render]
    rfl
  | secondsPath p =>
    rw [encode, decode_secondsPath, ReferencePath.Spelled.decode h]
    rfl
  | timestampPath p =>
    rw [encode, decode_timestampPath, ReferencePath.Spelled.decode h]
    rfl

theorem StateKind.decode_name (lenient : Bool) (kind : StateKind) :
    StateKind.decode lenient (.str kind.name) = .ok kind := by
  cases kind <;> rfl

section State

variable {W : Type} {r : Keyed Json}

theorem PassState.decode_encode {s : PassState} (h : (State.pass s : State W).Storable V)
    (hr : HasFields r [("comment", encodeText s.comment), ("name", .str s.name),
      ("handling", s.handling.encode), ("paths", s.paths.encode), ("result", encodeValue s.result),
      ("transition", s.transition.encode)]) : PassState.decode (.obj r) = .ok s := by
  obtain ⟨hp, hh, hv⟩ := h
  have hcomment : allowed r "comment" asText = .ok s.comment := hr.text 0 rfl
  have hname : required r "name" asText = .ok s.name := hr.required 1 rfl rfl
  have hhandling : required r "handling" ResultHandling.decode = .ok s.handling :=
    hr.required 2 rfl (ResultHandling.decode_encode hh)
  have hpaths : required r "paths" DataPaths.decode = .ok s.paths :=
    hr.required 3 rfl (DataPaths.decode_encode hp)
  have hresult : allowed r "result" decodeAny = .ok s.result := hr.value 4 rfl hv
  have htransition : required r "transition" Transition.decode = .ok s.transition :=
    hr.required 5 rfl (Transition.decode_encode _)
  simp only [PassState.decode, asRecord, Except.ok_bind, hcomment, hname, hhandling, hpaths, hresult,
    htransition]
  rfl

theorem TaskState.decode_encode {s : TaskState} (h : (State.task s : State W).Storable V)
    (hr : HasFields r [("comment", encodeText s.comment), ("name", .str s.name),
      ("handling", s.handling.encode), ("paths", s.paths.encode), ("recovery", s.recovery.encode),
      ("resource", s.resource.encode), ("timeout_seconds", .nat s.timeoutSeconds),
      ("transition", s.transition.encode)]) : TaskState.decode (.obj r) = .ok s := by
  obtain ⟨hp, hh, hv, ht⟩ := h
  have hcomment : allowed r "comment" asText = .ok s.comment := hr.text 0 rfl
  have hname : required r "name" asText = .ok s.name := hr.required 1 rfl rfl
  have hhandling : required r "handling" ResultHandling.decode = .ok s.handling :=
    hr.required 2 rfl (ResultHandling.decode_encode hh)
  have hpaths : required r "paths" DataPaths.decode = .ok s.paths :=
    hr.required 3 rfl (DataPaths.decode_encode hp)
  have hrecovery : required r "recovery" Recovery.decode = .ok s.recovery :=
    hr.required 4 rfl (Recovery.decode_encode hv)
  have hresource : required r "resource" TaskResource.decode = .ok s.resource :=
    hr.required 5 rfl (TaskResource.decode_encode _)
  have htimeout : required r "timeout_seconds" asNat64 = .ok s.timeoutSeconds :=
    hr.required 6 rfl (asNat64_nat ht)
  have htransition : required r "transition" Transition.decode = .ok s.transition :=
    hr.required 7 rfl (Transition.decode_encode _)
  simp only [TaskState.decode, asRecord, Except.ok_bind, hcomment, hname, hhandling, hpaths,
    hrecovery, hresource, htimeout, htransition]
  rfl

theorem ChoiceState.decode_encode {s : ChoiceState} (h : (State.choice s : State W).Storable V)
    (hr : HasFields r [("comment", encodeText s.comment), ("name", .str s.name),
      ("choices", .arr (s.choices.map ChoiceRule.encode)), ("default", encodeText s.default),
      ("paths", s.paths.encode)]) : ChoiceState.decode (.obj r) = .ok s := by
  obtain ⟨hp, hc⟩ := h
  have hcomment : allowed r "comment" asText = .ok s.comment := hr.text 0 rfl
  have hname : required r "name" asText = .ok s.name := hr.required 1 rfl rfl
  have hchoices : required r "choices" (decodeList ChoiceRule.decode) = .ok s.choices :=
    hr.required 2 rfl (decodeList_map fun c hm => ChoiceRule.decode_encode (hc c hm))
  have hdefault : allowed r "default" asText = .ok s.default := hr.text 3 rfl
  have hpaths : required r "paths" DataPaths.decode = .ok s.paths :=
    hr.required 4 rfl (DataPaths.decode_encode hp)
  simp only [ChoiceState.decode, asRecord, Except.ok_bind, hcomment, hname, hchoices, hdefault, hpaths]
  rfl

theorem WaitState.decode_encode {s : WaitState} (h : (State.wait s : State W).Storable V)
    (hr : HasFields r [("comment", encodeText s.comment), ("name", .str s.name),
      ("duration", s.duration.encode), ("paths", s.paths.encode),
      ("transition", s.transition.encode)]) : WaitState.decode (.obj r) = .ok s := by
  obtain ⟨hp, hd⟩ := h
  have hcomment : allowed r "comment" asText = .ok s.comment := hr.text 0 rfl
  have hname : required r "name" asText = .ok s.name := hr.required 1 rfl rfl
  have hduration : required r "duration" WaitDuration.decode = .ok s.duration :=
    hr.required 2 rfl (WaitDuration.decode_encode hd)
  have hpaths : required r "paths" DataPaths.decode = .ok s.paths :=
    hr.required 3 rfl (DataPaths.decode_encode hp)
  have htransition : required r "transition" Transition.decode = .ok s.transition :=
    hr.required 4 rfl (Transition.decode_encode _)
  simp only [WaitState.decode, asRecord, Except.ok_bind, hcomment, hname, hduration, hpaths,
    htransition]
  rfl

theorem SucceedState.decode_encode {s : SucceedState} (h : (State.succeed s : State W).Storable V)
    (hr : HasFields r [("comment", encodeText s.comment), ("name", .str s.name),
      ("paths", s.paths.encode)]) : SucceedState.decode (.obj r) = .ok s := by
  have hcomment : allowed r "comment" asText = .ok s.comment := hr.text 0 rfl
  have hname : required r "name" asText = .ok s.name := hr.required 1 rfl rfl
  have hpaths : required r "paths" DataPaths.decode = .ok s.paths :=
    hr.required 2 rfl (DataPaths.decode_encode h)
  simp only [SucceedState.decode, asRecord, Except.ok_bind, hcomment, hname, hpaths]
  rfl

theorem FailState.decode_encode {s : FailState}
    (hr : HasFields r [("comment", encodeText s.comment), ("name", .str s.name),
      ("cause", encodeText s.cause), ("error", encodeText s.error)]) :
    FailState.decode (.obj r) = .ok s := by
  have hcomment : allowed r "comment" asText = .ok s.comment := hr.text 0 rfl
  have hname : required r "name" asText = .ok s.name := hr.required 1 rfl rfl
  have hcause : allowed r "cause" asText = .ok s.cause := hr.text 2 rfl
  have herror : allowed r "error" asText = .ok s.error := hr.text 3 rfl
  simp only [FailState.decode, asRecord, Except.ok_bind, hcomment, hname, hcause, herror]
  rfl

variable {nested : Json → Except ReadError W} {encode : W → Json}

theorem ParallelState.decode_encode {s : ParallelState W} (h : (State.parallel s).Storable V)
    (hn : ∀ w ∈ s.branches, nested (encode w) = .ok w)
    (hr : HasFields r [("comment", encodeText s.comment), ("name", .str s.name),
      ("branches", .arr (s.branches.map encode)), ("handling", s.handling.encode),
      ("paths", s.paths.encode), ("recovery", s.recovery.encode),
      ("transition", s.transition.encode)]) : ParallelState.decode nested (.obj r) = .ok s := by
  obtain ⟨hp, hh, hv⟩ := h
  have hcomment : allowed r "comment" asText = .ok s.comment := hr.text 0 rfl
  have hname : required r "name" asText = .ok s.name := hr.required 1 rfl rfl
  have hbranches : required r "branches" (decodeList nested) = .ok s.branches :=
    hr.required 2 rfl (decodeList_map hn)
  have hhandling : required r "handling" ResultHandling.decode = .ok s.handling :=
    hr.required 3 rfl (ResultHandling.decode_encode hh)
  have hpaths : required r "paths" DataPaths.decode = .ok s.paths :=
    hr.required 4 rfl (DataPaths.decode_encode hp)
  have hrecovery : required r "recovery" Recovery.decode = .ok s.recovery :=
    hr.required 5 rfl (Recovery.decode_encode hv)
  have htransition : required r "transition" Transition.decode = .ok s.transition :=
    hr.required 6 rfl (Transition.decode_encode _)
  simp only [ParallelState.decode, asRecord, Except.ok_bind, hcomment, hname, hbranches, hhandling,
    hpaths, hrecovery, htransition]
  rfl

theorem MapState.decode_encode {s : MapState W} (h : (State.map s).Storable V)
    (hn : nested (encode s.iterator) = .ok s.iterator)
    (hr : HasFields r [("comment", encodeText s.comment), ("name", .str s.name),
      ("handling", s.handling.encode), ("items_path", .str s.itemsPath.source),
      ("iterator", encode s.iterator), ("max_concurrency", .nat s.maxConcurrency),
      ("paths", s.paths.encode), ("recovery", s.recovery.encode),
      ("transition", s.transition.encode)]) : MapState.decode nested (.obj r) = .ok s := by
  obtain ⟨hp, hh, hv, hi, hm⟩ := h
  have hcomment : allowed r "comment" asText = .ok s.comment := hr.text 0 rfl
  have hname : required r "name" asText = .ok s.name := hr.required 1 rfl rfl
  have hhandling : required r "handling" ResultHandling.decode = .ok s.handling :=
    hr.required 2 rfl (ResultHandling.decode_encode hh)
  have hitems : required r "items_path" decodeReferencePath = .ok s.itemsPath :=
    hr.required 3 rfl hi.decode
  have hiterator : required r "iterator" nested = .ok s.iterator := hr.required 4 rfl hn
  have hmax : required r "max_concurrency" asCount = .ok s.maxConcurrency :=
    hr.required 5 rfl (asCount_nat hm)
  have hpaths : required r "paths" DataPaths.decode = .ok s.paths :=
    hr.required 6 rfl (DataPaths.decode_encode hp)
  have hrecovery : required r "recovery" Recovery.decode = .ok s.recovery :=
    hr.required 7 rfl (Recovery.decode_encode hv)
  have htransition : required r "transition" Transition.decode = .ok s.transition :=
    hr.required 8 rfl (Transition.decode_encode _)
  simp only [MapState.decode, asRecord, Except.ok_bind, hcomment, hname, hhandling, hitems, hiterator,
    hmax, hpaths, hrecovery, htransition]
  rfl

theorem State.decode_encodeStateWith {fields : List (String × Json)} {kind : StateKind}
    {name : String} {comment : Option String} {lenient : Bool} {s : State W}
    (hk : ("Type" :: "comment" :: "name" :: fields.map Prod.fst).Nodup)
    (hs : ∀ r, HasFields r (("comment", encodeText comment) :: ("name", .str name) :: fields) →
      decodeStored nested (.obj r) kind = .ok s) :
    State.decode nested lenient (encodeStateWith kind name comment fields) = .ok s := by
  refine read_ofMembers hk fun m hm => ?_
  have hkind : required m "Type" (StateKind.decode lenient) = .ok kind :=
    hm.required 0 rfl (StateKind.decode_name lenient kind)
  simp only [State.decode, taggedState, hkind, Except.ok_bind, pure_bind]
  refine hs _ fun e he => ?_
  have hne : "Type" ≠ e.1 := fun heq => (List.nodup_cons.mp hk).1 (heq ▸ List.mem_map_of_mem he)
  rw [Keyed.find?_erase, if_neg hne]
  exact hm e (List.mem_cons_of_mem _ he)

end State

theorem encodeWorkflows_eq_map (ws : List Workflow) : encodeWorkflows ws = ws.map Workflow.encode := by
  induction ws with
  | nil => rfl
  | cons w ws ih => rw [encodeWorkflows, ih, List.map_cons]

/-- **A state is read as it was written**, if the workflows within it are. -/
theorem State.decode_encode {nested : Json → Except ReadError Workflow} {lenient : Bool}
    {s : State Workflow} (h : s.Storable V) (hn : ∀ w ∈ s.nested, nested w.encode = .ok w) :
    State.decode nested lenient (encodeState s) = .ok s := by
  cases s with
  | pass s =>
    rw [encodeState]
    exact decode_encodeStateWith (by simp) fun r hr =>
      congrArg (State.pass <$> ·) (PassState.decode_encode h hr)
  | task s =>
    rw [encodeState]
    exact decode_encodeStateWith (by simp) fun r hr =>
      congrArg (State.task <$> ·) (TaskState.decode_encode h hr)
  | choice s =>
    rw [encodeState]
    exact decode_encodeStateWith (by simp) fun r hr =>
      congrArg (State.choice <$> ·) (ChoiceState.decode_encode h hr)
  | wait s =>
    rw [encodeState]
    exact decode_encodeStateWith (by simp) fun r hr =>
      congrArg (State.wait <$> ·) (WaitState.decode_encode h hr)
  | succeed s =>
    rw [encodeState]
    exact decode_encodeStateWith (by simp) fun r hr =>
      congrArg (State.succeed <$> ·) (SucceedState.decode_encode h hr)
  | fail s =>
    rw [encodeState]
    exact decode_encodeStateWith (by simp) fun r hr =>
      congrArg (State.fail <$> ·) (FailState.decode_encode hr)
  | parallel s =>
    rw [encodeState, encodeParallel, encodeWorkflows_eq_map]
    exact decode_encodeStateWith (by simp) fun r hr =>
      congrArg (State.parallel <$> ·) (ParallelState.decode_encode h hn hr)
  | map s =>
    rw [encodeState, encodeMap]
    exact decode_encodeStateWith (by simp) fun r hr =>
      congrArg (State.map <$> ·) (MapState.decode_encode h (hn _ List.mem_cons_self) hr)

/-! ## Workflows -/

theorem encodeStates_eq_map (ss : List (State Workflow)) : encodeStates ss = ss.map encodeState := by
  induction ss with
  | nil => rfl
  | cons s ss ih => rw [encodeStates, ih, List.map_cons]

theorem encodeBranches_eq_map (bs : List (List (State Workflow))) :
    encodeBranches bs = bs.map fun b => .arr (b.map encodeState) := by
  induction bs with
  | nil => rfl
  | cons b bs ih => rw [encodeBranches, ih, List.map_cons, encodeStates_eq_map]

theorem Position.decode_encode {p : Position} (h : p.Storable) :
    Position.decode p.encode = .ok p := by
  obtain ⟨hb, ho⟩ := h
  unfold Position.encode
  refine read_ofMembers (by simp) fun m hm => ?_
  have hbranch : required m "branch" asCount = .ok p.branch := hm.required 0 rfl (asCount_nat hb)
  have hoffset : required m "offset" asCount = .ok p.offset := hm.required 1 rfl (asCount_nat ho)
  simp only [Position.decode, asRecord, Except.ok_bind, hbranch, hoffset]
  rfl

theorem decodeIndex_encode {index : Keyed Position} (hs : index.Sorted)
    (h : ∀ e ∈ index, e.2.Storable) :
    decodeIndex (ofMembers (index.map fun e => (e.1, e.2.encode))) = .ok index := by
  have hsorted : Keyed.Sorted (index.map fun e => (e.1, e.2.encode)) := List.pairwise_map.mpr hs
  unfold decodeIndex ofMembers
  rw [Keyed.ofList_of_sorted hsorted]
  refine Except.mapM_map_eq_ok fun e he => ?_
  simp only [Position.decode_encode (h e he), Except.ok_bind]
  rfl

theorem decodeWorkflowWith_encode {w : Workflow} (h : w.Storable V) {lenient : Bool}
    {nested : Json → Except ReadError Workflow}
    (hn : ∀ s ∈ w.states, ∀ v ∈ s.nested, nested v.encode = .ok v) :
    decodeWorkflowWith lenient nested w.encode = .ok w := by
  obtain ⟨header, branches, index⟩ := w
  obtain ⟨htimeout, hsorted, hindex, hstates, -⟩ := h
  rw [Workflow.encode, encodeBranches_eq_map]
  refine read_ofMembers (by simp) fun m hm => ?_
  have hbranches : required m "branches" (decodeList (decodeList (State.decode nested lenient))) =
      .ok branches := by
    refine hm.required 0 rfl (decodeList_map fun b hb => decodeList_map fun s hs => ?_)
    have hs : s ∈ branches.flatten := List.mem_flatten_of_mem hb hs
    exact State.decode_encode (hstates s hs) (hn s hs)
  have hcomment : allowed m "comment" asText = .ok header.comment := hm.text 1 rfl
  have hindex : required m "index" decodeIndex = .ok index :=
    hm.required 2 rfl (decodeIndex_encode hsorted hindex)
  have hstart : required m "start_at" asText = .ok header.startAt := hm.required 3 rfl rfl
  have htimeout : required m "timeout_seconds" asNat64 = .ok header.timeoutSeconds :=
    hm.required 4 rfl (asNat64_nat htimeout)
  have hversion : required m "version" asText = .ok header.version := hm.required 5 rfl rfl
  simp only [decodeWorkflowWith, asRecord, Except.ok_bind, hbranches, hcomment, hindex, hstart, htimeout,
    hversion]
  rfl

theorem depth_lt_of_mem_ofMembers {fields : List (String × Json)}
    (hk : (fields.map Prod.fst).Nodup) {e : String × Json} (he : e ∈ fields) :
    e.2.depth < (ofMembers fields).depth :=
  depth_lt_of_mem_members (Keyed.mem_of_find? (Keyed.find?_ofList hk he))

theorem depth_encode_lt_encodeState {s : State Workflow} {v : Workflow} (hv : v ∈ s.nested) :
    v.encode.depth < (encodeState s).depth := by
  cases s with
  | parallel s =>
    have hv : v ∈ s.branches := hv
    rw [encodeState, encodeParallel, encodeWorkflows_eq_map]
    exact Nat.lt_trans (depth_lt_of_mem_items (List.mem_map_of_mem hv))
      (depth_lt_of_mem_ofMembers (e := ("branches", _)) (by simp) (by simp))
  | map s =>
    rw [encodeState, encodeMap, List.mem_singleton.mp hv]
    exact depth_lt_of_mem_ofMembers (e := ("iterator", _)) (by simp) (by simp)
  | _ => exact absurd hv List.not_mem_nil

theorem depth_encode_lt {w v : Workflow} {s : State Workflow} (hs : s ∈ w.states)
    (hv : v ∈ s.nested) : v.encode.depth < w.encode.depth := by
  obtain ⟨header, branches, index⟩ := w
  obtain ⟨b, hb, hs⟩ := List.mem_flatten.mp hs
  rw [Workflow.encode, encodeBranches_eq_map]
  calc
    v.encode.depth < (encodeState s).depth := depth_encode_lt_encodeState hv
    _ < (Json.arr (b.map encodeState)).depth := depth_lt_of_mem_items (List.mem_map_of_mem hs)
    _ < (Json.arr (branches.map fun b => .arr (b.map encodeState))).depth :=
      depth_lt_of_mem_items (List.mem_map.mpr ⟨b, hb, rfl⟩)
    _ < _ := depth_lt_of_mem_ofMembers (e := ("branches", _)) (by simp) (by simp)

/-- A workflow is read to any depth that is great enough for it. -/
theorem Workflow.Storable.decodeAt {w : Workflow} (h : w.Storable V) {n : Nat} {isNested : Bool}
    (hn : w.encode.depth < n) : Workflow.decodeAt n isNested w.encode = .ok w := by
  induction h generalizing n isNested with
  | @intro w htimeout hsorted hindex hstates hnested ih =>
    cases n with
    | zero => omega
    | succ n =>
      refine decodeWorkflowWith_encode (.intro htimeout hsorted hindex hstates hnested)
        fun s hs v hv => ih s hs v hv ?_
      have := depth_encode_lt hs hv
      omega

theorem Workflow.Storable.decode_encode {w : Workflow} (h : w.Storable V) :
    Workflow.decode w.encode = .ok w := h.decodeAt (Nat.lt_succ_self _)

/-- **A compiled workflow is read as it was stored**, with everything that is nested in it. -/
theorem decode_encode_compile {document : Json} {w : Workflow}
    (h : Workflow.compile document = .ok w) (hd : document.Holdable) :
    Workflow.decode w.encode = .ok w :=
  (storable_compile Json.inherited_holdable hd h).decode_encode

/-- A document with conditions, a map and a wait within it, and fields that are `null`. -/
def branchingDocument : Json :=
  .obj [("StartAt", .str "A"), ("States", .obj [
    ("A", .obj [
      ("Choices", .arr [.obj [
        ("And", .arr [.obj [("IsPresent", .bool true), ("Variable", .str "$.x")],
          .obj [("Not", .obj [("StringEquals", .str "A"), ("Variable", .str "$$.State.Name")])]]),
        ("Next", .str "M")]]),
      ("Default", .str "P"), ("Type", .str "Choice")]),
    ("M", .obj [
      ("Catch", .arr [.obj [("ErrorEquals", .arr [.str "States.ALL"]), ("Next", .str "P"),
        ("ResultPath", .null)]]),
      ("InputPath", .null),
      ("Iterator", .obj [("StartAt", .str "W"), ("States", .obj [
        ("W", .obj [("End", .bool true), ("Timestamp", .str "2024-03-01T12:00:60Z"),
          ("Type", .str "Wait")])])]),
      ("Next", .str "P"), ("Type", .str "Map")]),
    ("P", .obj [("End", .bool true), ("Parameters", .obj [("a.$", .str "$")]),
      ("Result", .obj [("k", .null)]), ("ResultPath", .str "$.r"), ("Type", .str "Pass")])])]

theorem decode_encode_branching : branchingDocument.Holdable ∧
    ∃ w, Workflow.compile branchingDocument = .ok w ∧ Workflow.decode w.encode = .ok w := by
  have hd : branchingDocument.Holdable := by simp [branchingDocument]
  have hw : (Workflow.compile branchingDocument).toOption.isSome = true := by decide +kernel
  cases hc : Workflow.compile branchingDocument with
  | error e =>
    rw [hc] at hw
    cases hw
  | ok w => exact ⟨hd, w, rfl, decode_encode_compile hc hd⟩

end StepFlow
