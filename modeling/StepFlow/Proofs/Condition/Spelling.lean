import Mathlib.Data.List.Nodup
import StepFlow.Proofs.Condition.Rule
import StepFlow.Proofs.Json.Depth
import StepFlow.Proofs.Keyed

/-!
# Every condition has a rule

The rule of a condition is put together from its parts: an operator with its argument, the variable of a
test, and what is remarked beside them. Reading it gives the condition back, whatever the remarks are.

* `Remarks`, `ruleObject`: a rule with its remarks;
* `Condition.rule`: the rule of a condition, with remarks at every place within it;
* `Condition.Spellable`: the conditions that rules are for;
* `Operator.find?_name`: the name of an operator tells what it compares, and how;
* `ruleOperator_ruleObject`, `hasSubject_ruleObject`: what is found in a rule;
* `Spells.spellable`, `Spellable.ofRuleAt_rule`: the two directions of
* **`Condition.ofRule_rule`**.
-/

namespace StepFlow

/-! ## Rules of conditions -/

/-- What may stand in a rule beside its condition. -/
structure Remarks where
  next : Option Json
  comment : Option Json

/-- The remarks as members of a rule. -/
def Remarks.members (r : Remarks) : List (String × Json) :=
  (r.next.map ("Next", ·)).toList ++ (r.comment.map ("Comment", ·)).toList

/-- The object with an operator and its argument, further fields, and remarks. -/
def ruleObject (operator : String) (argument : Json) (fields : List (String × Json))
    (remarks : Remarks) : Keyed Json :=
  Keyed.ofList ((operator, argument) :: fields ++ remarks.members)

/-- The variable of a test as a field of its rule. -/
def subjectField (subject : Path) : List (String × Json) := [("Variable", .str subject.source)]

/-- The comparison with a right side. -/
def Reference.operator (kind : ValueKind) (relation : Relation) : Reference → Operator
  | .literal _ => ⟨kind, relation, false⟩
  | .path _ => ⟨kind, relation, true⟩

/-- The right side as the argument of an operator. -/
def Reference.argument : Reference → Json
  | .literal value => value
  | .path p => .str p.source

mutual

/-- The rule of a condition. The remarks are given by place: the rule itself has the place `[]`, and within
it the places of each inner rule start with its position. -/
def Condition.rule (remarks : List Nat → Remarks) : Condition → Keyed Json
  | .and children => ruleObject "And" (.arr (innerRules remarks 0 children)) [] (remarks [])
  | .or children => ruleObject "Or" (.arr (innerRules remarks 0 children)) [] (remarks [])
  | .not child =>
    ruleObject "Not" (.obj (child.rule fun place => remarks (0 :: place))) [] (remarks [])
  | .compare kind relation left right =>
    ruleObject (right.operator kind relation).name right.argument (subjectField left) (remarks [])
  | .stringMatches subject pattern =>
    ruleObject "StringMatches" (.str pattern) (subjectField subject) (remarks [])
  | .test test subject expected =>
    ruleObject test.name (.bool expected) (subjectField subject) (remarks [])

/-- The rules of a list of conditions, of which the first one has position `i`. -/
def innerRules (remarks : List Nat → Remarks) (i : Nat) : List Condition → List Json
  | [] => []
  | child :: rest =>
    .obj (child.rule fun place => remarks (i :: place)) :: innerRules remarks (i + 1) rest

end

/-! ## Conditions that rules are for -/

/-- The value is of the kind. -/
inductive ValueKind.Contains : ValueKind → Json → Prop where
  | string (text : String) : Contains .string (.str text)
  | numeric (n : Number) : Contains .numeric (.num n)
  | boolean (b : Bool) : Contains .boolean (.bool b)
  | timestamp {text : String} {t : Timestamp} : Timestamp.parse? text = some t →
      Contains .timestamp (.str text)

/-- The right side is a value of the kind, or a path that its text spells. -/
def Reference.Fits (kind : ValueKind) : Reference → Prop
  | .literal value => kind.Contains value
  | .path p => p.Spelled

/-- Lists of conditions are not empty, truth values are only ever compared as equal, literals are of the
kind of their comparison, paths are those that their texts spell, and patterns are patterns. -/
inductive Condition.Spellable : Condition → Prop where
  | and {children : List Condition} : children ≠ [] → (∀ c ∈ children, Spellable c) →
      Spellable (.and children)
  | or {children : List Condition} : children ≠ [] → (∀ c ∈ children, Spellable c) →
      Spellable (.or children)
  | not {child : Condition} : Spellable child → Spellable (.not child)
  | compare {kind : ValueKind} {relation : Relation} {left : Path} {right : Reference} :
      (kind = .boolean → relation = .equals) → left.Spelled → right.Fits kind →
      Spellable (.compare kind relation left right)
  | stringMatches {subject : Path} {pattern : String} {tokens : List PatternToken} : subject.Spelled →
      PatternToken.ofText pattern = .ok tokens → Spellable (.stringMatches subject pattern)
  | test {test : TypeTest} {subject : Path} {expected : Bool} : subject.Spelled →
      Spellable (.test test subject expected)

theorem ValueKind.contains_iff {kind : ValueKind} {value : Json} :
    kind.Contains value ↔ kind.admits value = true := by
  constructor
  · rintro (_ | _ | _ | ht)
    · rfl
    · rfl
    · rfl
    · rw [admits, Json.timestamp?, Json.str?, Option.bind_some, ht]
      rfl
  · intro h
    cases kind with
    | string =>
      obtain ⟨text, ht⟩ := Option.isSome_iff_exists.mp h
      rw [Json.eq_str_of_str? ht]
      exact .string text
    | numeric =>
      cases value with
      | num n => exact .numeric n
      | _ => cases h
    | boolean =>
      obtain ⟨b, hb⟩ := Option.isSome_iff_exists.mp h
      rw [Json.eq_bool_of_bool? hb]
      exact .boolean b
    | timestamp =>
      obtain ⟨t, ht⟩ := Option.isSome_iff_exists.mp h
      obtain ⟨text, htext, ht⟩ := Option.bind_eq_some_iff.mp ht
      rw [Json.eq_str_of_str? htext]
      exact .timestamp ht

/-! ## Names of operators -/

theorem mem_operators (o : Operator) :
    o ∈ operators ↔ (o.kind = .boolean → o.relation = .equals) := by
  obtain ⟨kind, relation, byPath⟩ := o
  cases kind <;> cases relation <;> cases byPath <;> decide

/-- **The name of an operator tells what it compares, and how.** -/
theorem Operator.find?_name {o : Operator} (h : o ∈ operators) :
    operators.find? (fun p => p.name = o.name) = some o := by
  revert o
  decide +kernel

theorem Operator.name_distinct {o : Operator} (h : o ∈ operators) :
    (typeTests.find? fun t => t.name = o.name) = none ∧
      o.name ∉ ["And", "Or", "Not", "StringMatches"] ∧ o.name ∉ ruleFields := by
  revert o
  decide +kernel

theorem TypeTest.name_distinct (t : TypeTest) :
    (typeTests.find? fun s => s.name = t.name) = some t ∧
      t.name ∉ ["And", "Or", "Not", "StringMatches"] ∧ t.name ∉ ruleFields := by
  cases t <;> decide +kernel

/-! ## What is found in a rule -/

section Found

variable {operator : String} {argument : Json} {fields : List (String × Json)} {remarks : Remarks}

theorem Remarks.mem_keys {k : String} (h : k ∈ remarks.members.map Prod.fst) :
    k = "Next" ∨ k = "Comment" := by
  obtain ⟨next, comment⟩ := remarks
  cases next <;> cases comment <;> simp_all [members]

theorem ruleOperator_ruleObject (ho : operator ∉ ruleFields) (hf : ∀ e ∈ fields, e.1 ∈ ruleFields) :
    ruleOperator (ruleObject operator argument fields remarks) = .ok (operator, argument) := by
  have hbeside : ∀ e ∈ fields ++ remarks.members, e.1 ∈ ruleFields := fun e he => by
    rcases List.mem_append.mp he with he | he
    · exact hf e he
    · rcases Remarks.mem_keys (List.mem_map_of_mem he) with h | h <;> rw [h] <;> decide
  have hmem : (operator, argument) ∈ ruleObject operator argument fields remarks := by
    refine Keyed.mem_of_find? (Keyed.find?_ofList_append [] (fun h => ?_) argument)
    obtain ⟨e, he, rfl⟩ := List.mem_map.mp h
    exact ho (hbeside e he)
  have hnodup : (ruleObject operator argument fields remarks).Nodup :=
    List.Nodup.of_map Prod.fst (Keyed.nodup_keys (Keyed.sorted_ofList _))
  have hfilter : (ruleObject operator argument fields remarks).filter
      (fun e => !ruleFields.contains e.1) = [(operator, argument)] := by
    rw [← List.perm_singleton, List.perm_ext_iff_of_nodup (hnodup.filter _) (List.nodup_singleton _)]
    intro e
    simp only [List.mem_filter, List.mem_singleton, Bool.not_eq_true', List.contains_eq_mem,
      decide_eq_false_iff_not]
    constructor
    · rintro ⟨he, hno⟩
      rcases List.mem_cons.mp (Keyed.mem_of_mem_ofList he) with rfl | he
      · rfl
      · exact absurd (hbeside e he) hno
    · rintro rfl
      exact ⟨hmem, ho⟩
  rw [ruleOperator, hfilter]

theorem ruleOperator_combination (argument : Json) (remarks : Remarks) (ho : operator ∉ ruleFields) :
    ruleOperator (ruleObject operator argument [] remarks) = .ok (operator, argument) :=
  ruleOperator_ruleObject ho (List.forall_mem_nil _)

theorem ruleOperator_subject {subject : Path} (ho : operator ∉ ruleFields) :
    ruleOperator (ruleObject operator argument (subjectField subject) remarks) =
      .ok (operator, argument) :=
  ruleOperator_ruleObject ho fun e he => by
    rw [List.mem_singleton.mp he]
    exact List.mem_cons_self

theorem hasSubject_ruleObject {subject : Path} (h : subject.Spelled) :
    HasSubject (ruleObject operator argument (subjectField subject) remarks) subject := by
  refine ⟨subject.source, Keyed.find?_ofList_append [(operator, argument)] (fun hv => ?_) _, h⟩
  rcases Remarks.mem_keys hv with h | h <;> exact absurd h (by decide)

end Found

/-! ## Reading a rule -/

section Reading

variable {rule : Keyed Json} {operator : String} {argument : Json} {subject : Path}
  {nested : Keyed Json → Except RuleFault Condition}

theorem rulePath_eq {text : String} {p : Path} (h : Path.parse text = .ok p) :
    rulePath text = .ok p := by
  rw [rulePath, h]

theorem ruleSubject_eq (h : HasSubject rule subject) : ruleSubject rule operator = .ok subject := by
  obtain ⟨text, hv, hp⟩ := h
  rw [ruleSubject, hv]
  exact rulePath_eq hp

theorem dataTest_test (hs : HasSubject rule subject) (t : TypeTest) (expected : Bool) :
    dataTest rule t.name (.bool expected) = .ok (.test t subject expected) := by
  rw [dataTest, ruleSubject_eq hs, Except.ok_bind, t.name_distinct.1]
  rfl

theorem dataTest_stringMatches {pattern : String} {tokens : List PatternToken}
    (hs : HasSubject rule subject) (ht : PatternToken.ofText pattern = .ok tokens) :
    dataTest rule "StringMatches" (.str pattern) = .ok (.stringMatches subject pattern) := by
  have hnone : (typeTests.find? fun t => t.name = "StringMatches") = none := by decide +kernel
  rw [dataTest, ruleSubject_eq hs, Except.ok_bind, hnone]
  simp only [if_pos, Json.str?, ht]
  rfl

theorem Reference.Fits.reference_argument {kind : ValueKind} {right : Reference} (h : right.Fits kind)
    (relation : Relation) : (right.operator kind relation).reference right.argument = .ok right := by
  cases right with
  | literal value => exact if_pos (ValueKind.contains_iff.mp h)
  | path p =>
    show Except.map Reference.path (rulePath p.source) = _
    rw [rulePath_eq h]
    rfl

theorem Reference.operator_mem {kind : ValueKind} {relation : Relation} (right : Reference)
    (h : kind = .boolean → relation = .equals) : right.operator kind relation ∈ operators := by
  rw [mem_operators]
  cases right <;> exact h

theorem dataTest_compare {kind : ValueKind} {relation : Relation} {right : Reference}
    (hs : HasSubject rule subject) (hkind : kind = .boolean → relation = .equals)
    (hr : right.Fits kind) : dataTest rule (right.operator kind relation).name right.argument =
      .ok (.compare kind relation subject right) := by
  have ho := right.operator_mem hkind
  obtain ⟨hnone, hdistinct, -⟩ := Operator.name_distinct ho
  have hpattern : (right.operator kind relation).name ≠ "StringMatches" := fun h =>
    hdistinct (by rw [h]; decide)
  rw [dataTest, ruleSubject_eq hs, Except.ok_bind, hnone]
  simp only [if_neg hpattern, Operator.find?_name ho, hr.reference_argument relation]
  cases right <;> rfl

theorem ruleWith_eq_dataTest (ho : ruleOperator rule = .ok (operator, argument))
    (h : operator ∉ ["And", "Or", "Not", "StringMatches"] ∨ operator = "StringMatches") :
    ruleWith nested rule = dataTest rule operator argument := by
  have hne : operator ≠ "And" ∧ operator ≠ "Or" ∧ operator ≠ "Not" := by
    rcases h with h | rfl
    · simp only [List.mem_cons, not_or] at h
      exact ⟨h.1, h.2.1, h.2.2.1⟩
    · decide
  rw [ruleWith, ho, Except.ok_bind]
  simp [hne]

theorem ruleWith_list {rules : List Json} {conditions : List Condition}
    (hop : operator = "And" ∨ operator = "Or")
    (ho : ruleOperator rule = .ok (operator, .arr rules)) (hne : rules ≠ [])
    (h : (rules.mapM fun
      | .obj members => nested members
      | _ => throw (RuleFault.notObjects operator)) = .ok conditions) :
    ruleWith nested rule = .ok (if operator = "And" then .and conditions else .or conditions) := by
  have hlist : (operator = "And" || operator = "Or") = true := by simpa using hop
  obtain ⟨first, rest, rfl⟩ := List.exists_cons_of_ne_nil hne
  rw [ruleWith, ho, Except.ok_bind]
  simp only [if_pos hlist]
  exact Except.bind_eq_ok_iff.mpr ⟨conditions, h, rfl⟩

theorem ruleWith_not {inner : Keyed Json} {c : Condition}
    (ho : ruleOperator rule = .ok ("Not", .obj inner)) (h : nested inner = .ok c) :
    ruleWith nested rule = .ok (.not c) := by
  have hlist : ("Not" = "And" || "Not" = "Or") = false := by decide
  rw [ruleWith, ho, Except.ok_bind]
  simp only [hlist, if_pos]
  rw [h]
  rfl

end Reading

/-! ## All conditions -/

theorem mapM_innerRules {nested : Keyed Json → Except RuleFault Condition} {fault : RuleFault}
    {children : List Condition} {remarks : List Nat → Remarks} {i depth : Nat}
    (hdepth : ∀ j ∈ innerRules remarks i children, j.depth ≤ depth)
    (h : ∀ c ∈ children, ∀ remarks, (Json.obj (c.rule remarks)).depth ≤ depth →
      nested (c.rule remarks) = .ok c) :
    ((innerRules remarks i children).mapM fun
      | .obj members => nested members
      | _ => throw fault) = .ok children := by
  induction children generalizing i with
  | nil => rfl
  | cons child rest ih =>
    rw [innerRules] at hdepth ⊢
    obtain ⟨hchild, hrest⟩ := List.forall_mem_cons.mp hdepth
    refine Except.mapM_cons_eq_ok_iff.mpr ⟨child, rest, ?_, ?_, rfl⟩
    · exact h child List.mem_cons_self _ hchild
    · exact ih hrest fun c hc => h c (List.mem_cons_of_mem child hc)

theorem innerRules_ne_nil {children : List Condition} {remarks : List Nat → Remarks} {i : Nat}
    (h : children ≠ []) : innerRules remarks i children ≠ [] := by
  obtain ⟨child, rest, rfl⟩ := List.exists_cons_of_ne_nil h
  rw [innerRules]
  exact List.cons_ne_nil _ _

section Depth

variable {rule : Keyed Json} {operator : String} {argument : Json} {depth : Nat}

theorem Condition.ofRuleAt_eq (h : (Json.obj rule).depth ≤ depth) :
    ofRuleAt depth rule = ruleWith (ofRuleAt (depth - 1)) rule := by
  cases depth with
  | zero =>
    rw [Json.depth] at h
    omega
  | succ depth => rfl

theorem depth_argument (ho : ruleOperator rule = .ok (operator, argument))
    (h : (Json.obj rule).depth ≤ depth) : argument.depth ≤ depth - 1 :=
  Nat.le_sub_one_of_lt (Nat.lt_of_lt_of_le (Json.depth_lt_of_mem_members (mem_of_ruleOperator ho)) h)

theorem depth_of_mem_argument {rules : List Json} (ho : ruleOperator rule = .ok (operator, .arr rules))
    (h : (Json.obj rule).depth ≤ depth) {j : Json} (hj : j ∈ rules) : j.depth ≤ depth - 1 :=
  Nat.le_trans (Nat.le_of_lt (Json.depth_lt_of_mem_items hj)) (depth_argument ho h)

end Depth

theorem ruleWith_innerRules {operator : String} {children : List Condition}
    {places : List Nat → Remarks} {remarks : Remarks} {depth : Nat}
    (hop : operator = "And" ∨ operator = "Or") (hne : children ≠ [])
    (hdepth : (Json.obj (ruleObject operator (.arr (innerRules places 0 children)) [] remarks)).depth ≤ depth)
    (h : ∀ c ∈ children, ∀ places, (Json.obj (c.rule places)).depth ≤ depth - 1 →
      Condition.ofRuleAt (depth - 1) (c.rule places) = .ok c) :
    ruleWith (Condition.ofRuleAt (depth - 1))
        (ruleObject operator (.arr (innerRules places 0 children)) [] remarks) =
      .ok (if operator = "And" then .and children else .or children) := by
  have hno : operator ∉ ruleFields := by rcases hop with rfl | rfl <;> decide
  have ho := ruleOperator_combination (.arr (innerRules places 0 children)) remarks hno
  exact ruleWith_list hop ho (innerRules_ne_nil hne)
    (mapM_innerRules (fun j hj => depth_of_mem_argument ho hdepth hj) h)

/-- **The rule of a condition is read as this condition**, where rules are read as deep as it is. -/
theorem Condition.Spellable.ofRuleAt_rule {c : Condition} (hc : c.Spellable)
    (remarks : List Nat → Remarks) {depth : Nat} (hdepth : (Json.obj (c.rule remarks)).depth ≤ depth) :
    Condition.ofRuleAt depth (c.rule remarks) = .ok c := by
  rw [Condition.ofRuleAt_eq hdepth]
  induction hc generalizing remarks depth with
  | and hne _ ih =>
    rw [Condition.rule] at hdepth ⊢
    exact ruleWith_innerRules (.inl rfl) hne hdepth fun c hc remarks h => by
      rw [Condition.ofRuleAt_eq h]
      exact ih c hc remarks h
  | or hne _ ih =>
    rw [Condition.rule] at hdepth ⊢
    exact ruleWith_innerRules (.inr rfl) hne hdepth fun c hc remarks h => by
      rw [Condition.ofRuleAt_eq h]
      exact ih c hc remarks h
  | @not child _ ih =>
    rw [Condition.rule] at hdepth ⊢
    have ho := ruleOperator_combination (.obj (child.rule fun place => remarks (0 :: place)))
      (remarks []) (show "Not" ∉ ruleFields by decide)
    have hinner := depth_argument ho hdepth
    refine ruleWith_not ho ?_
    rw [Condition.ofRuleAt_eq hinner]
    exact ih _ hinner
  | @compare _ _ _ right hkind hleft hright =>
    obtain ⟨-, hdistinct, hno⟩ := Operator.name_distinct (right.operator_mem hkind)
    rw [Condition.rule, ruleWith_eq_dataTest (ruleOperator_subject hno) (.inl hdistinct)]
    exact dataTest_compare (hasSubject_ruleObject hleft) hkind hright
  | stringMatches hs ht =>
    rw [Condition.rule, ruleWith_eq_dataTest (ruleOperator_subject (by decide)) (.inr rfl)]
    exact dataTest_stringMatches (hasSubject_ruleObject hs) ht
  | @test test _ _ hs =>
    obtain ⟨-, hdistinct, hno⟩ := test.name_distinct
    rw [Condition.rule, ruleWith_eq_dataTest (ruleOperator_subject hno) (.inl hdistinct)]
    exact dataTest_test (hasSubject_ruleObject hs) test _

theorem Spells.spellable {rule : Keyed Json} {c : Condition} (h : Spells rule c) : c.Spellable := by
  induction h with
  | and _ hne _ ih => exact .and (by simpa using hne) (List.forall_mem_map.mpr ih)
  | or _ hne _ ih => exact .or (by simpa using hne) (List.forall_mem_map.mpr ih)
  | not _ _ ih => exact .not ih
  | test _ hs => exact .test hs.spelled
  | stringMatches _ hs ht => exact .stringMatches hs.spelled ht
  | literal ho _ _ hs hadmits =>
    exact .compare ((mem_operators _).mp ho) hs.spelled (ValueKind.contains_iff.mpr hadmits)
  | path ho _ _ hs hp => exact .compare ((mem_operators _).mp ho) hs.spelled (Path.spelled_of_parse hp)

/-- **Reading inverts the notation of rules.** Whatever is remarked beside a condition and beside the
conditions within it, its rule is read as exactly this condition, if there is a rule for it at all: lists
are not empty, truth values are compared as equal only, literals are of the kind of their comparison, paths
are those that their texts spell, and patterns are patterns. -/
theorem Condition.ofRule_rule (c : Condition) (remarks : List Nat → Remarks) :
    Condition.ofRule (c.rule remarks) = .ok c ↔ c.Spellable :=
  ⟨fun h => (spells_of_ofRule h).spellable, fun h => h.ofRuleAt_rule remarks (Nat.le_refl _)⟩

/-- A rule within a list, with a comment on it and a state to go to behind the list. -/
example : (Condition.or [.test .isNull .root true]).rule
      (fun place => if place = [] then ⟨some (.str "Review"), none⟩ else ⟨none, some (.str "empty")⟩) =
    [("Next", .str "Review"), ("Or", .arr [.obj
      [("Comment", .str "empty"), ("IsNull", .bool true), ("Variable", .str "$")]])] := rfl

end StepFlow
