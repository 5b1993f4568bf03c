import StepFlow.Proofs.Condition.Rule
import StepFlow.Proofs.Path.Basic

/-!
# How conditions fail

Patterns and literals are checked when a rule is read, so an evaluation never fails because of them. What is
left are the values that it reads at the paths of the rule: there may be not one of them, or it may be of a
kind that the rule does not work on.

* `Combines`, `Reads`: the rules within a rule, and the paths at which a rule reads values;
* `FailsWith`: how a rule can fail, and at which of its paths;
* `ValueKind.compare_eq_error`, `evaluateAnd_eq_error`, `evaluateOr_eq_error`: the parts of an evaluation;
* `Spells.failsWith`: an evaluation fails in these ways only;
* **`Condition.fails_at_paths`**.
-/

namespace StepFlow

/-! ## Ways to fail -/

/-- The rule combines the other one with `And`, `Or` or `Not`. -/
inductive Combines : Keyed Json → Keyed Json → Prop where
  | list {rule inner : Keyed Json} {operator : String} {rules : List Json} :
      operator = "And" ∨ operator = "Or" → ruleOperator rule = .ok (operator, .arr rules) →
      .obj inner ∈ rules → Combines rule inner
  | not {rule inner : Keyed Json} : ruleOperator rule = .ok ("Not", .obj inner) → Combines rule inner

/-- The rule reads a value at the path that a text spells, at its variable or at the path that it compares
with; the value has to be of a kind, if one is given. -/
inductive Reads : Keyed Json → Option ValueKind → String → Prop where
  | probe {rule : Keyed Json} {test : TypeTest} {expected : Bool} {text : String} :
      ruleOperator rule = .ok (test.name, .bool expected) →
      Keyed.find? "Variable" rule = some (.str text) → Reads rule none text
  | pattern {rule : Keyed Json} {pattern text : String} :
      ruleOperator rule = .ok ("StringMatches", .str pattern) →
      Keyed.find? "Variable" rule = some (.str text) → Reads rule (some .string) text
  | left {rule : Keyed Json} {o : Operator} {argument : Json} {text : String} : o ∈ operators →
      ruleOperator rule = .ok (o.name, argument) →
      Keyed.find? "Variable" rule = some (.str text) → Reads rule (some o.kind) text
  | right {rule : Keyed Json} {o : Operator} {text : String} : o ∈ operators → o.byPath = true →
      ruleOperator rule = .ok (o.name, .str text) → Reads rule (some o.kind) text

/-- The rule, or one that it combines, fails with an error: the value that it reads at a path is not of the
kind that it has to be of, there is not one value there, or a slice of the path runs out of range. -/
inductive FailsWith (context input : Json) : Keyed Json → ConditionError → Prop where
  | mismatch {rule : Keyed Json} {kind : ValueKind} {text : String} {p : Path} {value : Json} :
      Reads rule (some kind) text → Path.parse text = .ok p → p.read context input = .ok value →
      kind.admits value = false → FailsWith context input rule (.mismatch text kind)
  | notOne {rule : Keyed Json} {kind : Option ValueKind} {text : String} {p : Path} {values : List Json} :
      Reads rule kind text → Path.parse text = .ok p →
      p.query.read (p.target context input) = .ok values → values.length ≠ 1 →
      FailsWith context input rule (.path (.resultLength text values.length))
  | overrun {rule : Keyed Json} {kind : Option ValueKind} {text : String} {p : Path} :
      Reads rule kind text → Path.parse text = .ok p →
      p.query.overruns (p.target context input) = true →
      FailsWith context input rule (.path (.overrun p.query.source))
  | inner {rule inner : Keyed Json} {e : ConditionError} : Combines rule inner →
      FailsWith context input inner e → FailsWith context input rule e

variable {context input : Json} {rule : Keyed Json} {kind : Option ValueKind} {text : String} {p : Path}
  {c : Condition} {e : ConditionError}

theorem FailsWith.ne_badPattern (h : FailsWith context input rule e) (pattern : String)
    (fault : PatternFault) : e ≠ .badPattern pattern fault := by
  induction h with
  | inner _ _ ih => exact ih
  | _ => exact nofun

/-! ## The parts of an evaluation -/

theorem read_of_readSubject {value : Json} (h : readSubject context input p = .ok value) :
    p.read context input = .ok value := by
  unfold readSubject at h
  split at h
  · next hr =>
    cases h
    exact hr
  · cases h

theorem failsWith_of_readSubject (hr : Reads rule kind text) (hp : Path.parse text = .ok p)
    (h : readSubject context input p = .error e) : FailsWith context input rule e := by
  unfold readSubject at h
  have hsource := Path.source_of_parse hp
  rcases p.read_cases context input with ⟨value, -, hread⟩ | ⟨values, hvalues, hne, hread⟩ |
    ⟨hover, hread⟩
  · rw [hread] at h
    cases h
  · rw [hread, hsource] at h
    cases h
    exact .notOne hr hp hvalues hne
  · rw [hread] at h
    cases h
    exact .overrun hr hp hover

theorem readSubject_of_testSubject {test : TypeTest} (h : testSubject context input test p = .error e) :
    readSubject context input p = .error e := by
  unfold testSubject at h
  split at h
  · cases h
  · next hr =>
    cases h
    exact hr
  · cases h
  · next hr =>
    cases h
    exact hr

theorem compareBy_eq_error {α : Type} {kind : ValueKind} {read : Json → Option α}
    {order : α → α → Ordering} {l r : String} {a b : Json}
    (h : compareBy kind read order l r a b = .error e) :
    (read a).isSome = false ∧ e = .mismatch l kind ∨ (read b).isSome = false ∧ e = .mismatch r kind := by
  unfold compareBy at h
  split at h
  · cases h
  · next ha =>
    cases h
    exact .inl ⟨by rw [ha]; rfl, rfl⟩
  · next hb =>
    cases h
    exact .inr ⟨by rw [hb]; rfl, rfl⟩

theorem ValueKind.compare_eq_error {kind : ValueKind} {l r : String} {a b : Json}
    (h : kind.compare l r a b = .error e) :
    kind.admits a = false ∧ e = .mismatch l kind ∨ kind.admits b = false ∧ e = .mismatch r kind := by
  cases kind <;> exact compareBy_eq_error h

namespace Condition

theorem evaluateAnd_eq_error {children : List Condition}
    (h : evaluateAnd context input children = .error e) :
    ∃ c ∈ children, c.evaluate context input = .error e := by
  induction children with
  | nil => cases h
  | cons child children ih =>
    rw [evaluateAnd] at h
    rcases Except.bind_eq_error_iff.mp h with hc | ⟨holds, -, h⟩
    · exact ⟨child, List.mem_cons_self, hc⟩
    · split at h
      · obtain ⟨c, hmem, hc⟩ := ih h
        exact ⟨c, List.mem_cons_of_mem child hmem, hc⟩
      · cases h

theorem evaluateOr_eq_error {children : List Condition}
    (h : evaluateOr context input children = .error e) :
    ∃ c ∈ children, c.evaluate context input = .error e := by
  induction children with
  | nil => cases h
  | cons child children ih =>
    rw [evaluateOr] at h
    rcases Except.bind_eq_error_iff.mp h with hc | ⟨first, -, h⟩
    · exact ⟨child, List.mem_cons_self, hc⟩
    · rcases Except.bind_eq_error_iff.mp h with hrest | ⟨rest, -, h⟩
      · obtain ⟨c, hmem, hc⟩ := ih hrest
        exact ⟨c, List.mem_cons_of_mem child hmem, hc⟩
      · cases h

end Condition

/-! ## Rules with a variable -/

variable {subject : Path}

theorem failsWith_of_test {test : TypeTest} {expected : Bool} (hr : Reads rule kind text)
    (hp : Path.parse text = .ok subject)
    (he : (Condition.test test subject expected).evaluate context input = .error e) :
    FailsWith context input rule e := by
  rw [Condition.evaluate] at he
  rcases Except.bind_eq_error_iff.mp he with ht | ⟨actual, -, he⟩
  · exact failsWith_of_readSubject hr hp (readSubject_of_testSubject ht)
  · cases he

theorem failsWith_of_stringMatches {pattern : String} {tokens : List PatternToken}
    (hr : Reads rule (some .string) text) (hp : Path.parse text = .ok subject)
    (htokens : PatternToken.ofText pattern = .ok tokens)
    (he : (Condition.stringMatches subject pattern).evaluate context input = .error e) :
    FailsWith context input rule e := by
  rw [Condition.evaluate] at he
  rcases Except.bind_eq_error_iff.mp he with hread | ⟨value, hread, he⟩
  · exact failsWith_of_readSubject hr hp hread
  · rw [matchesPattern, htokens, Path.source_of_parse hp] at he
    split at he
    · next hnone =>
      cases he
      exact .mismatch hr hp (read_of_readSubject hread) (by rw [ValueKind.admits, hnone]; rfl)
    · cases he

theorem failsWith_of_compare {kind : ValueKind} {relation : Relation} {right : Reference}
    (hr : Reads rule (some kind) text) (hp : Path.parse text = .ok subject)
    (hunread : ∀ e, right.value context input = .error e → FailsWith context input rule e)
    (hmismatch : ∀ b, right.value context input = .ok b → kind.admits b = false →
      FailsWith context input rule (.mismatch right.label kind))
    (he : (Condition.compare kind relation subject right).evaluate context input = .error e) :
    FailsWith context input rule e := by
  rw [Condition.evaluate] at he
  rcases Except.bind_eq_error_iff.mp he with hread | ⟨a, hread, he⟩
  · exact failsWith_of_readSubject hr hp hread
  · rcases Except.bind_eq_error_iff.mp he with hright | ⟨b, hright, he⟩
    · exact hunread e hright
    · rcases Except.bind_eq_error_iff.mp he with hcompare | ⟨order, -, he⟩
      · rw [Path.source_of_parse hp] at hcompare
        rcases ValueKind.compare_eq_error hcompare with ⟨ha, rfl⟩ | ⟨hb, rfl⟩
        · exact .mismatch hr hp (read_of_readSubject hread) ha
        · exact hmismatch b hright hb
      · cases he

/-! ## All rules -/

/-- **A condition fails in the ways of a rule that spells it only.** -/
theorem Spells.failsWith (h : Spells rule c) (he : c.evaluate context input = .error e) :
    FailsWith context input rule e := by
  have hlist : ∀ {rule : Keyed Json} {parts : List (Keyed Json × Condition)} {operator : String},
      operator = "And" ∨ operator = "Or" →
        ruleOperator rule = .ok (operator, .arr (parts.map fun part => .obj part.1)) →
          (∀ part ∈ parts, part.2.evaluate context input = .error e → FailsWith context input part.1 e) →
            (∃ c ∈ parts.map Prod.snd, c.evaluate context input = .error e) →
              FailsWith context input rule e := by
    rintro rule parts operator hoperator ho ih ⟨c, hc, he⟩
    obtain ⟨part, hp, rfl⟩ := List.mem_map.mp hc
    exact .inner (.list hoperator ho (List.mem_map_of_mem hp)) (ih part hp he)
  induction h with
  | and ho _ _ ih =>
    rw [Condition.evaluate] at he
    exact hlist (.inl rfl) ho ih (Condition.evaluateAnd_eq_error he)
  | or ho _ _ ih =>
    rw [Condition.evaluate] at he
    exact hlist (.inr rfl) ho ih (Condition.evaluateOr_eq_error he)
  | not ho _ ih =>
    rw [Condition.evaluate] at he
    rcases Except.bind_eq_error_iff.mp he with hc | ⟨holds, -, he⟩
    · exact .inner (.not ho) (ih hc)
    · cases he
  | test ho hs =>
    obtain ⟨text, hv, hp⟩ := hs
    exact failsWith_of_test (.probe ho hv) hp he
  | stringMatches ho hs htokens =>
    obtain ⟨text, hv, hp⟩ := hs
    exact failsWith_of_stringMatches (.pattern ho hv) hp htokens he
  | literal hmem _ ho hs hadmits =>
    obtain ⟨text, hv, hp⟩ := hs
    refine failsWith_of_compare (.left hmem ho hv) hp (fun e he => by cases he) (fun b hb hnot => ?_) he
    -- The literal is of the kind of the operator, or the rule would not have been read.
    cases hb
    rw [hadmits] at hnot
    cases hnot
  | path hmem hby ho hs hp' =>
    obtain ⟨text, hv, hp⟩ := hs
    have hright := Reads.right hmem hby ho
    refine failsWith_of_compare (.left hmem ho hv) hp ?_ ?_ he
    · intro e he
      exact failsWith_of_readSubject hright hp' he
    · intro b hb hnot
      rw [Reference.label, Path.source_of_parse hp']
      exact .mismatch hright hp' (read_of_readSubject hb) hnot

/-- **How the condition of a rule can fail.** The value that the rule, or a rule within it, reads at its
variable or at the path that it compares with is of the wrong kind, or this path does not select one value,
or a slice of it runs out of range. So no literal of the rule is ever of the wrong kind, and its patterns
are patterns. -/
theorem Condition.fails_at_paths (h : Condition.ofRule rule = .ok c)
    (he : c.evaluate context input = .error e) :
    FailsWith context input rule e ∧ ∀ pattern fault, e ≠ .badPattern pattern fault := by
  have hfails := (spells_of_ofRule h).failsWith he
  exact ⟨hfails, hfails.ne_badPattern⟩

/-- The error with which the condition of a rule fails. -/
def ruleFailure? (context input : Json) (rule : Keyed Json) : Option ConditionError :=
  match Condition.ofRule rule with
  | .error _ => none
  | .ok c =>
    match c.evaluate context input with
    | .error e => some e
    | .ok _ => none

theorem exists_of_ruleFailure? (h : ruleFailure? context input rule = some e) :
    ∃ c, Condition.ofRule rule = .ok c ∧ c.evaluate context input = .error e := by
  unfold ruleFailure? at h
  split at h
  · cases h
  · next c hc =>
    split at h
    · next he =>
      cases h
      exact ⟨c, hc, he⟩
    · cases h

/-- Two tests of values that have to be texts. -/
def nestedRule : Keyed Json :=
  [("Not", .obj [("And", .arr [
    .obj [("StringEquals", .str "x"), ("Variable", .str "$.a")],
    .obj [("StringMatches", .str "y*"), ("Variable", .str "$.b")]])])]

/-- The value at the second variable is no text. -/
theorem Condition.fails_at_paths_nested : ∃ c, Condition.ofRule nestedRule = .ok c ∧
    c.evaluate (.obj []) (.obj [("a", .str "x"), ("b", .bool true)]) = .error (.mismatch "$.b" .string) ∧
    FailsWith (.obj []) (.obj [("a", .str "x"), ("b", .bool true)]) nestedRule
      (.mismatch "$.b" .string) := by
  have hfailure : ruleFailure? (.obj []) (.obj [("a", .str "x"), ("b", .bool true)]) nestedRule =
      some (.mismatch "$.b" .string) := by decide +kernel
  obtain ⟨c, hc, he⟩ := exists_of_ruleFailure? hfailure
  exact ⟨c, hc, he, (Condition.fails_at_paths hc he).1⟩

/-- The path of the variable selects one value, a number, but the step of its slice leads from there beyond
the greatest signed integer. -/
theorem Condition.overruns_at_variable : ∃ p c, Path.parse "$[1::9223372036854775807]" = .ok p ∧
    Condition.ofRule [("IsNumeric", .bool true), ("Variable", .str "$[1::9223372036854775807]")] = .ok c ∧
    p.query.get (.arr [.int 0, .int 1, .int 2]) = [.int 1] ∧
    c.evaluate (.obj []) (.arr [.int 0, .int 1, .int 2]) =
      .error (.path (.overrun "$[1::9223372036854775807]")) := by
  have hp : Path.parse "$[1::9223372036854775807]" = .ok ⟨"$[1::9223372036854775807]", false,
      ⟨"$[1::9223372036854775807]", .root, [.slice (some 1) none 9223372036854775807]⟩⟩ := by
    with_unfolding_all rfl
  have hfailure : ruleFailure? (.obj []) (.arr [.int 0, .int 1, .int 2])
      [("IsNumeric", .bool true), ("Variable", .str "$[1::9223372036854775807]")] =
      some (.path (.overrun "$[1::9223372036854775807]")) := by decide +kernel
  obtain ⟨c, hc, he⟩ := exists_of_ruleFailure? hfailure
  exact ⟨_, c, hp, hc, rfl, he⟩

end StepFlow
