import StepFlow.Condition.Rule
import StepFlow.Proofs.Except
import StepFlow.Proofs.Path.Basic

/-!
# What rules spell

A rule that is read has one operator, and the operator decides what else is read of it. What a rule
spells is put down here once, as a relation with one case for each form of a condition; the checks of the
reader are the conditions of the cases.

* `HasSubject`, `Spells`: the rules and what they spell;
* `spells_of_dataTest`, `spells_of_ruleWith`: the reader, part by part;
* **`spells_of_ofRule`**: a rule that is read as a condition spells it.
-/

namespace StepFlow

/-- The variable of the rule is a path. -/
def HasSubject (rule : Keyed Json) (subject : Path) : Prop :=
  ∃ text, Keyed.find? "Variable" rule = some (.str text) ∧ Path.parse text = .ok subject

theorem HasSubject.spelled {rule : Keyed Json} {p : Path} (h : HasSubject rule p) : p.Spelled := by
  obtain ⟨_, -, hp⟩ := h
  exact Path.spelled_of_parse hp

/-- The rule spells the condition. Besides its operator, only the variable of a test is looked at. -/
inductive Spells : Keyed Json → Condition → Prop where
  | and {rule : Keyed Json} {parts : List (Keyed Json × Condition)} :
      ruleOperator rule = .ok ("And", .arr (parts.map fun part => .obj part.1)) → parts ≠ [] →
      (∀ part ∈ parts, Spells part.1 part.2) → Spells rule (.and (parts.map Prod.snd))
  | or {rule : Keyed Json} {parts : List (Keyed Json × Condition)} :
      ruleOperator rule = .ok ("Or", .arr (parts.map fun part => .obj part.1)) → parts ≠ [] →
      (∀ part ∈ parts, Spells part.1 part.2) → Spells rule (.or (parts.map Prod.snd))
  | not {rule inner : Keyed Json} {c : Condition} :
      ruleOperator rule = .ok ("Not", .obj inner) → Spells inner c → Spells rule (.not c)
  | test {rule : Keyed Json} {test : TypeTest} {subject : Path} {expected : Bool} :
      ruleOperator rule = .ok (test.name, .bool expected) → HasSubject rule subject →
      Spells rule (.test test subject expected)
  | stringMatches {rule : Keyed Json} {subject : Path} {pattern : String} {tokens : List PatternToken} :
      ruleOperator rule = .ok ("StringMatches", .str pattern) → HasSubject rule subject →
      PatternToken.ofText pattern = .ok tokens → Spells rule (.stringMatches subject pattern)
  | literal {rule : Keyed Json} {o : Operator} {subject : Path} {value : Json} :
      o ∈ operators → o.byPath = false → ruleOperator rule = .ok (o.name, value) →
      HasSubject rule subject → o.kind.admits value = true →
      Spells rule (.compare o.kind o.relation subject (.literal value))
  | path {rule : Keyed Json} {o : Operator} {subject p : Path} {text : String} :
      o ∈ operators → o.byPath = true → ruleOperator rule = .ok (o.name, .str text) →
      HasSubject rule subject → Path.parse text = .ok p →
      Spells rule (.compare o.kind o.relation subject (.path p))

variable {rule : Keyed Json} {operator : String} {argument : Json} {c : Condition}

/-! ## The reader -/

theorem parse_of_rulePath {text : String} {p : Path} (h : rulePath text = .ok p) :
    Path.parse text = .ok p := by
  unfold rulePath at h
  split at h
  · next hp =>
    cases h
    exact hp
  · cases h

theorem hasSubject_of_ruleSubject {p : Path} (h : ruleSubject rule operator = .ok p) :
    HasSubject rule p := by
  unfold ruleSubject at h
  split at h
  · next text hv => exact ⟨text, hv, parse_of_rulePath h⟩
  · cases h
  · cases h

theorem mem_of_ruleOperator {e : String × Json} (h : ruleOperator rule = .ok e) : e ∈ rule := by
  unfold ruleOperator at h
  split at h
  · next hf =>
    cases h
    exact (List.mem_filter.mp (hf ▸ List.mem_singleton_self _)).1
  · cases h
  · cases h

theorem Json.eq_str_of_str? {j : Json} {s : String} (h : j.str? = some s) : j = .str s := by
  cases j with
  | str t =>
    cases h
    rfl
  | _ => cases h

theorem Json.eq_bool_of_bool? {j : Json} {b : Bool} (h : j.bool? = some b) : j = .bool b := by
  cases j with
  | bool t =>
    cases h
    rfl
  | _ => cases h

/-- A test that is read is one of the tests on kinds, a pattern, or a comparison. -/
theorem spells_of_dataTest (ho : ruleOperator rule = .ok (operator, argument))
    (hc : dataTest rule operator argument = .ok c) : Spells rule c := by
  unfold dataTest at hc
  obtain ⟨subject, hs, h⟩ := Except.bind_eq_ok_iff.mp hc
  have hsubject := hasSubject_of_ruleSubject hs
  split at h
  · next test hfind =>
    have hname : test.name = operator := by simpa using List.find?_some hfind
    subst hname
    split at h
    · next expected hb =>
      cases h
      rw [Json.eq_bool_of_bool? hb] at ho
      exact .test ho hsubject
    · cases h
  · split at h
    · next heq =>
      subst heq
      split at h
      · cases h
      · next pattern hp =>
        split at h
        · next tokens htokens =>
          cases h
          rw [Json.eq_str_of_str? hp] at ho
          exact .stringMatches ho hsubject htokens
        · cases h
    · split at h
      · next o hfind =>
        have hname : o.name = operator := by simpa using List.find?_some hfind
        have hmem := List.mem_of_find?_eq_some hfind
        subst hname
        obtain ⟨reference, hr, hcompare⟩ := Except.bind_eq_ok_iff.mp h
        cases hcompare
        unfold Operator.reference at hr
        split at hr
        · next hby =>
          split at hr
          · next text ht =>
            obtain ⟨p, hp, rfl⟩ := Except.map_eq_ok_iff.mp hr
            rw [Json.eq_str_of_str? ht] at ho
            exact .path hmem hby ho hsubject (parse_of_rulePath hp)
          · cases hr
        · next hby =>
          split at hr
          · next hadmits =>
            cases hr
            exact .literal hmem (Bool.eq_false_iff.mpr hby) ho hsubject hadmits
          · cases hr
      · cases h

theorem exists_parts {nested : Keyed Json → Except RuleFault Condition} {rules : List Json}
    {conditions : List Condition} {fault : RuleFault}
    (h : (rules.mapM fun
      | .obj members => nested members
      | _ => throw fault) = .ok conditions) :
    ∃ parts : List (Keyed Json × Condition), rules = parts.map (fun part => .obj part.1) ∧
      conditions = parts.map Prod.snd ∧ ∀ part ∈ parts, nested part.1 = .ok part.2 := by
  induction rules generalizing conditions with
  | nil =>
    cases h
    exact ⟨[], rfl, rfl, nofun⟩
  | cons rule rules ih =>
    obtain ⟨c, conditions', hc, hall, rfl⟩ := Except.mapM_cons_eq_ok_iff.mp h
    obtain ⟨parts, rfl, rfl, hparts⟩ := ih hall
    split at hc
    · next members => exact ⟨(members, c) :: parts, rfl, rfl, List.forall_mem_cons.mpr ⟨hc, hparts⟩⟩
    · cases hc

theorem spells_of_ruleWith {nested : Keyed Json → Except RuleFault Condition}
    (hnested : ∀ rule c, nested rule = .ok c → Spells rule c) (hc : ruleWith nested rule = .ok c) :
    Spells rule c := by
  unfold ruleWith at hc
  obtain ⟨⟨operator, argument⟩, ho, h⟩ := Except.bind_eq_ok_iff.mp hc
  dsimp only at h
  split at h
  · next hlist =>
    split at h
    · cases h
    · next rules hne =>
      obtain ⟨conditions, hconditions, hlast⟩ := Except.bind_eq_ok_iff.mp h
      obtain ⟨parts, rfl, rfl, hparts⟩ := exists_parts hconditions
      have hspells := fun part hp => hnested _ _ (hparts part hp)
      have hnil : parts ≠ [] := fun hnil => hne (by rw [hnil]; rfl)
      by_cases hand : operator = "And"
      · subst hand
        cases hlast
        exact .and ho hnil hspells
      · have hor : operator = "Or" := by simpa [hand] using hlist
        subst hor
        cases hlast
        exact .or ho hnil hspells
    · cases h
  · split at h
    · next heq =>
      subst heq
      split at h
      · obtain ⟨child, hchild, hlast⟩ := Except.bind_eq_ok_iff.mp h
        cases hlast
        exact .not ho (hnested _ _ hchild)
      · cases h
    · exact spells_of_dataTest ho h

/-- **A rule that is read as a condition spells it.** -/
theorem spells_of_ofRule (h : Condition.ofRule rule = .ok c) : Spells rule c := by
  have hdepth : ∀ depth rule c, Condition.ofRuleAt depth rule = .ok c → Spells rule c := by
    intro depth
    induction depth with
    | zero => exact fun _ _ h => by cases h
    | succ depth ih => exact fun _ _ h => spells_of_ruleWith ih h
  exact hdepth _ _ _ h

end StepFlow
