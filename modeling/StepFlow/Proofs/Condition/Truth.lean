import Mathlib.Logic.Basic
import StepFlow.Proofs.Condition.Failure

/-!
# The truth of combined conditions

An evaluation gives a truth value or fails. `and` stops at the first condition that does not hold, while
`or` evaluates all of its conditions, so the order of conditions counts for the one and not for the other.

* `ReachedIn`: the conditions of a list that are reached, as long as those before them pass;
* `evaluateAnd_eq_true_iff`, `evaluateAnd_eq_iff`, `evaluateOr_eq_error_iff`, `evaluateOr_eq_ok_iff`: what a
  list of conditions gives;
* `Condition.Reordered`: the same condition with its lists in another order;
* `Condition.Reordered.evaluate_eq_ok_iff`, `Condition.Reordered.evaluate_ne`: what becomes of its value;
* `Condition.tests`, `Condition.truth`: the tests of a condition, and its value as a formula over them;
* **`Condition.evaluates_in_order`**.
-/

namespace StepFlow

variable {context input : Json} {c c' : Condition} {children : List Condition}

/-! ## Lists of conditions -/

/-- The condition is in the list, and those before it pass. -/
def ReachedIn (children : List Condition) (passes : Condition → Prop) (c : Condition) : Prop :=
  ∃ before after, children = before ++ c :: after ∧ ∀ b ∈ before, passes b

theorem not_reachedIn_nil {passes : Condition → Prop} : ¬ ReachedIn [] passes c := by
  rintro ⟨before, after, h, -⟩
  exact List.append_ne_nil_of_right_ne_nil before (List.cons_ne_nil c after) h.symm

theorem reachedIn_cons {passes : Condition → Prop} {child : Condition} :
    ReachedIn (child :: children) passes c ↔ c = child ∨ passes child ∧ ReachedIn children passes c := by
  constructor
  · rintro ⟨before, after, h, hpass⟩
    cases before with
    | nil =>
      cases h
      exact .inl rfl
    | cons b before =>
      cases h
      obtain ⟨hb, hbefore⟩ := List.forall_mem_cons.mp hpass
      exact .inr ⟨hb, before, after, rfl, hbefore⟩
  · rintro (rfl | ⟨hchild, before, after, rfl, hpass⟩)
    · exact ⟨[], children, rfl, List.forall_mem_nil _⟩
    · exact ⟨child :: before, after, rfl, List.forall_mem_cons.mpr ⟨hchild, hpass⟩⟩

theorem ReachedIn.mem {passes : Condition → Prop} (h : ReachedIn children passes c) : c ∈ children := by
  obtain ⟨before, after, rfl, -⟩ := h
  exact List.mem_append_right before List.mem_cons_self

namespace Condition

theorem evaluateAnd_eq_true_iff : evaluateAnd context input children = .ok true ↔
    ∀ c ∈ children, c.evaluate context input = .ok true := by
  induction children with
  | nil => exact iff_of_true rfl (List.forall_mem_nil _)
  | cons child rest ih =>
    rw [evaluateAnd, List.forall_mem_cons, ← ih, Except.bind_eq_ok_iff]
    constructor
    · rintro ⟨holds, hchild, hrest⟩
      cases holds with
      | true => exact ⟨hchild, hrest⟩
      | false => cases hrest
    · rintro ⟨hchild, hrest⟩
      exact ⟨true, hchild, hrest⟩

/-- A list that does not hold as a whole gives what the first condition gives that does not hold. -/
theorem evaluateAnd_eq_iff {r : Except ConditionError Bool} (hr : r ≠ .ok true) :
    evaluateAnd context input children = r ↔
      ∃ c, ReachedIn children (fun b => b.evaluate context input = .ok true) c ∧
        c.evaluate context input = r := by
  induction children with
  | nil =>
    refine iff_of_false (fun h => hr h.symm) ?_
    rintro ⟨c, h, -⟩
    exact not_reachedIn_nil h
  | cons child rest ih =>
    simp only [reachedIn_cons]
    rw [evaluateAnd]
    by_cases hchild : child.evaluate context input = .ok true
    · rw [hchild, Except.ok_bind, if_pos rfl, ih]
      constructor
      · rintro ⟨c, hc, hv⟩
        exact ⟨c, .inr ⟨rfl, hc⟩, hv⟩
      · rintro ⟨c, rfl | ⟨-, hc⟩, hv⟩
        · exact absurd (hv.symm.trans hchild) hr
        · exact ⟨c, hc, hv⟩
    · have hstop : (child.evaluate context input >>= fun holds =>
          if holds then evaluateAnd context input rest else return false) =
            child.evaluate context input := by
        rcases hv : child.evaluate context input with e | _ | _
        · rfl
        · rfl
        · exact absurd hv hchild
      rw [hstop]
      constructor
      · exact fun hv => ⟨child, .inl rfl, hv⟩
      · rintro ⟨c, rfl | ⟨h, -⟩, hv⟩
        · exact hv
        · exact absurd h hchild

theorem exists_of_evaluateAnd (h : evaluateAnd context input children = .ok false) :
    ∃ c ∈ children, c.evaluate context input = .ok false := by
  have hne : (.ok false : Except ConditionError Bool) ≠ .ok true := fun h => by cases h
  obtain ⟨c, hc, hv⟩ := (evaluateAnd_eq_iff hne).mp h
  exact ⟨c, hc.mem, hv⟩

/-- `or` fails as the first condition does that fails. -/
theorem evaluateOr_eq_error_iff {e : ConditionError} :
    evaluateOr context input children = .error e ↔
      ∃ c, ReachedIn children (fun b => ∃ v, b.evaluate context input = .ok v) c ∧
        c.evaluate context input = .error e := by
  induction children with
  | nil =>
    refine iff_of_false nofun ?_
    rintro ⟨c, h, -⟩
    exact not_reachedIn_nil h
  | cons child rest ih =>
    simp only [reachedIn_cons]
    rw [evaluateOr]
    cases hchild : child.evaluate context input with
    | error e' =>
      constructor
      · intro h
        cases h
        exact ⟨child, .inl rfl, hchild⟩
      · rintro ⟨c, rfl | ⟨⟨v, hv⟩, -⟩, hc⟩
        · rw [← hc, hchild]
          rfl
        · cases hv
    | ok first =>
      rw [Except.ok_bind, Except.bind_eq_error_iff, ih]
      constructor
      · rintro (⟨c, hc, hv⟩ | ⟨_, -, h⟩)
        · exact ⟨c, .inr ⟨⟨first, rfl⟩, hc⟩, hv⟩
        · cases h
      · rintro ⟨c, rfl | ⟨-, hc⟩, hv⟩
        · rw [hchild] at hv
          cases hv
        · exact .inl ⟨c, hc, hv⟩

theorem exists_evaluateOr (h : ∀ c ∈ children, ∃ b, c.evaluate context input = .ok b) :
    ∃ v, evaluateOr context input children = .ok v := by
  cases hv : evaluateOr context input children with
  | ok v => exact ⟨v, rfl⟩
  | error e =>
    obtain ⟨c, hc, he⟩ := evaluateOr_eq_error_iff.mp hv
    obtain ⟨b, hb⟩ := h c hc.mem
    rw [hb] at he
    cases he

/-- `or` has a value if all of its conditions have one, and it holds if one of them does. -/
theorem evaluateOr_eq_ok_iff {v : Bool} : evaluateOr context input children = .ok v ↔
    (∀ c ∈ children, ∃ b, c.evaluate context input = .ok b) ∧
      (v = true ↔ ∃ c ∈ children, c.evaluate context input = .ok true) := by
  induction children generalizing v with
  | nil => cases v <;> simp [evaluateOr]
  | cons child rest ih =>
    rw [evaluateOr, List.forall_mem_cons]
    simp only [List.mem_cons, exists_eq_or_imp]
    cases hchild : child.evaluate context input with
    | error e =>
      refine iff_of_false (fun h => ?_) fun h => ?_
      · cases h
      · simp at h
    | ok first =>
      have hvalue : ∀ {others : Bool}, evaluateOr context input rest = .ok others →
          ((first || others) = true ↔ first = true ∨ ∃ c ∈ rest, c.evaluate context input = .ok true) :=
        fun h => by rw [Bool.or_eq_true, (ih.mp h).2]
      rw [Except.ok_bind, Except.bind_eq_ok_iff]
      simp only [Except.ok.injEq]
      constructor
      · rintro ⟨others, hothers, h⟩
        cases h
        exact ⟨⟨⟨first, rfl⟩, (ih.mp hothers).1⟩, hvalue hothers⟩
      · rintro ⟨⟨-, hall⟩, hany⟩
        obtain ⟨others, hothers⟩ := exists_evaluateOr hall
        refine ⟨others, hothers, ?_⟩
        rw [Bool.eq_iff_iff.mpr (hany.trans (hvalue hothers).symm)]
        rfl

theorem forall_of_evaluateOr (h : evaluateOr context input children = .ok false) :
    ∀ c ∈ children, c.evaluate context input = .ok false := by
  obtain ⟨hall, hany⟩ := evaluateOr_eq_ok_iff.mp h
  intro c hc
  obtain ⟨b, hb⟩ := hall c hc
  cases b with
  | false => exact hb
  | true => cases hany.mpr ⟨c, hc, hb⟩

theorem evaluate_not_eq_ok_iff {b : Bool} :
    (Condition.not c).evaluate context input = .ok b ↔ c.evaluate context input = .ok (!b) := by
  rw [evaluate, Except.bind_eq_ok_iff]
  constructor
  · rintro ⟨v, hv, h⟩
    cases h
    rw [hv, Bool.not_not]
  · intro h
    exact ⟨!b, h, by rw [Bool.not_not]; rfl⟩

/-! ## Other orders -/

/-- The same condition with the lists of `or` in another order, at any depth; also those of `and`, if that
is allowed. -/
inductive Reordered (alsoAnd : Prop) : Condition → Condition → Prop where
  | refl (c : Condition) : Reordered alsoAnd c c
  | not {c c' : Condition} : Reordered alsoAnd c c' → Reordered alsoAnd (.not c) (.not c')
  | or {parts : List (Condition × Condition)} {children : List Condition} :
      (∀ part ∈ parts, Reordered alsoAnd part.1 part.2) → children.Perm (parts.map Prod.snd) →
      Reordered alsoAnd (.or (parts.map Prod.fst)) (.or children)
  | and {parts : List (Condition × Condition)} {children : List Condition} :
      (∀ part ∈ parts, Reordered alsoAnd part.1 part.2) → children.Perm (parts.map Prod.snd) →
      (alsoAnd ∨ children = parts.map Prod.snd) →
      Reordered alsoAnd (.and (parts.map Prod.fst)) (.and children)

variable {parts : List (Condition × Condition)}

theorem evaluateAnd_congr (h : ∀ part ∈ parts, ∀ b,
      part.1.evaluate context input = .ok b ↔ part.2.evaluate context input = .ok b) (b : Bool) :
    evaluateAnd context input (parts.map Prod.fst) = .ok b ↔
      evaluateAnd context input (parts.map Prod.snd) = .ok b := by
  induction parts with
  | nil => rfl
  | cons part parts ih =>
    obtain ⟨hpart, hparts⟩ := List.forall_mem_cons.mp h
    rw [List.map_cons, List.map_cons, evaluateAnd, evaluateAnd, Except.bind_eq_ok_iff,
      Except.bind_eq_ok_iff]
    refine exists_congr fun holds => and_congr (hpart holds) ?_
    cases holds with
    | true => exact ih hparts
    | false => rfl

theorem evaluateOr_congr (h : ∀ part ∈ parts, ∀ b,
      part.1.evaluate context input = .ok b ↔ part.2.evaluate context input = .ok b)
    (hperm : children.Perm (parts.map Prod.snd)) (b : Bool) :
    evaluateOr context input (parts.map Prod.fst) = .ok b ↔
      evaluateOr context input children = .ok b := by
  have hholds : (∃ c ∈ parts.map Prod.fst, c.evaluate context input = .ok true) ↔
      ∃ c ∈ parts.map Prod.snd, c.evaluate context input = .ok true := by
    simp only [List.mem_map, exists_exists_and_eq_and]
    exact exists_congr fun part => and_congr_right fun hp => h part hp true
  simp only [evaluateOr_eq_ok_iff, hperm.mem_iff, hholds, List.forall_mem_map]
  exact and_congr_left' (forall₂_congr fun part hp => exists_congr (h part hp))

/-- **The order of conditions within `or` makes no difference to the value.** -/
theorem Reordered.evaluate_eq_ok_iff (h : Reordered False c c') (b : Bool) :
    c.evaluate context input = .ok b ↔ c'.evaluate context input = .ok b := by
  induction h generalizing b with
  | refl => rfl
  | not _ ih => rw [evaluate_not_eq_ok_iff, evaluate_not_eq_ok_iff, ih]
  | or _ hperm ih =>
    rw [evaluate, evaluate]
    exact evaluateOr_congr ih hperm b
  | and _ _ hsame ih =>
    obtain rfl := hsame.resolve_left id
    rw [evaluate, evaluate]
    exact evaluateAnd_congr ih b

/-- **No order of conditions turns a value into its opposite.** -/
theorem Reordered.evaluate_ne {alsoAnd : Prop} (h : Reordered alsoAnd c c') (b : Bool)
    (hb : c.evaluate context input = .ok b) : c'.evaluate context input ≠ .ok (!b) := by
  induction h generalizing b with
  | refl =>
    rw [hb]
    exact fun h => by cases b <;> cases h
  | not _ ih =>
    rw [evaluate_not_eq_ok_iff] at hb
    rw [ne_eq, evaluate_not_eq_ok_iff]
    exact ih (!b) hb
  | or _ hperm ih =>
    rw [evaluate] at hb ⊢
    intro hb'
    cases b with
    | true =>
      obtain ⟨c, hc, hv⟩ := (evaluateOr_eq_ok_iff.mp hb).2.mp rfl
      obtain ⟨part, hp, rfl⟩ := List.mem_map.mp hc
      exact ih part hp true hv (forall_of_evaluateOr hb' _ (hperm.mem_iff.mpr (List.mem_map_of_mem hp)))
    | false =>
      obtain ⟨c, hc, hv⟩ := (evaluateOr_eq_ok_iff.mp hb').2.mp rfl
      obtain ⟨part, hp, rfl⟩ := List.mem_map.mp (hperm.mem_iff.mp hc)
      exact ih part hp false (forall_of_evaluateOr hb _ (List.mem_map_of_mem hp)) hv
  | and _ hperm _ ih =>
    rw [evaluate] at hb ⊢
    intro hb'
    cases b with
    | true =>
      obtain ⟨c, hc, hv⟩ := exists_of_evaluateAnd hb'
      obtain ⟨part, hp, rfl⟩ := List.mem_map.mp (hperm.mem_iff.mp hc)
      exact ih part hp true (evaluateAnd_eq_true_iff.mp hb _ (List.mem_map_of_mem hp)) hv
    | false =>
      obtain ⟨c, hc, hv⟩ := exists_of_evaluateAnd hb
      obtain ⟨part, hp, rfl⟩ := List.mem_map.mp hc
      exact ih part hp false hv
        (evaluateAnd_eq_true_iff.mp hb' _ (hperm.mem_iff.mpr (List.mem_map_of_mem hp)))

/-! ## Conditions as formulas -/

mutual

/-- The tests that a condition combines. -/
def tests : Condition → List Condition
  | .and children => testsOf children
  | .or children => testsOf children
  | .not child => child.tests
  | c => [c]

/-- The tests that the conditions of a list combine. -/
def testsOf : List Condition → List Condition
  | [] => []
  | child :: rest => child.tests ++ testsOf rest

end

mutual

/-- The value of a condition as a formula over its tests. -/
def truth (value : Condition → Bool) : Condition → Bool
  | .and children => allTrue value children
  | .or children => anyTrue value children
  | .not child => !child.truth value
  | c => value c

/-- The conjunction of a list of conditions. -/
def allTrue (value : Condition → Bool) : List Condition → Bool
  | [] => true
  | child :: rest => child.truth value && allTrue value rest

/-- The disjunction of a list of conditions. -/
def anyTrue (value : Condition → Bool) : List Condition → Bool
  | [] => false
  | child :: rest => child.truth value || anyTrue value rest

end

mutual

/-- **If every test has a value, a condition has the value of its formula.** -/
theorem evaluate_eq_truth {value : Condition → Bool} : (c : Condition) →
    (∀ t ∈ c.tests, t.evaluate context input = .ok (value t)) →
    c.evaluate context input = .ok (c.truth value)
  | .and children, h => by
    rw [evaluate, truth]
    exact evaluateAnd_eq_allTrue children h
  | .or children, h => by
    rw [evaluate, truth]
    exact evaluateOr_eq_anyTrue children h
  | .not child, h => by
    rw [evaluate_not_eq_ok_iff, truth, Bool.not_not]
    exact evaluate_eq_truth child h
  | .compare .., h => h _ (List.mem_singleton_self _)
  | .stringMatches .., h => h _ (List.mem_singleton_self _)
  | .test .., h => h _ (List.mem_singleton_self _)

theorem evaluateAnd_eq_allTrue {value : Condition → Bool} : (children : List Condition) →
    (∀ t ∈ testsOf children, t.evaluate context input = .ok (value t)) →
    evaluateAnd context input children = .ok (allTrue value children)
  | [], _ => rfl
  | child :: rest, h => by
    obtain ⟨hchild, hrest⟩ := List.forall_mem_append.mp h
    rw [evaluateAnd, evaluate_eq_truth child hchild, Except.ok_bind, allTrue]
    cases child.truth value with
    | false => rfl
    | true => exact evaluateAnd_eq_allTrue rest hrest

theorem evaluateOr_eq_anyTrue {value : Condition → Bool} : (children : List Condition) →
    (∀ t ∈ testsOf children, t.evaluate context input = .ok (value t)) →
    evaluateOr context input children = .ok (anyTrue value children)
  | [], _ => rfl
  | child :: rest, h => by
    obtain ⟨hchild, hrest⟩ := List.forall_mem_append.mp h
    rw [evaluateOr, evaluate_eq_truth child hchild, Except.ok_bind, evaluateOr_eq_anyTrue rest hrest]
    rfl

end

mutual

/-- **A condition fails as one of its tests does.** -/
theorem exists_test_of_error {e : ConditionError} : (c : Condition) →
    c.evaluate context input = .error e → ∃ t ∈ c.tests, t.evaluate context input = .error e
  | .and children, h => by
    rw [evaluate] at h
    exact exists_testsOf_of_error children (evaluateAnd_eq_error h)
  | .or children, h => by
    rw [evaluate] at h
    exact exists_testsOf_of_error children (evaluateOr_eq_error h)
  | .not child, h => by
    rw [evaluate] at h
    rcases Except.bind_eq_error_iff.mp h with h | ⟨_, -, h⟩
    · exact exists_test_of_error child h
    · cases h
  | .compare .., h => ⟨_, List.mem_singleton_self _, h⟩
  | .stringMatches .., h => ⟨_, List.mem_singleton_self _, h⟩
  | .test .., h => ⟨_, List.mem_singleton_self _, h⟩

theorem exists_testsOf_of_error {e : ConditionError} : (children : List Condition) →
    (∃ c ∈ children, c.evaluate context input = .error e) →
    ∃ t ∈ testsOf children, t.evaluate context input = .error e
  | [], h => by
    obtain ⟨c, hc, -⟩ := h
    exact absurd hc List.not_mem_nil
  | child :: rest, h => by
    obtain ⟨c, hc, he⟩ := h
    rcases List.mem_cons.mp hc with heq | hc
    · obtain ⟨t, ht, hv⟩ := exists_test_of_error child (heq ▸ he)
      exact ⟨t, List.mem_append_left _ ht, hv⟩
    · obtain ⟨t, ht, hv⟩ := exists_testsOf_of_error rest ⟨c, hc, he⟩
      exact ⟨t, List.mem_append_right _ ht, hv⟩

end

/-- **What combinations of conditions give.** `or` fails as the first condition does that fails, and is the
disjunction of its conditions where none does. `and` holds if all of its conditions do; else it gives what
the first one gives that does not hold, which is false or a failure. So the lists of `or` can be put in
another order, at any depth, and no value changes nor is there a value where there was none. Putting lists
of `and` in another order may do that, but never makes a value the opposite of what it was. A condition
whose tests all have a value has the value of its formula; it fails, or breaks off because a slice runs out
of range, only as one of its tests does. -/
theorem evaluates_in_order (context input : Json) :
    (∀ children e, (Condition.or children).evaluate context input = .error e ↔
      ∃ c, ReachedIn children (fun b => ∃ v, b.evaluate context input = .ok v) c ∧
        c.evaluate context input = .error e) ∧
    (∀ children v, (Condition.or children).evaluate context input = .ok v ↔
      (∀ c ∈ children, ∃ b, c.evaluate context input = .ok b) ∧
        (v = true ↔ ∃ c ∈ children, c.evaluate context input = .ok true)) ∧
    (∀ children, (Condition.and children).evaluate context input = .ok true ↔
      ∀ c ∈ children, c.evaluate context input = .ok true) ∧
    (∀ children r, r ≠ .ok true → ((Condition.and children).evaluate context input = r ↔
      ∃ c, ReachedIn children (fun b => b.evaluate context input = .ok true) c ∧
        c.evaluate context input = r)) ∧
    (∀ c c', Reordered False c c' → ∀ b,
      c.evaluate context input = .ok b ↔ c'.evaluate context input = .ok b) ∧
    (∀ c c', Reordered True c c' → ∀ b,
      c.evaluate context input = .ok b → c'.evaluate context input ≠ .ok (!b)) ∧
    (∀ c value, (∀ t ∈ tests c, t.evaluate context input = .ok (value t)) →
      c.evaluate context input = .ok (c.truth value)) ∧
    ∀ c e, c.evaluate context input = .error e →
      ∃ t ∈ tests c, t.evaluate context input = .error e := by
  refine ⟨fun children e => ?_, fun children v => ?_, fun children => ?_, fun children r hr => ?_,
    fun c c' h => h.evaluate_eq_ok_iff, fun c c' h => h.evaluate_ne, fun c value => evaluate_eq_truth c,
    fun c e => exists_test_of_error c⟩
  · rw [evaluate]
    exact evaluateOr_eq_error_iff
  · rw [evaluate]
    exact evaluateOr_eq_ok_iff
  · rw [evaluate]
    exact evaluateAnd_eq_true_iff
  · rw [evaluate]
    exact evaluateAnd_eq_iff hr

/-- A test for `null` at a member of the input. -/
def nullAt (name : String) : Condition :=
  .test .isNull ⟨"$." ++ name, false, ⟨"$." ++ name, .root, [.child name]⟩⟩ true

/-- The first list of `and` stops before the value that is missing. -/
def guarded : Condition := .or [.and [nullAt "a", nullAt "gone"], .not (nullAt "a")]

/-- In another order `or` holds as before. With `and` in another order there is no value any more, since the
value that is missing is looked up first; but there is no opposite value. -/
theorem evaluates_in_order_guarded :
    guarded.evaluate (.obj []) (.obj [("a", .int 1)]) = .ok true ∧
    (Condition.or [.not (nullAt "a"), .and [nullAt "a", nullAt "gone"]]).evaluate (.obj [])
      (.obj [("a", .int 1)]) = .ok true ∧
    (Condition.or [.and [nullAt "gone", nullAt "a"], .not (nullAt "a")]).evaluate (.obj [])
      (.obj [("a", .int 1)]) ≠ .ok false ∧
    (Condition.and [.not (nullAt "a"), nullAt "a"]).evaluate (.obj []) (.obj [("a", .int 1)]) = .ok false := by
  obtain ⟨-, -, -, -, hor, hand, htruth, -⟩ := evaluates_in_order (.obj []) (.obj [("a", .int 1)])
  have hguarded : guarded.evaluate (.obj []) (.obj [("a", .int 1)]) = .ok true := rfl
  have hpair : ∀ {alsoAnd : Prop} {c₁ c₁' c₂ c₂' : Condition}, Reordered alsoAnd c₁ c₁' →
      Reordered alsoAnd c₂ c₂' → ∀ part ∈ [(c₁, c₁'), (c₂, c₂')], Reordered alsoAnd part.1 part.2 := by
    intro alsoAnd c₁ c₁' c₂ c₂' h₁ h₂
    simp [h₁, h₂]
  have hswap : Reordered True (.and [nullAt "a", nullAt "gone"]) (.and [nullAt "gone", nullAt "a"]) :=
    .and (hpair (.refl _) (.refl _)) (.swap _ _ _) (.inl trivial)
  refine ⟨hguarded, ?_, ?_, ?_⟩
  · exact (hor _ _ (.or (hpair (.refl _) (.refl _)) (.swap _ _ _)) true).mp hguarded
  · exact hand _ _ (.or (hpair hswap (.refl _)) (.refl _)) true hguarded
  · refine htruth (.and [.not (nullAt "a"), nullAt "a"]) (fun _ => false) ?_
    exact List.forall_mem_cons.mpr ⟨rfl, List.forall_mem_singleton.mpr rfl⟩

/-- The first condition breaks off as the step of its slice leads beyond the greatest signed integer, so
that the failure of the second one is never seen. In the other order it is. -/
theorem or_breaks_off : ∃ p q, Path.parse "$[1::9223372036854775807]" = .ok p ∧
    Path.parse "$.gone" = .ok q ∧
    (Condition.test .isNull q true).evaluate (.obj []) (.arr [.int 0, .int 1, .int 2]) =
      .error (.path (.resultLength "$.gone" 0)) ∧
    (Condition.or [.test .isNull q true, .test .isNumeric p true]).evaluate (.obj [])
      (.arr [.int 0, .int 1, .int 2]) = .error (.path (.resultLength "$.gone" 0)) ∧
    (Condition.or [.test .isNumeric p true, .test .isNull q true]).evaluate (.obj [])
      (.arr [.int 0, .int 1, .int 2]) = .error (.path (.overrun "$[1::9223372036854775807]")) := by
  refine ⟨⟨"$[1::9223372036854775807]", false, ⟨"$[1::9223372036854775807]", .root,
    [.slice (some 1) none 9223372036854775807]⟩⟩, ⟨"$.gone", false, ⟨"$.gone", .root, [.child "gone"]⟩⟩,
    ?_, ?_, rfl, rfl, rfl⟩
  · with_unfolding_all rfl
  · with_unfolding_all rfl

end Condition

end StepFlow
