import StepFlow.Condition.Basic
import StepFlow.Intrinsic.Function
import StepFlow.Path.Query.Select
import StepFlow.Proofs.Number.Double

/-!
# Integers in comparisons and sums

Numbers are compared as doubles wherever they are compared, in the tests of paths and in conditions, so
two integers with the same nearest double are not told apart. Sums of signed integers are exact, all
others are sums of doubles.

* `Comparison.relates`, `Relation.relates`: the order of integers that an operator asks for;
* `Number.taken`: the integer that a comparison takes another one for;
* `compareValues_int`, `orderFloats_int`: how two integers compare;
* `Function.add_int`: the sum of two integers;
* `Condition.evaluate_compare_int`: a comparison of two integers in a condition;
* **`Number.decided_as_doubles`**.
-/

namespace StepFlow

open Number Double

variable {a b i j : Int}

/-! ## Orders -/

/-- Whether two integers compare as an operator of a path asks for. -/
def Comparison.relates : Comparison → Int → Int → Bool
  | .eq, i, j => i = j
  | .ne, i, j => i ≠ j
  | .lt, i, j => i < j
  | .le, i, j => i ≤ j
  | .gt, i, j => j < i
  | .ge, i, j => j ≤ i

/-- Whether two integers compare as an operator of a condition asks for. -/
def Relation.relates : Relation → Int → Int → Bool
  | .equals, i, j => i = j
  | .lessThan, i, j => i < j
  | .lessThanEquals, i, j => i ≤ j
  | .greaterThan, i, j => j < i
  | .greaterThanEquals, i, j => j ≤ i

theorem Relation.accepts_compare (r : Relation) (i j : Int) : r.accepts (compare i j) = r.relates i j := by
  rcases lt_trichotomy i j with h | rfl | h
  · rw [compare_lt_iff_lt.mpr h]
    cases r <;> simp [accepts, relates] <;> omega
  · rw [compare_eq_iff_eq.mpr rfl]
    cases r <;> simp [accepts, relates]
  · rw [compare_gt_iff_gt.mpr h]
    cases r <;> simp [accepts, relates] <;> omega

theorem Comparison.accepts_compare (c : Comparison) (i j : Int) :
    c.accepts (some (compare i j)) = c.relates i j := by
  rcases lt_trichotomy i j with h | rfl | h
  · rw [compare_lt_iff_lt.mpr h]
    cases c <;> simp [accepts, relates] <;> omega
  · rw [compare_eq_iff_eq.mpr rfl]
    cases c <;> simp [accepts, relates]
  · rw [compare_gt_iff_gt.mpr h]
    cases c <;> simp [accepts, relates] <;> omega

namespace Number

/-- What `j` is taken for where it is compared with `i`: for `i` itself if they have the same double. -/
def taken (i j : Int) : Int := if nearest i = nearest j then i else j

theorem taken_of_lt (h : i.natAbs < 2 ^ 53 ∨ j.natAbs < 2 ^ 53) : taken i j = j := by
  unfold taken
  split_ifs with heq
  · rcases h with h | h
    · exact eq_of_nearest_eq h heq
    · exact (eq_of_nearest_eq h heq.symm).symm
  · rfl

theorem natAbs_lt_of_isExact (h : isExact i) : i.natAbs < 2 ^ 64 := by
  obtain ⟨hmin, hmax⟩ := Bool.and_eq_true_iff.mp h
  have hmin : -9223372036854775808 ≤ i := of_decide_eq_true hmin
  have hmax : i ≤ 18446744073709551615 := of_decide_eq_true hmax
  omega

theorem isInt_toFloat (h : isExact i) : IsInt (Number.int i).toFloat (nearest i) :=
  isInt_ofInt ((natAbs_lt_of_isExact h).trans (by decide))

end Number

/-! ## Comparisons -/

theorem orderFloats_int (ha : isExact a) (hb : isExact b) :
    orderFloats (Number.int a).toFloat (Number.int b).toFloat = compare a (taken a b) := by
  have hx := isInt_toFloat ha
  have hy := isInt_toFloat hb
  unfold orderFloats taken
  rcases lt_trichotomy (nearest a) (nearest b) with h | h | h
  · rw [if_pos ((hx.lt_iff hy).mpr h), if_neg h.ne, compare_lt_iff_lt.mpr (lt_of_nearest_lt h)]
  · rw [if_neg (by rw [hx.lt_iff hy, h]; exact lt_irrefl _), if_pos ((hx.beq_iff hy).mpr h), if_pos h,
      compare_eq_iff_eq.mpr rfl]
  · rw [if_neg (by rw [hx.lt_iff hy]; exact h.not_gt), if_neg (by rw [hx.beq_iff hy]; exact h.ne'),
      if_pos ((hy.lt_iff hx).mpr h), if_neg h.ne', compare_gt_iff_gt.mpr (lt_of_nearest_lt h)]

theorem compareValues_int (ha : isExact a) (hb : isExact b) :
    compareValues (.int a) (.int b) = some (compare a (taken a b)) := by
  have hx := isInt_toFloat ha
  have hy := isInt_toFloat hb
  have hnums : compareValues (.int a) (.int b) =
      if (Number.int a).toFloat < (Number.int b).toFloat then some .lt
      else if (Number.int a).toFloat == (Number.int b).toFloat then some .eq
      else if (Number.int b).toFloat < (Number.int a).toFloat then some .gt else none := rfl
  rw [hnums, ← orderFloats_int ha hb, orderFloats]
  split_ifs with hlt heq hgt
  · rfl
  · rfl
  · rfl
  · rw [hx.lt_iff hy] at hlt
    rw [hx.beq_iff hy] at heq
    rw [hy.lt_iff hx] at hgt
    omega

/-! ## Sums -/

theorem Function.add_int (ha : isExact a) (hb : isExact b) : Function.add (.int a) (.int b) =
    if isSigned64 a && isSigned64 b then
      if isSigned64 (a + b) then .ok (.int (a + b)) else .error .overflow
    else .ok (.num (.float (Float.ofInt (nearest a + nearest b)))) := by
  have hx := isInt_toFloat ha
  have hy := isInt_toFloat hb
  have hbound : (nearest a + nearest b).natAbs < 2 ^ 66 := by
    have := natAbs_nearest_le (natAbs_lt_of_isExact ha)
    have := natAbs_nearest_le (natAbs_lt_of_isExact hb)
    omega
  have hsum := hx.add hy (hbound.trans (by decide))
  have heq : (Number.int a).toFloat + (Number.int b).toFloat = Float.ofInt (nearest a + nearest b) :=
    hsum.unique (isInt_ofInt (hbound.trans (by decide)))
  rw [← heq, Function.add]
  split_ifs with hsigned hfits
  · rfl
  · rfl
  · rw [if_pos hsum.isFinite]

/-! ## Operators -/

theorem Condition.evaluate_compare_int {context input : Json} {r : Relation} {p : Path}
    {right : Reference} (ha : isExact a) (hb : isExact b) (hleft : p.read context input = .ok (.int a))
    (hright : right.value context input = .ok (.int b)) :
    (Condition.compare .numeric r p right).evaluate context input = .ok (r.relates a (taken a b)) := by
  have hsubject : readSubject context input p = .ok (.int a) := by
    unfold readSubject
    rw [hleft]
  have hcompare : ValueKind.numeric.compare p.source right.label (.int a) (.int b) =
      .ok (orderFloats (Number.int a).toFloat (Number.int b).toFloat) := rfl
  rw [evaluate, hsubject, hright, ← Relation.accepts_compare, ← orderFloats_int ha hb]
  change (do return r.accepts (← ValueKind.numeric.compare p.source right.label (.int a) (.int b))) = _
  rw [hcompare]
  rfl

/-- **Integers are compared as their nearest doubles.** Every operator of a path or a condition that
compares numbers answers by the order of integers, but takes two integers with the same nearest double for
one and the same; if one of the two is less than `2 ^ 53` in size then there is no such other integer. The
sum of two signed integers is exact, or it is refused because it is not a signed integer. Any other sum is
that of the nearest doubles. -/
theorem Number.decided_as_doubles (ha : isExact a) (hb : isExact b) :
    (∀ (root node : Json) (left right : Operand) (c : Comparison),
      left.value? root node = some (.int a) → right.value? root node = some (.int b) →
        (Filter.compare left c right).holds root node = c.relates a (taken a b)) ∧
    (∀ (context input : Json) (r : Relation) (p : Path), p.read context input = .ok (.int a) →
      (Condition.compare .numeric r p (.literal (.int b))).evaluate context input =
        .ok (r.relates a (taken a b))) ∧
    (∀ (context input : Json) (r : Relation) (p q : Path), p.read context input = .ok (.int a) →
      q.read context input = .ok (.int b) →
        (Condition.compare .numeric r p (.path q)).evaluate context input =
          .ok (r.relates a (taken a b))) ∧
    (a.natAbs < 2 ^ 53 ∨ b.natAbs < 2 ^ 53 → taken a b = b) ∧
    ∀ supply, Function.mathAdd supply [.int a, .int b] =
      if isSigned64 a && isSigned64 b then
        if isSigned64 (a + b) then .ok (.int (a + b)) else .error .overflow
      else .ok (.num (.float (Float.ofInt (nearest a + nearest b)))) := by
  refine ⟨fun root node left right c hleft hright => ?_, fun context input r p hp => ?_,
    fun context input r p q hp hq => ?_, taken_of_lt, fun supply => Function.add_int ha hb⟩
  · rw [Filter.holds, hleft, hright, ← Comparison.accepts_compare, ← compareValues_int ha hb]
  · exact Condition.evaluate_compare_int ha hb hp rfl
  · refine Condition.evaluate_compare_int ha hb hp ?_
    rw [Reference.value, readSubject, hq]

/-- A negative integer is less than one beyond the signed integers, and their sum is a double. -/
theorem Number.decided_as_doubles_far_apart :
    (Filter.compare (.literal (.int (-1))) .lt (.literal (.int 18446744073709551615))).holds .null .null =
      true ∧
    (Condition.compare .numeric .greaterThan ⟨"$.n", false, ⟨"$.n", .root, [.child "n"]⟩⟩
      (.literal (.int 18446744073709551615))).evaluate .null (.obj [("n", .int (-1))]) = .ok false ∧
    Function.mathAdd default [.int (-1), .int 18446744073709551615] =
      .ok (.num (.float (Float.ofInt 18446744073709551615))) := by
  obtain ⟨hfilter, hliteral, -, htaken, hsum⟩ :=
    Number.decided_as_doubles (a := -1) (b := 18446744073709551615) (by decide) (by decide)
  have hother : taken (-1) 18446744073709551615 = 18446744073709551615 := htaken (.inl (by decide))
  have hnearest : nearest (-1) + nearest 18446744073709551615 = 18446744073709551615 := by decide
  refine ⟨?_, ?_, ?_⟩
  · rw [hfilter .null .null _ _ .lt rfl rfl, hother]
    rfl
  · rw [hliteral _ _ .greaterThan _ rfl, hother]
    rfl
  · rw [hsum, hnearest]
    rfl

/-- Two integers that differ by one are taken for equal, and a sum with zero is another number. -/
theorem Number.taken_for_equal :
    (Filter.compare (.literal (.int 9007199254740992)) .eq (.literal (.int 9007199254740993))).holds
      .null .null = true ∧
    (Condition.compare .numeric .lessThan ⟨"$.n", false, ⟨"$.n", .root, [.child "n"]⟩⟩
      (.literal (.int 9007199254740993))).evaluate .null (.obj [("n", .int 9007199254740992)]) =
        .ok false ∧
    Function.mathAdd default [.int 18446744073709551615, .int 0] =
      .ok (.num (.float (Float.ofInt 18446744073709551616))) := by
  have htaken : taken 9007199254740992 9007199254740993 = 9007199254740992 := by decide
  have hnearest : nearest 18446744073709551615 + nearest 0 = 18446744073709551616 := by decide
  refine ⟨?_, ?_, ?_⟩
  · decide +kernel
  · rw [Condition.evaluate_compare_int (a := 9007199254740992) (by decide) (by decide) rfl rfl, htaken]
    rfl
  · rw [← hnearest]
    exact Function.add_int (a := 18446744073709551615) (b := 0) (by decide) (by decide)

end StepFlow
