import Mathlib
import StepFlow.Proofs.Number.Nearest

/-!
# Doubles that hold integers

A double is kept as a sign, a significand of 53 binary digits and an exponent. For the doubles that are
integers, the order, the sum and the conversion from integers are those of the integers, up to rounding.

* `Double.roundedMantissa_shiftRight`, `Double.exists_round`: rounding is `Number.nearestNat`;
* `Double.Significand`, `Double.Holds`: the normal form of an integer;
* `Double.Holds.compare_eq`, `Double.Holds.add`: what is compared and added is the integers;
* `Double.Holds.unpack_pack`: a normal form survives packing into 64 bits;
* `Double.IsInt`: a double that is an integer;
* **`Double.isInt_ofInt`**: the double of an integer is the nearest one.
-/

namespace StepFlow

namespace Double

open Float.Model Float.Model.UnpackedFloat Number

variable {s : Sign} {m n k l : Nat} {i j : Int} {x y : Float.Model.UnpackedFloat}

/-! ## Rounding -/

/-- A significand without its last digits, with the first of these and whether there is one among the
others. -/
theorem shiftRight_eq (n k : Nat) : (⟨n, false, false⟩ : ExtendedMantissa) >>> k =
    ⟨n / 2 ^ k, 2 ^ k ≤ 2 * (n % 2 ^ k), 2 * (n % 2 ^ k) % 2 ^ k ≠ 0⟩ := by
  induction k with
  | zero =>
    rw [Nat.pow_zero, Nat.mod_one, Nat.div_one]
    rfl
  | succ k ih =>
    have hstep : (⟨n, false, false⟩ : ExtendedMantissa) >>> (k + 1) =
        ((⟨n, false, false⟩ : ExtendedMantissa) >>> k).shiftRightOne := rfl
    have hrest : n % 2 ^ k < 2 ^ k := Nat.mod_lt n (Nat.two_pow_pos k)
    rw [hstep, ih, ExtendedMantissa.shiftRightOne, ExtendedMantissa.mk.injEq, Nat.div_div_eq_div_mul,
      ← Nat.pow_succ]
    refine ⟨rfl, ?_, ?_⟩
    · rw [Nat.mod_pow_succ, Nat.pow_succ]
      rcases Nat.mod_two_eq_zero_or_one (n / 2 ^ k) with h | h
      · simp [h]
        omega
      · simp [h]
        omega
    · have hlast : 2 * (n % 2 ^ (k + 1)) % 2 ^ (k + 1) = 2 * (n % 2 ^ k) := by
        rw [@Nat.mod_pow_succ n, Nat.mul_add, ← Nat.mul_assoc, ← Nat.pow_succ', Nat.add_mul_mod_self_left]
        exact Nat.mod_eq_of_lt (by rw [Nat.pow_succ']; omega)
      rw [hlast, ← Bool.decide_or, decide_eq_decide]
      rcases Nat.lt_or_ge (2 * (n % 2 ^ k)) (2 ^ k) with h | h
      · rw [Nat.mod_eq_of_lt h]
        omega
      · have := Nat.two_pow_pos k
        omega

theorem roundedMantissa_shiftRight (n k : Nat) :
    ((⟨n, false, false⟩ : ExtendedMantissa) >>> k).roundedMantissa = halfEven n k := by
  have hrest : n % 2 ^ k < 2 ^ k := Nat.mod_lt n (Nat.two_pow_pos k)
  rw [shiftRight_eq, halfEven]
  rcases lt_trichotomy (2 * (n % 2 ^ k)) (2 ^ k) with h | h | h
  · rw [if_pos h, decide_eq_false (not_le.mpr h)]
    cases decide (2 * (n % 2 ^ k) % 2 ^ k ≠ 0) <;> rfl
  · rw [if_neg h.not_lt, if_pos h, h, Nat.mod_self]
    rw [decide_eq_true le_rfl]
    rfl
  · have hsticky : 2 * (n % 2 ^ k) % 2 ^ k ≠ 0 := by
      rw [Nat.mod_eq_sub_mod h.le, Nat.mod_eq_of_lt (by omega)]
      omega
    rw [if_neg h.not_gt, if_neg h.ne', decide_eq_true h.le, decide_eq_true hsticky]
    rfl

theorem targetExponent_eq (h : -1074 ≤ n.log2 - 52 + i) :
    Format.binary64.targetExponent (totalExponent n i) = n.log2 - 52 + i := by
  have hmin : Format.binary64.minExponent = -1074 := rfl
  have hbits : Format.binary64.mantissaBits = 53 := rfl
  rw [Format.targetExponent, totalExponent, hmin, hbits]
  omega

theorem shiftToTargetExponent_eq (hn : 2 ^ 52 ≤ n) (hi : -1074 ≤ i) :
    shiftToTargetExponent .binary64 n i .exact =
      ((⟨n, false, false⟩ : ExtendedMantissa) >>> excess n, i + excess n) := by
  have hlog := log2_eq_add_excess hn
  have hshift : (n.log2 - 52 + i - i).toNat = excess n := by omega
  rw [shiftToTargetExponent, targetExponent_eq (by omega), shiftToExponent, hshift]
  rfl

theorem exists_roundWithAccuracy (s : Sign) (hn : 2 ^ 52 ≤ n) (hi : -1074 ≤ i) : ∃ m l h,
    roundWithAccuracy .binary64 s n i .exact = .finite s m (i + (l : Nat)) h ∧
      2 ^ 52 ≤ m ∧ m < 2 ^ 53 ∧ m * 2 ^ l = nearestNat n := by
  have hlow := le_halfEven_excess hn
  -- The rounded significand has a digit too many only if it is a power of two.
  obtain ⟨m, hm, hm52, hm53⟩ : ∃ m, m * 2 ^ excess (halfEven n (excess n)) = halfEven n (excess n) ∧
      2 ^ 52 ≤ m ∧ m < 2 ^ 53 := by
    rcases (halfEven_excess_le hn).lt_or_eq with h | h
    · rw [excess_of_lt h]
      exact ⟨_, Nat.mul_one _, hlow, h⟩
    · rw [h]
      exact ⟨2 ^ 52, by decide, by decide, by decide⟩
  have hdiv : halfEven n (excess n) / 2 ^ excess (halfEven n (excess n)) = m :=
    Nat.div_eq_of_eq_mul_left (Nat.two_pow_pos _) hm.symm
  refine ⟨m, excess n + excess (halfEven n (excess n)), by omega, ?_, hm52, hm53, ?_⟩
  · unfold roundWithAccuracy
    simp only [shiftToTargetExponent_eq hn hi, roundedMantissa_shiftRight]
    simp only [shiftToTargetExponent_eq hlow (show -1074 ≤ i + excess n by omega), shiftRight_eq, hdiv]
    rw [dif_neg (by omega)]
    congr 1
    omega
  · rw [Nat.add_comm, Nat.pow_add, ← Nat.mul_assoc, hm]
    rfl

theorem round_eq (s : Sign) (n l : Nat) : UnpackedFloat.round .binary64 s n ((l : Nat) - 52) =
    roundWithAccuracy .binary64 s (n * 2 ^ (52 - n.log2))
      ((l : Nat) - 52 - (52 - n.log2 : Nat)) .exact := by
  have hshift : ((l : Int) - 52 - (n.log2 - 52 + (l - 52))).toNat = 52 - n.log2 := by omega
  rw [UnpackedFloat.round, targetExponent_eq (by omega), decreaseExponent, hshift, Nat.shiftLeft_eq]

theorem two_pow_le_padded (hn : n ≠ 0) : 2 ^ 52 ≤ n * 2 ^ (52 - n.log2) := by
  calc 2 ^ 52 ≤ 2 ^ (n.log2 + (52 - n.log2)) := Nat.pow_le_pow_right Nat.two_pos (by omega)
    _ = 2 ^ n.log2 * 2 ^ (52 - n.log2) := Nat.pow_add _ _ _
    _ ≤ n * 2 ^ (52 - n.log2) := Nat.mul_le_mul_right _ (Nat.log2_self_le hn)

/-- The digits `m` with the exponent `l - 52` are the number `k`, and there are 53 of them. -/
structure Significand (m l k : Nat) : Prop where
  low : 2 ^ 52 ≤ m
  high : m < 2 ^ 53
  value : m * 2 ^ l = k * 2 ^ 52

theorem significand_of_padded {c : Nat} (hlow : 2 ^ 52 ≤ m) (hhigh : m < 2 ^ 53) (hk : 0 < k)
    (h : m * 2 ^ l = k * 2 ^ 52 * 2 ^ c) : c ≤ l ∧ Significand m (l - c) k := by
  have hpow : 2 ^ (52 + c) < 2 ^ (53 + l) := by
    calc 2 ^ (52 + c) = 1 * 2 ^ 52 * 2 ^ c := by rw [Nat.one_mul, Nat.pow_add]
      _ ≤ k * 2 ^ 52 * 2 ^ c := Nat.mul_le_mul_right _ (Nat.mul_le_mul_right _ hk)
      _ = m * 2 ^ l := h.symm
      _ < 2 ^ 53 * 2 ^ l := Nat.mul_lt_mul_of_pos_right hhigh (Nat.two_pow_pos _)
      _ = 2 ^ (53 + l) := (Nat.pow_add _ _ _).symm
  have hle : c ≤ l := by
    have := (Nat.pow_lt_pow_iff_right (by decide)).mp hpow
    omega
  refine ⟨hle, hlow, hhigh, Nat.eq_of_mul_eq_mul_right (Nat.two_pow_pos c) ?_⟩
  rw [Nat.mul_assoc, ← Nat.pow_add, Nat.sub_add_cancel hle, h]

theorem exists_round (s : Sign) (hk : 0 < k) (h : n * 2 ^ l = k * 2 ^ 52) : ∃ m l' hm,
    UnpackedFloat.round .binary64 s n ((l : Nat) - 52) = .finite s m ((l' : Nat) - 52) hm ∧
      Significand m l' (nearestNat k) := by
  have hn : n ≠ 0 := by
    rintro rfl
    omega
  obtain ⟨m, l₀, hm, hround, hlow, hhigh, hv⟩ := exists_roundWithAccuracy s (two_pow_le_padded hn)
    (show -1074 ≤ (l : Int) - 52 - (52 - n.log2 : Nat) by omega)
  have hvalue : m * 2 ^ (l₀ + l) = nearestNat k * 2 ^ 52 * 2 ^ (52 - n.log2) := by
    calc m * 2 ^ (l₀ + l) = nearestNat n * 2 ^ (52 - n.log2) * 2 ^ l := by
          rw [Nat.pow_add, ← Nat.mul_assoc, hv, nearestNat_mul_two_pow]
      _ = nearestNat (n * 2 ^ l) * 2 ^ (52 - n.log2) := by
          rw [nearestNat_mul_two_pow, Nat.mul_right_comm]
      _ = nearestNat k * 2 ^ 52 * 2 ^ (52 - n.log2) := by rw [h, nearestNat_mul_two_pow]
  obtain ⟨hle, hsig⟩ := significand_of_padded hlow hhigh (nearestNat_pos hk) hvalue
  refine ⟨m, l₀ + l - (52 - n.log2), hm, ?_, hsig⟩
  rw [round_eq, hround]
  congr 1
  omega

/-! ## Normal forms -/

/-- The double `x` is the integer `i`, in the form that every operation leaves it in. -/
inductive Holds : Float.Model.UnpackedFloat → Int → Prop where
  | zero : Holds (.zero .positive) 0
  | positive {m l k : Nat} (hm : 0 < m) : Significand m l k →
      Holds (.finite .positive m ((l : Nat) - 52) hm) k
  | negative {m l k : Nat} (hm : 0 < m) : Significand m l k →
      Holds (.finite .negative m ((l : Nat) - 52) hm) (-k)

theorem compare_congr {α β : Type} [LinearOrder α] [LinearOrder β] {a b : α} {c d : β}
    (hlt : a < b ↔ c < d) (hgt : b < a ↔ d < c) : compare a b = compare c d := by
  rcases lt_trichotomy a b with h | h | h
  · rw [compare_lt_iff_lt.mpr h, compare_lt_iff_lt.mpr (hlt.mp h)]
  · have hcd : c = d := le_antisymm (not_lt.mp (hgt.not.mp h.not_gt)) (not_lt.mp (hlt.not.mp h.not_lt))
    rw [compare_eq_iff_eq.mpr h, compare_eq_iff_eq.mpr hcd]
  · rw [compare_gt_iff_gt.mpr h, compare_gt_iff_gt.mpr (hgt.mp h)]

namespace Significand

variable {m' l' k' : Nat}

theorem pos (h : Significand m l k) : 0 < k := by
  have hpos : 0 < m * 2 ^ l := Nat.mul_pos (by have := h.low; omega) (Nat.two_pow_pos l)
  have := h.value
  omega

theorem value_int (h : Significand m l k) : (m : Int) * 2 ^ l = k * 2 ^ 52 := by
  have := h.value
  exact_mod_cast this

theorem nearestNat_eq (h : Significand m l k) : nearestNat k = k := by
  refine Nat.eq_of_mul_eq_mul_right (Nat.two_pow_pos 52) ?_
  rw [← nearestNat_mul_two_pow, ← h.value, nearestNat_mul_two_pow, nearestNat_of_lt h.high]

theorem two_pow_le (h : Significand m l k) : 2 ^ l ≤ k := by
  have hvalue : 2 ^ 52 * 2 ^ l ≤ k * 2 ^ 52 := h.value ▸ Nat.mul_le_mul_right _ h.low
  rw [Nat.mul_comm] at hvalue
  exact Nat.le_of_mul_le_mul_right hvalue (Nat.two_pow_pos 52)

theorem lt_of_lt (h : Significand m l k) (h' : Significand m' l' k') (hl : l < l') : k < k' := by
  have hvalue : m * 2 ^ l < m' * 2 ^ l' := by
    calc m * 2 ^ l < 2 ^ 53 * 2 ^ l := Nat.mul_lt_mul_of_pos_right h.high (Nat.two_pow_pos _)
      _ = 2 ^ 52 * 2 ^ (l + 1) := by
        rw [← Nat.pow_add, ← Nat.pow_add, show 53 + l = 52 + (l + 1) by omega]
      _ ≤ m' * 2 ^ l' := Nat.mul_le_mul h'.low (Nat.pow_le_pow_right Nat.two_pos hl)
  rw [h.value, h'.value] at hvalue
  omega

theorem compare_eq (h : Significand m l k) (h' : Significand m' l' k') :
    (compare ((l : Int) - 52) (l' - 52)).then (compare m m') = compare k k' := by
  rcases lt_trichotomy l l' with hl | rfl | hl
  · rw [compare_lt_iff_lt.mpr (by omega), compare_lt_iff_lt.mpr (h.lt_of_lt h' hl)]
    rfl
  · have hvalue : m < m' ↔ k < k' := by
      rw [← Nat.mul_lt_mul_right (Nat.two_pow_pos l), h.value, h'.value]
      omega
    have hvalue' : m' < m ↔ k' < k := by
      rw [← Nat.mul_lt_mul_right (Nat.two_pow_pos l), h.value, h'.value]
      omega
    rw [compare_eq_iff_eq.mpr rfl]
    exact compare_congr hvalue hvalue'
  · rw [compare_gt_iff_gt.mpr (by omega), compare_gt_iff_gt.mpr (h'.lt_of_lt h hl)]
    rfl

theorem unique (h : Significand m l k) (h' : Significand m' l' k) : m = m' ∧ l = l' := by
  have heq := h.compare_eq h'
  rw [compare_eq_iff_eq.mpr rfl, Ordering.then_eq_eq] at heq
  have := compare_eq_iff_eq.mp heq.1
  exact ⟨compare_eq_iff_eq.mp heq.2, by omega⟩

end Significand

theorem apply_shiftLeft (s : Sign) (n k l : Nat) :
    s.apply (n <<< k : Nat) * 2 ^ l = s.apply n * 2 ^ (k + l) := by
  have h : ((n <<< k : Nat) : Int) * 2 ^ l = n * 2 ^ (k + l) := by
    rw [Nat.shiftLeft_eq, Int.pow_add, ← Int.mul_assoc]
    push_cast
    rfl
  cases s with
  | positive => exact h
  | negative => exact (Int.neg_mul _ _).trans (h ▸ (Int.neg_mul _ _).symm)

namespace Holds

theorem unique (hx : Holds x i) (hy : Holds y i) : x = y := by
  cases hx with
  | zero =>
    generalize hi : (0 : Int) = i at hy
    cases hy with
    | zero => rfl
    | positive hm h => have := h.pos; omega
    | negative hm h => have := h.pos; omega
  | @positive m l k hm h =>
    generalize hi : (k : Int) = i at hy
    cases hy with
    | zero => have := h.pos; omega
    | positive hm' h' =>
      obtain rfl := Int.ofNat.inj hi
      obtain ⟨rfl, rfl⟩ := h.unique h'
      rfl
    | negative hm' h' => have := h.pos; have := h'.pos; omega
  | @negative m l k hm h =>
    generalize hi : -(k : Int) = i at hy
    cases hy with
    | zero => have := h.pos; omega
    | positive hm' h' => have := h.pos; have := h'.pos; omega
    | negative hm' h' =>
      obtain rfl := Int.ofNat.inj (Int.neg_inj.mp hi)
      obtain ⟨rfl, rfl⟩ := h.unique h'
      rfl

theorem compare_eq (hx : Holds x i) (hy : Holds y j) : x.compare y = some (compare i j) := by
  have hcast : ∀ k k' : Nat, compare k k' = compare (k : Int) k' :=
    fun k k' => compare_congr (by omega) (by omega)
  cases hx with
  | zero =>
    cases hy with
    | zero => rfl
    | positive hm h =>
      have := h.pos
      rw [compare_lt_iff_lt.mpr (by omega)]
      rfl
    | negative hm h =>
      have := h.pos
      rw [compare_gt_iff_gt.mpr (by omega)]
      rfl
  | positive hm h =>
    have := h.pos
    cases hy with
    | zero =>
      rw [compare_gt_iff_gt.mpr (by omega)]
      rfl
    | positive hm' h' =>
      rw [← hcast, ← h.compare_eq h']
      rfl
    | negative hm' h' =>
      rw [compare_gt_iff_gt.mpr (by omega)]
      rfl
  | @negative m l k hm h =>
    have := h.pos
    cases hy with
    | zero =>
      rw [compare_lt_iff_lt.mpr (by omega)]
      rfl
    | positive hm' h' =>
      rw [compare_lt_iff_lt.mpr (by omega)]
      rfl
    | @negative m' l' k' hm' h' =>
      have hneg : compare (-(k : Int)) (-k') = (compare k k').swap := by
        rw [← Std.OrientedOrd.eq_swap]
        exact compare_congr (by omega) (by omega)
      rw [hneg, ← h.compare_eq h']
      rfl

theorem neg (hx : Holds x i) (hi : i ≠ 0) : Holds x.neg (-i) := by
  cases hx with
  | zero => exact absurd rfl hi
  | positive hm h => exact .negative hm h
  | negative hm h =>
    rw [Int.neg_neg]
    exact .positive hm h

theorem isFinite (hx : Holds x i) : x.isFinite = true := by
  cases hx <;> rfl

/-- Normalizing takes an integer to the nearest one with 53 digits. -/
theorem normalize {v : Int} (h : v * 2 ^ l = i * 2 ^ 52) :
    Holds (UnpackedFloat.normalize .binary64 v ((l : Nat) - 52) .positive) (nearest i) := by
  have hpow : (0 : Int) < 2 ^ l := Int.pow_pos (by decide)
  rw [UnpackedFloat.normalize]
  rcases lt_trichotomy v 0 with hv | rfl | hv
  · have hneg : v * 2 ^ l < 0 := Int.mul_neg_of_neg_of_pos hv hpow
    obtain ⟨n, rfl⟩ := Int.exists_eq_neg_ofNat hv.le
    obtain ⟨k, rfl⟩ := Int.exists_eq_neg_ofNat (show i ≤ 0 by omega)
    rw [Int.neg_mul] at h hneg
    rw [Int.neg_mul, Int.neg_inj] at h
    obtain ⟨m, l', hm, hround, hsig⟩ := exists_round .negative (show 0 < k by omega)
      (show n * 2 ^ l = k * 2 ^ 52 by exact_mod_cast h)
    rw [compare_lt_iff_lt.mpr hv, Int.neg_neg, nearest_neg, nearest_ofNat]
    dsimp only
    rw [Int.toNat_natCast, hround]
    exact .negative hm hsig
  · obtain rfl : i = 0 := by omega
    exact .zero
  · have hpos : 0 < v * 2 ^ l := Int.mul_pos hv hpow
    obtain ⟨n, rfl⟩ := Int.eq_ofNat_of_zero_le hv.le
    obtain ⟨k, rfl⟩ := Int.eq_ofNat_of_zero_le (show 0 ≤ i by omega)
    obtain ⟨m, l', hm, hround, hsig⟩ := exists_round .positive (show 0 < k by omega)
      (show n * 2 ^ l = k * 2 ^ 52 by exact_mod_cast h)
    rw [compare_gt_iff_gt.mpr hv, nearest_ofNat]
    dsimp only
    rw [Int.toNat_natCast, hround]
    exact .positive hm hsig

theorem nearest_eq (hx : Holds x i) : nearest i = i := by
  cases hx with
  | zero => rfl
  | positive hm h => rw [nearest_ofNat, h.nearestNat_eq]
  | negative hm h => rw [nearest_neg, nearest_ofNat, h.nearestNat_eq]

theorem exists_apply {e : Int} {hm : 0 < m} (hx : Holds (.finite s m e hm) i) :
    ∃ l : Nat, e = l - 52 ∧ s.apply m * 2 ^ l = i * 2 ^ 52 := by
  cases hx with
  | @positive m l k hm h => exact ⟨l, rfl, h.value_int⟩
  | @negative m l k hm h =>
    refine ⟨l, rfl, ?_⟩
    rw [Int.neg_mul, ← h.value_int, ← Int.neg_mul]
    rfl

/-- The sum of two integers is rounded once. -/
theorem add (hx : Holds x i) (hy : Holds y j) :
    Holds (UnpackedFloat.add .binary64 x y) (nearest (i + j)) := by
  cases x with
  | notANumber => cases hx
  | infinity s => cases hx
  | zero s =>
    cases hx
    rw [Int.zero_add, hy.nearest_eq]
    cases hy with
    | zero => exact .zero
    | positive hm h => exact .positive hm h
    | negative hm h => exact .negative hm h
  | finite s m e hm =>
    cases y with
    | notANumber => cases hy
    | infinity s => cases hy
    | zero s' =>
      cases hy
      rw [Int.add_zero, hx.nearest_eq]
      exact hx
    | finite s' m' e' hm' =>
      obtain ⟨l, rfl, hv⟩ := hx.exists_apply
      obtain ⟨l', rfl, hv'⟩ := hy.exists_apply
      have hmin : min ((l : Int) - 52) (l' - 52) = (min l l' : Nat) - 52 := by omega
      have hshift : ((l : Int) - 52 - ((min l l' : Nat) - 52)).toNat = l - min l l' := by omega
      have hshift' : ((l' : Int) - 52 - ((min l l' : Nat) - 52)).toNat = l' - min l l' := by omega
      simp only [UnpackedFloat.add, hmin, decreaseExponent, hshift, hshift']
      refine Holds.normalize ?_
      rw [Int.add_mul, apply_shiftLeft, apply_shiftLeft, Nat.sub_add_cancel (Nat.min_le_left l l'),
        Nat.sub_add_cancel (Nat.min_le_right l l'), hv, hv', ← Int.add_mul]

theorem mul_one (hx : Holds x i) :
    Holds (UnpackedFloat.mul .binary64 x (.finite .positive (2 ^ 52) (-52) (by decide))) i := by
  have hround : ∀ (s : Sign) {m l k : Nat} (hm : 0 < m), Significand m l k →
      roundWithAccuracy .binary64 s (m * 2 ^ 52) (l - 52 + -52) .exact = .finite s m (l - 52) hm := by
    intro s m l k hm h
    obtain ⟨m', l', hm', hround, hlow, hhigh, hv⟩ := exists_roundWithAccuracy s
      (n := m * 2 ^ 52) (i := l - 52 + -52) (by omega) (by omega)
    rw [nearestNat_mul_two_pow, nearestNat_of_lt h.high] at hv
    obtain ⟨rfl, rfl⟩ := Significand.unique ⟨hlow, hhigh, hv⟩ ⟨h.low, h.high, rfl⟩
    have hexponent : (l : Int) - 52 + -52 + (52 : Nat) = l - 52 := by omega
    simp only [hround, hexponent]
  cases hx with
  | zero => exact .zero
  | @positive m l k hm h =>
    have hmul : UnpackedFloat.mul .binary64 (.finite .positive m (l - 52) hm)
        (.finite .positive (2 ^ 52) (-52) (by decide)) = .finite .positive m (l - 52) hm :=
      hround .positive hm h
    rw [hmul]
    exact .positive hm h
  | @negative m l k hm h =>
    have hmul : UnpackedFloat.mul .binary64 (.finite .negative m (l - 52) hm)
        (.finite .positive (2 ^ 52) (-52) (by decide)) = .finite .negative m (l - 52) hm :=
      hround .negative hm h
    rw [hmul]
    exact .negative hm h

end Holds

/-! ## Packing -/

/-- Numbers with 53 digits survive packing. -/
theorem unpack_pack_finite (s : Sign) (hm : 0 < m) (hlow : 2 ^ 52 ≤ m) (hhigh : m < 2 ^ 53)
    (hl : l < 1000) : UnpackedFloat.unpack .binary64 (UnpackedFloat.pack .binary64
      (.finite s m ((l : Nat) - 52) hm)) = .finite s m ((l : Nat) - 52) hm := by
  have hbias : Format.binary64.exponentBias = 1023 := rfl
  have hlog : m.log2 = 52 := by rw [log2_eq_add_excess hlow, excess_of_lt hhigh]
  have hpack : UnpackedFloat.pack .binary64 (.finite s m ((l : Nat) - 52) hm) =
      packComponents .binary64 s (BitVec.ofNat 11 (l + 1023)) (BitVec.ofNat 52 m) := by
    have hbiased : ((l : Int) - 52 + (1023 : Nat) + (52 : Nat)).toNat = l + 1023 := by omega
    rw [UnpackedFloat.pack]
    simp only [hlog, hbias, hbiased]
    rw [if_neg (by omega), if_pos (show 52 + 1 = Format.binary64.mantissaBits from rfl)]
  have hexponent : (BitVec.ofNat 11 (l + 1023)).toNat = l + 1023 := by
    rw [BitVec.toNat_ofNat, Nat.mod_eq_of_lt (by omega)]
  have hsignificand : (1#1 ++ BitVec.ofNat 52 m).toNat = m := by
    rw [BitVec.toNat_append, ← Nat.shiftLeft_add_eq_or_of_lt (BitVec.ofNat 52 m).isLt,
      BitVec.toNat_ofNat, Nat.shiftLeft_eq, BitVec.toNat_ofNat]
    omega
  have hnotTop : BitVec.ofNat 11 (l + 1023) ≠ -1#11 := by
    intro h
    rw [h, show (-1#11 : BitVec 11).toNat = 2047 from rfl] at hexponent
    omega
  have hnotZero : BitVec.ofNat 11 (l + 1023) ≠ 0#11 := by
    intro h
    rw [h, BitVec.toNat_zero] at hexponent
    omega
  rw [hpack, UnpackedFloat.unpack]
  simp only [unpackMantissa_packComponents, unpackExponent_packComponents, unpackSign_packComponents,
    Sign.ofBitVec_toBitVec, hexponent, hsignificand, hbias]
  rw [if_neg hnotTop, if_neg hnotZero]
  have hunbiased : ((l + 1023 : Nat) : Int) - ((1023 : Nat) + (52 : Nat)) = l - 52 := by omega
  simp only [hunbiased]

theorem Holds.unpack_pack (hx : Holds x i) (hi : i.natAbs < 2 ^ 100) : (Float.Model.pack x).unpack = x := by
  have hsmall : ∀ {m l k : Nat}, Significand m l k → k < 2 ^ 100 → l < 1000 := by
    intro m l k h hk
    have := (Nat.pow_lt_pow_iff_right (by decide)).mp (h.two_pow_le.trans_lt hk)
    omega
  cases hx with
  | zero => rfl
  | positive hm h => exact unpack_pack_finite .positive hm h.low h.high (hsmall h (by omega))
  | negative hm h => exact unpack_pack_finite .negative hm h.low h.high (hsmall h (by omega))

/-! ## Doubles -/

/-- The double `f` is the integer `i`. -/
def IsInt (f : Float) (i : Int) : Prop :=
  ∃ x, f = .ofModel (.pack x) ∧ Holds x i ∧ i.natAbs < 2 ^ 100

namespace IsInt

variable {f g : Float}

theorem holds (h : IsInt f i) : Holds f.toModel.unpack i := by
  obtain ⟨x, rfl, hx, hi⟩ := h
  rwa [hx.unpack_pack hi]

theorem unique (hf : IsInt f i) (hg : IsInt g i) : f = g := by
  obtain ⟨x, rfl, hx, -⟩ := hf
  obtain ⟨y, rfl, hy, -⟩ := hg
  rw [hx.unique hy]

theorem lt_iff (hf : IsInt f i) (hg : IsInt g j) : f < g ↔ i < j := by
  have h : f < g ↔ (f.toModel.unpack.compare g.toModel.unpack == some .lt) = true :=
    decide_eq_true_iff
  rw [h, hf.holds.compare_eq hg.holds, beq_iff_eq, Option.some.injEq, compare_lt_iff_lt]

theorem beq_iff (hf : IsInt f i) (hg : IsInt g j) : (f == g) = true ↔ i = j := by
  have h : (f == g) = (f.toModel.unpack.compare g.toModel.unpack == some .eq) := rfl
  rw [h, hf.holds.compare_eq hg.holds, beq_iff_eq, Option.some.injEq, compare_eq_iff_eq]

theorem isFinite (h : IsInt f i) : f.isFinite = true := h.holds.isFinite

theorem natAbs_lt (h : IsInt f i) : i.natAbs < 2 ^ 100 := by
  obtain ⟨-, -, -, h⟩ := h
  exact h

theorem neg (h : IsInt f i) (hi : i ≠ 0) : IsInt f.neg (-i) :=
  ⟨_, rfl, h.holds.neg hi, (Int.natAbs_neg i).symm ▸ h.natAbs_lt⟩

theorem add (hf : IsInt f i) (hg : IsInt g j) (h : (i + j).natAbs < 2 ^ 99) :
    IsInt (f + g) (nearest (i + j)) :=
  ⟨_, rfl, hf.holds.add hg.holds, (natAbs_nearest_le h).trans_lt (by decide)⟩

theorem mul_one (hf : IsInt f i)
    (hg : g.toModel.unpack = .finite .positive (2 ^ 52) (-52) (by decide)) : IsInt (f * g) i := by
  have hmul : f * g = .ofModel (.pack (UnpackedFloat.mul .binary64 f.toModel.unpack g.toModel.unpack)) := rfl
  rw [hmul, hg]
  exact ⟨_, rfl, hf.holds.mul_one, hf.natAbs_lt⟩

end IsInt

theorem holds_ofScientific (hn : 0 < n) :
    Holds (UnpackedFloat.ofScientific .binary64 n 0) (nearestNat n) := by
  have hround : UnpackedFloat.ofScientific .binary64 n 0 =
      roundWithAccuracy .binary64 .positive (n * 2 ^ 53) (-53) .exact := by
    have hsmall : ¬ (0 : Int) < -((2 : Int) ^ 11 + n.log2) := by omega
    rw [UnpackedFloat.ofScientific, dif_neg hn.ne', if_neg (by decide), if_neg hsmall, if_pos le_rfl,
      UnpackedFloat.mul, Int.toNat_zero, Nat.pow_zero, Nat.mul_one, Int.add_zero, ← Nat.shiftLeft_eq]
    rfl
  obtain ⟨m, l, hm, hfinite, hlow, hhigh, hv⟩ := exists_roundWithAccuracy .positive
    (n := n * 2 ^ 53) (i := -53) (by omega) (by decide)
  rw [nearestNat_mul_two_pow] at hv
  obtain ⟨hle, hsig⟩ := significand_of_padded hlow hhigh (nearestNat_pos hn)
    (show m * 2 ^ l = nearestNat n * 2 ^ 52 * 2 ^ 1 by omega)
  have hexponent : (-53 : Int) + l = (l - 1 : Nat) - 52 := by omega
  simp only [hround, hfinite, hexponent]
  exact .positive hm hsig

theorem unpack_one : (Float.ofBits 0x3FF0000000000000).toModel.unpack =
    .finite .positive (2 ^ 52) (-52) (by decide) := by
  rfl

theorem isInt_ofNat (h : n < 2 ^ 99) : IsInt (Float.ofNat n) (nearestNat n) := by
  have hofNat : Float.ofNat n = Float.ofScientific n false 0 := rfl
  rw [hofNat, Float.ofScientific]
  rcases Nat.lt_or_ge n (2 ^ 53) with hn | hn
  · rw [dif_pos ⟨hn, by decide⟩, nearestNat_of_lt hn]
    have hint : IsInt n.toUInt64.toFloat n := by
      have hx : Holds (UnpackedFloat.normalize .binary64 n ((52 : Nat) - 52) .positive) (nearest n) :=
        .normalize rfl
      rw [nearest_ofNat, nearestNat_of_lt hn] at hx
      refine ⟨_, ?_, hx, by omega⟩
      have hword : n.toUInt64.toNat = n := UInt64.toNat_ofNat_of_lt (hn.trans (by decide))
      have hfloat : n.toUInt64.toFloat =
        .ofModel (.pack (UnpackedFloat.normalize .binary64 (n.toUInt64.toNat : Nat) 0 .positive)) := rfl
      rw [hfloat, hword]
      rfl
    have hsize : 0 < Float.exactlyRepresentablePowersOfTen.size := by decide
    have hone : Float.exactlyRepresentablePowersOfTen[0] = Float.ofBits 0x3FF0000000000000 := by rfl
    exact hint.mul_one (hone ▸ unpack_one)
  · have hle := nearestNat_le h
    rw [dif_neg (by omega)]
    exact ⟨_, rfl, holds_ofScientific (by omega), by omega⟩

theorem isInt_ofInt (h : i.natAbs < 2 ^ 99) : IsInt (Float.ofInt i) (nearest i) := by
  cases i with
  | ofNat n =>
    rw [Int.ofNat_eq_natCast, nearest_ofNat]
    exact isInt_ofNat h
  | negSucc n =>
    have hne : (nearestNat (n + 1) : Int) ≠ 0 := by
      have := nearestNat_pos (Nat.add_one_pos n)
      omega
    rw [Int.negSucc_eq, nearest_neg, ← Int.natCast_succ, nearest_ofNat]
    exact (isInt_ofNat h).neg hne

end Double

end StepFlow
