import StepFlow.Proofs.Path.Writing

/-!
# The cursor of a slice

The cursor of a slice starts within the array or next to it, and from every position that the slice
visits it moves on by one step. So it stays a signed 64-bit integer exactly if no position and the step
add up to more than the greatest one.

* `Slice.mem_cursors_iff`: where the cursor stands;
* `Slice.exists_place_outside`: the cursor leaves the slice within as many rounds as there are items;
* `Slice.lt_of_mem_positions`: a slice visits positions of the array only;
* `Slice.fits_iff`: when the cursor stays in range, and `Slice.fits_of_room`: when it does for sure;
* **`Slice.behaves`**: all of this together.
-/

namespace StepFlow.Slice

variable {length rounds : Nat} {start stop : Option Int} {last step cursor x : Int}

/-! ## The places of the cursor -/

theorem mem_cursors_iff : x ∈ cursors last step rounds cursor ↔
    x = cursor ∨ ∃ y ∈ (cursors last step rounds cursor).dropLast, x = y + step := by
  induction rounds generalizing cursor with
  | zero => simp [cursors]
  | succ rounds ih =>
    rw [dropLast_cursors_succ, cursors]
    split
    · rw [List.mem_cons, ih]
      simp only [List.mem_cons, exists_eq_or_imp]
    · simp

theorem exists_mem_cursors_outside (hup : 0 < step → last - cursor ≤ rounds)
    (hdown : step < 0 → cursor - last ≤ rounds) :
    ∃ x, (cursors last step rounds cursor).getLast? = some x ∧ inside x last step = false := by
  induction rounds generalizing cursor with
  | zero =>
    refine ⟨cursor, rfl, ?_⟩
    simp only [inside]
    split <;> simp <;> omega
  | succ rounds ih =>
    rw [cursors]
    split
    · have hup' : 0 < step → last - (cursor + step) ≤ rounds := fun h => by
        have := hup h
        omega
      have hdown' : step < 0 → cursor + step - last ≤ rounds := fun h => by
        have := hdown h
        omega
      obtain ⟨x, hx, hout⟩ := ih hup' hdown'
      exact ⟨x, by rw [List.getLast?_cons, hx, Option.getD_some], hout⟩
    · next hout => exact ⟨cursor, rfl, by simpa using hout⟩

/-! ## Within an array -/

theorem first_bounds (length : Nat) (start : Option Int) (step : Int) :
    -1 ≤ first length start step ∧ first length start step ≤ length := by
  unfold first clamp
  split <;> omega

theorem last_bounds (length : Nat) (stop : Option Int) (step : Int) :
    -1 ≤ Slice.last length stop step ∧ Slice.last length stop step ≤ length := by
  unfold Slice.last clamp
  split <;> omega

theorem exists_place_outside (length : Nat) (start stop : Option Int) (step : Int) :
    ∃ x, (places length start stop step).getLast? = some x ∧
      inside x (Slice.last length stop step) step = false := by
  refine exists_mem_cursors_outside (fun hup => ?_) fun hdown => ?_
  · have hfirst : 0 ≤ first length start step := by
      rw [first, if_pos hup, clamp]
      omega
    have hlast := (last_bounds length stop step).2
    omega
  · have hfirst : first length start step ≤ length - 1 := by
      rw [first, if_neg (by omega), clamp]
      omega
    have hlast := (last_bounds length stop step).1
    omega

theorem lt_of_mem_places (h : x ∈ (places length start stop step).dropLast) : x < length := by
  obtain ⟨hinside, -, hge⟩ := mem_dropLast_cursors h
  unfold inside at hinside
  by_cases hup : step > 0
  · have hlast := (last_bounds length stop step).2
    simp only [hup, if_true, decide_eq_true_eq] at hinside
    omega
  · -- going down, the cursor starts at the last item at most
    have hfirst : first length start step ≤ length - 1 := by
      rw [first, if_neg hup, clamp]
      omega
    simp only [hup, if_false, Bool.and_eq_true, decide_eq_true_eq] at hinside
    have hx := hge hinside.1
    omega

theorem mem_positions {i : Nat} : i ∈ positions length start stop step ↔
    (i : Int) ∈ (places length start stop step).dropLast := by
  refine List.mem_map.trans ⟨?_, fun h => ⟨i, h, Int.toNat_natCast i⟩⟩
  rintro ⟨x, hx, rfl⟩
  rwa [Int.toNat_of_nonneg (nonneg_of_mem_places hx)]

theorem lt_of_mem_positions {i : Nat} (h : i ∈ positions length start stop step) : i < length := by
  have hi := lt_of_mem_places (mem_positions.mp h)
  omega

/-! ## Staying in range -/

/-- How the cursor of a slice behaves over an array of `length` items. -/
structure Behaves (length : Nat) (start stop : Option Int) (step : Int) : Prop where
  /-- The cursor leaves the slice by itself. -/
  leaves : ∃ x, (places length start stop step).getLast? = some x ∧
    inside x (Slice.last length stop step) step = false
  /-- The slice visits positions of the array only. -/
  visits : ∀ i ∈ positions length start stop step, i < length
  /-- The cursor stays in range exactly if no position and the step add up to too much. -/
  fits : fits length start stop step = true ↔
    ∀ i ∈ positions length start stop step, i + step ≤ Number.maxSigned

theorem isSigned64_iff : Number.isSigned64 x = true ↔
    -9223372036854775808 ≤ x ∧ x ≤ 9223372036854775807 := by
  rw [Number.isSigned64, Bool.and_eq_true, decide_eq_true_iff, decide_eq_true_iff, Number.minInt,
    Number.maxSigned]

theorem fits_iff (hl : (length : Int) ≤ Number.maxSigned) (hstep : Number.minInt ≤ step) :
    fits length start stop step = true ↔
      ∀ i ∈ positions length start stop step, i + step ≤ Number.maxSigned := by
  have hfirst := first_bounds length start step
  rw [fits, List.all_eq_true]
  simp only [isSigned64_iff, Number.maxSigned, Number.minInt] at hl hstep ⊢
  constructor
  · intro h i hi
    exact (h _ (mem_cursors_iff.mpr (.inr ⟨i, mem_positions.mp hi, rfl⟩))).2
  · intro h x hx
    rcases mem_cursors_iff.mp hx with rfl | ⟨y, hy, rfl⟩
    · omega
    · have hpos := nonneg_of_mem_places hy
      have hsum := h y.toNat (mem_positions.mpr (by rwa [Int.toNat_of_nonneg hpos]))
      omega

/-- **How the cursor of a slice behaves**, over any array that a machine can hold. -/
theorem behaves (hl : (length : Int) ≤ Number.maxSigned) (hstep : Number.minInt ≤ step)
    (start stop : Option Int) : Behaves length start stop step where
  leaves := exists_place_outside length start stop step
  visits _ hi := lt_of_mem_positions hi
  fits := fits_iff hl hstep

theorem fits_of_room {room : Nat} (hroom : (room : Int) ≤ Number.maxSigned)
    (hstep : Number.minInt ≤ step) (hsum : room + step ≤ Number.maxSigned + 1) (hl : length ≤ room) :
    fits length start stop step = true := by
  refine (fits_iff (by omega) hstep).mpr fun i hi => ?_
  have hlt := lt_of_mem_positions hi
  omega

end StepFlow.Slice
