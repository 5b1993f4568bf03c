import Mathlib.Data.List.Sort
import Mathlib.Tactic.Ring
import StepFlow.Proofs.Path.Cursor

/-!
# Which positions a slice lists

A slice lists the positions that lie a whole number of steps behind its origin and before its stop, from
its origin on. The bounds of a slice are not those of the array: where they lie beyond its ends, they are
moved there, and nothing that could be listed is lost by that.

* `Slice.origin`, `Slice.Lists`: what a slice is meant to list;
* `Slice.mem_places_iff`: the places of the cursor within the slice;
* `Slice.mem_positions_iff_lists`, `Slice.pairwise_positions`: the positions and their order;
* **`Slice.lists_strides`**: together with the slices that list every position once.
-/

namespace StepFlow.Slice

variable {length rounds : Nat} {start stop : Option Int} {last step cursor x : Int}

/-! ## What a slice is meant to list -/

/-- The place from where on a slice counts its steps, which need not be a position of the array: the
nearest end of the array, unless the slice starts within it or beyond its other end. -/
def origin (length : Nat) (start : Option Int) (step : Int) : Int :=
  if 0 < step then start.elim 0 fun s => max (normalize length s) 0
  else start.elim (length - 1) fun s => min (normalize length s) (length - 1)

/-- The slice is meant to list a position. -/
structure Lists (length : Nat) (start stop : Option Int) (step : Int) (i : Nat) : Prop where
  lt : i < length
  /-- It lies a whole number of steps behind the origin. -/
  reached : ∃ m : Nat, (i : Int) = origin length start step + m * step
  /-- It lies before the stop, if there is one. -/
  before : ∀ e, stop = some e → 0 < step → (i : Int) < normalize length e
  /-- For a slice that goes down, it lies above the stop. -/
  above : ∀ e, stop = some e → step < 0 → normalize length e < (i : Int)

/-! ## The places of the cursor -/

theorem inside_iff (hstep : step ≠ 0) :
    inside x last step = true ↔ (0 < step → x < last) ∧ (step < 0 → last < x) := by
  unfold inside
  by_cases hup : 0 < step
  · simp [hup, Int.lt_asymm hup]
  · have hdown : step < 0 := by omega
    simp [hup, hdown]

theorem steps_ahead (cursor step : Int) (m : Nat) : (0 < step → cursor ≤ cursor + m * step) ∧
    (step < 0 → cursor + m * step ≤ cursor) := by
  have hm : (0 : Int) ≤ m := Int.natCast_nonneg m
  refine ⟨fun hup => ?_, fun hdown => ?_⟩
  · have := Int.mul_nonneg hm hup.le
    omega
  · have := Int.mul_nonpos_of_nonneg_of_nonpos hm hdown.le
    omega

theorem steps_succ (cursor step : Int) (m : Nat) :
    cursor + (m + 1 : Nat) * step = cursor + step + m * step := by
  push_cast
  ring

theorem inside_of_ahead {m : Nat} (hstep : step ≠ 0)
    (h : inside (cursor + m * step) last step = true) : inside cursor last step = true := by
  have hahead := steps_ahead cursor step m
  rw [inside_iff hstep] at h ⊢
  exact ⟨fun hup => Int.lt_of_le_of_lt (hahead.1 hup) (h.1 hup),
    fun hdown => Int.lt_of_lt_of_le (h.2 hdown) (hahead.2 hdown)⟩

theorem mem_dropLast_cursors_iff (hstep : step ≠ 0) (hup : 0 < step → last - cursor ≤ rounds)
    (hdown : step < 0 → cursor - last ≤ rounds) :
    x ∈ (cursors last step rounds cursor).dropLast ↔
      inside x last step = true ∧ ∃ m : Nat, x = cursor + m * step := by
  induction rounds generalizing cursor with
  | zero =>
    have hout : ¬ inside cursor last step = true := by
      rw [inside_iff hstep]
      omega
    simp only [cursors, List.dropLast_singleton, List.not_mem_nil, false_iff, not_and]
    rintro hx ⟨m, rfl⟩
    exact hout (inside_of_ahead hstep hx)
  | succ rounds ih =>
    have hup' : 0 < step → last - (cursor + step) ≤ rounds := by
      intro h
      have := hup h
      omega
    have hdown' : step < 0 → cursor + step - last ≤ rounds := by
      intro h
      have := hdown h
      omega
    have ih := ih hup' hdown'
    rw [dropLast_cursors_succ]
    by_cases hin : inside cursor last step = true
    · rw [if_pos hin, List.mem_cons, ih]
      constructor
      · rintro (rfl | ⟨hx, m, rfl⟩)
        · exact ⟨hin, 0, by simp⟩
        · exact ⟨hx, m + 1, (steps_succ cursor step m).symm⟩
      · rintro ⟨hx, m, rfl⟩
        cases m with
        | zero => exact .inl (by simp)
        | succ m => exact .inr ⟨hx, m, steps_succ cursor step m⟩
    · rw [if_neg hin]
      simp only [List.not_mem_nil, false_iff, not_and]
      rintro hx ⟨m, rfl⟩
      exact hin (inside_of_ahead hstep hx)

theorem rounds_suffice (length : Nat) (start stop : Option Int) (step : Int) :
    (0 < step → Slice.last length stop step - first length start step ≤ length) ∧
    (step < 0 → first length start step - Slice.last length stop step ≤ length) := by
  have hlast := last_bounds length stop step
  refine ⟨fun hup => ?_, fun hdown => ?_⟩
  · have : 0 ≤ first length start step := by
      rw [first, if_pos hup, clamp]
      omega
    omega
  · have : first length start step ≤ length - 1 := by
      rw [first, if_neg (by omega), clamp]
      omega
    omega

theorem mem_places_iff (hstep : step ≠ 0) : x ∈ (places length start stop step).dropLast ↔
    inside x (Slice.last length stop step) step = true ∧
      ∃ m : Nat, x = first length start step + m * step :=
  have h := rounds_suffice length start stop step
  mem_dropLast_cursors_iff hstep h.1 h.2

/-! ## From the cursor to the positions -/

/-- The first place of the cursor is the origin, unless both are beyond the array in the direction of the
step. -/
theorem first_eq_origin_or (length : Nat) (start : Option Int) (step : Int) :
    first length start step = origin length start step ∨
      (0 < step → length ≤ first length start step ∧ length ≤ origin length start step) ∧
      (step ≤ 0 → first length start step < 0 ∧ origin length start step < 0) := by
  unfold first origin clamp
  by_cases hup : 0 < step
  · rw [if_pos hup, if_pos hup]
    cases start with
    | none =>
      simp only [Option.map_none, Option.getD_none, Option.elim_none]
      omega
    | some s =>
      simp only [Option.map_some, Option.getD_some, Option.elim_some]
      omega
  · rw [if_neg hup, if_neg hup]
    cases start with
    | none =>
      simp only [Option.map_none, Option.getD_none, Option.elim_none]
      omega
    | some s =>
      simp only [Option.map_some, Option.getD_some, Option.elim_some]
      omega

theorem reached_iff {i : Nat} (hstep : step ≠ 0) (hi : i < length) :
    (∃ m : Nat, (i : Int) = first length start step + m * step) ↔
      ∃ m : Nat, (i : Int) = origin length start step + m * step := by
  rcases first_eq_origin_or length start step with heq | hbeyond
  · rw [heq]
  · refine iff_of_false ?_ ?_
    all_goals
      rintro ⟨m, hm⟩
      have h1 := steps_ahead (first length start step) step m
      have h2 := steps_ahead (origin length start step) step m
      omega

theorem inside_last_iff {i : Nat} (hstep : step ≠ 0) (hi : i < length) :
    inside i (Slice.last length stop step) step = true ↔
      (∀ e, stop = some e → 0 < step → (i : Int) < normalize length e) ∧
        ∀ e, stop = some e → step < 0 → normalize length e < (i : Int) := by
  rw [inside_iff hstep]
  unfold Slice.last clamp
  by_cases hup : 0 < step
  · rw [if_pos hup]
    cases stop with
    | none =>
      refine iff_of_true ?_ ⟨nofun, nofun⟩
      simp only [Option.map_none, Option.getD_none]
      omega
    | some e =>
      simp only [Option.map_some, Option.getD_some, Option.some.injEq, forall_eq']
      omega
  · rw [if_neg hup]
    cases stop with
    | none =>
      refine iff_of_true ?_ ⟨nofun, nofun⟩
      simp only [Option.map_none, Option.getD_none]
      omega
    | some e =>
      simp only [Option.map_some, Option.getD_some, Option.some.injEq, forall_eq']
      omega

/-- **A slice lists what it is meant to list.** -/
theorem mem_positions_iff_lists {i : Nat} (hstep : step ≠ 0) :
    i ∈ positions length start stop step ↔ Lists length start stop step i := by
  constructor
  · intro h
    have hi := lt_of_mem_positions h
    rw [mem_positions, mem_places_iff hstep, inside_last_iff hstep hi, reached_iff hstep hi] at h
    exact ⟨hi, h.2, h.1.1, h.1.2⟩
  · rintro ⟨hi, hreached, hbefore, habove⟩
    rw [mem_positions, mem_places_iff hstep, inside_last_iff hstep hi, reached_iff hstep hi]
    exact ⟨⟨hbefore, habove⟩, hreached⟩

/-! ## Every position once -/

theorem positions_forward (length : Nat) : positions length none none 1 = List.range length := by
  have hpairwise := pairwise_positions length none none 1
  refine List.SortedLT.eq_of_mem_iff (hpairwise.imp fun h => by simpa using h).sortedLT
    (List.sortedLT_range length) fun i => ?_
  rw [mem_positions_iff_lists (by decide), List.mem_range]
  exact ⟨Lists.lt, fun hi => ⟨hi, ⟨i, by simp [origin]⟩, nofun, nofun⟩⟩

theorem positions_backward (length : Nat) :
    positions length none none (-1) = (List.range length).reverse := by
  have hpairwise := pairwise_positions length none none (-1)
  refine List.SortedGT.eq_of_mem_iff (hpairwise.imp fun h => by simpa using h).sortedGT
    (List.sortedLT_range length).reverse fun i => ?_
  rw [mem_positions_iff_lists (by decide), List.mem_reverse, List.mem_range]
  refine ⟨Lists.lt, fun hi => ⟨hi, ⟨length - 1 - i, ?_⟩, nofun, nofun⟩⟩
  simp only [origin, Option.elim_none]
  omega

theorem filterMap_getElem?_range {α : Type} (items : List α) :
    (List.range items.length).filterMap (fun i => items[i]?) = items := by
  have hmap : (List.range items.length).map (fun i => items[i]?) = items.map some :=
    List.ext_getElem (by simp) (by simp)
  calc (List.range items.length).filterMap (fun i => items[i]?)
      = ((List.range items.length).map fun i => items[i]?).filterMap id := by
        rw [List.filterMap_map]
        rfl
    _ = (items.map some).filterMap id := by rw [hmap]
    _ = items := by
        rw [List.filterMap_map]
        exact List.filterMap_some

theorem select_forward (root : Json) (items : List Json) :
    (Segment.slice none none 1).select root (.arr items) = items := by
  rw [Segment.select, positions_forward, filterMap_getElem?_range]

theorem select_backward (root : Json) (items : List Json) :
    (Segment.slice none none (-1)).select root (.arr items) = items.reverse := by
  rw [Segment.select, positions_backward, List.filterMap_reverse, filterMap_getElem?_range]

theorem mem_positions_iff_mod {k r i : Nat} (hr : r < k) :
    i ∈ positions length (some (r : Int)) none k ↔ i < length ∧ i % k = r := by
  have hk : (0 : Int) < k := by omega
  have hr0 : ¬ (r : Int) < 0 := by omega
  have horigin : origin length (some (r : Int)) k = r := by
    rw [origin, if_pos hk, Option.elim_some, normalize, if_neg hr0]
    omega
  rw [mem_positions_iff_lists hk.ne']
  constructor
  · rintro ⟨hi, ⟨m, hm⟩, -, -⟩
    rw [horigin] at hm
    have hi' : i = r + m * k := by exact_mod_cast hm
    exact ⟨hi, by rw [hi', Nat.add_mul_mod_self_right, Nat.mod_eq_of_lt hr]⟩
  · rintro ⟨hi, hmod⟩
    refine ⟨hi, ⟨i / k, ?_⟩, nofun, nofun⟩
    rw [horigin]
    have hsum : i = r + i / k * k := by
      rw [← hmod, Nat.mul_comm, Nat.mod_add_div]
    exact_mod_cast hsum

/-- **The slices with one step and all starts below it share the array out.** -/
theorem perm_flatMap_positions (length : Nat) {k : Nat} (hk : 0 < k) :
    ((List.range k).flatMap fun r : Nat => positions length (some (r : Int)) none k).Perm (List.range length) := by
  refine (List.perm_ext_iff_of_nodup ?_ List.nodup_range).mpr fun i => ?_
  · refine List.nodup_flatMap.mpr ⟨fun r _ => nodup_positions .., ?_⟩
    refine List.nodup_range.imp_of_mem fun hr hs hne i hi hj => hne ?_
    rw [List.mem_range] at hr hs
    rw [mem_positions_iff_mod hr] at hi
    rw [mem_positions_iff_mod hs] at hj
    exact hi.2.symm.trans hj.2
  · rw [List.mem_flatMap, List.mem_range]
    constructor
    · rintro ⟨r, -, hi⟩
      exact lt_of_mem_positions hi
    · intro hi
      have hmod := Nat.mod_lt i hk
      exact ⟨i % k, List.mem_range.mpr hmod, (mem_positions_iff_mod hmod).mpr ⟨hi, rfl⟩⟩

/-- **Which positions a slice lists.** Where the length of the array and the size of the step leave room,
the cursor stays in range, and the slice lists exactly the positions that it is meant to list, each one
once and one behind the other in the direction of the step. So the step 1 lists all positions in order and
the step -1 in reverse, which selects the items as they are and in reverse, and for every positive step the
slices that start below it list every position once, all together. -/
theorem lists_strides (length : Nat) :
    (∀ (start stop : Option Int) (step : Int), step ≠ 0 → length + |step| ≤ Number.maxSigned →
      fits length start stop step = true ∧
      (positions length start stop step).Nodup ∧
      ((positions length start stop step).Pairwise fun i j => if 0 < step then i < j else j < i) ∧
      ∀ i, i ∈ positions length start stop step ↔ Lists length start stop step i) ∧
    positions length none none 1 = List.range length ∧
    positions length none none (-1) = (List.range length).reverse ∧
    (∀ (root : Json) (items : List Json), (Segment.slice none none 1).select root (.arr items) = items ∧
      (Segment.slice none none (-1)).select root (.arr items) = items.reverse) ∧
    ∀ k : Nat, 0 < k →
      ((List.range k).flatMap fun r : Nat => positions length (some (r : Int)) none k).Perm (List.range length) := by
  refine ⟨fun start stop step hstep hroom => ?_, positions_forward length, positions_backward length,
    fun root items => ⟨select_forward root items, select_backward root items⟩,
    fun k hk => perm_flatMap_positions length hk⟩
  have habs := neg_abs_le step
  have hle := le_abs_self step
  have hmin : Number.minInt ≤ step := by
    simp only [Number.minInt, Number.maxSigned] at *
    omega
  refine ⟨(fits_iff (by omega) hmin).mpr fun i hi => ?_, nodup_positions .., pairwise_positions ..,
    fun i => mem_positions_iff_lists hstep⟩
  have := lt_of_mem_positions hi
  omega

/-- Down from the third item from the end, by two, over ten items: 7, 5 and 3. -/
theorem lists_strides_downward :
    (∀ i, i ∈ positions 10 (some (-3)) (some (-9)) (-2) ↔ Lists 10 (some (-3)) (some (-9)) (-2) i) ∧
    positions 10 (some (-3)) (some (-9)) (-2) = [7, 5, 3] ∧
    ((List.range 3).flatMap fun r : Nat => positions 10 (some (r : Int)) none 3).Perm (List.range 10) := by
  obtain ⟨hlists, -, -, -, hperm⟩ := lists_strides 10
  obtain ⟨-, -, -, hmem⟩ := hlists (some (-3)) (some (-9)) (-2) (by decide) (by decide)
  exact ⟨hmem, by decide, hperm 3 (by decide)⟩

end StepFlow.Slice
