import Mathlib.Algebra.GroupWithZero.Nat
import StepFlow.Timestamp
import StepFlow.Proofs.Text.Blank

/-!
# Timestamps are read as they are written

* `isDigit_padded`, `natOfDigits_padded`, `length_padded`: numbers with zeros in front;
* `number_run`, `field_padded`, `yearField_renderYear`: the parts of a timestamp;
* **`Timestamp.parse_render`**.
-/

namespace StepFlow.Timestamp

open Text Text.Scanner Reader

/-! ## Numbers with zeros in front -/

theorem isDigit_padded {width n : Nat} {c : Char} (h : c ∈ padded width n) : c.isDigit = true := by
  rcases List.mem_append.mp h with h | h
  · rw [List.eq_of_mem_replicate h]
    rfl
  · exact isDigit_of_mem_toDigits h

theorem padded_ne_nil (width n : Nat) : padded width n ≠ [] :=
  List.append_ne_nil_of_right_ne_nil _ Nat.toDigits_ne_nil

theorem natOfDigits_padded (width n : Nat) : natOfDigits (padded width n) = n := by
  rw [padded, natOfDigits_zeros, natOfDigits_toDigits]

theorem length_padded {width n : Nat} (hw : 0 < width) (hn : n < 10 ^ width) :
    (padded width n).length = width := by
  have := (Nat.length_toDigits_le_iff (by decide) hw).mpr hn
  rw [padded, List.length_append, List.length_replicate]
  omega

/-! ## Parts -/

theorem skipBlanks_of_head {c : Char} {cs : List Char} (h : isBlank c = false) :
    (skipBlanks : Part Unit) (c :: cs) = .ok ((), c :: cs) := by
  unfold skipBlanks dropBlanks
  rw [List.dropWhile_cons_of_neg (by simp [h])]

variable {ds rest : List Char}

theorem number_run {width : Option Nat} (hne : ds ≠ []) (hd : ∀ c ∈ ds, c.isDigit = true)
    (hw : ∀ w, width = some w → ds.length ≤ w) (hs : Stops Char.isDigit rest) :
    number width (ds ++ rest) = .ok (natOfDigits ds, rest) := by
  obtain ⟨c, ds, rfl⟩ := List.exists_cons_of_ne_nil hne
  have hdrop : (c :: ds ++ rest).drop (c :: ds).length = rest := List.drop_left
  unfold number
  rw [takeWhile_run hd hs]
  cases width with
  | none =>
    show Except.ok _ = _
    rw [hdrop]
  | some w =>
    dsimp only
    rw [List.take_of_length_le (hw w rfl)]
    show Except.ok _ = _
    rw [hdrop]

theorem field_padded {low high n : Nat} (hl : low ≤ n) (hh : n ≤ high) (hn : n < 100)
    (hs : Stops Char.isDigit rest) : field low high (padded 2 n ++ rest) = .ok (n, rest) := by
  have hlen : (padded 2 n).length = 2 := length_padded (by decide) hn
  have hnum : number (some 2) (padded 2 n ++ rest) = .ok (n, rest) := by
    rw [number_run (padded_ne_nil 2 n) (fun c => isDigit_padded)
      (fun w hw => by cases hw; omega) hs, natOfDigits_padded]
  unfold field
  rw [bind_of_ok (a := ()) (r := padded 2 n ++ rest), bind_of_ok hnum]
  · rw [if_pos (by simp [hl, hh])]
    rfl
  · cases hp : padded 2 n with
    | nil => exact absurd hp (padded_ne_nil 2 n)
    | cons c cs =>
      have hc : c.isDigit = true := isDigit_padded (by rw [hp]; exact List.mem_cons_self)
      exact skipBlanks_of_head (not_isBlank_of_isDigit hc)

theorem mark_cons (c : Char) : mark c (c :: rest) = .ok ((), rest) := by
  unfold mark
  rw [bind_of_ok (a := some c) (r := c :: rest) rfl]
  dsimp only
  rw [if_pos rfl]
  rfl

theorem mark_bind {α : Type} (c : Char) (f : Unit → Part α) : (mark c >>= f) (c :: rest) = f () rest :=
  bind_of_ok (mark_cons c)

theorem head_renderYear (year : Int) :
    ∃ c cs, renderYear year = c :: cs ∧ (c = '-' ∨ c = '+' ∨ c.isDigit = true) := by
  unfold renderYear
  split
  · exact ⟨_, _, rfl, .inl rfl⟩
  · split
    · exact ⟨_, _, rfl, .inr (.inl rfl)⟩
    · obtain ⟨c, cs, h⟩ := List.exists_cons_of_ne_nil (padded_ne_nil 4 year.natAbs)
      exact ⟨c, cs, h, .inr (.inr (isDigit_padded (by rw [h]; exact List.mem_cons_self)))⟩

/-- A year with a sign has any number of digits, and one without has four. -/
theorem yearNumber_renderYear (year : Int) (hs : Stops Char.isDigit rest) :
    yearNumber (renderYear year ++ rest) = .ok (year, rest) := by
  have hsigned : number none (padded 4 year.natAbs ++ rest) = .ok (year.natAbs, rest) := by
    rw [number_run (padded_ne_nil _ _) (fun c => isDigit_padded) (fun w hw => by cases hw) hs,
      natOfDigits_padded]
  unfold yearNumber renderYear
  split
  case isTrue hneg =>
    rw [List.cons_append, bind_of_ok (eat_cons '-'), if_pos rfl, bind_of_ok hsigned]
    exact congrArg (fun y : Int => Except.ok (y, rest)) (by omega)
  case isFalse hpos =>
    split
    case isTrue hbig =>
      rw [List.cons_append, bind_of_ok (a := false) (r := '+' :: (padded 4 year.natAbs ++ rest)) rfl,
        if_neg (by decide), bind_of_ok (eat_cons '+'), if_pos rfl, bind_of_ok hsigned]
      exact congrArg (fun y : Int => Except.ok (y, rest)) (by omega)
    case isFalse hsmall =>
      have hlen : (padded 4 year.natAbs).length = 4 := length_padded (by decide) (by omega)
      have hfour : number (some 4) (padded 4 year.natAbs ++ rest) = .ok (year.natAbs, rest) := by
        rw [number_run (padded_ne_nil _ _) (fun c => isDigit_padded)
          (fun w hw => by cases hw; omega) hs, natOfDigits_padded]
      obtain ⟨c, cs, hc⟩ := List.exists_cons_of_ne_nil (padded_ne_nil 4 year.natAbs)
      have hd : c.isDigit = true := isDigit_padded (by rw [hc]; exact List.mem_cons_self)
      rw [hc, List.cons_append] at hfour ⊢
      rw [bind_of_ok (eat_of_isDigit (by decide) hd), if_neg (by decide),
        bind_of_ok (eat_of_isDigit (by decide) hd), if_neg (by decide), bind_of_ok hfour]
      exact congrArg (fun y : Int => Except.ok (y, rest)) (by omega)

theorem yearField_renderYear {year : Int} (hy : Calendar.isYear year = true)
    (hs : Stops Char.isDigit rest) : yearField (renderYear year ++ rest) = .ok (year, rest) := by
  have hskip : (skipBlanks : Part Unit) (renderYear year ++ rest) =
      .ok ((), renderYear year ++ rest) := by
    obtain ⟨c, cs, h, hc⟩ := head_renderYear year
    rw [h, List.cons_append]
    refine skipBlanks_of_head ?_
    rcases hc with rfl | rfl | hc
    · decide
    · decide
    · exact not_isBlank_of_isDigit hc
  simp only [Calendar.isYear, Bool.and_eq_true, decide_eq_true_eq] at hy
  unfold yearField
  rw [bind_of_ok hskip, bind_of_ok (yearNumber_renderYear year hs),
    if_pos (by simp only [Bool.and_eq_true, decide_eq_true_eq]; omega)]
  rfl

/-- **A timestamp is read as it is written.** -/
theorem parse_render (t : Timestamp) : parse t.render = .ok t := by
  obtain ⟨year, month, day, hour, minute, second, hv⟩ := t
  have hday := hv
  simp only [Calendar.isDay, Calendar.isTime, Bool.and_eq_true, decide_eq_true_eq] at hday
  obtain ⟨⟨⟨⟨⟨hyear, hm⟩, hm'⟩, hd⟩, hd'⟩, ⟨hhour, hmin⟩, hsec⟩ := hday
  have hdays : day ≤ 31 := by
    refine Nat.le_trans hd' ?_
    unfold Calendar.daysIn
    repeat' split
    all_goals decide
  have hfields : fields (renderYear year ++ '-' :: padded 2 month ++ '-' :: padded 2 day ++
      'T' :: padded 2 hour ++ ':' :: padded 2 minute ++ ':' :: padded 2 second ++ ['Z'])
      = .ok ((year, (month, day), hour, minute, second), []) := by
    unfold fields
    simp only [List.append_assoc, List.cons_append]
    have hstop : ∀ c : Char, c.isDigit = false → ∀ r, Stops Char.isDigit (c :: r) :=
      fun c hc r => stops_cons hc
    rw [bind_of_ok (yearField_renderYear hyear (hstop '-' rfl _)), mark_bind,
      bind_of_ok (field_padded hm hm' (by omega) (hstop '-' rfl _)), mark_bind,
      bind_of_ok (field_padded hd hdays (by omega) (hstop 'T' rfl _)), mark_bind,
      bind_of_ok (field_padded (Nat.zero_le _) hhour (by omega) (hstop ':' rfl _)), mark_bind,
      bind_of_ok (field_padded (Nat.zero_le _) hmin (by omega) (hstop ':' rfl _)), mark_bind,
      bind_of_ok (field_padded (Nat.zero_le _) hsec (by omega) (hstop 'Z' rfl _)), mark_bind]
    rfl
  unfold parse render complete
  rw [String.toList_ofList, hfields]
  dsimp only
  rw [dif_pos hv]

end StepFlow.Timestamp
