import StepFlow.Moment
import StepFlow.Proofs.Timestamp

/-!
# Moments are read as they are written

* `MomentCodec.Lossless`: codecs that keep moments as they are;
* `Moment.readFraction_fractionDigits`: the digits behind the point, in groups of three;
* `Moment.exists_render`: the text of a time in the years of four digits;
* **`Moment.ofText?_text`**, `MomentCodec.lossless_offset`.
-/

namespace StepFlow

/-- Every moment is read as it was written. -/
def MomentCodec.Lossless (codec : MomentCodec) : Prop :=
  ∀ m : Moment, codec.read? (codec.write m) = some m

namespace Moment

open Reader Text Timestamp

variable {c : Char} {m : Moment}

/-! ## Fractions -/

theorem readFraction_padded {width n : Nat} (hw : 0 < width) (hn : n < 10 ^ width) :
    readFraction (padded width n) = n * 10 ^ (9 - width) := by
  rw [readFraction, natOfDigits_eq, Nat.ofDigitChars_append, Nat.ofDigitChars_replicate_zero,
    ← natOfDigits_eq, natOfDigits_padded, length_padded hw hn, Nat.mul_comm]

theorem readFraction_fractionDigits {n : Nat} (hn : n < 1000000000) :
    readFraction (fractionDigits n) = n := by
  unfold fractionDigits
  split
  · rw [readFraction_padded (by decide) (by omega)]
    omega
  · split
    · rw [readFraction_padded (by decide) (by omega)]
      omega
    · rw [readFraction_padded (by decide) (by omega)]
      omega

theorem isDigit_fractionDigits {n : Nat} (h : c ∈ fractionDigits n) : c.isDigit = true := by
  unfold fractionDigits at h
  split at h
  · exact isDigit_padded h
  · split at h <;> exact isDigit_padded h

/-! ## Times -/

theorem exists_render {t : Timestamp} (h : 1970 ≤ t.year ∧ t.year ≤ 9999) : ∃ front : List Char,
    t.render.toList = front ++ ['Z'] ∧ ∀ c ∈ front, (c ≠ '.' && c ≠ '+') = true := by
  refine ⟨_, String.toList_ofList, fun c hc => ?_⟩
  have hyear : renderYear t.year = padded 4 t.year.natAbs := by
    unfold renderYear
    rw [if_neg (by omega), if_neg (by omega)]
  rw [hyear] at hc
  have hdigit : ∀ {width n : Nat}, c ∈ padded width n → (c ≠ '.' && c ≠ '+') = true := fun hmem => by
    have hd := isDigit_padded hmem
    rw [Bool.and_eq_true, decide_eq_true_eq, decide_eq_true_eq]
    constructor <;> rintro rfl <;> exact absurd hd (by decide)
  simp only [List.mem_append, List.mem_cons] at hc
  rcases hc with ((((h | rfl | h) | rfl | h) | rfl | h) | rfl | h) | rfl | h <;>
    first | exact hdigit h | decide

/-- The point and the digits behind it, if there are any. -/
def fractionText (nanosecond : Nat) : List Char :=
  if nanosecond = 0 then [] else '.' :: fractionDigits nanosecond

theorem readFraction_fractionText {n : Nat} (hn : n < 1000000000) :
    readFraction (fractionText n).tail = n := by
  unfold fractionText
  split
  · next h => rw [h]; rfl
  · exact readFraction_fractionDigits hn

theorem ne_plus_of_mem_fractionText {n : Nat} (h : c ∈ fractionText n) : decide (c ≠ '+') = true := by
  unfold fractionText at h
  split at h
  · cases h
  · rcases List.mem_cons.mp h with rfl | h
    · rfl
    · exact decide_eq_true fun heq => absurd (isDigit_fractionDigits h) (by rw [heq]; decide)

/-- **A moment is read as it is written.** -/
theorem ofText?_text (m : Moment) : ofText? m.text = some m := by
  obtain ⟨front, hrender, hfront⟩ := exists_render m.common
  have htext : m.text.toList = front ++ (fractionText m.nanosecond ++ "+00:00".toList) := by
    rw [text, String.toList_ofList, hrender, List.dropLast_concat, List.append_assoc]
    rfl
  have hstops : Stops (fun c => c ≠ '.' && c ≠ '+') (fractionText m.nanosecond ++ "+00:00".toList) := by
    unfold fractionText
    split
    · exact stops_cons rfl
    · exact stops_cons rfl
  have hplus : Stops (fun c => decide (c ≠ '+')) "+00:00".toList := stops_cons rfl
  have htime : String.ofList (front ++ ['Z']) = m.time.render := by
    rw [← hrender, String.ofList_toList]
  unfold ofText?
  dsimp only
  rw [htext, takeWhile_run hfront hstops, List.drop_left,
    takeWhile_run (fun _ => ne_plus_of_mem_fractionText) hplus,
    dropWhile_run (fun _ => ne_plus_of_mem_fractionText) hplus, if_pos rfl, htime, Timestamp.parse?,
    parse_render, readFraction_fractionText m.fraction]
  exact dif_pos ⟨m.common, m.fraction⟩

end Moment

/-- The texts with the offset keep moments as they are. -/
theorem MomentCodec.lossless_offset : MomentCodec.offset.Lossless := by
  intro m
  simp only [MomentCodec.offset]
  exact Moment.ofText?_text m

end StepFlow
