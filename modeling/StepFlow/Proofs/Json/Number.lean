import StepFlow.Proofs.Text.Scanning
import StepFlow.Json.Printer

/-!
# Numbers in texts

A number in a document ends where a comma, a bracket or the end of the text follows, so it does not
matter what the text goes on with after that.

* `Reader.extends_number`, `Reader.number_append`: numbers;
* `Reader.head_of_number`: how numbers start;
* **`Number.read?_render_int`**: an integer that a document can hold is read as it is written.
-/

namespace StepFlow

/-! ## Numbers -/

namespace Reader

open Text Text.Scanner

/-- A character that a number may hold. -/
def isNumberChar (c : Char) : Bool :=
  c.isDigit || c = '.' || c = 'e' || c = 'E' || c = '-' || c = '+'

theorem extends_digits : Extends isNumberChar digits :=
  (extends_takeWhile fun c hc => by simp [isNumberChar, hc]).bind fun _ =>
    (extends_fault ()).ite (extends_pure _)

theorem extends_wholeDigits : Extends isNumberChar wholeDigits :=
  extends_digits.bind fun _ => (extends_fault ()).ite (extends_pure _)

theorem extends_fractionDigits : Extends isNumberChar fractionDigits :=
  (extends_eat rfl).bind fun _ => extends_digits.map.ite (extends_pure _)

/-- The mark of an exponent is looked at before it is taken away. -/
theorem extends_exponentPart : Extends isNumberChar exponentPart := by
  intro cs r e rest h hrest
  unfold exponentPart at h ⊢
  cases cs with
  | nil =>
    cases h
    rw [List.nil_append, bind_of_ok (a := rest.head?) (r := rest) rfl, if_neg]
    · rfl
    · intro hmark
      simp only [Bool.or_eq_true, decide_eq_true_eq] at hmark
      rcases hmark with hmark | hmark <;> cases hrest _ hmark
  | cons c cs =>
    rw [List.cons_append, bind_of_ok (a := some c) (r := c :: (cs ++ rest)) rfl]
    rw [bind_of_ok (a := some c) (r := c :: cs) rfl] at h
    split at h
    · next hmark =>
      rw [if_pos hmark, bind_of_ok (a := some c) (r := cs ++ rest) rfl]
      rw [bind_of_ok (a := some c) (r := cs) rfl] at h
      have hdigits : ∀ negative : Bool, Extends isNumberChar (do
          let ds ← digits
          pure (some (negative, natOfDigits ds))) :=
        fun negative => extends_digits.bind fun _ => extends_pure _
      exact ((extends_eat rfl).bind fun negative => (hdigits negative).ite
        ((extends_eat rfl).bind fun _ => hdigits negative)) cs r e rest h hrest
    · next hmark =>
      rw [if_neg hmark]
      cases h
      rfl

theorem extends_number : Extends isNumberChar number := by
  refine (extends_eat rfl).bind fun negative => extends_wholeDigits.bind fun whole =>
    extends_fractionDigits.bind fun fraction => extends_exponentPart.bind fun exponent => ?_
  split
  · exact extends_pure _
  · exact extends_fault ()

theorem number_of_read? {text : List Char} {n : Number} (h : Number.read? text = some n) :
    number text = .ok (n, []) := by
  unfold Number.read? complete at h
  split at h
  · cases h
  · next hn =>
    cases h
    exact hn
  · cases h

theorem number_append {text rest : List Char} {n : Number} (h : Number.read? text = some n)
    (hrest : Stops isNumberChar rest) : number (text ++ rest) = .ok (n, rest) :=
  extends_number text [] n rest (number_of_read? h) hrest

theorem head_of_number {cs r : List Char} {n : Number} (h : number cs = .ok (n, r)) :
    ∃ c rest, cs = c :: rest ∧ (c = '-' ∨ c.isDigit = true) := by
  unfold number at h
  obtain ⟨negative, r₁, heat, h⟩ := bind_eq_ok_iff.mp h
  obtain ⟨whole, r₂, hwhole, -⟩ := bind_eq_ok_iff.mp h
  cases cs with
  | nil =>
    cases heat
    cases hwhole
  | cons c rest =>
    refine ⟨c, rest, rfl, ?_⟩
    unfold eat at heat
    dsimp only at heat
    split at heat
    · next hc => exact .inl hc
    · cases heat
      obtain ⟨ds, r₃, hds, -⟩ := bind_eq_ok_iff.mp hwhole
      obtain ⟨run, r₄, hrun, hds⟩ := bind_eq_ok_iff.mp hds
      cases hrun
      cases hc : c.isDigit with
      | true => exact .inr rfl
      | false =>
        rw [List.takeWhile_cons_of_neg (by simp [hc])] at hds
        cases hds

/-! ## Integers -/

theorem head_toDigits {n : Nat} (h : 0 < n) : (Nat.toDigits 10 n).head? ≠ some '0' := by
  induction n using Nat.strongRecOn with
  | ind n ih =>
    by_cases hn : n < 10
    · rw [Nat.toDigits_of_lt_base hn]
      have : ∀ m < 10, 0 < m → [Nat.digitChar m].head? ≠ some '0' := by decide
      exact this n hn h
    · have hsplit := Nat.toDigits_append_toDigits (b := 10) (n := n / 10) (d := n % 10)
        (by decide) (by omega) (by omega)
      rw [Nat.div_add_mod] at hsplit
      obtain ⟨c, cs, hc⟩ := List.exists_cons_of_ne_nil (Nat.toDigits_ne_nil (n := n / 10) (b := 10))
      have hhead := ih (n / 10) (by omega) (by omega)
      rw [hc] at hhead
      rw [← hsplit, hc]
      exact hhead

theorem wholeDigits_toDigits (n : Nat) {rest : List Char} (hrest : Stops Char.isDigit rest) :
    wholeDigits (Nat.toDigits 10 n ++ rest) = .ok (Nat.toDigits 10 n, rest) := by
  have hrun : ∀ c ∈ Nat.toDigits 10 n, c.isDigit = true := fun c hc => isDigit_of_mem_toDigits hc
  have hdigits : digits (Nat.toDigits 10 n ++ rest) = .ok (Nat.toDigits 10 n, rest) := by
    unfold digits
    rw [bind_of_ok (a := Nat.toDigits 10 n) (r := rest), if_neg]
    · rfl
    · simp [Nat.toDigits_ne_nil]
    · show Except.ok _ = _
      rw [takeWhile_run hrun hrest, dropWhile_run hrun hrest]
  unfold wholeDigits
  rw [bind_of_ok hdigits, if_neg]
  · rfl
  · intro h
    simp only [Bool.and_eq_true, decide_eq_true_eq] at h
    obtain ⟨hlength, hhead⟩ := h
    rcases Nat.eq_zero_or_pos n with rfl | hn
    · exact absurd hlength (by decide)
    · exact head_toDigits hn hhead

theorem number_of_digits {cs : List Char} {negative : Bool} {n : Nat} {i : Int}
    (hsign : (eat '-' : Part Bool) cs = .ok (negative, Nat.toDigits 10 n))
    (hi : i = if negative then -(n : Int) else n) (hz : negative = true → n ≠ 0)
    (h : Number.isExact i = true) : number cs = .ok (.int i, []) := by
  have hwhole : wholeDigits (Nat.toDigits 10 n) = .ok (Nat.toDigits 10 n, []) := by
    have := wholeDigits_toDigits n stops_nil
    rwa [List.append_nil] at this
  have hassemble : assemble negative (Nat.toDigits 10 n) none none = some (.int i) := by
    unfold assemble
    dsimp only
    rw [natOfDigits_toDigits, ← hi]
    simp only [Option.isNone_none, h, Bool.true_and, Bool.not_eq_eq_eq_not, Bool.not_true,
      Bool.and_eq_false_imp, decide_eq_false_iff_not]
    rw [if_pos hz]
  unfold number
  rw [bind_of_ok hsign, bind_of_ok hwhole, bind_of_ok (a := none) (r := []) rfl,
    bind_of_ok (a := none) (r := []) rfl, hassemble]
  rfl

end Reader

theorem toList_toString (i : Int) : (toString i).toList =
    if i < 0 then '-' :: Nat.toDigits 10 i.natAbs else Nat.toDigits 10 i.natAbs := by
  show i.repr.toList = _
  cases i with
  | ofNat n => simp [Int.repr, Nat.repr]
  | negSucc n => simp [Int.repr, Nat.repr]

open Reader in
/-- The first character of an integer is a minus or a digit, and the others are digits. -/
theorem toString_eq_cons (i : Int) : ∃ c cs, (toString i).toList = c :: cs ∧
    (c = '-' ∨ c.isDigit = true) ∧ ∀ d ∈ cs, d.isDigit = true := by
  rw [toList_toString]
  split
  · exact ⟨'-', _, rfl, .inl rfl, fun d hd => isDigit_of_mem_toDigits hd⟩
  · obtain ⟨c, cs, hcs⟩ := List.exists_cons_of_ne_nil (Nat.toDigits_ne_nil (n := i.natAbs) (b := 10))
    have hall : ∀ d ∈ c :: cs, d.isDigit = true := fun d hd => isDigit_of_mem_toDigits (hcs ▸ hd)
    exact ⟨c, cs, hcs, .inr (hall c List.mem_cons_self), fun d hd => hall d (List.mem_cons_of_mem c hd)⟩

open Reader Text Text.Scanner in
/-- **An integer that a document can hold is read as it is written.** -/
theorem Number.read?_render_int {i : Int} (h : Number.isExact i = true) :
    Number.read? (Number.render (.int i)).toList = some (.int i) := by
  have hnumber : number (Number.render (.int i)).toList = .ok (.int i, []) := by
    rw [Number.render, toList_toString]
    split
    · next hneg =>
      have heat : (eat '-' : Reader.Part Bool) ('-' :: Nat.toDigits 10 i.natAbs) =
          .ok (true, Nat.toDigits 10 i.natAbs) := eat_cons '-'
      exact number_of_digits heat (by rw [if_pos rfl]; omega) (fun _ => by omega) h
    · next hpos =>
      obtain ⟨c, cs, hc⟩ := List.exists_cons_of_ne_nil (Nat.toDigits_ne_nil (n := i.natAbs) (b := 10))
      have hd : c.isDigit = true := isDigit_of_mem_toDigits (by rw [hc]; exact List.mem_cons_self)
      have heat : (eat '-' : Reader.Part Bool) (Nat.toDigits 10 i.natAbs) =
          .ok (false, Nat.toDigits 10 i.natAbs) := by
        rw [hc]
        exact eat_of_isDigit rfl hd
      exact number_of_digits heat (by rw [if_neg (by decide)]; omega) nofun h
  unfold Number.read? complete
  rw [hnumber]
  rfl

end StepFlow
