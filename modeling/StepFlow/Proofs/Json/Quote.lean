import StepFlow.Proofs.Text.Scanning
import StepFlow.Json.Printer

/-!
# Texts in quotation marks

* `Reader.escaped_hexEscape`, `Reader.stringRound_escape`: one character, and
* **`Reader.stringBody_quote`**: a text is read as it is quoted, whatever comes after it.
-/

namespace StepFlow.Reader

open Text Text.Scanner

variable {rest : List Char}

theorem hexEscape_eq {n : Nat} (h : n < 32) : hexEscape (Char.ofNat n) =
    ['\\', 'u', '0', '0', Nat.digitChar (n / 16), Nat.digitChar (n % 16)] := by
  have : ∀ n < 32, hexEscape (Char.ofNat n) =
    ['\\', 'u', '0', '0', Nat.digitChar (n / 16), Nat.digitChar (n % 16)] := by decide
  exact this n h

theorem hexDigit_digitChar {n : Nat} (h : n < 16) :
    hexDigit (Nat.digitChar n :: rest) = .ok (n, rest) := by
  have hvalue : ∀ n < 16, hexValue? (Nat.digitChar n) = some n := by decide
  unfold hexDigit
  rw [bind_of_ok (a := some (Nat.digitChar n)) (r := rest) rfl, Option.bind_some, hvalue n h]
  rfl

theorem escaped_hexEscape {n : Nat} (h : n < 32) (rest : List Char) :
    escaped ((hexEscape (Char.ofNat n)).tail ++ rest) = .ok (Char.ofNat n, rest) := by
  have hunit : unit16 ('0' :: '0' :: Nat.digitChar (n / 16) :: Nat.digitChar (n % 16) :: rest) =
      .ok (n, rest) := by
    have hzero : ∀ r, hexDigit ('0' :: r) = .ok (0, r) :=
      fun r => hexDigit_digitChar (n := 0) (by decide)
    unfold unit16
    rw [bind_of_ok (hzero _), bind_of_ok (hzero _),
      bind_of_ok (hexDigit_digitChar (by omega)), bind_of_ok (hexDigit_digitChar (by omega))]
    exact congrArg (fun m => Except.ok (m, rest)) (by omega)
  rw [hexEscape_eq h]
  show unicodeEscape ('0' :: '0' :: Nat.digitChar (n / 16) :: Nat.digitChar (n % 16) :: rest) = _
  unfold unicodeEscape
  rw [bind_of_ok hunit, if_neg (by simp; omega), if_neg (by simp; omega)]
  rfl

theorem stringRound_escaped {acc cs : List Char} {c : Char} (h : escaped cs = .ok (c, rest)) :
    stringRound acc ('\\' :: cs) = .ok (.inl (c :: acc), rest) := by
  unfold stringRound
  rw [bind_of_ok (a := some '\\') (r := cs) rfl]
  show (escaped >>= _) _ = _
  rw [bind_of_ok h]
  rfl

theorem stringRound_plain {acc : List Char} {c : Char} (hquote : c ≠ '"') (hslash : c ≠ '\\')
    (hcontrol : ¬c.toNat < 0x20) : stringRound acc (c :: rest) = .ok (.inl (c :: acc), rest) := by
  unfold stringRound
  rw [bind_of_ok (a := some c) (r := rest) rfl]
  simp only
  rw [if_neg hcontrol]
  rfl

/-- **A character is read as it is escaped.** -/
theorem stringRound_escape (acc : List Char) (c : Char) :
    stringRound acc (escape c ++ rest) = .ok (.inl (c :: acc), rest) := by
  unfold escape
  by_cases hquote : c = '"'
  · subst hquote
    exact stringRound_escaped rfl
  rw [if_neg hquote]
  by_cases hslash : c = '\\'
  · subst hslash
    exact stringRound_escaped rfl
  rw [if_neg hslash]
  -- the control characters that have a letter of their own
  iterate 5
    split
    · next hletter =>
      subst hletter
      exact stringRound_escaped rfl
  split
  · next hcontrol =>
    have hescaped := escaped_hexEscape hcontrol rest
    rw [Char.ofNat_toNat] at hescaped
    exact stringRound_escaped hescaped
  · next hcontrol => exact stringRound_plain hquote hslash hcontrol

theorem length_escape_pos (c : Char) : 0 < (escape c).length := by
  unfold escape
  repeat' split
  all_goals simp [hexEscape]

/-- **A text is read as it is quoted**, whatever comes after the closing quotation mark. -/
theorem stringBody_quote (s : String) :
    stringBody (s.toList.flatMap escape ++ '"' :: rest) = .ok (s, rest) := by
  have key : ∀ cs acc : List Char,
      iterate stringRound id acc (cs.flatMap escape ++ '"' :: rest) = .ok (cs.reverse ++ acc, rest) := by
    intro cs
    induction cs with
    | nil => exact fun acc => iterate_done rfl
    | cons c cs ih =>
      intro acc
      have := length_escape_pos c
      rw [List.flatMap_cons, List.append_assoc, iterate_more (stringRound_escape acc c)
        (by simp only [List.length_append]; omega), ih, List.reverse_cons, List.append_assoc,
        List.singleton_append]
  unfold stringBody
  rw [bind_of_ok (key s.toList [])]
  show Except.ok _ = _
  rw [List.append_nil, List.reverse_reverse, String.ofList_toList]

end StepFlow.Reader
