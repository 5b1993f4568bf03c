import StepFlow.Condition.Pattern
import StepFlow.Proofs.Text.Scanning

/-!
# What patterns describe

A star describes any run of characters, and a character describes itself. A search for a description
remembers the last star only. No description is lost by that: whatever an earlier star could take in
besides, the last one can take in as well.

* `Describes`: the texts that a pattern describes;
* `Search.Promises`: a description is still to be found from where a search stands;
* `Search.promises_next?`, `Search.succeeds_iff`: what one round keeps, and what a whole search finds;
* **`matchPattern_iff_describes`**.
-/

namespace StepFlow

/-! ## Descriptions -/

/-- The pattern describes the whole text. -/
inductive Describes : List PatternToken → List Char → Prop where
  | nil : Describes [] []
  | char {pattern : List PatternToken} {text : List Char} (c : Char) :
      Describes pattern text → Describes (.char c :: pattern) (c :: text)
  | star {pattern : List PatternToken} {text : List Char} (run : List Char) :
      Describes pattern text → Describes (.star :: pattern) (run ++ text)

variable {pattern : List PatternToken} {text : List Char} {c : Char}

theorem describes_nil_iff : Describes [] text ↔ text = [] := by
  constructor
  · rintro ⟨⟩
    rfl
  · rintro rfl
    exact .nil

theorem describes_char_iff : Describes (.char c :: pattern) text ↔
    ∃ rest, text = c :: rest ∧ Describes pattern rest := by
  constructor
  · intro h
    cases h with
    | char _ h => exact ⟨_, rfl, h⟩
  · rintro ⟨rest, rfl, h⟩
    exact .char c h

theorem describes_star_iff : Describes (.star :: pattern) text ↔
    ∃ run rest, text = run ++ rest ∧ Describes pattern rest := by
  constructor
  · intro h
    cases h with
    | star run h => exact ⟨run, _, rfl, h⟩
  · rintro ⟨run, rest, rfl, h⟩
    exact .star run h

theorem describes_chars_iff {cs : List Char} : Describes (cs.map .char ++ pattern) text ↔
    ∃ rest, text = cs ++ rest ∧ Describes pattern rest := by
  induction cs generalizing text with
  | nil => simp
  | cons c cs ih =>
    rw [List.map_cons, List.cons_append, describes_char_iff]
    constructor
    · rintro ⟨_, rfl, h⟩
      obtain ⟨rest, rfl, hrest⟩ := ih.mp h
      exact ⟨rest, rfl, hrest⟩
    · rintro ⟨rest, rfl, h⟩
      exact ⟨_, rfl, ih.mpr ⟨rest, rfl, h⟩⟩

theorem describes_empty_iff : Describes pattern [] ↔ pattern.all (· = .star) = true := by
  induction pattern with
  | nil => simp [describes_nil_iff]
  | cons token pattern ih =>
    cases token with
    | char c => simp [describes_char_iff]
    | star =>
      rw [describes_star_iff, List.all_cons, Bool.and_eq_true, ← ih]
      constructor
      · rintro ⟨run, rest, h, hd⟩
        obtain ⟨-, rfl⟩ := List.append_eq_nil_iff.mp h.symm
        exact ⟨rfl, hd⟩
      · rintro ⟨-, hd⟩
        exact ⟨[], [], rfl, hd⟩

/-! ## Searches -/

namespace Search

variable {s s' : Search}

/-- The last star could take in more than it does. -/
def Widens (s : Search) : Prop :=
  ∃ pattern run rest, s.star? = some (pattern, run ++ rest) ∧ run ≠ [] ∧ Describes pattern rest

/-- The text that is left is described, or the last star could take in more. -/
def Promises (s : Search) : Prop := Describes s.pattern s.text ∨ s.Widens

/-- If the last star could take in more, the same pattern comes up again further on in the text. -/
theorem Widens.again (h : s.Widens) :
    ∃ run rest, s.text = run ++ rest ∧ run ≠ [] ∧ Describes s.pattern rest := by
  obtain ⟨pattern, run, rest, hs, hrun, hd⟩ := h
  obtain ⟨cs, hp, ht⟩ := s.agrees _ hs
  rw [show pattern = _ from hp, describes_chars_iff] at hd
  obtain ⟨rest, rfl, hd⟩ := hd
  have hsplit : cs ++ s.text = (run ++ cs) ++ rest := by rw [List.append_assoc]; exact ht.symm
  rcases List.append_eq_append_iff.mp hsplit with ⟨run', hcs, htext⟩ | ⟨cs', hcs, -⟩
  · refine ⟨run', rest, htext, ?_, hd⟩
    rintro rfl
    exact hrun (List.append_left_eq_self.mp (hcs.trans (List.append_nil cs)))
  · rw [List.append_assoc] at hcs
    have := congrArg List.length hcs
    have := List.length_pos_iff.mpr hrun
    simp only [List.length_append] at *
    omega

theorem promises_behindStar :
    (behindStar pattern text).Promises ↔ Describes (.star :: pattern) text := by
  rw [describes_star_iff]
  constructor
  · rintro (h | ⟨_, run, rest, hs, -, h⟩)
    · exact ⟨[], text, rfl, h⟩
    · cases hs
      exact ⟨run, rest, rfl, h⟩
  · rintro ⟨run, rest, rfl, h⟩
    by_cases hrun : run = []
    · subst hrun
      exact .inl h
    · exact .inr ⟨pattern, run, rest, rfl, hrun, h⟩

theorem promises_goBack? (h : s.goBack? = some s') : s'.Promises ↔ s.Widens := by
  unfold goBack? at h
  split at h
  · next pattern c text hs =>
    cases h
    rw [promises_behindStar, describes_star_iff]
    unfold Widens
    rw [hs]
    constructor
    · rintro ⟨run, rest, rfl, hd⟩
      exact ⟨pattern, c :: run, rest, rfl, List.cons_ne_nil c run, hd⟩
    · rintro ⟨_, run, rest, hs, hrun, hd⟩
      cases run with
      | nil => exact absurd rfl hrun
      | cons d run =>
        cases hs
        exact ⟨run, rest, rfl, hd⟩
  · cases h

theorem not_widens (h : s.goBack? = none) : ¬ s.Widens := by
  rintro ⟨pattern, run, rest, hs, hrun, -⟩
  unfold goBack? at h
  rw [hs] at h
  cases run with
  | nil => exact hrun rfl
  | cons c run => cases h

theorem promises_star (h : s.pattern = .star :: pattern) :
    s.Promises ↔ Describes (.star :: pattern) s.text := by
  unfold Promises
  rw [h, or_iff_left_iff_imp]
  intro hw
  obtain ⟨run, rest, ht, -, hd⟩ := hw.again
  rw [h, describes_star_iff] at hd
  obtain ⟨run', rest, rfl, hd⟩ := hd
  rw [ht, ← List.append_assoc]
  exact .star _ hd

theorem promises_of_not_describes (h : ¬ Describes s.pattern s.text) : s.Promises ↔ s.Widens :=
  or_iff_right h

/-- **A round keeps what a search promises**, and a search without a next round promises nothing. -/
theorem promises_next? (ht : s.text ≠ []) :
    s.Promises ↔ ∃ s', s.next? = some s' ∧ s'.Promises := by
  have hback : ¬ Describes s.pattern s.text →
      (s.Promises ↔ ∃ s', s.goBack? = some s' ∧ s'.Promises) := fun hnot => by
    rw [promises_of_not_describes hnot]
    cases hr : s.goBack? with
    | none => simpa using not_widens hr
    | some s' => simp [promises_goBack? hr]
  unfold next?
  split
  · next pattern text _ _ =>
    rw [promises_star rfl, ← promises_behindStar]
    simp
  · next d pattern c text star? agrees =>
    split
    · next hdc =>
      subst hdc
      have : Describes (.char d :: pattern) (d :: text) ↔ Describes pattern text := by
        simp [describes_char_iff]
      simp only [Option.some.injEq, exists_eq_left']
      exact or_congr this Iff.rfl
    · next hdc => exact hback (by simp [describes_char_iff, Ne.symm hdc])
  · next hstar hchar =>
    refine hback fun hd => ?_
    obtain ⟨pattern, text, star?, agrees⟩ := s
    cases pattern with
    | nil => exact ht (describes_nil_iff.mp hd)
    | cons token pattern =>
      cases token with
      | star => exact hstar _ _ _ _ rfl
      | char d =>
        cases text with
        | nil => exact ht rfl
        | cons c text => exact hchar _ _ _ _ _ _ rfl

/-- **A search succeeds exactly if it promises a description.** -/
theorem succeeds_iff (s : Search) : s.succeeds = true ↔ s.Promises := by
  fun_induction succeeds s with
  | case1 s ht =>
    rw [List.isEmpty_iff] at ht
    rw [← describes_empty_iff, ← ht]
    refine (or_iff_left fun hw => ?_).symm
    obtain ⟨run, rest, hsplit, hrun, -⟩ := hw.again
    rw [ht] at hsplit
    exact hrun (List.append_eq_nil_iff.mp hsplit.symm).1
  | case2 s ht s' hnext ih =>
    rw [List.isEmpty_iff] at ht
    rw [ih, promises_next? ht, hnext]
    simp
  | case3 s ht hnext =>
    rw [List.isEmpty_iff] at ht
    rw [promises_next? ht, hnext]
    simp

end Search

/-! ## Texts as patterns -/

theorem ofChars_backslashed (cs : List Char) :
    PatternToken.ofChars (Text.backslashed '*' cs) = .ok (cs.map .char) := by
  induction cs with
  | nil => rfl
  | cons c cs ih =>
    rw [List.map_cons]
    by_cases h : c = '*' ∨ c = '\\'
    · rw [Text.backslashed_cons_special h, PatternToken.ofChars, if_pos h, ih]
      rfl
    · rw [Text.backslashed_cons_plain h]
      rw [not_or] at h
      rw [PatternToken.ofChars, ih]
      · rfl
      · exact h.2
      · exact h.1

/-- **A pattern matches the texts that it describes**, and a text with its stars and backslashes escaped
is a pattern that describes this text alone. -/
theorem matchPattern_iff_describes :
    (∀ pattern text, matchPattern pattern text = true ↔ Describes pattern text) ∧
    ∀ text : String, ∃ pattern,
      PatternToken.ofText (String.ofList (Text.backslashed '*' text.toList)) = .ok pattern ∧
        ∀ other : String, matchPattern pattern other.toList = true ↔ other = text := by
  have hmatch : ∀ pattern text, matchPattern pattern text = true ↔ Describes pattern text :=
    fun pattern text => by
      unfold matchPattern
      rw [Search.succeeds_iff]
      refine or_iff_left ?_
      rintro ⟨_, _, _, hs, -⟩
      cases hs
  refine ⟨hmatch, fun text => ⟨text.toList.map .char, ?_, fun other => ?_⟩⟩
  · unfold PatternToken.ofText
    rw [String.toList_ofList, ofChars_backslashed]
  · rw [hmatch, ← List.append_nil (text.toList.map _), describes_chars_iff]
    simp [describes_nil_iff, String.toList_inj]

/-- Two stars, of which the second one has to take in what the first one could have. -/
example : matchPattern [.char 'l', .star, .char 'g', .star, .char '4', .star] "log-2024.txt".toList =
    true := by cbv

end StepFlow
