import StepFlow.Proofs.Text.Scanning

/-!
# Blanks around what is read

Blanks may stand before and after the parts of a text, and mean nothing there.

* `Blanks`: a text with nothing else, and `trim_of_blanks`, `trim_ne_nil`: what trimming leaves;
* `NextIn`: what a text goes on with after blanks;
* `Reads`: a scanner reads a value and leaves a text, up to the blanks in front of it.
-/

namespace StepFlow.Text

open Scanner

/-! ## Which characters are blank -/

theorem not_isBlank_of_le {c : Char} (hlow : 33 ≤ c.toNat) (hhigh : c.toNat ≤ 126) :
    isBlank c = false := by
  simp only [isBlank, blankRanges, List.any_eq_false, List.forall_mem_cons, Bool.and_eq_true,
    decide_eq_true_eq, List.not_mem_nil, false_imp_iff, implies_true, and_true]
  omega

theorem toNat_of_isAlphanum {c : Char} (h : c.isAlphanum = true) : 48 ≤ c.toNat ∧ c.toNat ≤ 122 := by
  have hrange (low high : Char) (hl : 48 ≤ low.toNat) (hh : high.toNat ≤ 122)
      (hin : c.val ≥ low.val ∧ c.val ≤ high.val) : 48 ≤ c.toNat ∧ c.toNat ≤ 122 :=
    ⟨Nat.le_trans hl hin.1, Nat.le_trans hin.2 hh⟩
  have hkinds : (c.isUpper || c.isLower || c.isDigit) = true := h
  rw [Bool.or_eq_true, Bool.or_eq_true] at hkinds
  rcases hkinds with (hupper | hlower) | hdigit
  · exact hrange 'A' 'Z' (by decide) (by decide) (of_decide_eq_true hupper)
  · exact hrange 'a' 'z' (by decide) (by decide)
      ((Bool.and_eq_true_iff.mp hlower).imp of_decide_eq_true of_decide_eq_true)
  · exact hrange '0' '9' (by decide) (by decide)
      ((Bool.and_eq_true_iff.mp hdigit).imp of_decide_eq_true of_decide_eq_true)

theorem not_isBlank_of_isAlphanum {c : Char} (h : c.isAlphanum = true) : isBlank c = false :=
  have hrange := toNat_of_isAlphanum h
  not_isBlank_of_le (by omega) (by omega)

theorem not_isBlank_of_isDigit {c : Char} (h : c.isDigit = true) : isBlank c = false :=
  not_isBlank_of_isAlphanum (by rw [Char.isAlphanum, h, Bool.or_true])

theorem not_isDigit_of_isBlank {c : Char} (h : isBlank c = true) : c.isDigit = false := by
  rw [Bool.eq_false_iff]
  intro hd
  rw [not_isBlank_of_isDigit hd] at h
  cases h

/-! ## Blanks at the ends -/

/-- The text has nothing but blanks. -/
abbrev Blanks (text : List Char) : Prop := ∀ c ∈ text, isBlank c = true

theorem blanks_nil : Blanks [] := nofun

/-- Trimming takes away the blanks around a text that has none at its own ends. -/
theorem trim_of_blanks {before run after : List Char} {c d : Char} {cs ds : List Char}
    (hbefore : Blanks before) (hafter : Blanks after)
    (hfirst : run = c :: cs) (hc : isBlank c = false) (hlast : run = ds ++ [d])
    (hd : isBlank d = false) : trim (before ++ (run ++ after)) = run := by
  have hleft : dropBlanks (before ++ (run ++ after)) = run ++ after := by
    refine dropWhile_run hbefore ?_
    rw [hfirst]
    exact stops_cons hc
  have hright : (run ++ after).reverse.dropWhile isBlank = run.reverse := by
    rw [List.reverse_append]
    refine dropWhile_run (fun c hc => hafter c (List.mem_reverse.mp hc)) ?_
    rw [hlast, List.reverse_append]
    exact stops_cons hd
  rw [trim, hleft, dropBlanksRight, hright, List.reverse_reverse]

theorem trim_eq_nil {cs : List Char} (h : Blanks cs) : trim cs = [] := by
  rw [trim, dropBlanks, List.dropWhile_eq_nil_iff.mpr h]
  rfl

/-- A text with something in it but blanks does not vanish by trimming. -/
theorem trim_ne_nil {c : Char} {cs : List Char} (h : c ∈ cs) (hc : isBlank c = false) :
    trim cs ≠ [] := by
  intro htrim
  have hblank : ∀ d ∈ dropBlanks cs, isBlank d = true := by
    rw [trim, dropBlanksRight, List.reverse_eq_nil_iff, List.dropWhile_eq_nil_iff] at htrim
    exact fun d hd => htrim d (List.mem_reverse.mpr hd)
  rw [← List.takeWhile_append_dropWhile (p := isBlank) (l := cs)] at h
  have : isBlank c = true := (List.mem_append.mp h).elim List.mem_takeWhile_imp (hblank c)
  rw [hc] at this
  cases this

/-! ## Blanks, and what follows -/

section blanks

variable {b rest : List Char} {c : Char}

theorem dropBlanks_append (hb : Blanks b) : dropBlanks (b ++ rest) = dropBlanks rest :=
  List.dropWhile_append_of_pos hb

theorem dropBlanks_cons (hc : isBlank c = false) : dropBlanks (c :: rest) = c :: rest :=
  List.dropWhile_cons_of_neg (by simp [hc])

theorem dropBlanks_dropBlanks : dropBlanks (dropBlanks rest) = dropBlanks rest := by
  induction rest with
  | nil => rfl
  | cons c rest ih =>
    cases hc : isBlank c with
    | true =>
      rw [show dropBlanks (c :: rest) = dropBlanks rest from List.dropWhile_cons_of_pos hc]
      exact ih
    | false => rw [dropBlanks_cons hc, dropBlanks_cons hc]

theorem length_dropBlanks_le (cs : List Char) : (dropBlanks cs).length ≤ cs.length :=
  (List.dropWhile_sublist isBlank).length_le

/-- The next character that is not blank is one of `cs`. -/
def NextIn (cs rest : List Char) : Prop := ∃ c ∈ cs, (dropBlanks rest).head? = some c

variable {cs ds : List Char}

theorem NextIn.mono (h : NextIn cs rest) (hsub : ∀ c ∈ cs, c ∈ ds) : NextIn ds rest := by
  obtain ⟨c, hc, hrest⟩ := h
  exact ⟨c, hsub c hc, hrest⟩

theorem NextIn.append (h : NextIn cs rest) (hb : Blanks b) : NextIn cs (b ++ rest) := by
  rwa [NextIn, dropBlanks_append hb]

theorem nextIn_cons (hc : c ∈ cs) (hblank : isBlank c = false) : NextIn cs (c :: rest) :=
  ⟨c, hc, by rw [dropBlanks_cons hblank]; rfl⟩

/-- The text goes on with a blank or one of the characters. -/
theorem NextIn.exists_cons (h : NextIn cs rest) :
    ∃ c r, rest = c :: r ∧ (isBlank c = true ∨ c ∈ cs) := by
  obtain ⟨c, hc, hrest⟩ := h
  cases rest with
  | nil => cases hrest
  | cons d r =>
    refine ⟨d, r, rfl, ?_⟩
    cases hd : isBlank d with
    | true => exact .inl rfl
    | false =>
      rw [dropBlanks_cons hd] at hrest
      cases hrest
      exact .inr hc

theorem NextIn.stops {p : Char → Bool} (h : NextIn cs rest) (hblank : ∀ c, isBlank c = true → p c = false)
    (hcs : ∀ c ∈ cs, p c = false) : Stops p rest := by
  obtain ⟨c, r, rfl, hc⟩ := h.exists_cons
  exact stops_cons (hc.elim (hblank c) (hcs c))

theorem NextIn.exists_dropBlanks (h : NextIn cs rest) : ∃ c r, dropBlanks rest = c :: r ∧ c ∈ cs := by
  obtain ⟨c, hc, hrest⟩ := h
  obtain ⟨r, hr⟩ := List.head?_eq_some_iff.mp hrest
  exact ⟨c, r, hr, hc⟩

end blanks

theorem NextIn.stops_isDigit {cs rest : List Char} (h : NextIn cs rest) (hcs : ∀ c ∈ cs, c.isDigit = false) :
    Stops Char.isDigit rest :=
  h.stops (fun _ hc => not_isDigit_of_isBlank hc) hcs

/-! ## Reading up to blanks -/

/-- The scanner reads `a` off the text and leaves `rest`, perhaps without the blanks in front of it. -/
def Reads {ε α : Type} (s : Scanner ε α) (cs : List Char) (a : α) (rest : List Char) : Prop :=
  ∃ r, s cs = .ok (a, r) ∧ dropBlanks r = dropBlanks rest ∧ r.length ≤ rest.length

theorem reads_of_eq {ε α : Type} {s : Scanner ε α} {cs : List Char} {a : α} {rest : List Char}
    (h : s cs = .ok (a, rest)) : Reads s cs a rest := ⟨rest, h, rfl, Nat.le_refl _⟩

theorem reads_of_dropBlanks {ε α : Type} {s : Scanner ε α} {cs : List Char} {a : α} {rest : List Char}
    (h : s cs = .ok (a, dropBlanks rest)) : Reads s cs a rest :=
  ⟨dropBlanks rest, h, dropBlanks_dropBlanks, length_dropBlanks_le rest⟩

end StepFlow.Text
