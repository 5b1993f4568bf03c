import Mathlib.Data.Bool.AllAny
import Mathlib.Data.List.TakeWhile
import StepFlow.Json.Reader

/-!
# Reading what was written

A scanner reads off the front of a text, so what it reads does not depend on what comes later, as long as
the text goes on with something that it does not take.

* `Scanner.bind_of_ok`, `Scanner.eat_cons`, `Scanner.eatAll_append`: one scanner after another, a single
  character, and a word;
* `Stops`: a text that does not go on with a run of characters, and `takeWhile_run`;
* `Scanner.Extends`: what a scanner reads stays the same when the text goes on;
* `Scanner.Shrinks`: a scanner leaves no more than it was given;
* `Scanner.Gives`: whatever a scanner reads has a property;
* `Scanner.iterate_done`, `Scanner.iterate_more`, `Scanner.iterate_keeps`: repetition, round by round;
* `backslashed`: a text in which a character with a meaning of its own is to be taken as it is;
* `natOfDigits_toDigits`, `natOfDigits_zeros`: the number that written digits spell.
-/

namespace StepFlow.Text

/-! ## Scanners -/

namespace Scanner

variable {ε α β : Type} {s : Scanner ε α} {f : α → Scanner ε β} {cs r : List Char} {a : α}

theorem bind_of_ok (h : s cs = .ok (a, r)) : (s >>= f) cs = f a r := by
  show (s cs >>= fun p => f p.1 p.2) = _
  rw [h]
  rfl

theorem bind_of_error {e : Fault ε} (h : s cs = .error e) : (s >>= f) cs = .error e := by
  show (s cs >>= fun p => f p.1 p.2) = _
  rw [h]
  rfl

theorem bind_eq_ok_iff {b : β} : (s >>= f) cs = .ok (b, r) ↔
    ∃ a r', s cs = .ok (a, r') ∧ f a r' = .ok (b, r) := by
  constructor
  · intro h
    cases hs : s cs with
    | error e =>
      rw [bind_of_error hs] at h
      cases h
    | ok p =>
      rw [bind_of_ok hs] at h
      exact ⟨p.1, p.2, rfl, h⟩
  · rintro ⟨a, r', hs, hf⟩
    rw [bind_of_ok hs, hf]

theorem map_of_ok {g : α → β} (h : s cs = .ok (a, r)) : (g <$> s) cs = .ok (g a, r) := by
  show (s >>= fun a => pure (g a)) cs = _
  rw [bind_of_ok h]
  rfl

theorem map_of_error {g : α → β} {e : Fault ε} (h : s cs = .error e) : (g <$> s) cs = .error e := by
  show (s >>= fun a => pure (g a)) cs = _
  rw [bind_of_error h]

theorem eat_cons (c : Char) : (eat c : Scanner ε Bool) (c :: cs) = .ok (true, cs) := by
  simp [eat]

theorem eat_of_ne {c d : Char} (h : d ≠ c) :
    (eat c : Scanner ε Bool) (d :: cs) = .ok (false, d :: cs) := by
  simp [eat, h]

theorem eat_of_isDigit {c d : Char} (hc : c.isDigit = false) (hd : d.isDigit = true) :
    (eat c : Scanner ε Bool) (d :: cs) = .ok (false, d :: cs) := by
  refine eat_of_ne fun h => ?_
  rw [h, hc] at hd
  cases hd

theorem peek_cons {c : Char} :
    (peek : Scanner ε (Option Char)) (c :: cs) = .ok (some c, c :: cs) := rfl

theorem skipBlanks_eq (cs : List Char) : (skipBlanks : Scanner ε Unit) cs = .ok ((), dropBlanks cs) := rfl

theorem eatAll_append (word cs : List Char) :
    (eatAll word : Scanner ε Bool) (word ++ cs) = .ok (true, cs) := by
  have hword : word.isPrefixOf (word ++ cs) = true :=
    List.isPrefixOf_iff_prefix.mpr (List.prefix_append word cs)
  unfold eatAll
  rw [hword, if_pos rfl, List.drop_left]

theorem eatAll_of_ne {c d : Char} {word cs : List Char} (h : c ≠ d) :
    (eatAll (d :: word) : Scanner ε Bool) (c :: cs) = .ok (false, c :: cs) := by
  have hword : (d :: word).isPrefixOf (c :: cs) = false := by
    simp [List.isPrefixOf, h.symm]
  unfold eatAll
  rw [hword, if_neg Bool.false_ne_true]

theorem eatAll_of_ne_second {c d first : Char} {word cs : List Char} (h : c ≠ d) :
    (eatAll (first :: d :: word) : Scanner ε Bool) (first :: c :: cs) = .ok (false, first :: c :: cs) := by
  have hword : (first :: d :: word).isPrefixOf (first :: c :: cs) = false := by
    simp [List.isPrefixOf, h.symm]
  unfold eatAll
  rw [hword, if_neg Bool.false_ne_true]

end Scanner

/-! ## Runs of characters -/

/-- The text does not go on with a character that satisfies `p`. -/
def Stops (p : Char → Bool) (rest : List Char) : Prop := ∀ c, rest.head? = some c → p c = false

variable {p : Char → Bool} {run rest : List Char}

theorem stops_nil : Stops p [] := fun _ h => by cases h

theorem stops_cons {c : Char} (h : p c = false) : Stops p (c :: rest) := fun d hd => by
  cases hd
  exact h

theorem Stops.takeWhile (h : Stops p rest) : rest.takeWhile p = [] := by
  cases rest with
  | nil => rfl
  | cons c rest => rw [List.takeWhile_cons_of_neg (by simp [h c rfl])]

theorem Stops.dropWhile (h : Stops p rest) : rest.dropWhile p = rest := by
  cases rest with
  | nil => rfl
  | cons c rest => rw [List.dropWhile_cons_of_neg (by simp [h c rfl])]

theorem takeWhile_run (hr : ∀ c ∈ run, p c = true) (hs : Stops p rest) :
    (run ++ rest).takeWhile p = run := by
  rw [List.takeWhile_append_of_pos hr, hs.takeWhile, List.append_nil]

theorem dropWhile_run (hr : ∀ c ∈ run, p c = true) (hs : Stops p rest) :
    (run ++ rest).dropWhile p = rest := by
  rw [List.dropWhile_append_of_pos hr, hs.dropWhile]

/-! ## Texts that go on -/

variable {q : Char → Bool}

theorem Stops.mono (hs : Stops p rest) (h : ∀ c, q c = true → p c = true) : Stops q rest := by
  intro c hc
  cases hq : q c with
  | false => rfl
  | true => rw [← hs c hc, h c hq]

theorem span_append (cs : List Char) (hs : Stops q rest) :
    (cs ++ rest).takeWhile q = cs.takeWhile q ∧
      (cs ++ rest).dropWhile q = cs.dropWhile q ++ rest := by
  induction cs with
  | nil => exact ⟨hs.takeWhile, hs.dropWhile⟩
  | cons c cs ih =>
    rw [List.cons_append, List.takeWhile_cons, List.takeWhile_cons, List.dropWhile_cons,
      List.dropWhile_cons]
    split
    · rw [ih.1, ih.2]
      exact ⟨rfl, rfl⟩
    · exact ⟨rfl, rfl⟩

namespace Scanner

variable {ε α β : Type} {s : Scanner ε α}

/-- **What the scanner reads stays the same** when the text goes on with something that has no character
of the kind `p` in front. -/
def Extends (p : Char → Bool) (s : Scanner ε α) : Prop :=
  ∀ cs r a rest, s cs = .ok (a, r) → Stops p rest → s (cs ++ rest) = .ok (a, r ++ rest)

theorem Extends.bind {f : α → Scanner ε β} (hs : Extends p s) (hf : ∀ a, Extends p (f a)) :
    Extends p (s >>= f) := by
  intro cs r b rest h hrest
  obtain ⟨a, r', ha, hb⟩ := bind_eq_ok_iff.mp h
  rw [bind_of_ok (hs cs r' a rest ha hrest)]
  exact hf a r' r b rest hb hrest

theorem extends_pure (a : α) : Extends p (pure a : Scanner ε α) := by
  intro cs r b rest h _
  cases h
  rfl

theorem extends_fault (cause : ε) : Extends p (fault cause : Scanner ε α) := by
  intro cs r b rest h _
  cases h

theorem Extends.ite {c : Prop} [Decidable c] {s' : Scanner ε α} (hs : Extends p s)
    (hs' : Extends p s') : Extends p (if c then s else s') := by
  split
  · exact hs
  · exact hs'

theorem Extends.map {f : α → β} (hs : Extends p s) : Extends p (f <$> s) :=
  hs.bind fun a => extends_pure (f a)

theorem extends_takeWhile (h : ∀ c, q c = true → p c = true) :
    Extends p (takeWhile q : Scanner ε (List Char)) := by
  intro cs r run rest hr hrest
  cases hr
  obtain ⟨htake, hdrop⟩ := span_append cs (hrest.mono h)
  show Except.ok _ = _
  rw [htake, hdrop]

theorem extends_eat {c : Char} (h : p c = true) : Extends p (eat c : Scanner ε Bool) := by
  intro cs r b rest hr hrest
  cases cs with
  | nil =>
    cases hr
    cases rest with
    | nil => rfl
    | cons d rest =>
      have hd : d ≠ c := by
        rintro rfl
        rw [hrest d rfl] at h
        cases h
      simp [eat, hd]
  | cons d cs =>
    rw [List.cons_append]
    unfold eat at hr ⊢
    dsimp only at hr ⊢
    split at hr
    · next hd =>
      cases hr
      rw [if_pos hd]
    · next hd =>
      cases hr
      rw [if_neg hd, List.cons_append]

end Scanner

/-! ## Texts that are used up -/

namespace Scanner

variable {ε α β : Type} {s : Scanner ε α}

/-- The scanner leaves no more than it was given. -/
def Shrinks (s : Scanner ε α) : Prop := ∀ cs a r, s cs = .ok (a, r) → r.length ≤ cs.length

theorem Shrinks.bind {f : α → Scanner ε β} (hs : Shrinks s) (hf : ∀ a, Shrinks (f a)) :
    Shrinks (s >>= f) := by
  intro cs b r h
  obtain ⟨a, r', ha, hb⟩ := bind_eq_ok_iff.mp h
  exact Nat.le_trans (hf a r' b r hb) (hs cs a r' ha)

theorem shrinks_pure (a : α) : Shrinks (pure a : Scanner ε α) := by
  intro cs b r h
  cases h
  exact Nat.le_refl _

theorem Shrinks.map {f : α → β} (hs : Shrinks s) : Shrinks (f <$> s) :=
  hs.bind fun a => shrinks_pure (f a)

theorem shrinks_fault (cause : ε) : Shrinks (fault cause : Scanner ε α) := by
  intro cs b r h
  cases h

theorem Shrinks.ite {c : Prop} [Decidable c] {s' : Scanner ε α} (hs : Shrinks s)
    (hs' : Shrinks s') : Shrinks (if c then s else s') := by
  split
  · exact hs
  · exact hs'

theorem shrinks_peek : Shrinks (peek : Scanner ε (Option Char)) := by
  intro cs b r h
  cases h
  exact Nat.le_refl _

theorem shrinks_next? : Shrinks (next? : Scanner ε (Option Char)) := by
  intro cs b r h
  cases h
  exact (List.tail_sublist cs).length_le

theorem shrinks_takeWhile (p : Char → Bool) : Shrinks (takeWhile p : Scanner ε (List Char)) := by
  intro cs b r h
  cases h
  exact (List.dropWhile_sublist p).length_le

theorem shrinks_eat (c : Char) : Shrinks (eat c : Scanner ε Bool) := by
  intro cs b r h
  unfold eat at h
  split at h
  · split at h
    · cases h
      exact Nat.le_succ _
    · cases h
      exact Nat.le_refl _
  · cases h
    exact Nat.le_refl _

theorem shrinks_eatAll (word : List Char) : Shrinks (eatAll word : Scanner ε Bool) := by
  intro cs b r h
  unfold eatAll at h
  split at h
  · cases h
    exact (List.drop_sublist _ _).length_le
  · cases h
    exact Nat.le_refl _

end Scanner

/-! ## Repetition -/

namespace Scanner

variable {ε α β : Type} {step : α → Scanner ε (α ⊕ β)} {finish : α → β} {a : α} {cs r : List Char}

theorem iterate_done {b : β} (h : step a cs = .ok (.inr b, r)) :
    iterate step finish a cs = .ok (b, r) := by
  rw [iterate, h]

theorem iterate_more {a' : α} (h : step a cs = .ok (.inl a', r)) (hl : r.length < cs.length) :
    iterate step finish a cs = iterate step finish a' r := by
  rw [iterate, h]
  dsimp only
  rw [if_pos hl]

theorem iterate_keeps {I : α → List Char → Prop} {Q : β → List Char → Prop}
    (hround : ∀ {a cs a' r}, I a cs → step a cs = .ok (.inl a', r) → r.length < cs.length → I a' r)
    (hdone : ∀ {a cs b r}, I a cs → step a cs = .ok (.inr b, r) → Q b r)
    (hfinish : ∀ {a cs a' r}, I a cs → step a cs = .ok (.inl a', r) → Q (finish a') r)
    {b : β} (ha : I a cs) (h : iterate step finish a cs = .ok (b, r)) : Q b r := by
  induction hn : cs.length using Nat.strongRecOn generalizing a cs with
  | ind n ih =>
    subst hn
    rw [iterate] at h
    split at h
    · cases h
    · next hs =>
      cases h
      exact hdone ha hs
    · next hs =>
      split at h
      · next hl => exact ih _ hl (hround ha hs hl) h rfl
      · cases h
        exact hfinish ha hs

theorem Shrinks.iterate (h : ∀ a, Shrinks (step a)) (a : α) : Shrinks (iterate step finish a) := by
  intro cs b r hr
  refine iterate_keeps (I := fun _ cs' => cs'.length ≤ cs.length)
    (Q := fun _ r => r.length ≤ cs.length) (fun hI _ hl => ?_) (fun hI hs => ?_) (fun hI hs => ?_)
    (Nat.le_refl _) hr
  · exact Nat.le_trans (Nat.le_of_lt hl) hI
  · exact Nat.le_trans (h _ _ _ _ hs) hI
  · exact Nat.le_trans (h _ _ _ _ hs) hI

theorem iterate_fault {e : Fault ε} (h : step a cs = .error e) :
    iterate step finish a cs = .error e := by
  rw [iterate, h]

end Scanner

/-! ## What scanners give -/

namespace Scanner

variable {ε α β : Type} {P : α → Prop} {Q : β → Prop} {s : Scanner ε α} {f : α → Scanner ε β}

/-- Whatever the scanner reads has the property `P`. -/
def Gives (P : α → Prop) (s : Scanner ε α) : Prop := ∀ cs a r, s cs = .ok (a, r) → P a

theorem Gives.bind (hs : Gives P s) (hf : ∀ a, P a → Gives Q (f a)) : Gives Q (s >>= f) := by
  intro cs b r h
  obtain ⟨a, r', ha, hb⟩ := bind_eq_ok_iff.mp h
  exact hf a (hs cs a r' ha) r' b r hb

theorem gives_bind (hf : ∀ a, Gives Q (f a)) : Gives Q (s >>= f) :=
  Gives.bind (P := fun _ => True) (fun _ _ _ _ => trivial) fun a _ => hf a

theorem gives_pure {a : α} (h : P a) : Gives P (pure a : Scanner ε α) := by
  intro cs b r hb
  cases hb
  exact h

theorem gives_fault (cause : ε) : Gives P (fault cause : Scanner ε α) := by
  intro cs b r h
  cases h

theorem gives_faultAt (rest : List Char) (cause : ε) : Gives P (faultAt rest cause : Scanner ε α) := by
  intro cs b r h
  cases h

theorem Gives.ite {c : Prop} [Decidable c] {s' : Scanner ε α} (hs : Gives P s) (hs' : Gives P s') :
    Gives P (if c then s else s') := by
  split
  · exact hs
  · exact hs'

/-- A repetition gives what its last round makes of what all rounds keep. -/
theorem gives_iterate {step : α → Scanner ε (α ⊕ β)} {finish : α → β} {a : α}
    (hround : ∀ a, P a → Gives (Sum.elim P Q) (step a)) (hfinish : ∀ a, P a → Q (finish a)) (ha : P a) :
    Gives Q (iterate step finish a) := fun _ _ _ h =>
  iterate_keeps (I := fun a _ => P a) (Q := fun b _ => Q b) (fun hI hs _ => hround _ hI _ _ _ hs)
    (fun hI hs => hround _ hI _ _ _ hs) (fun hI hs => hfinish _ (hround _ hI _ _ _ hs)) ha h

end Scanner

/-! ## Characters with a meaning of their own -/

/-- The text with a backslash before every backslash and every character that is `special`. -/
def backslashed (special : Char) (cs : List Char) : List Char :=
  cs.flatMap fun c => if c = special ∨ c = '\\' then ['\\', c] else [c]

theorem backslashed_cons_special {special c : Char} {cs : List Char} (h : c = special ∨ c = '\\') :
    backslashed special (c :: cs) = '\\' :: c :: backslashed special cs := by
  rw [backslashed, List.flatMap_cons, if_pos h]
  rfl

theorem backslashed_cons_plain {special c : Char} {cs : List Char} (h : ¬(c = special ∨ c = '\\')) :
    backslashed special (c :: cs) = c :: backslashed special cs := by
  rw [backslashed, List.flatMap_cons, if_neg h]
  rfl

/-- The text within a pair of quotation marks, with a backslash before every mark and backslash in it. -/
def inMarks (mark : Char) (cs : List Char) : List Char := mark :: (backslashed mark cs ++ [mark])

end StepFlow.Text

/-! ## Digits -/

namespace StepFlow.Reader

theorem natOfDigits_eq (ds : List Char) : natOfDigits ds = Nat.ofDigitChars 10 ds 0 := rfl

theorem natOfDigits_toDigits (n : Nat) : natOfDigits (Nat.toDigits 10 n) = n :=
  Nat.ofDigitChars_ten_toDigits

theorem natOfDigits_zeros (k : Nat) (ds : List Char) :
    natOfDigits (List.replicate k '0' ++ ds) = natOfDigits ds := by
  induction k with
  | zero => rfl
  | succ k ih =>
    rw [List.replicate_succ, List.cons_append, natOfDigits_eq, Nat.ofDigitChars_cons]
    exact ih

theorem isDigit_of_mem_toDigits {n : Nat} {c : Char} (h : c ∈ Nat.toDigits 10 n) :
    c.isDigit = true := Nat.isDigit_of_mem_toDigits (by decide) (by decide) h

end StepFlow.Reader
