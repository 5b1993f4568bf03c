import StepFlow.Path.Query.Grammar
import StepFlow.Proofs.Json.Number
import StepFlow.Proofs.Path.Spelling

/-!
# Names, integers and brackets are read as they are spelled

Every part of a query is read off the front of a text as what it spells, as long as the text goes on
with something that ends it.

* `quoted_inMarks`, `integer_toString`, `choice_spelled`: names in quotes, integers, and both as choices;
* `selectors_spelled`, `selectors_slice`: members, items, unions and slices;
* `bracket_within`: what stands in brackets, unless it is a filter.
-/

namespace StepFlow

open Text Text.Scanner Grammar

variable {rest : List Char}

/-! ## Names in quotes -/

theorem quotedRound_backslash {mark d : Char} {acc cs : List Char} :
    quotedRound mark acc ('\\' :: d :: cs) = .ok (.inl (d :: acc), cs) := rfl

theorem quotedRound_mark {mark : Char} {acc cs : List Char} (h : mark ≠ '\\') :
    quotedRound mark acc (mark :: cs) = .ok (.inr acc, cs) := by
  unfold quotedRound
  rw [bind_of_ok (a := some mark) (r := cs) rfl]
  dsimp only
  rw [if_neg h, if_pos rfl]
  rfl

theorem quotedRound_plain {mark c : Char} {acc cs : List Char} (h : ¬(c = mark ∨ c = '\\')) :
    quotedRound mark acc (c :: cs) = .ok (.inl (c :: acc), cs) := by
  rw [not_or] at h
  unfold quotedRound
  rw [bind_of_ok (a := some c) (r := cs) rfl]
  dsimp only
  rw [if_neg h.2, if_neg h.1]
  rfl

theorem iterate_quotedRound {mark : Char} (hmark : mark ≠ '\\') (cs acc rest : List Char) :
    iterate (quotedRound mark) id acc (backslashed mark cs ++ mark :: rest) =
      .ok (cs.reverse ++ acc, rest) := by
  induction cs generalizing acc with
  | nil => exact iterate_done (quotedRound_mark hmark)
  | cons c cs ih =>
    rw [List.reverse_cons, List.append_assoc, List.singleton_append]
    by_cases h : c = mark ∨ c = '\\'
    · rw [backslashed_cons_special h, List.cons_append, List.cons_append,
        iterate_more quotedRound_backslash (by simp only [List.length_cons]; omega), ih]
    · rw [backslashed_cons_plain h, List.cons_append, iterate_more (quotedRound_plain h) (by simp), ih]

theorem quoted_inMarks {mark : Char} (hmark : mark ∈ marks) (cs rest : List Char) :
    quoted mark (inMarks mark cs ++ rest) = .ok (String.ofList cs, rest) := by
  have hne : mark ≠ '\\' := by
    rintro rfl
    exact absurd hmark (by decide)
  have hacc := iterate_quotedRound hne cs [] rest
  rw [List.append_nil] at hacc
  unfold quoted
  rw [inMarks, List.cons_append, List.append_assoc, List.singleton_append, bind_of_ok (eat_cons mark),
    bind_of_ok hacc, List.reverse_reverse]
  rfl

/-! ## Integers -/

open Reader (isDigit_of_mem_toDigits natOfDigits_toDigits)

theorem eat_minus_toString (i : Int) (rest : List Char) : ∃ minus : Bool,
    (eat '-' : Grammar.Part Bool) ((toString i).toList ++ rest) = .ok (minus, Nat.toDigits 10 i.natAbs ++ rest) ∧
      (toString i).toList = if minus then '-' :: Nat.toDigits 10 i.natAbs else Nat.toDigits 10 i.natAbs := by
  rw [toList_toString]
  split
  · exact ⟨true, by rw [List.cons_append, eat_cons], rfl⟩
  · obtain ⟨c, cs, hcs⟩ := List.exists_cons_of_ne_nil (Nat.toDigits_ne_nil (n := i.natAbs) (b := 10))
    have hc : c.isDigit = true := isDigit_of_mem_toDigits (hcs ▸ List.mem_cons_self)
    exact ⟨false, by rw [hcs, List.cons_append, eat_of_isDigit rfl hc], rfl⟩

theorem integer?_toString {i : Int} (h : Number.isSigned64 i = true) :
    integer? (toString i).toList = some i := by
  have hne : (Nat.toDigits 10 i.natAbs).isEmpty = false :=
    List.isEmpty_eq_false_iff.mpr Nat.toDigits_ne_nil
  rw [toList_toString]
  split
  · next hneg =>
    have hi : -(i.natAbs : Int) = i := by omega
    simp only [integer?]
    rw [natOfDigits_toDigits, if_pos trivial, hi, hne, h]
    rfl
  · next hpos =>
    have hi : (i.natAbs : Int) = i := by omega
    obtain ⟨c, cs, hcs⟩ := List.exists_cons_of_ne_nil (Nat.toDigits_ne_nil (n := i.natAbs) (b := 10))
    have hc : c.isDigit = true := isDigit_of_mem_toDigits (hcs ▸ List.mem_cons_self)
    unfold integer?
    split
    next negative ds heq =>
    split at heq
    · next ds' hminus =>
      rw [hcs] at hminus
      cases hminus
      exact absurd hc (by decide)
    · cases heq
      dsimp only
      rw [natOfDigits_toDigits, if_neg Bool.false_ne_true, hi, hne, h]
      rfl

theorem integer_toString {i : Int} (h : Number.isSigned64 i = true) (hrest : Stops Char.isDigit rest) :
    integer ((toString i).toList ++ rest) = .ok (some i, rest) := by
  have hdigits : (takeWhile Char.isDigit : Grammar.Part (List Char)) (Nat.toDigits 10 i.natAbs ++ rest) =
      .ok (Nat.toDigits 10 i.natAbs, rest) := by
    have hrun : ∀ c ∈ Nat.toDigits 10 i.natAbs, c.isDigit = true := fun c hc => isDigit_of_mem_toDigits hc
    show Except.ok _ = _
    rw [takeWhile_run hrun hrest, dropWhile_run hrun hrest]
  obtain ⟨minus, heat, htext⟩ := eat_minus_toString i rest
  have hne : (toString i).toList.isEmpty = false := by
    rw [htext]
    cases minus
    · exact List.isEmpty_eq_false_iff.mpr Nat.toDigits_ne_nil
    · rfl
  unfold integer
  rw [bind_of_ok (a := (toString i).toList ++ rest) (r := (toString i).toList ++ rest) rfl,
    bind_of_ok heat, bind_of_ok hdigits, ← htext]
  rw [hne, if_neg Bool.false_ne_true, integer?_toString h]
  rfl

theorem integer_none {c : Char} {cs : List Char} (hc : c ≠ '-') (hd : c.isDigit = false) :
    integer (c :: cs) = .ok (none, c :: cs) := by
  have hdigits : (takeWhile Char.isDigit : Grammar.Part (List Char)) (c :: cs) = .ok ([], c :: cs) := by
    have hstops : Stops Char.isDigit (c :: cs) := stops_cons hd
    show Except.ok _ = _
    rw [hstops.takeWhile, hstops.dropWhile]
  unfold integer
  rw [bind_of_ok (a := c :: cs) (r := c :: cs) rfl, bind_of_ok (eat_of_ne hc), bind_of_ok hdigits]
  rfl

/-! ## Choices and slices -/

theorem isMark_of_mem {c : Char} (h : c ∈ marks) : isMark c = true := by
  simpa [isMark, marks] using h

theorem not_isMark_of_isDigit {c : Char} (h : c = '-' ∨ c.isDigit = true) : isMark c = false := by
  rw [Bool.eq_false_iff]
  intro hmark
  simp only [isMark, Bool.or_eq_true, decide_eq_true_eq] at hmark
  rcases hmark with rfl | rfl <;> exact absurd h (by decide)

theorem choice_spelled {c : Selector} {t : List Char} (h : c.Spelled t) (hrest : Stops Char.isDigit rest) :
    choice (t ++ rest) = .ok (c, rest) := by
  unfold choice
  cases h with
  | name mark s hmark =>
    have hread := quoted_inMarks hmark s.toList rest
    rw [inMarks, List.cons_append] at hread ⊢
    rw [bind_of_ok peek_cons]
    dsimp only
    rw [isMark_of_mem hmark, if_pos rfl, bind_of_ok hread, String.ofList_toList]
    rfl
  | @index i hi =>
    obtain ⟨c, cs, hcs, hc, -⟩ := toString_eq_cons i
    have hread := integer_toString hi hrest
    rw [hcs, List.cons_append] at hread ⊢
    rw [bind_of_ok peek_cons]
    dsimp only
    rw [not_isMark_of_isDigit hc, if_neg Bool.false_ne_true, bind_of_ok hread]
    rfl

theorem Selector.Spelled.exists_cons {c : Selector} {t : List Char} (h : c.Spelled t) :
    ∃ d cs, t = d :: cs ∧ isBlank d = false ∧ d ≠ '*' ∧ d ≠ '?' := by
  cases h with
  | name mark s hmark =>
    refine ⟨mark, _, rfl, ?_⟩
    simp only [marks, List.mem_cons, List.not_mem_nil, or_false] at hmark
    rcases hmark with rfl | rfl <;> decide
  | @index i hi =>
    obtain ⟨d, cs, hcs, hd, -⟩ := toString_eq_cons i
    rcases hd with rfl | hd
    · exact ⟨_, cs, hcs, by decide⟩
    · refine ⟨d, cs, hcs, not_isBlank_of_isDigit hd, ?_, ?_⟩ <;> rintro rfl <;> exact absurd hd (by decide)

theorem choicesRound_spelledNext {c : Selector} {t r : List Char} (acc : List Selector)
    (h : c.SpelledNext t) (hrest : NextIn [',', ']'] rest) (hr : dropBlanks r = dropBlanks (t ++ rest)) :
    choicesRound acc r = .ok (.inl (c :: acc), rest) := by
  cases h with
  | @mk b b' t hb hb' hc =>
    obtain ⟨d, cs, hcs, hd, -⟩ := hc.exists_cons
    have hcomma : dropBlanks r = ',' :: (b' ++ (t ++ rest)) := by
      rw [hr]
      simp only [List.append_assoc, List.cons_append]
      rw [dropBlanks_append hb, dropBlanks_cons (by decide)]
    have hnext : dropBlanks (b' ++ (t ++ rest)) = t ++ rest := by
      rw [dropBlanks_append hb', hcs, List.cons_append, dropBlanks_cons hd]
    unfold choicesRound
    rw [bind_of_ok (skipBlanks_eq r), hcomma, bind_of_ok (eat_cons ','), if_pos rfl,
      bind_of_ok (skipBlanks_eq _), hnext,
      bind_of_ok (choice_spelled hc (hrest.stops_isDigit (by simp)))]
    rfl

theorem choicesRound_done {r : List Char} (acc : List Selector) (hrest : NextIn [']'] rest)
    (hr : dropBlanks r = dropBlanks rest) : choicesRound acc r = .ok (.inr acc, dropBlanks rest) := by
  obtain ⟨c, cs, hcs, hc⟩ := hrest.exists_dropBlanks
  rw [List.mem_singleton] at hc
  subst hc
  unfold choicesRound
  rw [bind_of_ok (skipBlanks_eq r), hr, hcs, bind_of_ok (eat_of_ne (by decide)),
    if_neg Bool.false_ne_true]
  rfl

theorem nextIn_spelledNext {choices : List Selector} {ts : List Char}
    (h : Listed Selector.SpelledNext choices ts) (hrest : NextIn [']'] rest) :
    NextIn [',', ']'] (ts ++ rest) := by
  cases h with
  | nil => exact hrest.mono (by simp)
  | cons hc _ =>
    cases hc with
    | mk hb _ _ =>
      simp only [List.append_assoc, List.cons_append]
      exact NextIn.append (nextIn_cons (by decide) (by decide)) hb

theorem iterate_choicesRound {choices : List Selector} {ts r : List Char} (acc : List Selector)
    (h : Listed Selector.SpelledNext choices ts) (hrest : NextIn [']'] rest)
    (hr : dropBlanks r = dropBlanks (ts ++ rest)) :
    iterate choicesRound id acc r = .ok (choices.reverse ++ acc, dropBlanks rest) := by
  induction h generalizing acc r with
  | nil => exact iterate_done (choicesRound_done acc hrest hr)
  | @cons c choices t ts hc hts ih =>
    rw [List.append_assoc] at hr
    have hround := choicesRound_spelledNext acc hc (nextIn_spelledNext hts hrest) hr
    have hlength : (ts ++ rest).length < r.length := by
      have hle := length_dropBlanks_le r
      cases hc with
      | mk hb _ _ =>
        rw [hr] at hle
        simp only [List.append_assoc, List.cons_append] at hle
        rw [dropBlanks_append hb, dropBlanks_cons (by decide)] at hle
        simp only [List.length_cons, List.length_append] at hle ⊢
        omega
    rw [iterate_more hround hlength, ih (c :: acc) rfl, List.reverse_cons, List.append_assoc,
      List.singleton_append]

theorem unionFrom_spelled {first : Selector} {choices : List Selector} {ts r : List Char}
    (h : Listed Selector.SpelledNext choices ts) (hrest : NextIn [']'] rest)
    (hr : dropBlanks r = dropBlanks (ts ++ rest)) :
    unionFrom first r = .ok (segmentOf (first :: choices), dropBlanks rest) := by
  unfold unionFrom
  rw [bind_of_ok (iterate_choicesRound [first] h hrest hr), List.reverse_append, List.reverse_reverse]
  rfl

/-- A choice and those after it, if any, are a member, an item or a union. -/
theorem selectors_spelled {first : Selector} {choices : List Selector} {t ts : List Char}
    (h : first.Spelled t) (hts : Listed Selector.SpelledNext choices ts) (hrest : NextIn [']'] rest) :
    selectors (t ++ (ts ++ rest)) = .ok (segmentOf (first :: choices), dropBlanks rest) := by
  have hnext := nextIn_spelledNext hts hrest
  unfold selectors
  cases h with
  | name mark s hmark =>
    have hread := quoted_inMarks hmark s.toList (ts ++ rest)
    rw [inMarks, List.cons_append] at hread ⊢
    rw [bind_of_ok peek_cons]
    dsimp only
    rw [isMark_of_mem hmark, if_pos rfl, bind_of_ok hread, String.ofList_toList]
    exact unionFrom_spelled hts hrest rfl
  | @index i hi =>
    obtain ⟨c, cs, hcs, hc, -⟩ := toString_eq_cons i
    have hread := integer_toString hi (hnext.stops_isDigit (by simp))
    obtain ⟨d, ds, hds, hd⟩ := hnext.exists_dropBlanks
    have hcolon : d ≠ ':' := by
      rintro rfl
      exact absurd hd (by decide)
    have heat : (eat ':' : Grammar.Part Bool) (dropBlanks (ts ++ rest)) = .ok (false, dropBlanks (ts ++ rest)) := by
      rw [hds, eat_of_ne hcolon]
    rw [hcs, List.cons_append] at hread ⊢
    rw [bind_of_ok peek_cons]
    dsimp only
    rw [not_isMark_of_isDigit hc, if_neg Bool.false_ne_true, bind_of_ok hread,
      bind_of_ok (skipBlanks_eq _), bind_of_ok heat, if_neg Bool.false_ne_true]
    exact unionFrom_spelled hts hrest dropBlanks_dropBlanks

/-! ## Slices -/

theorem integer_spelledBound {bound : Option Int} {t : List Char} (h : SpelledBound bound t)
    (hrest : NextIn [':', ']'] rest) : Reads integer (dropBlanks (t ++ rest)) bound rest := by
  cases h with
  | none =>
    obtain ⟨c, cs, hcs, hc⟩ := hrest.exists_dropBlanks
    have hne : c ≠ '-' ∧ c.isDigit = false := by
      simp only [List.mem_cons, List.not_mem_nil, or_false] at hc
      rcases hc with rfl | rfl <;> decide
    refine reads_of_dropBlanks ?_
    rw [List.nil_append, hcs]
    exact integer_none hne.1 hne.2
  | @some i hi =>
    obtain ⟨d, cs, hcs, hd, -⟩ := (Selector.Spelled.index hi).exists_cons
    have hblanks : dropBlanks ((toString i).toList ++ rest) = (toString i).toList ++ rest := by
      rw [hcs, List.cons_append, dropBlanks_cons hd]
    rw [hblanks]
    exact reads_of_eq (integer_toString hi (hrest.stops_isDigit (by simp)))

/-- The end and the step of a slice are read after its first colon. -/
theorem sliceFrom_spelled (start : Option Int) {stop : Option Int} {step : Int} {u v b b' : List Char}
    (hstop : SpelledBound stop u) (hstep : SpelledStep step v) (hb : Blanks b) (hb' : Blanks b')
    (hrest : NextIn [']'] rest) :
    Reads (sliceFrom start) (b ++ (u ++ (b' ++ (v ++ rest)))) (.slice start stop step) rest := by
  have hnext : NextIn [':', ']'] (b' ++ (v ++ rest)) := by
    refine NextIn.append ?_ hb'
    cases hstep with
    | omitted => exact hrest.mono (by simp)
    | given _ _ _ => exact nextIn_cons (by decide) (by decide)
  obtain ⟨r, hr, hrb, -⟩ := integer_spelledBound hstop hnext
  rw [dropBlanks_append hb'] at hrb
  unfold sliceFrom
  cases hstep with
  | omitted =>
    obtain ⟨c, cs, hcs, hc⟩ := hrest.exists_dropBlanks
    rw [List.mem_singleton] at hc
    subst hc
    refine reads_of_dropBlanks ?_
    rw [bind_of_ok (skipBlanks_eq _), dropBlanks_append hb, bind_of_ok hr, bind_of_ok (skipBlanks_eq _),
      hrb, List.nil_append, hcs, bind_of_ok (eat_of_ne (by decide)), if_neg Bool.false_ne_true]
    rfl
  | @given step b₁ t hb₁ ht hzero =>
    obtain ⟨r', hr', hrb', hlength⟩ := integer_spelledBound ht (hrest.mono (by simp))
    refine ⟨r', ?_, hrb', hlength⟩
    have hcolon : dropBlanks (':' :: b₁ ++ t ++ rest) = ':' :: (b₁ ++ (t ++ rest)) := by
      rw [List.append_assoc, List.cons_append, dropBlanks_cons (by decide)]
    have hne : step.getD 1 ≠ 0 := by
      cases step with
      | none => decide
      | some i => simpa using hzero
    rw [bind_of_ok (skipBlanks_eq _), dropBlanks_append hb, bind_of_ok hr, bind_of_ok (skipBlanks_eq _),
      hrb, hcolon, bind_of_ok (eat_cons ':'), if_pos rfl, bind_of_ok (skipBlanks_eq _),
      dropBlanks_append hb₁, bind_of_ok hr', bind_of_ok (a := step.getD 1) (r := r') rfl]
    dsimp only
    rw [if_neg hne]
    rfl

theorem exists_cons_bound {bound : Option Int} {t b : List Char} (cs : List Char) (h : SpelledBound bound t)
    (hb : Blanks b) : ∃ d ds, dropBlanks (t ++ (b ++ ':' :: cs)) = d :: ds ∧
      isMark d = false ∧ d ≠ '*' ∧ d ≠ '?' := by
  cases h with
  | none =>
    exact ⟨':', cs, by rw [List.nil_append, dropBlanks_append hb, dropBlanks_cons (by decide)], by decide⟩
  | @some i hi =>
    obtain ⟨d, ds, hds, hd, -⟩ := toString_eq_cons i
    obtain ⟨_, _, hds', hblank, hne⟩ := (Selector.Spelled.index hi).exists_cons
    rw [hds] at hds'
    cases hds'
    exact ⟨d, _, by rw [hds, List.cons_append, dropBlanks_cons hblank], not_isMark_of_isDigit hd, hne⟩

theorem selectors_slice {start stop : Option Int} {step : Int} {t u v b b' b'' : List Char}
    (hstart : SpelledBound start t) (hstop : SpelledBound stop u) (hstep : SpelledStep step v)
    (hb : Blanks b) (hb' : Blanks b') (hb'' : Blanks b'') (hrest : NextIn [']'] rest) :
    Reads selectors (dropBlanks (t ++ (b ++ ':' :: (b' ++ (u ++ (b'' ++ (v ++ rest)))))))
      (.slice start stop step) rest := by
  obtain ⟨d, ds, hds, hmark, -⟩ := exists_cons_bound (b' ++ (u ++ (b'' ++ (v ++ rest)))) hstart hb
  have hcolon : NextIn [':', ']'] (b ++ ':' :: (b' ++ (u ++ (b'' ++ (v ++ rest))))) :=
    NextIn.append (nextIn_cons (by decide) (by decide)) hb
  obtain ⟨r, hr, hrb, -⟩ := integer_spelledBound hstart hcolon
  rw [dropBlanks_append hb, dropBlanks_cons (by decide)] at hrb
  obtain ⟨r', hr', hrest'⟩ := sliceFrom_spelled start hstop hstep hb' hb'' hrest
  refine ⟨r', ?_, hrest'⟩
  rw [hds] at hr ⊢
  unfold selectors
  rw [bind_of_ok peek_cons]
  dsimp only
  rw [hmark, if_neg Bool.false_ne_true, bind_of_ok hr, bind_of_ok (skipBlanks_eq r), hrb,
    bind_of_ok (eat_cons ':'), if_pos rfl]
  exact hr'

/-! ## Segments -/

theorem require_cons {c : Char} {cs : List Char} : require c (c :: cs) = .ok ((), cs) := by
  unfold require
  rw [bind_of_ok (eat_cons c)]
  rfl

theorem bracket_eq {inner : Grammar.Part Filter} {text ds : List Char} {d : Char}
    (hds : dropBlanks text = d :: ds) (hstar : d ≠ '*') (htest : d ≠ '?') : bracket inner text =
      (do let s ← selectors; skipBlanks; require ']'; return s : Grammar.Part Segment) (d :: ds) := by
  unfold bracket
  rw [bind_of_ok (skipBlanks_eq text), hds, bind_of_ok peek_cons]
  refine congrFun ?_ (d :: ds)
  dsimp only
  split
  · next heq =>
    cases heq
    exact absurd rfl hstar
  · next heq =>
    cases heq
    exact absurd rfl htest
  · rfl

theorem bracket_selectors {inner : Grammar.Part Filter} {s : Segment} {text ds b : List Char} {d : Char}
    (hds : dropBlanks text = d :: ds) (hstar : d ≠ '*') (htest : d ≠ '?') (hb : Blanks b)
    (h : Reads selectors (d :: ds) s (b ++ ']' :: rest)) : bracket inner text = .ok (s, rest) := by
  obtain ⟨r, hr, hrb, -⟩ := h
  rw [dropBlanks_append hb, dropBlanks_cons (by decide)] at hrb
  rw [bracket_eq hds hstar htest, bind_of_ok hr, bind_of_ok (skipBlanks_eq r), hrb, bind_of_ok require_cons]
  rfl

theorem segmentOf_union (first second : Selector) (others : List Selector) :
    segmentOf (first :: second :: others) = .union (first :: second :: others) := by
  cases first <;> rfl

theorem bracket_within {inner : Grammar.Part Filter} {s : Segment} {t b b' : List Char} (h : s.SpelledWithin t)
    (hb : Blanks b) (hb' : Blanks b') : bracket inner (b ++ (t ++ (b' ++ ']' :: rest))) = .ok (s, rest) := by
  have hnext : NextIn [']'] (b' ++ ']' :: rest) :=
    NextIn.append (nextIn_cons (by decide) (by decide)) hb'
  have hchoice {first : Selector} {choices : List Selector} {t ts : List Char} (hfirst : first.Spelled t)
      (hts : Listed Selector.SpelledNext choices ts) :
      bracket inner (b ++ (t ++ (ts ++ (b' ++ ']' :: rest)))) =
        .ok (segmentOf (first :: choices), rest) := by
    obtain ⟨d, ds, hds, hd, hstar, htest⟩ := hfirst.exists_cons
    have hread := selectors_spelled hfirst hts hnext
    rw [hds, List.cons_append] at hread ⊢
    exact bracket_selectors (by rw [dropBlanks_append hb, dropBlanks_cons hd]) hstar htest hb'
      (reads_of_dropBlanks hread)
  cases h with
  | wildcard =>
    unfold bracket
    rw [bind_of_ok (skipBlanks_eq _), dropBlanks_append hb, List.singleton_append,
      dropBlanks_cons (by decide), bind_of_ok peek_cons]
    simp only
    rw [bind_of_ok (a := some '*') (r := b' ++ ']' :: rest) rfl,
      bind_of_ok (a := Segment.wildcard) (r := b' ++ ']' :: rest) rfl, bind_of_ok (skipBlanks_eq _),
      dropBlanks_append hb', dropBlanks_cons (by decide), bind_of_ok require_cons]
    rfl
  | slice hstart hstop hstep hb₁ hb₂ hb₃ =>
    simp only [List.append_assoc, List.cons_append]
    have hread := selectors_slice hstart hstop hstep hb₁ hb₂ hb₃ hnext
    obtain ⟨d, ds, hds, -, hstar, htest⟩ := exists_cons_bound _ hstart hb₁
    rw [hds] at hread
    exact bracket_selectors (by rw [dropBlanks_append hb, hds]) hstar htest hb' hread
  | child h => exact hchoice h .nil
  | index h => exact hchoice h .nil
  | union hfirst hts =>
    rw [List.append_assoc, ← segmentOf_union]
    exact hchoice hfirst hts

end StepFlow
