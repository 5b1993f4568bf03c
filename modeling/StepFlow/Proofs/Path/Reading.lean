import StepFlow.Proofs.Path.Brackets

/-!
# Queries are read as they are spelled

The reader of a filter calls itself for the filters within, whose texts are shorter, so all that it
reads is known from what it reads of shorter texts.

* `ReadsFilters`: a scanner reads all filters up to a length, the hypothesis on the inner filters;
* `path_spelled`, `operand_spelled`, `test_spelled`: the parts of a filter;
* `chain_spelled`: links joined to the left, and `readsFilters_filter`: the induction on the length;
* **`Query.parse_spelled_query`**.
-/

namespace StepFlow

open Text Text.Scanner Grammar

variable {rest : List Char}

/-! ## Segments -/

/-- The scanner reads the filters whose texts are shorter than `n`. -/
def ReadsFilters (inner : Grammar.Part Filter) (n : Nat) : Prop :=
  ∀ f t rest, Filter.Spelled f t → t.length < n → NextIn [')'] rest → Reads inner (t ++ rest) f rest

section segments

variable {inner : Grammar.Part Filter} {n : Nat}

theorem bracket_filter {f : Filter} {t b b' b₁ b₂ : List Char} (hinner : ReadsFilters inner n)
    (h : Filter.Spelled f t) (hn : t.length < n) (hb : Blanks b) (hb' : Blanks b') (hb₁ : Blanks b₁)
    (hb₂ : Blanks b₂) :
    bracket inner (b ++ '?' :: (b' ++ '(' :: (t ++ (b₁ ++ ')' :: (b₂ ++ ']' :: rest))))) =
      .ok (.filter f, rest) := by
  obtain ⟨r, hr, hrb, -⟩ := hinner f t (b₁ ++ ')' :: (b₂ ++ ']' :: rest)) h hn
    (NextIn.append (nextIn_cons (by decide) (by decide)) hb₁)
  rw [dropBlanks_append hb₁, dropBlanks_cons (by decide)] at hrb
  unfold bracket
  rw [bind_of_ok (skipBlanks_eq _), dropBlanks_append hb, dropBlanks_cons (by decide),
    bind_of_ok peek_cons]
  simp only
  rw [bind_of_ok (a := some '?') (r := b' ++ '(' :: (t ++ (b₁ ++ ')' :: (b₂ ++ ']' :: rest)))) rfl,
    bind_of_ok (skipBlanks_eq _), dropBlanks_append hb', dropBlanks_cons (by decide),
    bind_of_ok require_cons, bind_of_ok hr, bind_of_ok (skipBlanks_eq r), hrb, bind_of_ok require_cons,
    bind_of_ok (a := Segment.filter f) (r := b₂ ++ ']' :: rest) rfl, bind_of_ok (skipBlanks_eq _),
    dropBlanks_append hb₂, dropBlanks_cons (by decide), bind_of_ok require_cons]
  rfl

/-- A name after a dot is read up to what ends it. -/
theorem dotSegment_name {nested : Bool} {name : String} (h : IsPlainName name.toList)
    (hrest : Stops (isNameChar nested) rest) :
    dotSegment nested (name.toList ++ rest) = .ok (.child name, rest) := by
  obtain ⟨c, cs, hcs⟩ := List.exists_cons_of_ne_nil h.nonempty
  have hrun : ∀ c ∈ name.toList, isNameChar nested c = true := by
    intro c hc
    obtain ⟨hblank, hplain⟩ := h.plain c hc
    simp only [List.mem_cons, List.not_mem_nil, or_false, not_or] at hplain
    simp [isNameChar, endsNestedName, hblank, hplain]
  have htake : (takeWhile (isNameChar nested) : Grammar.Part (List Char)) (name.toList ++ rest) =
      .ok (name.toList, rest) := by
    show Except.ok _ = _
    rw [takeWhile_run hrun hrest, dropWhile_run hrun hrest]
  have heq : dotSegment nested (name.toList ++ rest) = (do
      let name ← takeWhile (isNameChar nested)
      if name.isEmpty then fault .noMemberName else return .child (String.ofList name) : Grammar.Part Segment)
        (name.toList ++ rest) := by
    unfold dotSegment
    rw [hcs, List.cons_append, bind_of_ok peek_cons]
    refine congrFun ?_ (c :: (cs ++ rest))
    split
    · next hc =>
      cases hc
      exact absurd (h.plain '.' (hcs ▸ List.mem_cons_self)).2 (by decide)
    · next hc =>
      cases hc
      exact absurd (by rw [hcs]; rfl) h.star
    · rfl
  rw [heq, bind_of_ok htake, List.isEmpty_eq_false_iff.mpr h.nonempty, if_neg Bool.false_ne_true,
    String.ofList_toList]
  rfl

/-- One round reads one segment. -/
theorem segmentsRound_spelled {nested : Bool} {s : Segment} {t : List Char} (acc : List Segment)
    (hinner : ReadsFilters inner n) (h : s.Spelled t) (hn : t.length ≤ n)
    (hrest : Stops (isNameChar nested) rest) :
    segmentsRound inner nested acc (t ++ rest) = .ok (.inl (s :: acc), rest) := by
  have hdot {s : Segment} {cs : List Char} (hread : dotSegment nested cs = .ok (s, rest)) :
      segmentsRound inner nested acc ('.' :: cs) = .ok (.inl (s :: acc), rest) := by
    unfold segmentsRound
    rw [bind_of_ok peek_cons]
    simp only
    rw [bind_of_ok (a := some '.') (r := cs) rfl, bind_of_ok hread]
    rfl
  have hbracket {s : Segment} {cs : List Char} (hread : bracket inner cs = .ok (s, rest)) :
      segmentsRound inner nested acc ('[' :: cs) = .ok (.inl (s :: acc), rest) := by
    unfold segmentsRound
    rw [bind_of_ok peek_cons]
    simp only
    rw [bind_of_ok (a := some '[') (r := cs) rfl, bind_of_ok hread]
    rfl
  cases h with
  | name h => exact hdot (dotSegment_name h hrest)
  | wildcard => exact hdot rfl
  | within h hb hb' =>
    simp only [List.append_assoc, List.cons_append, List.nil_append]
    exact hbracket (bracket_within h hb hb')
  | filter h hb hb' hb₁ hb₂ =>
    simp only [List.append_assoc, List.cons_append, List.nil_append, List.length_append,
      List.length_cons] at hn ⊢
    exact hbracket (bracket_filter hinner h (by omega) hb hb' hb₁ hb₂)

theorem Segment.Spelled.exists_cons {s : Segment} {t : List Char} (h : s.Spelled t) :
    ∃ c cs, t = c :: cs ∧ (c = '.' ∨ c = '[') := by
  cases h with
  | name h => exact ⟨'.', _, rfl, .inl rfl⟩
  | wildcard => exact ⟨'.', _, rfl, .inl rfl⟩
  | within h hb hb' =>
    simp only [List.append_assoc, List.cons_append]
    exact ⟨'[', _, rfl, .inr rfl⟩
  | filter h hb hb' hb₁ hb₂ =>
    simp only [List.append_assoc, List.cons_append]
    exact ⟨'[', _, rfl, .inr rfl⟩

theorem stops_segments {nested : Bool} {segments : List Segment} {t : List Char}
    (h : Listed Segment.Spelled segments t) (hrest : Stops (isNameChar nested) rest) :
    Stops (isNameChar nested) (t ++ rest) := by
  cases h with
  | nil => exact hrest
  | cons hs _ =>
    obtain ⟨c, cs, rfl, hc⟩ := hs.exists_cons
    refine stops_cons ?_
    rcases hc with rfl | rfl <;> rfl

theorem iterate_segmentsRound {nested : Bool} {segments : List Segment} {t : List Char}
    (acc : List Segment) (hinner : ReadsFilters inner n) (h : Listed Segment.Spelled segments t)
    (hn : t.length ≤ n) (hrest : Stops (isNameChar nested) rest)
    (hend : ∀ acc, segmentsRound inner nested acc rest = .ok (.inr acc, rest)) :
    iterate (segmentsRound inner nested) id acc (t ++ rest) = .ok (segments.reverse ++ acc, rest) := by
  induction h generalizing acc with
  | nil => exact iterate_done (hend acc)
  | @cons s segments t ts hs hts ih =>
    rw [List.length_append] at hn
    have hround := segmentsRound_spelled acc hinner hs (by omega) (stops_segments hts hrest)
    obtain ⟨c, cs, ht, -⟩ := hs.exists_cons
    have hshorter : (ts ++ rest).length < (t ++ (ts ++ rest)).length := by
      rw [ht]
      simp only [List.length_append, List.length_cons]
      omega
    rw [List.append_assoc, iterate_more hround hshorter, ih (s :: acc) (by omega),
      List.reverse_cons, List.append_assoc, List.singleton_append]

theorem path_spelled {nested : Bool} {a : Anchor} {segments : List Segment} {t : List Char}
    (hinner : ReadsFilters inner n) (h : Listed Segment.Spelled segments t) (hn : t.length ≤ n)
    (hrest : Stops (isNameChar nested) rest)
    (hend : ∀ acc, segmentsRound inner nested acc rest = .ok (.inr acc, rest)) :
    path inner nested (a.mark :: (t ++ rest)) = .ok ((a, segments), rest) := by
  have hanchor : anchor (a.mark :: (t ++ rest)) = .ok (a, t ++ rest) := by cases a <;> rfl
  have hacc := iterate_segmentsRound [] hinner h hn hrest hend
  rw [List.append_nil] at hacc
  unfold path
  rw [bind_of_ok hanchor, bind_of_ok hacc, List.reverse_reverse]
  rfl

/-! ## Operands -/

/-- The characters that may follow an operand, after blanks or none. -/
def operandEnds : List Char := [')', '&', '|', '=', '!', '<', '>']

theorem segmentsRound_end (hrest : NextIn operandEnds rest) (acc : List Segment) :
    segmentsRound inner true acc rest = .ok (.inr acc, rest) := by
  obtain ⟨c, cs, rfl, hc⟩ := hrest.exists_cons
  have hne : c ≠ '.' ∧ c ≠ '[' := by
    constructor <;> rintro rfl <;> exact absurd hc (by decide)
  have heq : segmentsRound inner true acc (c :: cs) =
      (pure (.inr acc) : Grammar.Part (List Segment ⊕ List Segment)) (c :: cs) := by
    unfold segmentsRound
    rw [bind_of_ok peek_cons]
    refine congrFun ?_ (c :: cs)
    split
    · next hc =>
      cases hc
      exact absurd rfl hne.1
    · next hc =>
      cases hc
      exact absurd rfl hne.2
    · next hc => cases hc
    · rfl
  exact heq

theorem stops_isNameChar (hrest : NextIn operandEnds rest) : Stops (isNameChar true) rest :=
  hrest.stops (fun c hc => by simp [isNameChar, endsNestedName, hc]) (List.all_iff_forall_prop.mp (by decide))

theorem stops_isWordChar (hrest : NextIn operandEnds rest) : Stops isWordChar rest := by
  refine hrest.stops (fun c hc => ?_) (List.all_iff_forall_prop.mp (by decide))
  rw [Bool.eq_false_iff]
  intro hword
  simp only [isWordChar, Bool.or_eq_true, decide_eq_true_eq] at hword
  rcases hword with ((hword | rfl) | rfl) | rfl
  · rw [not_isBlank_of_isAlphanum hword] at hc
    cases hc
  · exact absurd hc (by decide)
  · exact absurd hc (by decide)
  · exact absurd hc (by decide)

theorem operand_word {v : Json} {c : Char} {cs : List Char} (hword : ∀ d ∈ c :: cs, isWordChar d = true)
    (hv : literal? (c :: cs) = some v) (hrest : NextIn operandEnds rest) :
    operand inner (c :: cs ++ rest) = .ok (.literal v, rest) := by
  have hc := hword c List.mem_cons_self
  have hpath : (decide (c = '@') || decide (c = '$')) = false := by
    rw [Bool.or_eq_false_iff, decide_eq_false_iff_not, decide_eq_false_iff_not]
    constructor <;> rintro rfl <;> exact absurd hc (by decide)
  have hmark : isMark c = false := by
    rw [isMark, Bool.or_eq_false_iff, decide_eq_false_iff_not, decide_eq_false_iff_not]
    constructor <;> rintro rfl <;> exact absurd hc (by decide)
  have htake : (takeWhile isWordChar : Grammar.Part (List Char)) (c :: cs ++ rest) = .ok (c :: cs, rest) := by
    show Except.ok _ = _
    rw [takeWhile_run hword (stops_isWordChar hrest), dropWhile_run hword (stops_isWordChar hrest)]
  unfold operand
  rw [bind_of_ok (a := c :: cs ++ rest) (r := c :: cs ++ rest) rfl]
  dsimp only [List.cons_append, List.head?_cons]
  rw [hpath, if_neg Bool.false_ne_true, hmark, if_neg Bool.false_ne_true, ← List.cons_append,
    bind_of_ok htake, hv]
  rfl

theorem literal?_toString {i : Int} (h : Number.isExact i = true) :
    literal? (toString i).toList = some (.int i) := by
  obtain ⟨c, cs, hcs, hc, -⟩ := toString_eq_cons i
  have hne : ∀ d ds, ¬(d = '-' ∨ d.isDigit = true) → (toString i).toList ≠ d :: ds := by
    rintro d ds hd heq
    rw [hcs] at heq
    cases heq
    exact hd hc
  have hread : Number.read? (toString i).toList = some (.int i) := Number.read?_render_int h
  rw [literal?, if_neg (hne _ _ (by decide)), if_neg (hne _ _ (by decide)),
    if_neg (hne _ _ (by decide)), hread]
  rfl

/-- An operand is read up to what may follow it. -/
theorem operand_spelled {o : Operand} {t : List Char} (hinner : ReadsFilters inner n) (h : o.Spelled t)
    (hn : t.length ≤ n) (hrest : NextIn operandEnds rest) :
    operand inner (t ++ rest) = .ok (o, rest) := by
  cases h with
  | @path a segments t h =>
    have hread := path_spelled (a := a) hinner h (Nat.le_of_succ_le hn) (stops_isNameChar hrest)
      (segmentsRound_end hrest)
    have hmark : (decide (a.mark = '@') || decide (a.mark = '$')) = true := by cases a <;> rfl
    unfold operand
    rw [bind_of_ok (a := a.mark :: t ++ rest) (r := a.mark :: t ++ rest) rfl]
    dsimp only [List.cons_append, List.head?_cons]
    rw [hmark, if_pos rfl, bind_of_ok hread]
    rfl
  | literal h =>
    cases h with
    | null => exact operand_word (List.all_iff_forall_prop.mp (by decide)) rfl hrest
    | yes => exact operand_word (List.all_iff_forall_prop.mp (by decide)) rfl hrest
    | no => exact operand_word (List.all_iff_forall_prop.mp (by decide)) rfl hrest
    | @integer i hi =>
      obtain ⟨c, cs, hcs, hc, hall⟩ := toString_eq_cons i
      have hliteral := literal?_toString hi
      have hdigit {d : Char} (hd : d = '-' ∨ d.isDigit = true) : isWordChar d = true := by
        rcases hd with rfl | hd
        · rfl
        · simp [isWordChar, Char.isAlphanum, hd]
      rw [hcs] at hliteral ⊢
      exact operand_word (List.forall_mem_cons.mpr ⟨hdigit hc, fun d hd => hdigit (.inr (hall d hd))⟩)
        hliteral hrest
    | string mark s hmark =>
      have hread := quoted_inMarks hmark s.toList rest
      have hpath : ∀ mark ∈ marks, (decide (mark = '@') || decide (mark = '$')) = false :=
        List.all_iff_forall_prop.mp (by decide)
      rw [inMarks, List.cons_append] at hread ⊢
      unfold operand
      rw [bind_of_ok (a := mark :: _) (r := mark :: _) rfl]
      dsimp only [List.head?_cons]
      rw [hpath mark hmark, if_neg Bool.false_ne_true, isMark_of_mem hmark, if_pos rfl,
        bind_of_ok hread, String.ofList_toList]
      rfl

/-- The first character of an operand is no blank, no parenthesis and no equals sign. -/
theorem Operand.Spelled.exists_cons {o : Operand} {t : List Char} (h : o.Spelled t) :
    ∃ c cs, t = c :: cs ∧ isBlank c = false ∧ c ≠ '(' ∧ c ≠ '=' := by
  cases h with
  | @path a segments t h => exact ⟨a.mark, t, rfl, by cases a <;> decide⟩
  | literal h =>
    cases h with
    | null => exact ⟨'n', _, rfl, by decide⟩
    | yes => exact ⟨'t', _, rfl, by decide⟩
    | no => exact ⟨'f', _, rfl, by decide⟩
    | @integer i hi =>
      obtain ⟨c, cs, hcs, hc, -⟩ := toString_eq_cons i
      rcases hc with rfl | hc
      · exact ⟨_, cs, hcs, by decide⟩
      · refine ⟨c, cs, hcs, not_isBlank_of_isDigit hc, ?_, ?_⟩ <;> rintro rfl <;>
          exact absurd hc (by decide)
    | string mark s hmark =>
      have hne : ∀ mark ∈ marks, isBlank mark = false ∧ mark ≠ '(' ∧ mark ≠ '=' :=
        List.all_iff_forall_prop.mp (by decide)
      exact ⟨mark, _, rfl, hne mark hmark⟩

/-! ## Tests -/

/-- A sign of comparison is read unless an equals sign makes it longer. -/
theorem comparison_sign (c : Comparison) {d : Char} {cs : List Char} (hd : d ≠ '=') :
    comparison (c.sign.toList ++ d :: cs) = .ok (some c, d :: cs) := by
  have hlt : (eatAll ['<', '='] : Grammar.Part Bool) ('<' :: d :: cs) = .ok (false, '<' :: d :: cs) :=
    eatAll_of_ne_second hd
  have hgt : (eatAll ['>', '='] : Grammar.Part Bool) ('>' :: d :: cs) = .ok (false, '>' :: d :: cs) :=
    eatAll_of_ne_second hd
  cases c with
  | eq => rfl
  | ne => rfl
  | le => rfl
  | ge => rfl
  | lt =>
    show comparison ('<' :: d :: cs) = _
    unfold comparison
    rw [bind_of_ok (eatAll_of_ne (by decide)), if_neg Bool.false_ne_true,
      bind_of_ok (eatAll_of_ne (by decide)), if_neg Bool.false_ne_true, bind_of_ok hlt,
      if_neg Bool.false_ne_true, bind_of_ok (eatAll_of_ne (by decide)), if_neg Bool.false_ne_true,
      bind_of_ok (eat_cons '<')]
    rfl
  | gt =>
    show comparison ('>' :: d :: cs) = _
    unfold comparison
    rw [bind_of_ok (eatAll_of_ne (by decide)), if_neg Bool.false_ne_true,
      bind_of_ok (eatAll_of_ne (by decide)), if_neg Bool.false_ne_true,
      bind_of_ok (eatAll_of_ne (by decide)), if_neg Bool.false_ne_true, bind_of_ok hgt,
      if_neg Bool.false_ne_true, bind_of_ok (eat_of_ne (by decide)), if_neg Bool.false_ne_true,
      bind_of_ok (eat_cons '>')]
    rfl

/-- The characters that may follow a test, after blanks or none. -/
def testEnds : List Char := [')', '&', '|']

theorem comparison_none (hrest : NextIn testEnds rest) :
    comparison (dropBlanks rest) = .ok (none, dropBlanks rest) := by
  obtain ⟨c, cs, hcs, hc⟩ := hrest.exists_dropBlanks
  have hne : c ≠ '=' ∧ c ≠ '!' ∧ c ≠ '<' ∧ c ≠ '>' := by
    refine ⟨?_, ?_, ?_, ?_⟩ <;> rintro rfl <;> exact absurd hc (by decide)
  unfold comparison
  rw [hcs, bind_of_ok (eatAll_of_ne hne.1), if_neg Bool.false_ne_true,
    bind_of_ok (eatAll_of_ne hne.2.1), if_neg Bool.false_ne_true,
    bind_of_ok (eatAll_of_ne hne.2.2.1), if_neg Bool.false_ne_true,
    bind_of_ok (eatAll_of_ne hne.2.2.2), if_neg Bool.false_ne_true,
    bind_of_ok (eat_of_ne hne.2.2.1), if_neg Bool.false_ne_true,
    bind_of_ok (eat_of_ne hne.2.2.2)]
  rfl

theorem exists_cons_sign (c : Comparison) : ∃ d ds, c.sign.toList = d :: ds ∧
    d ∈ operandEnds ∧ isBlank d = false := by
  cases c <;> exact ⟨_, _, rfl, by decide⟩

theorem comparison_spelled (c : Comparison) {r : Operand} {u b : List Char} (hr : r.Spelled u)
    (hb : Blanks b) :
    comparison (c.sign.toList ++ (b ++ (u ++ rest))) = .ok (some c, b ++ (u ++ rest)) := by
  cases b with
  | nil =>
    obtain ⟨d, ds, hds, -, -, hequals⟩ := hr.exists_cons
    rw [hds]
    exact comparison_sign c hequals
  | cons k b =>
    refine comparison_sign c ?_
    rintro rfl
    exact absurd (hb _ List.mem_cons_self) (by decide)

theorem dropBlanks_operand {o : Operand} {t : List Char} (h : o.Spelled t) :
    dropBlanks (t ++ rest) = t ++ rest := by
  obtain ⟨d, ds, hds, hd, -, -⟩ := h.exists_cons
  rw [hds, List.cons_append, dropBlanks_cons hd]

/-- What is read of a test that starts with an operand, once the operand has been read. -/
def afterOperand (inner : Grammar.Part Filter) (left : Operand) : Grammar.Part Filter := do
  match ← comparison with
  | some c =>
    skipBlanks
    return .compare left c (← operand inner)
  | none => return .present left

theorem test_operand {o : Operand} {t b : List Char} (hinner : ReadsFilters inner n) (h : o.Spelled t)
    (hn : t.length ≤ n) (hb : Blanks b) (hrest : NextIn operandEnds rest) :
    test inner (b ++ (t ++ rest)) = afterOperand inner o (dropBlanks rest) := by
  have hread := operand_spelled hinner h hn hrest
  obtain ⟨d, ds, hds, hd, hopen, -⟩ := h.exists_cons
  unfold test
  rw [bind_of_ok (skipBlanks_eq _), dropBlanks_append hb]
  rw [hds, List.cons_append] at hread ⊢
  rw [dropBlanks_cons hd, bind_of_ok (eat_of_ne hopen), if_neg Bool.false_ne_true, bind_of_ok hread,
    bind_of_ok (skipBlanks_eq _)]
  rfl

/-- A test is read up to what may follow it. -/
theorem test_spelled {f : Filter} {t : List Char} (hinner : ReadsFilters inner n) (h : Test.Spelled f t)
    (hn : t.length ≤ n) (hrest : NextIn testEnds rest) : Reads (test inner) (t ++ rest) f rest := by
  have hends : NextIn operandEnds rest := hrest.mono (by simp [testEnds, operandEnds])
  cases h with
  | @compare l r t u b b' b'' c hl hr hb hb' hb'' =>
    obtain ⟨e, es, hes, he, hblank⟩ := exists_cons_sign c
    simp only [List.length_append] at hn
    have hnext : NextIn operandEnds (b' ++ (c.sign.toList ++ (b'' ++ (u ++ rest)))) := by
      rw [hes]
      exact NextIn.append (nextIn_cons he hblank) hb'
    have hright := operand_spelled hinner hr (by omega) hends
    have hdrop : dropBlanks (c.sign.toList ++ (b'' ++ (u ++ rest))) =
        c.sign.toList ++ (b'' ++ (u ++ rest)) := by
      rw [hes, List.cons_append, dropBlanks_cons hblank]
    refine reads_of_eq ?_
    simp only [List.append_assoc]
    rw [test_operand hinner hl (by omega) hb hnext, dropBlanks_append hb', hdrop, afterOperand,
      bind_of_ok (comparison_spelled c hr hb'')]
    dsimp only
    rw [bind_of_ok (skipBlanks_eq _), dropBlanks_append hb'', dropBlanks_operand hr, bind_of_ok hright]
    rfl
  | @present o t b h hb =>
    rw [List.length_append] at hn
    refine reads_of_dropBlanks ?_
    rw [List.append_assoc, test_operand hinner h (by omega) hb hends, afterOperand,
      bind_of_ok (comparison_none hrest)]
    rfl
  | @parentheses f t b b' h hb hb' =>
    simp only [List.length_append, List.length_cons] at hn
    obtain ⟨r, hr, hrb, -⟩ := hinner f t (b' ++ ')' :: rest) h (by omega)
      (NextIn.append (nextIn_cons (by decide) (by decide)) hb')
    rw [dropBlanks_append hb', dropBlanks_cons (by decide)] at hrb
    refine reads_of_eq ?_
    simp only [List.append_assoc, List.cons_append, List.nil_append]
    unfold test
    rw [bind_of_ok (skipBlanks_eq _), dropBlanks_append hb, dropBlanks_cons (by decide),
      bind_of_ok (eat_cons '('), if_pos rfl, bind_of_ok hr, bind_of_ok (skipBlanks_eq r), hrb,
      bind_of_ok require_cons]
    rfl

end segments

/-! ## Chains and filters -/

section chains

variable {c : Char} {sign ends : List Char} {join : Filter → Filter → Filter}
  {Link : Filter → List Char → Prop} {link : Grammar.Part Filter} {n : Nat}

theorem chainRound_more {f g : Filter} {u r r' : List Char} (hr : dropBlanks r = sign ++ (u ++ rest))
    (hread : link (u ++ rest) = .ok (g, r')) :
    chainRound sign join link f r = .ok (.inl (join f g), r') := by
  unfold chainRound
  rw [bind_of_ok (skipBlanks_eq r), hr, bind_of_ok (eatAll_append sign _), if_pos rfl, bind_of_ok hread]
  rfl

/-- Reading a chain is reading its links and going on from what they are joined to. -/
theorem chain_eq_iterate {f : Filter} {t : List Char}
    (hlink : ∀ g u rest, Link g u → u.length ≤ n → NextIn ends rest → Reads link (u ++ rest) g rest)
    (hc : c ∈ ends) (hblank : isBlank c = false) (h : Chained (c :: sign) join Link f t)
    (hn : t.length ≤ n) (hrest : NextIn ends rest) : ∃ r, dropBlanks r = dropBlanks rest ∧
      r.length ≤ rest.length ∧ chain (c :: sign) join link (t ++ rest) =
        iterate (chainRound (c :: sign) join link) id f r := by
  induction h generalizing rest with
  | @link f t h =>
    obtain ⟨r, hr, hrb, hlength⟩ := hlink f t rest h hn hrest
    refine ⟨r, hrb, hlength, ?_⟩
    unfold chain
    rw [bind_of_ok hr]
  | @more f g t b u _ hb hg ih =>
    simp only [List.length_append, List.length_cons] at hn
    have hnext : NextIn ends (b ++ c :: (sign ++ (u ++ rest))) :=
      NextIn.append (nextIn_cons hc hblank) hb
    obtain ⟨r, hrb, hlength, hchain⟩ := ih (by omega) hnext
    rw [dropBlanks_append hb, dropBlanks_cons hblank] at hrb
    obtain ⟨r', hr', hrb', hlength'⟩ := hlink g u rest hg (by omega) hrest
    have hround : chainRound (c :: sign) join link f r = .ok (.inl (join f g), r') :=
      chainRound_more hrb hr'
    have hshorter : r'.length < r.length := by
      have := length_dropBlanks_le r
      rw [hrb, List.length_cons, List.length_append, List.length_append] at this
      omega
    refine ⟨r', hrb', hlength', ?_⟩
    simp only [List.append_assoc, List.cons_append] at hchain ⊢
    rw [hchain, iterate_more hround hshorter]

/-- **A chain is read as it is joined**, up to a text that does not go on with the sign. -/
theorem chain_spelled {f : Filter} {t : List Char}
    (hlink : ∀ g u rest, Link g u → u.length ≤ n → NextIn ends rest → Reads link (u ++ rest) g rest)
    (hc : c ∈ ends) (hblank : isBlank c = false) (h : Chained (c :: sign) join Link f t)
    (hn : t.length ≤ n) (hrest : NextIn (ends.filter (· ≠ c)) rest) :
    Reads (chain (c :: sign) join link) (t ++ rest) f rest := by
  obtain ⟨r, hrb, -, hchain⟩ := chain_eq_iterate hlink hc hblank h hn
    (hrest.mono fun d hd => (List.mem_filter.mp hd).1)
  obtain ⟨d, ds, hds, hd⟩ := hrest.exists_dropBlanks
  have hne : d ≠ c := by simpa using (List.mem_filter.mp hd).2
  refine reads_of_dropBlanks ?_
  rw [hchain]
  refine iterate_done ?_
  unfold chainRound
  rw [bind_of_ok (skipBlanks_eq r), hrb, hds, bind_of_ok (eatAll_of_ne hne), if_neg Bool.false_ne_true]
  rfl

/-- **Filters are read as they are spelled**: every filter within is shorter than the text. -/
theorem readsFilters_filter (depth : Nat) : ReadsFilters (filter depth) depth := by
  induction depth with
  | zero => exact fun f t rest _ hn _ => absurd hn (Nat.not_lt_zero _)
  | succ depth ih =>
    intro f t rest h hn hrest
    have hconjunction : ∀ g u rest, Conjunction.Spelled g u → u.length ≤ depth → NextIn [')', '|'] rest →
        Reads (chain ['&', '&'] .and (test (filter depth))) (u ++ rest) g rest :=
      fun g u rest hg hu hrest =>
        have htest : ∀ g u rest, Test.Spelled g u → u.length ≤ depth → NextIn testEnds rest →
            Reads (test (filter depth)) (u ++ rest) g rest :=
          fun g u rest hg hu hrest => test_spelled ih hg hu hrest
        chain_spelled htest (by decide) (by decide) hg hu hrest
    exact chain_spelled hconjunction (by decide) (by decide) h (Nat.le_of_lt_succ hn) hrest

end chains

theorem query_spelled {a : Anchor} {segments : List Segment} {text : List Char}
    (h : SpelledQuery a segments text) : query text.length text = .ok ((a, segments), []) := by
  cases h with
  | @path _ _ t h =>
    have hread : path _ false (a.mark :: (t ++ [])) = _ :=
      path_spelled (readsFilters_filter (a.mark :: t).length) h (Nat.le_succ t.length) stops_nil
        fun acc => rfl
    rwa [List.append_nil] at hread

/-- **Every query is read as it is spelled.** Whatever is in range can be spelled, and any text that
spells an anchor and segments is read as them, however deep filters and paths nest. -/
theorem Query.parse_spelled_query (a : Anchor) (segments : List Segment)
    (h : segmentsSpellable segments = true) :
    (∃ text : String, SpelledQuery a segments text.toList) ∧
      ∀ text : String, SpelledQuery a segments text.toList →
        Query.parse text = .ok ⟨text, a, segments⟩ := by
  refine ⟨?_, fun text htext => ?_⟩
  · obtain ⟨t, ht⟩ := exists_spelled_segments segments h
    exact ⟨String.ofList (a.mark :: t), by rw [String.toList_ofList]; exact .path a ht⟩
  · unfold Query.parse
    dsimp only
    rw [complete, query_spelled htext]
    rfl

/-- A query with a quoted name, a slice, a union and a filter whose second part is a disjunction in
parentheses, over paths of its own. -/
theorem query_parse_spelled_filter :
    Query.parse "$['it\\'s'][-1:][\"a\", 0][?(@.b>=-5 && (@.*.c || $))]" =
      .ok ⟨"$['it\\'s'][-1:][\"a\", 0][?(@.b>=-5 && (@.*.c || $))]", .root,
        [.child "it's", .slice (some (-1)) none 1, .union [.name "a", .index 0],
          .filter (.and (.compare (.path .current [.child "b"]) .ge (.literal (.int (-5))))
            (.or (.present (.path .current [.wildcard, .child "c"])) (.present (.path .root []))))]⟩ := by
  have hspace : Blanks [' '] := List.all_iff_forall_prop.mp (by decide)
  have hname (name : String) (h : IsPlainName name.toList) : Segment.Spelled (.child name) _ := .name h
  have hcompare := Test.Spelled.compare .ge
    (.path .current (.cons (hname "b" ⟨by decide, by decide, List.all_iff_forall_prop.mp (by decide)⟩) .nil))
    (.literal (.integer (i := -5) (by decide))) blanks_nil blanks_nil blanks_nil
  have hleft := Test.Spelled.present (.path .current (.cons .wildcard
    (.cons (hname "c" ⟨by decide, by decide, List.all_iff_forall_prop.mp (by decide)⟩) .nil))) blanks_nil
  have hright := Test.Spelled.present (.path .root .nil) hspace
  have hor := Test.Spelled.parentheses (.more (.link (.link hleft)) hspace (.link hright)) hspace blanks_nil
  have hfilter := Segment.Spelled.filter (.link (.more (.link hcompare) hspace hor)) blanks_nil
    blanks_nil blanks_nil blanks_nil
  have hquoted := Segment.Spelled.within (.child (.name '\'' "it's" (by decide))) blanks_nil
    blanks_nil
  have hslice := Segment.Spelled.within (.slice (.some (i := -1) (by decide)) .none .omitted blanks_nil
    blanks_nil blanks_nil) blanks_nil blanks_nil
  have hunion := Segment.Spelled.within (.union (.name '"' "a" (by decide))
    (.cons (.mk blanks_nil hspace (.index (i := 0) (by decide))) .nil)) blanks_nil blanks_nil
  exact (Query.parse_spelled_query .root _ (by decide)).2 _
    (.path .root (.cons hquoted (.cons hslice (.cons hunion (.cons hfilter .nil)))))

end StepFlow
