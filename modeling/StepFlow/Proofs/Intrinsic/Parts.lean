import StepFlow.Proofs.Intrinsic.Quotes

/-!
# The parts of a list of arguments

The cut at the commas counts parentheses and follows quotes over the whole text. What it gives can be said
of each part alone, by what stands outside of its quotes: the parentheses there match, and no comma there
is outside of them.

* `Unquoted`: what stands outside of the quotes of a text, if all of them are closed, and `LeavesOpen`: a
  text in which one is not;
* `Closes`, `Shelters`: matching parentheses, and commas within them, by counting;
* `uncut_iff`: what the cut leaves in one piece, in these terms;
* `intercalate_cutAtCommas`, `cutAtCommas_intercalate`: cutting and joining undo each other;
* `exists_cutAtCommas_iff`, `cutAtCommas_eq_none_iff`: when there is a cut, and when there is none;
* **`arguments_cut_apart`**.
-/

namespace StepFlow

open Text

variable {depth : Nat} {c : Char} {text outside : List Char}

/-! ## What stands outside of quotes -/

/-- All quotes of the text are closed, and `outside` is what stands outside of them. -/
inductive Unquoted : (text outside : List Char) → Prop where
  | nil : Unquoted [] []
  | quoted {cs text outside : List Char} : QuotedText cs → Unquoted text outside →
      Unquoted ('\'' :: (cs ++ '\'' :: text)) outside
  | plain {c : Char} {text outside : List Char} : c ≠ '\'' → Unquoted text outside →
      Unquoted (c :: text) (c :: outside)

/-- The text goes on within quotes to its end, which may be behind a backslash. -/
inductive StaysQuoted : List Char → Prop where
  | nil : StaysQuoted []
  | backslash : StaysQuoted ['\\']
  | plain {c : Char} {cs : List Char} : c ≠ '\'' → c ≠ '\\' → StaysQuoted cs → StaysQuoted (c :: cs)
  | escaped {c : Char} {cs : List Char} : StaysQuoted cs → StaysQuoted ('\\' :: c :: cs)

/-- A quote of the text is left open. -/
def LeavesOpen (text : List Char) : Prop :=
  ∃ before outside rest, Unquoted before outside ∧ StaysQuoted rest ∧ text = before ++ '\'' :: rest

theorem Unquoted.append {text' outside' : List Char} (h : Unquoted text outside)
    (h' : Unquoted text' outside') : Unquoted (text ++ text') (outside ++ outside') := by
  induction h with
  | nil => exact h'
  | quoted hcs _ ih =>
    rw [List.cons_append, List.append_assoc, List.cons_append]
    exact .quoted hcs ih
  | plain hc _ ih => exact .plain hc ih

theorem Unquoted.unique {outside' : List Char} (h : Unquoted text outside) (h' : Unquoted text outside') :
    outside = outside' := by
  induction h generalizing outside' with
  | nil =>
    cases h'
    rfl
  | quoted hcs _ ih =>
    generalize htext : '\'' :: (_ ++ '\'' :: _) = text at h'
    cases h' with
    | nil => cases htext
    | quoted hcs' h' =>
      obtain ⟨-, rfl⟩ := hcs.unique hcs' (List.cons.inj htext).2
      exact ih h'
    | plain hc _ => exact absurd (List.cons.inj htext).1.symm hc
  | plain hc _ ih =>
    cases h' with
    | quoted _ _ => exact absurd rfl hc
    | plain _ h' => rw [ih h']

/-- A text within quotes that goes on behind a quote does not stay within them. -/
theorem QuotedText.not_staysQuoted {cs : List Char} (h : QuotedText cs) (rest : List Char) :
    ¬ StaysQuoted (cs ++ '\'' :: rest) := by
  induction h with
  | nil =>
    intro hstays
    cases hstays with
    | plain hquote _ _ => exact hquote rfl
  | @plain c cs _ hslash _ ih =>
    rw [List.cons_append]
    intro hstays
    generalize cs ++ '\'' :: rest = text at hstays ih
    cases hstays with
    | backslash => exact hslash rfl
    | plain _ _ hstays => exact ih hstays
    | escaped _ => exact hslash rfl
  | @escaped c cs _ ih =>
    rw [List.cons_append, List.cons_append]
    intro hstays
    generalize cs ++ '\'' :: rest = text at hstays ih
    cases hstays with
    | plain _ hslash _ => exact hslash rfl
    | escaped hstays => exact ih hstays

theorem exists_quotedText_or_staysQuoted (text : List Char) :
    (∃ cs rest, QuotedText cs ∧ text = cs ++ '\'' :: rest) ∨ StaysQuoted text := by
  match text with
  | [] => exact .inr .nil
  | c :: text =>
    by_cases hslash : c = '\\'
    · subst hslash
      match text with
      | [] => exact .inr .backslash
      | c :: text =>
        rcases exists_quotedText_or_staysQuoted text with ⟨cs, rest, hcs, rfl⟩ | hstays
        · exact .inl ⟨'\\' :: c :: cs, rest, .escaped hcs, rfl⟩
        · exact .inr (.escaped hstays)
    by_cases hquote : c = '\''
    · exact .inl ⟨[], text, .nil, by rw [hquote, List.nil_append]⟩
    rcases exists_quotedText_or_staysQuoted text with ⟨cs, rest, hcs, rfl⟩ | hstays
    · exact .inl ⟨c :: cs, rest, .plain hquote hslash hcs, rfl⟩
    · exact .inr (.plain hquote hslash hstays)

theorem exists_unquoted_or_leavesOpen (text : List Char) :
    (∃ outside, Unquoted text outside) ∨ LeavesOpen text := by
  induction hn : text.length using Nat.strongRecOn generalizing text with
  | ind n ih =>
    subst hn
    cases text with
    | nil => exact .inl ⟨[], .nil⟩
    | cons c text =>
      by_cases hquote : c = '\''
      · subst hquote
        rcases exists_quotedText_or_staysQuoted text with ⟨cs, rest, hcs, rfl⟩ | hstays
        · rcases ih _ (by simp; omega) rest rfl with ⟨outside, h⟩ | ⟨before, outside, rest, h, hstays, rfl⟩
          · exact .inl ⟨outside, .quoted hcs h⟩
          · exact .inr ⟨_, outside, rest, .quoted hcs h, hstays, by simp⟩
        · exact .inr ⟨[], [], text, .nil, hstays, rfl⟩
      · rcases ih _ (Nat.lt_succ_self _) text rfl with ⟨outside, h⟩ | ⟨before, outside, rest, h, hstays, rfl⟩
        · exact .inl ⟨c :: outside, .plain hquote h⟩
        · exact .inr ⟨c :: before, c :: outside, rest, .plain hquote h, hstays, rfl⟩

theorem Unquoted.not_leavesOpen (h : Unquoted text outside) : ¬ LeavesOpen text := by
  rintro ⟨before, outside', rest, hbefore, hstays, rfl⟩
  induction hbefore generalizing outside with
  | nil =>
    rw [List.nil_append] at h
    cases h with
    | quoted hcs _ => exact hcs.not_staysQuoted _ hstays
    | plain hc _ => exact hc rfl
  | @quoted cs text _ hcs _ ih =>
    rw [List.cons_append, List.append_assoc, List.cons_append] at h
    generalize htext : cs ++ '\'' :: (text ++ '\'' :: rest) = text' at h
    cases h with
    | quoted hcs' h =>
      obtain ⟨-, rfl⟩ := hcs.unique hcs' htext
      exact ih h
    | plain hc _ => exact hc rfl
  | plain hc _ ih =>
    rw [List.cons_append] at h
    generalize htext : _ ++ '\'' :: rest = text' at h
    cases h with
    | quoted _ _ => exact hc rfl
    | plain _ h => exact ih (htext ▸ h)

/-! ## Parentheses and commas -/

/-- The text closes all parentheses that it opens and `depth` more, and none that is not open. -/
structure Closes (depth : Nat) (text : List Char) : Prop where
  /-- No beginning of the text closes more than are open. -/
  within : ∀ before, before <+: text → before.count ')' ≤ before.count '(' + depth
  /-- In the end none is open. -/
  all : text.count ')' = text.count '(' + depth

/-- Before every comma more parentheses are opened than closed, with `depth` of them open at first. -/
def Shelters (depth : Nat) (text : List Char) : Prop :=
  ∀ before, before ++ [','] <+: text → before.count ')' < before.count '(' + depth

theorem closes_iff : Closes depth text ↔
    (∀ before, before <+: text → before.count ')' ≤ before.count '(' + depth) ∧
      text.count ')' = text.count '(' + depth :=
  ⟨fun h => ⟨h.within, h.all⟩, fun h => ⟨h.1, h.2⟩⟩

theorem closes_nil : Closes depth [] ↔ depth = 0 := by
  constructor
  · intro h
    simpa using h.all.symm
  · rintro rfl
    exact ⟨fun before hb => by simp [List.prefix_nil.mp hb], rfl⟩

theorem closes_cons : Closes depth (c :: text) ↔
    (∀ before, before <+: text → (c :: before).count ')' ≤ (c :: before).count '(' + depth) ∧
      (c :: text).count ')' = (c :: text).count '(' + depth := by
  constructor
  · exact fun h => ⟨fun before hb => h.within _ (List.cons_prefix_cons.mpr ⟨rfl, hb⟩), h.all⟩
  · rintro ⟨hwithin, hall⟩
    refine ⟨fun before hb => ?_, hall⟩
    rcases List.prefix_cons_iff.mp hb with rfl | ⟨before, rfl, hbefore⟩
    · simp
    · exact hwithin before hbefore

theorem shelters_cons : Shelters depth (c :: text) ↔ (c = ',' → 0 < depth) ∧
    ∀ before, before ++ [','] <+: text → (c :: before).count ')' < (c :: before).count '(' + depth := by
  constructor
  · intro h
    refine ⟨?_, fun before hb => h _ (List.cons_prefix_cons.mpr ⟨rfl, hb⟩)⟩
    rintro rfl
    simpa using h [] (List.cons_prefix_cons.mpr ⟨rfl, List.nil_prefix⟩)
  · rintro ⟨hcomma, hrest⟩ before hb
    cases before with
    | nil => simpa using hcomma (List.cons_prefix_cons.mp hb).1.symm
    | cons d before =>
      obtain ⟨rfl, hbefore⟩ := List.cons_prefix_cons.mp hb
      exact hrest before hbefore

theorem closes_open : Closes depth ('(' :: text) ↔ Closes (depth + 1) text := by
  rw [closes_cons, closes_iff]
  simp [Nat.add_right_comm, ← Nat.add_assoc]

theorem closes_close : Closes (depth + 1) (')' :: text) ↔ Closes depth text := by
  rw [closes_cons, closes_iff]
  simp [← Nat.add_assoc]

theorem closes_plain (ho : c ≠ '(') (hc : c ≠ ')') : Closes depth (c :: text) ↔ Closes depth text := by
  rw [closes_cons, closes_iff]
  simp [ho, hc]

theorem not_closes_close : ¬ Closes 0 (')' :: text) := fun h => by
  have hfirst := h.within [')'] (List.cons_prefix_cons.mpr ⟨rfl, List.nil_prefix⟩)
  simp at hfirst

theorem shelters_open : Shelters depth ('(' :: text) ↔ Shelters (depth + 1) text := by
  rw [shelters_cons, Shelters]
  simp [Nat.add_right_comm, ← Nat.add_assoc]

theorem shelters_close : Shelters (depth + 1) (')' :: text) ↔ Shelters depth text := by
  rw [shelters_cons, Shelters]
  simp [← Nat.add_assoc]

theorem shelters_plain (ho : c ≠ '(') (hc : c ≠ ')') :
    Shelters depth (c :: text) ↔ (c = ',' → 0 < depth) ∧ Shelters depth text := by
  rw [shelters_cons, Shelters]
  simp [ho, hc]

/-! ## Texts in one piece -/

/-- The text is one argument: its quotes are closed, and outside of them the parentheses match and every
comma is within some. -/
def IsOnePart (text : List Char) : Prop :=
  ∃ outside, Unquoted text outside ∧ Closes 0 outside ∧ Shelters 0 outside

/-- **What the cut leaves in one piece**, by what stands outside of quotes. -/
theorem uncut_iff : Uncut depth text ↔
    ∃ outside, Unquoted text outside ∧ Closes depth outside ∧ Shelters depth outside := by
  constructor
  · intro h
    induction h with
    | nil => exact ⟨[], .nil, closes_nil.mpr rfl, fun before hb => by simp at hb⟩
    | quoted hcs _ ih =>
      obtain ⟨outside, h, hclose, hcomma⟩ := ih
      exact ⟨outside, .quoted hcs h, hclose, hcomma⟩
    | opening _ ih =>
      obtain ⟨outside, h, hclose, hcomma⟩ := ih
      exact ⟨'(' :: outside, .plain (by decide) h, closes_open.mpr hclose, shelters_open.mpr hcomma⟩
    | closing _ ih =>
      obtain ⟨outside, h, hclose, hcomma⟩ := ih
      exact ⟨')' :: outside, .plain (by decide) h, closes_close.mpr hclose, shelters_close.mpr hcomma⟩
    | comma _ ih =>
      obtain ⟨outside, h, hclose, hcomma⟩ := ih
      exact ⟨',' :: outside, .plain (by decide) h, (closes_plain (by decide) (by decide)).mpr hclose,
        (shelters_plain (by decide) (by decide)).mpr ⟨fun _ => Nat.succ_pos _, hcomma⟩⟩
    | @plain depth c _ hc _ ih =>
      obtain ⟨ho, hcl, hco, hq⟩ := hc
      obtain ⟨outside, h, hclose, hcomma⟩ := ih
      exact ⟨c :: outside, .plain hq h, (closes_plain ho hcl).mpr hclose,
        (shelters_plain ho hcl).mpr ⟨fun heq => absurd heq hco, hcomma⟩⟩
  · rintro ⟨outside, h, hclose, hcomma⟩
    induction h generalizing depth with
    | nil =>
      rw [closes_nil.mp hclose]
      exact .nil
    | quoted hcs _ ih => exact .quoted hcs (ih hclose hcomma)
    | @plain c _ _ hquote _ ih =>
      by_cases ho : c = '('
      · subst ho
        exact .opening (ih (closes_open.mp hclose) (shelters_open.mp hcomma))
      by_cases hc : c = ')'
      · subst hc
        cases depth with
        | zero => exact absurd hclose not_closes_close
        | succ depth => exact .closing (ih (closes_close.mp hclose) (shelters_close.mp hcomma))
      obtain ⟨hdepth, hcomma'⟩ := (shelters_plain ho hc).mp hcomma
      have hrest := ih ((closes_plain ho hc).mp hclose) hcomma'
      by_cases hco : c = ','
      · subst hco
        obtain ⟨depth, rfl⟩ := Nat.exists_eq_succ_of_ne_zero (hdepth rfl).ne'
        exact .comma hrest
      · exact .plain ⟨ho, hc, hco, hquote⟩ hrest

/-! ## Cutting and joining -/

theorem intercalate_consFirst (c : Char) (parts : List (List Char)) :
    [','].intercalate (consFirst c parts) = c :: [','].intercalate parts := by
  cases parts with
  | nil => rfl
  | cons part parts =>
    cases parts with
    | nil => simp [consFirst]
    | cons part' parts => simp [consFirst, List.intercalate_cons_cons]

/-- **Joining the parts gives back the text.** -/
theorem intercalate_cutAtCommas {quoting : Quoting} {parts : List (List Char)}
    (h : cutAtCommas depth quoting text = some parts) : [','].intercalate parts = text := by
  induction text generalizing depth quoting parts with
  | nil =>
    obtain ⟨-, -, rfl⟩ := cutAtCommas_nil h
    rfl
  | cons c text ih =>
    cases cutsFirst_of_cutAtCommas h with
    | taken hcut _ => rw [intercalate_consFirst, ih hcut]
    | comma hcut =>
      obtain ⟨part, rest, rfl, -⟩ := uncut_of_cutAtCommas hcut
      rw [List.intercalate_cons_cons, ih hcut, List.nil_append, List.singleton_append]

/-- **Cutting what was joined gives back the parts.** -/
theorem cutAtCommas_intercalate {part : List Char} {parts : List (List Char)}
    (h : ∀ p ∈ part :: parts, Uncut 0 p) :
    cutAtCommas 0 .outside ([','].intercalate (part :: parts)) = some (part :: parts) := by
  induction parts generalizing part with
  | nil =>
    rw [List.intercalate_singleton]
    exact (h part List.mem_cons_self).cutAtCommas_eq
  | cons part' parts ih =>
    have hrest := ih fun p hp => h p (List.mem_cons_of_mem part hp)
    rw [List.intercalate_cons_cons, List.append_assoc, (h part List.mem_cons_self).inert,
      List.singleton_append, cutAtCommas_comma, if_pos rfl, hrest]
    simp [onFirst_cons]

/-! ## When there is a cut -/

theorem Closes.append {text' : List Char} (h : Closes depth text) (h' : Closes 0 text') :
    Closes depth (text ++ text') := by
  constructor
  · intro before hb
    rcases List.prefix_or_prefix_of_prefix hb (List.prefix_append text text') with hb' | ⟨rest, rfl⟩
    · exact h.within before hb'
    · have hrest := h'.within rest ((List.prefix_append_right_inj text).mp hb)
      have hall := h.all
      rw [List.count_append, List.count_append]
      omega
  · have hall := h.all
    have hall' := h'.all
    rw [List.count_append, List.count_append]
    omega

theorem exists_unquoted_intercalate {part : List Char} {parts : List (List Char)} (h : Uncut depth part)
    (hparts : ∀ p ∈ parts, Uncut 0 p) :
    ∃ outside, Unquoted ([','].intercalate (part :: parts)) outside ∧ Closes depth outside := by
  obtain ⟨outside, hpart, hclose, -⟩ := uncut_iff.mp h
  induction parts generalizing depth part outside with
  | nil =>
    rw [List.intercalate_singleton]
    exact ⟨outside, hpart, hclose⟩
  | cons part' parts ih =>
    obtain ⟨hpart', hrest⟩ := List.forall_mem_cons.mp hparts
    obtain ⟨outside', h', hclose', -⟩ := uncut_iff.mp hpart'
    obtain ⟨others, hothers, hcloses⟩ := ih hpart' hrest outside' h' hclose'
    refine ⟨outside ++ ',' :: others, ?_, hclose.append ((closes_plain (by decide) (by decide)).mpr hcloses)⟩
    rw [List.intercalate_cons_cons, List.append_assoc]
    exact hpart.append (.plain (by decide) hothers)

/-- **There is a cut exactly if all quotes are closed and the parentheses outside of them match.** -/
theorem exists_cutAtCommas_iff : (∃ parts, cutAtCommas depth .outside text = some parts) ↔
    ∃ outside, Unquoted text outside ∧ Closes depth outside := by
  constructor
  · rintro ⟨parts, h⟩
    obtain ⟨part, rest, rfl, hpart, hrest⟩ := uncut_of_cutAtCommas h
    rw [← intercalate_cutAtCommas h]
    exact exists_unquoted_intercalate hpart hrest
  · rintro ⟨outside, h, hclose⟩
    induction h generalizing depth with
    | nil => exact ⟨[[]], by rw [cutAtCommas, if_pos (closes_nil.mp hclose)]⟩
    | quoted hcs _ ih =>
      obtain ⟨parts, hcut⟩ := ih hclose
      exact ⟨_, by rw [cutAtCommas_quote, hcs.cutAtCommas_append, hcut]; rfl⟩
    | @plain c _ _ hquote _ ih =>
      by_cases ho : c = '('
      · subst ho
        obtain ⟨parts, hcut⟩ := ih (closes_open.mp hclose)
        exact ⟨_, by rw [cutAtCommas_open, hcut]; rfl⟩
      by_cases hc : c = ')'
      · subst hc
        cases depth with
        | zero => exact absurd hclose not_closes_close
        | succ depth =>
          obtain ⟨parts, hcut⟩ := ih (closes_close.mp hclose)
          exact ⟨_, by rw [cutAtCommas_close, hcut]; rfl⟩
      obtain ⟨parts, hcut⟩ := ih ((closes_plain ho hc).mp hclose)
      by_cases hco : c = ','
      · subst hco
        rw [cutAtCommas_comma]
        split
        · next hdepth =>
          subst hdepth
          exact ⟨_, by rw [hcut]; rfl⟩
        · exact ⟨_, by rw [hcut]; rfl⟩
      · exact ⟨_, by rw [cutAtCommas_plain ⟨ho, hc, hco, hquote⟩, hcut]; rfl⟩

/-- **There is no cut exactly if a quote is left open or parentheses do not match.** -/
theorem cutAtCommas_eq_none_iff : cutAtCommas depth .outside text = none ↔
    LeavesOpen text ∨ ∃ outside, Unquoted text outside ∧ ¬ Closes depth outside := by
  have hcut : cutAtCommas depth .outside text = none ↔
      ¬ ∃ outside, Unquoted text outside ∧ Closes depth outside := by
    rw [← exists_cutAtCommas_iff, Option.eq_none_iff_forall_ne_some, not_exists]
  rw [hcut]
  constructor
  · intro hnone
    rcases exists_unquoted_or_leavesOpen text with ⟨outside, h⟩ | hopen
    · exact .inr ⟨outside, h, fun hclose => hnone ⟨outside, h, hclose⟩⟩
    · exact .inl hopen
  · rintro (hopen | ⟨outside, h, hclose⟩) ⟨outside', h', hclose'⟩
    · exact h'.not_leavesOpen hopen
    · exact hclose (h.unique h' ▸ hclose')

/-- **How a list of arguments is cut apart.** A text with something in it but blanks is cut into the parts
that give it back when they are joined by commas and that are one argument each: their quotes are closed,
the parentheses outside of them match, and every comma outside of them is within parentheses. There is no
cut exactly if a quote is left open or the parentheses outside of quotes do not match. -/
theorem arguments_cut_apart {text : List Char} (h : ∃ c ∈ text, isBlank c = false) :
    (∀ parts, splitArguments text = some parts ↔
      [','].intercalate parts = text ∧ ∀ part ∈ parts, IsOnePart part) ∧
    (splitArguments text = none ↔
      LeavesOpen text ∨ ∃ outside, Unquoted text outside ∧ ¬ Closes 0 outside) := by
  obtain ⟨c, hc, hblank⟩ := h
  have hsplit : splitArguments text = cutAtCommas 0 .outside text := by
    rw [splitArguments, if_neg (by simpa using trim_ne_nil hc hblank)]
  rw [hsplit]
  refine ⟨fun parts => ⟨fun hcut => ⟨intercalate_cutAtCommas hcut, ?_⟩, ?_⟩, cutAtCommas_eq_none_iff⟩
  · obtain ⟨part, rest, rfl, hpart, hrest⟩ := uncut_of_cutAtCommas hcut
    exact fun p hp => uncut_iff.mp (List.forall_mem_cons.mpr ⟨hpart, hrest⟩ p hp)
  · rintro ⟨rfl, hparts⟩
    cases parts with
    | nil => cases hc
    | cons part parts => exact cutAtCommas_intercalate fun p hp => uncut_iff.mpr (hparts p hp)

/-- A list of a text in quotes, a call and a word; and one that leaves a quote open. -/
theorem arguments_cut_apart_call :
    [','].intercalate ["'(, '".toList, " f(1,$.a)".toList, " x".toList] = "'(, ', f(1,$.a), x".toList ∧
      IsOnePart " f(1,$.a)".toList ∧ splitArguments "f('a)".toList = none := by
  have hcut : splitArguments "'(, ', f(1,$.a), x".toList =
      some ["'(, '".toList, " f(1,$.a)".toList, " x".toList] := by rfl
  obtain ⟨hjoin, hparts⟩ := ((arguments_cut_apart ⟨'x', by decide, by decide⟩).1 _).mp hcut
  have hbefore : Unquoted "f(".toList "f(".toList := .plain (by decide) (.plain (by decide) .nil)
  have hquoted : StaysQuoted "a)".toList := .plain (by decide) (by decide)
    (.plain (by decide) (by decide) .nil)
  have hnone := (@arguments_cut_apart "f('a)".toList ⟨'f', by decide, by decide⟩).2.mpr
    (.inl ⟨_, _, _, hbefore, hquoted, rfl⟩)
  exact ⟨hjoin, hparts _ (by decide), hnone⟩

end StepFlow
