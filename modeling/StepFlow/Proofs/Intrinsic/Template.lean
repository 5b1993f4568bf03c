import StepFlow.Intrinsic.Function

/-!
# Filling templates

A template is cut at its holes, the places of `{}` right before which no backslash stands. A scanner
that looks ahead finds these places one by one; their number is also the difference of two counts.

* `Template.holes`, `Template.IsCut`: the holes of a template, and its pieces between them;
* `Template.occurrences_hole`: the marks are the holes and the escaped marks;
* `Template.pieces`, `Template.isCut_iff`: the scanner cuts at the holes and nowhere else;
* `Template.fill_eq_weave`: a template is filled by putting texts between its pieces;
* `Template.fillOr_eq_fill`: a scanner with enough values never asks for one more;
* **`Function.format_weaves`**: what `States.Format` gives, and when it fails.
-/

namespace StepFlow

namespace Template

/-- The number of holes of a text: marks with no backslash right before them. The character in front of
the text is given apart. -/
def holes : (before : Option Char) → List Char → Nat
  | _, [] => 0
  | before, c :: cs =>
    (if before ≠ some '\\' ∧ hole.isPrefixOf (c :: cs) then 1 else 0) + holes (some c) cs

/-- The pieces of a template: between them stand its holes. -/
structure IsCut (template : List Char) (pieces : List (List Char)) : Prop where
  nonempty : pieces ≠ []
  whole : hole.intercalate pieces = template
  /-- No backslash stands right before a cut. -/
  unescaped : ∀ p ∈ pieces.dropLast, p.getLast? ≠ some '\\'
  /-- No hole is left within a piece. -/
  closed : ∀ p ∈ pieces, holes none p = 0

/-- Pieces with texts between them. -/
def weave : (pieces texts : List (List Char)) → List Char
  | p :: ps, t :: ts => p ++ t ++ weave ps ts
  | ps, _ => ps.flatten

/-- The pieces that a scanner finds. It takes an escaped mark as a whole. -/
def pieces : List Char → List (List Char)
  | '\\' :: '\x7b' :: '\x7d' :: cs => (pieces cs).modifyHead (escapedHole ++ ·)
  | '\x7b' :: '\x7d' :: cs => [] :: pieces cs
  | c :: cs => (pieces cs).modifyHead (c :: ·)
  | [] => [[]]

/-- Filling by a scanner that is told what to do where it runs out of values. -/
def fillOr (missing : List Char → Option (List Char)) : List Char → List Json → Option (List Char)
  | '\\' :: '\x7b' :: '\x7d' :: cs, values => (fillOr missing cs values).map (escapedHole ++ ·)
  | '\x7b' :: '\x7d' :: cs, value :: values =>
    match scalar? value with
    | some text => (fillOr missing cs values).map (text.toList ++ ·)
    | none => none
  | '\x7b' :: '\x7d' :: cs, [] => missing cs
  | c :: cs, values => (fillOr missing cs values).map (c :: ·)
  | [], _ => some []

variable {cs : List Char} {c : Char} {before : Option Char}

/-! ## Counting -/

theorem holes_eq_none (h : before = some '\\' → hole.isPrefixOf cs = false) :
    holes before cs = holes none cs := by
  cases cs with
  | nil => rw [holes, holes]
  | cons c cs =>
    rw [holes, holes]
    by_cases hb : before = some '\\'
    · rw [h hb]
      simp
    · simp [hb]

/-- **The marks of a text are its holes and its escaped marks**, one of which may have its backslash in
front of the text. -/
theorem occurrences_hole (before : Option Char) (cs : List Char) :
    occurrences hole cs = holes before cs + occurrences escapedHole cs +
      if before = some '\\' ∧ hole.isPrefixOf cs then 1 else 0 := by
  induction cs generalizing before with
  | nil => simp [occurrences, holes, hole, escapedHole]
  | cons c cs ih =>
    have hescaped : escapedHole.isPrefixOf (c :: cs) = (c == '\\' && hole.isPrefixOf cs) := by
      rw [escapedHole, List.isPrefixOf_cons_cons, Bool.beq_comm]
    rw [occurrences, occurrences, holes, ih (some c), hescaped]
    by_cases hb : before = some '\\' <;> by_cases hc : c = '\\' <;>
      by_cases hp : hole.isPrefixOf (c :: cs) <;> by_cases hq : hole.isPrefixOf cs <;>
      simp [hb, hc, hp, hq] <;> omega

theorem arity_eq_holes (text : List Char) : arity text = holes none text := by
  have h := occurrences_hole none text
  rw [if_neg (by simp)] at h
  rw [arity, h]
  omega

/-! ## Cutting -/

theorem pieces_ne_nil (cs : List Char) : pieces cs ≠ [] := by
  fun_induction pieces cs with
  | case1 cs ih => simpa using ih
  | case2 cs ih => simp
  | case3 c cs _ _ ih => simpa using ih
  | case4 => simp

theorem isPrefixOf_hole_eq_false (h : ∀ r, c = '\x7b' → cs = '\x7d' :: r → False) :
    hole.isPrefixOf (c :: cs) = false := by
  rw [Bool.eq_false_iff]
  intro hp
  obtain ⟨r, hr⟩ := List.isPrefixOf_iff_prefix.mp hp
  cases hr
  exact h r rfl rfl

theorem isPrefixOf_escapedHole_eq_false
    (h : ∀ r, c = '\\' → cs = '\x7b' :: '\x7d' :: r → False) :
    escapedHole.isPrefixOf (c :: cs) = false := by
  rw [Bool.eq_false_iff]
  intro hp
  obtain ⟨r, hr⟩ := List.isPrefixOf_iff_prefix.mp hp
  cases hr
  exact h r rfl rfl

theorem holes_escaped (cs : List Char) : holes none (escapedHole ++ cs) = holes none cs := by
  have hbehind : holes (some '\x7d') cs = holes none cs := holes_eq_none (by simp)
  simp [escapedHole, hole, holes, hbehind]

theorem holes_hole (cs : List Char) : holes none (hole ++ cs) = holes none cs + 1 := by
  have hbehind : holes (some '\x7d') cs = holes none cs := holes_eq_none (by simp)
  simp [hole, holes, hbehind, Nat.add_comm]

theorem holes_cons (hescaped : ∀ r, c = '\\' → cs = '\x7b' :: '\x7d' :: r → False)
    (hmark : ∀ r, c = '\x7b' → cs = '\x7d' :: r → False) : holes none (c :: cs) = holes none cs := by
  rw [holes, isPrefixOf_hole_eq_false hmark, if_neg (by simp), Nat.zero_add]
  refine holes_eq_none fun hc => ?_
  cases hc
  simpa [escapedHole] using isPrefixOf_escapedHole_eq_false hescaped

theorem pieces_cons (hescaped : ∀ r, c = '\\' → cs = '\x7b' :: '\x7d' :: r → False)
    (hmark : ∀ r, c = '\x7b' → cs = '\x7d' :: r → False) :
    pieces (c :: cs) = (pieces cs).modifyHead (c :: ·) := by
  rw [pieces]
  · exact hescaped
  · exact hmark

theorem length_pieces (text : List Char) : (pieces text).length = holes none text + 1 := by
  fun_induction pieces text with
  | case1 cs ih =>
    rw [List.length_modifyHead, ih]
    exact congrArg (· + 1) (holes_escaped cs).symm
  | case2 cs ih =>
    rw [List.length_cons, ih]
    exact congrArg (· + 1) (holes_hole cs).symm
  | case3 c cs hescaped hmark ih => rw [List.length_modifyHead, ih, holes_cons hescaped hmark]
  | case4 => rfl

theorem pieces_of_holes_eq_zero {p : List Char} (h : holes none p = 0) : pieces p = [p] := by
  fun_induction pieces p with
  | case1 cs ih =>
    rw [ih ((holes_escaped cs).symm.trans h)]
    rfl
  | case2 cs ih =>
    have hmore := (holes_hole cs).symm.trans h
    omega
  | case3 c cs hescaped hmark ih =>
    rw [ih ((holes_cons hescaped hmark).symm.trans h)]
    rfl
  | case4 => rfl

/-- The scanner cuts at a hole behind a text without holes, unless a backslash is the last character. -/
theorem pieces_append_hole {p : List Char} (h : holes none p = 0) (hlast : p.getLast? ≠ some '\\')
    (rest : List Char) : pieces (p ++ (hole ++ rest)) = p :: pieces rest := by
  fun_induction pieces p with
  | case1 cs ih =>
    have hlast' : cs.getLast? ≠ some '\\' := by
      intro hl
      simp [List.getLast?_cons, hl] at hlast
    have hcs := ih ((holes_escaped cs).symm.trans h) hlast'
    show (pieces (cs ++ (hole ++ rest))).modifyHead (escapedHole ++ ·) = _
    rw [hcs]
    rfl
  | case2 cs ih =>
    have hmore := (holes_hole cs).symm.trans h
    omega
  | case3 c cs hescaped hmark ih =>
    have hcs : pieces (cs ++ (hole ++ rest)) = cs :: pieces rest := by
      refine ih ((holes_cons hescaped hmark).symm.trans h) fun hl => ?_
      simp [List.getLast?_cons, hl] at hlast
    -- the hole behind the text makes no mark of its last characters
    have hescaped' : ∀ r, c = '\\' → cs ++ (hole ++ rest) = '\x7b' :: '\x7d' :: r → False := by
      intro r hc heq
      match cs with
      | [] => exact hlast (by rw [hc]; rfl)
      | [x] => cases heq
      | x :: y :: cs =>
        cases heq
        exact hescaped cs hc rfl
    have hmark' : ∀ r, c = '\x7b' → cs ++ (hole ++ rest) = '\x7d' :: r → False := by
      intro r hc heq
      cases cs with
      | nil => cases heq
      | cons x cs =>
        cases heq
        exact hmark cs hc rfl
    rw [List.cons_append, pieces_cons hescaped' hmark', hcs]
    rfl
  | case4 => rfl

theorem IsCut.exists_append {p : List Char} {ps : List (List Char)} (h : IsCut cs (p :: ps)) :
    ∃ r, cs = p ++ r ∧ (ps ≠ [] → ∃ r', r = hole ++ r') := by
  obtain ⟨-, rfl, -, -⟩ := h
  cases ps with
  | nil => exact ⟨[], by rw [List.intercalate_singleton, List.append_nil], fun h => absurd rfl h⟩
  | cons q ps =>
    refine ⟨hole ++ hole.intercalate (q :: ps), ?_, fun _ => ⟨_, rfl⟩⟩
    rw [List.intercalate_cons_cons, List.append_assoc]

theorem IsCut.extend {p : List Char} {ps : List (List Char)} (h : IsCut cs (p :: ps))
    (front : List Char) (hholes : holes none (front ++ p) = 0)
    (hlast : ps ≠ [] → (front ++ p).getLast? ≠ some '\\') :
    IsCut (front ++ cs) ((front ++ p) :: ps) := by
  obtain ⟨-, rfl, hunescaped, hclosed⟩ := h
  refine ⟨List.cons_ne_nil _ _, ?_, ?_, ?_⟩
  · cases ps with
    | nil => rw [List.intercalate_singleton, List.intercalate_singleton]
    | cons q ps => simp only [List.intercalate_cons_cons, List.append_assoc]
  · cases ps with
    | nil => exact fun q hq => absurd hq List.not_mem_nil
    | cons q ps =>
      rw [List.dropLast_cons_cons] at hunescaped ⊢
      obtain ⟨-, hrest⟩ := List.forall_mem_cons.mp hunescaped
      exact List.forall_mem_cons.mpr ⟨hlast (List.cons_ne_nil _ _), hrest⟩
  · exact List.forall_mem_cons.mpr ⟨hholes, (List.forall_mem_cons.mp hclosed).2⟩

theorem IsCut.prepend_hole {ps : List (List Char)} (h : IsCut cs ps) : IsCut (hole ++ cs) ([] :: ps) := by
  obtain ⟨hne, rfl, hunescaped, hclosed⟩ := h
  refine ⟨List.cons_ne_nil _ _, ?_, ?_, List.forall_mem_cons.mpr ⟨rfl, hclosed⟩⟩
  · obtain ⟨p, ps, rfl⟩ := List.exists_cons_of_ne_nil hne
    rw [List.intercalate_cons_cons, List.nil_append]
  · rw [List.dropLast_cons_of_ne_nil hne]
    exact List.forall_mem_cons.mpr ⟨nofun, hunescaped⟩

theorem isCut_pieces (text : List Char) : IsCut text (pieces text) := by
  fun_induction pieces text with
  | case1 cs ih =>
    obtain ⟨p, ps, hps⟩ := List.exists_cons_of_ne_nil (pieces_ne_nil cs)
    rw [hps] at ih ⊢
    refine ih.extend escapedHole ?_ fun hmore => ?_
    · rw [holes_escaped]
      exact ih.closed p List.mem_cons_self
    · have hp := ih.unescaped p (by rw [List.dropLast_cons_of_ne_nil hmore]; exact List.mem_cons_self)
      rw [List.getLast?_append]
      cases hl : p.getLast? with
      | none => decide
      | some d => rwa [hl] at hp
  | case2 cs ih => exact ih.prepend_hole
  | case3 c cs hescaped hmark ih =>
    obtain ⟨p, ps, hps⟩ := List.exists_cons_of_ne_nil (pieces_ne_nil cs)
    rw [hps] at ih ⊢
    obtain ⟨r, rfl, hhole⟩ := ih.exists_append
    refine ih.extend [c] ?_ fun hmore => ?_
    · have hholes : holes none (c :: p) = holes none p :=
        holes_cons (fun r' hc hp => hescaped (r' ++ r) hc (by rw [hp]; rfl))
          fun r' hc hp => hmark (r' ++ r) hc (by rw [hp]; rfl)
      exact hholes.trans (ih.closed p List.mem_cons_self)
    · have hp := ih.unescaped p (by rw [List.dropLast_cons_of_ne_nil hmore]; exact List.mem_cons_self)
      rw [List.getLast?_append]
      cases hl : p.getLast? with
      | none =>
        -- before a cut, the character would be the backslash of an escaped mark
        rintro ⟨⟩
        obtain ⟨r', rfl⟩ := hhole hmore
        rw [List.getLast?_eq_none_iff] at hl
        exact hescaped r' rfl (by rw [hl]; rfl)
      | some d => rwa [hl] at hp
  | case4 => exact ⟨List.cons_ne_nil _ _, rfl, nofun, List.forall_mem_singleton.mpr rfl⟩

/-- **A template has one cut**, which the scanner finds. -/
theorem isCut_iff {text : List Char} {ps : List (List Char)} : IsCut text ps ↔ ps = pieces text := by
  refine ⟨fun h => ?_, fun h => h ▸ isCut_pieces text⟩
  obtain ⟨hne, rfl, hunescaped, hclosed⟩ := h
  induction ps with
  | nil => exact absurd rfl hne
  | cons p ps ih =>
    obtain ⟨hp, hps⟩ := List.forall_mem_cons.mp hclosed
    cases ps with
    | nil => rw [List.intercalate_singleton, pieces_of_holes_eq_zero hp]
    | cons q ps =>
      rw [List.dropLast_cons_cons] at hunescaped
      obtain ⟨hlast, hrest⟩ := List.forall_mem_cons.mp hunescaped
      rw [List.intercalate_cons_cons, List.append_assoc, pieces_append_hole hp hlast]
      exact congrArg (p :: ·) (ih (List.cons_ne_nil _ _) hrest hps)

/-! ## Filling -/

theorem weave_modifyHead {ps : List (List Char)} (hne : ps ≠ []) (front : List Char)
    (texts : List (List Char)) :
    weave (ps.modifyHead (front ++ ·)) texts = front ++ weave ps texts := by
  obtain ⟨p, ps, rfl⟩ := List.exists_cons_of_ne_nil hne
  cases texts with
  | nil => simp [weave]
  | cons t texts => simp [weave]

theorem not_mark {values : List Json}
    (hsome : ∀ r value rest, values = value :: rest → c = '\x7b' → cs = '\x7d' :: r → False)
    (hnone : ∀ r, values = [] → c = '\x7b' → cs = '\x7d' :: r → False) :
    ∀ r, c = '\x7b' → cs = '\x7d' :: r → False := by
  cases values with
  | nil => exact fun r => hnone r rfl
  | cons value rest => exact fun r => hsome r value rest rfl

/-- **A template is filled by putting the texts of the values between its pieces.** -/
theorem fill_eq_weave {text : List Char} {values : List Json} (h : holes none text = values.length) :
    fill text values = (values.mapM scalar?).map fun texts =>
      weave (pieces text) (texts.map String.toList) := by
  fun_induction fill text values with
  | case1 cs values ih =>
    rw [ih ((holes_escaped cs).symm.trans h), pieces, Option.map_map]
    refine congrArg (Option.map · _) (funext fun texts => ?_)
    exact (weave_modifyHead (pieces_ne_nil cs) _ _).symm
  | case2 cs value values text hvalue ih =>
    have hlength := (holes_hole cs).symm.trans h
    rw [ih (Nat.succ.inj hlength), pieces, List.mapM_cons, hvalue]
    cases values.mapM scalar? <;> rfl
  | case3 cs value values hvalue =>
    rw [List.mapM_cons, hvalue]
    rfl
  | case4 cs ih =>
    have hlength := (holes_hole cs).symm.trans h
    cases hlength
  | case5 c cs values hescaped hsome hnone ih =>
    have hmark : ∀ r, c = '\x7b' → cs = '\x7d' :: r → False := not_mark hsome hnone
    rw [ih ((holes_cons hescaped hmark).symm.trans h), pieces_cons hescaped hmark, Option.map_map]
    refine congrArg (Option.map · _) (funext fun texts => ?_)
    exact (weave_modifyHead (pieces_ne_nil cs) [c] _).symm
  | case6 values =>
    cases List.length_eq_zero_iff.mp h.symm
    rfl

/-- A scanner that has as many values as there are holes never asks for one more. -/
theorem fillOr_eq_fill (missing : List Char → Option (List Char)) {text : List Char}
    {values : List Json} (h : holes none text = values.length) :
    fillOr missing text values = fill text values := by
  fun_induction fill text values with
  | case1 cs values ih =>
    rw [fillOr, ih ((holes_escaped cs).symm.trans h)]
  | case2 cs value values text hvalue ih =>
    have hlength := (holes_hole cs).symm.trans h
    rw [fillOr, hvalue, ih (Nat.succ.inj hlength)]
  | case3 cs value values hvalue => rw [fillOr, hvalue]
  | case4 cs ih =>
    have hlength := (holes_hole cs).symm.trans h
    cases hlength
  | case5 c cs values hescaped hsome hnone ih =>
    have hmark : ∀ r, c = '\x7b' → cs = '\x7d' :: r → False := not_mark hsome hnone
    rw [fillOr, ih ((holes_cons hescaped hmark).symm.trans h)]
    · exact hescaped
    · exact hsome
    · exact hnone
  | case6 values => rfl

/-! ## Texts of values -/

theorem mapM_scalar?_eq_some_iff {values : List Json} {texts : List String} :
    values.mapM scalar? = some texts ↔ values.map scalar? = texts.map some := by
  induction values generalizing texts with
  | nil => cases texts <;> simp
  | cons value values ih =>
    rw [List.mapM_cons]
    cases hvalue : scalar? value with
    | none => cases texts <;> simp [hvalue]
    | some t =>
      cases texts with
      | nil => cases values.mapM scalar? <;> simp
      | cons u texts =>
        rw [List.map_cons, List.map_cons, hvalue, List.cons.injEq, ← ih]
        cases values.mapM scalar? <;> simp

theorem exists_texts_iff {values : List Json} :
    (∃ texts : List String, values.map scalar? = texts.map some) ↔
      ∀ value ∈ values, (scalar? value).isSome := by
  constructor
  · rintro ⟨texts, h⟩ value hv
    obtain ⟨t, -, ht⟩ := List.mem_map.mp (h ▸ List.mem_map_of_mem (f := scalar?) hv)
    rw [← ht]
    rfl
  · intro h
    refine ⟨values.map fun value => (scalar? value).getD "", ?_⟩
    rw [List.map_map]
    refine List.map_congr_left fun value hv => ?_
    obtain ⟨t, ht⟩ := Option.isSome_iff_exists.mp (h value hv)
    rw [Function.comp_apply, ht, Option.getD_some]

end Template

/-! ## The function -/

namespace Function

variable {supply : Supply} {template : String} {values : List Json}

theorem format_of_ne (h : Template.holes none template.toList ≠ values.length) :
    format supply (.str template :: values) =
      .error (.holes (Template.holes none template.toList) values.length) := by
  unfold format
  dsimp only
  rw [Template.arity_eq_holes, if_pos h]

theorem format_of_texts (h : Template.holes none template.toList = values.length)
    {texts : List String} (ht : values.map Template.scalar? = texts.map some) :
    format supply (.str template :: values) = .ok (.str (String.ofList
      (Template.weave (Template.pieces template.toList) (texts.map String.toList)))) := by
  unfold format
  dsimp only
  rw [Template.arity_eq_holes, if_neg (fun hne => hne h), Template.fill_eq_weave h,
    Template.mapM_scalar?_eq_some_iff.mpr ht]
  rfl

theorem format_of_mapM_eq_none (h : Template.holes none template.toList = values.length)
    (ht : values.mapM Template.scalar? = none) :
    format supply (.str template :: values) = .error .notScalar := by
  unfold format
  dsimp only
  rw [Template.arity_eq_holes, if_neg (fun hne => hne h), Template.fill_eq_weave h, ht]
  rfl

theorem format_succeeds_iff : (∃ result, format supply (.str template :: values) = .ok result) ↔
    Template.holes none template.toList = values.length ∧
      ∀ value ∈ values, (Template.scalar? value).isSome := by
  constructor
  · rintro ⟨result, hresult⟩
    by_cases h : Template.holes none template.toList = values.length
    · cases ht : values.mapM Template.scalar? with
      | none =>
        rw [format_of_mapM_eq_none h ht] at hresult
        cases hresult
      | some texts =>
        exact ⟨h, Template.exists_texts_iff.mp ⟨texts, Template.mapM_scalar?_eq_some_iff.mp ht⟩⟩
    · rw [format_of_ne h] at hresult
      cases hresult
  · rintro ⟨h, hvalues⟩
    obtain ⟨texts, ht⟩ := Template.exists_texts_iff.mpr hvalues
    exact ⟨_, format_of_texts h ht⟩

/-- **What `States.Format` gives.** It succeeds exactly if the template has as many holes as there are
values, all of them scalars. The template is cut at its holes in one way only, and the result has the texts
of the values, in their order, between the pieces. The count of the escaped marks never exceeds that of
all marks, and once the counts agree it does not matter what would be done without a value. -/
theorem format_weaves (supply : Supply) (template : String) (values : List Json) :
    ((∃ result, format supply (.str template :: values) = .ok result) ↔
      Template.holes none template.toList = values.length ∧
        ∀ value ∈ values, (Template.scalar? value).isSome) ∧
    (∃ pieces : List (List Char), (∀ ps, Template.IsCut template.toList ps ↔ ps = pieces) ∧
      pieces.length = Template.holes none template.toList + 1 ∧
      ∀ texts : List String, Template.holes none template.toList = values.length →
        values.map Template.scalar? = texts.map some →
          format supply (.str template :: values) =
            .ok (.str (String.ofList (Template.weave pieces (texts.map String.toList))))) ∧
    Template.occurrences Template.escapedHole template.toList ≤
      Template.occurrences Template.hole template.toList ∧
    (Template.holes none template.toList = values.length → ∀ missing,
      Template.fillOr missing template.toList values = Template.fill template.toList values) := by
  refine ⟨format_succeeds_iff, ⟨Template.pieces template.toList, fun ps => Template.isCut_iff,
    Template.length_pieces _, fun texts h ht => format_of_texts h ht⟩, ?_, fun h missing =>
    Template.fillOr_eq_fill missing h⟩
  rw [Template.occurrences_hole none]
  omega

example : format default [.str "\x7b\x7d \\\x7b\x7d \\\\\x7b\x7d \x7b\x7b\x7d", .int 1, .str "\x7b\x7d"] =
    .ok (.str "1 \\\x7b\x7d \\\\\x7b\x7d \x7b\x7b\x7d") := by
  rfl

end Function

end StepFlow
