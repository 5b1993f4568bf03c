import StepFlow.Intrinsic.Call
import StepFlow.Proofs.Except
import StepFlow.Proofs.Json.Number
import StepFlow.Proofs.Text.Blank

/-!
# Reading calls

A call is read as it is spelled: its arguments are cut apart at the commas that stand between them, and
every argument is read back as what it spells. A comma, a parenthesis or a quote within a text in quotes
means nothing to the cut, since the cut and the reading of the text agree on where the text ends.

* `Argument.Spelled`, `Call.Spelled`: the texts of arguments and calls;
* `Inert`: a text that the cut at the commas passes over, and `Argument.Spelled.inert`: every argument
  is such a text;
* `splitArguments_joined`: the cut gives back the arguments;
* `wordValue?_eq_none`: a call is no literal;
* **`Call.parse_spelled_call`**.
-/

namespace StepFlow

open Text

/-! ## How calls are spelled -/

/-- A name that may stand before a parenthesis, such as letters, digits, underscores and dots. -/
structure IsFunctionName (name : List Char) : Prop where
  nonempty : name ≠ []
  dollar : name.head? ≠ some '$'
  plain : ∀ c ∈ name, isBlank c = false ∧ c ≠ '(' ∧ c ≠ ')' ∧ c ≠ ',' ∧ c ≠ '\''

theorem isFunctionName_of_isAlphanum {name : List Char} (hne : name ≠ [])
    (h : ∀ c ∈ name, c.isAlphanum = true ∨ c = '_' ∨ c = '.') : IsFunctionName name where
  nonempty := hne
  dollar := fun hc => by
    obtain ⟨cs, rfl⟩ := List.head?_eq_some_iff.mp hc
    exact absurd (h '$' List.mem_cons_self) (by decide)
  plain := fun c hc => by
    have hplain : isBlank c = false := by
      rcases h c hc with hc | rfl | rfl
      · exact not_isBlank_of_isAlphanum hc
      · decide
      · decide
    refine ⟨hplain, ?_, ?_, ?_, ?_⟩ <;> rintro rfl <;> exact absurd (h _ hc) (by decide)

/-- A path within a call goes up to the comma or the parenthesis after it. -/
structure IsPathWord (word : List Char) (p : Path) : Prop where
  dollar : word.head? = some '$'
  parse : Path.parse (String.ofList word) = .ok p
  last : ∀ c, word.getLast? = some c → isBlank c = false
  plain : ∀ c ∈ word, c ≠ '(' ∧ c ≠ ')' ∧ c ≠ ',' ∧ c ≠ '\''

/-- An argument with its text, and the blanks around it. -/
structure Placed where
  argument : Argument
  before : List Char
  word : List Char
  after : List Char
  blank : Blanks (before ++ after)

/-- The text of an argument with the blanks around it. -/
def Placed.text (e : Placed) : List Char := e.before ++ e.word ++ e.after

/-- The texts of arguments with a comma before all but the first. -/
def joined : List Placed → List Char
  | [] => []
  | [e] => e.text
  | e :: es => e.text ++ ',' :: joined es

/-- The text spells the argument. -/
inductive Argument.Spelled : Argument → List Char → Prop where
  | null : Spelled (.literal .null) ['n', 'u', 'l', 'l']
  | yes : Spelled (.literal (.bool true)) ['t', 'r', 'u', 'e']
  | no : Spelled (.literal (.bool false)) ['f', 'a', 'l', 's', 'e']
  | integer {i : Int} : Number.isSigned64 i → Spelled (.literal (.int i)) (toString i).toList
  | string (s : String) : Spelled (.literal (.str s)) (inMarks '\'' s.toList)
  | path {p : Path} {word : List Char} : IsPathWord word p → Spelled (.path p) word
  | call (name : String) (blanks : List Char) (entries : List Placed) : IsFunctionName name.toList →
      Blanks blanks → (∀ e ∈ entries, Spelled e.argument e.word) →
      Spelled (.call name (entries.map Placed.argument))
        (name.toList ++ '(' :: (blanks ++ joined entries ++ [')']))

/-- The text spells the call. -/
def Call.Spelled (call : Call) (text : List Char) : Prop :=
  (Argument.call call.name call.arguments).Spelled text

/-! ## Cutting at the commas -/

section characters

variable {depth : Nat} {c : Char} {cs : List Char}

theorem cutAtCommas_plain (h : c ≠ '(' ∧ c ≠ ')' ∧ c ≠ ',' ∧ c ≠ '\'') :
    cutAtCommas depth .outside (c :: cs) = (cutAtCommas depth .outside cs).map (consFirst c) := by
  rw [cutAtCommas.eq_def]
  simp [h]

theorem cutAtCommas_quote : cutAtCommas depth .outside ('\'' :: cs) =
    (cutAtCommas depth .inside cs).map (consFirst '\'') := by
  rw [cutAtCommas.eq_def]
  simp

theorem cutAtCommas_open : cutAtCommas depth .outside ('(' :: cs) =
    (cutAtCommas (depth + 1) .outside cs).map (consFirst '(') := by
  rw [cutAtCommas.eq_def]
  simp

theorem cutAtCommas_close : cutAtCommas (depth + 1) .outside (')' :: cs) =
    (cutAtCommas depth .outside cs).map (consFirst ')') := by
  rw [cutAtCommas.eq_def]
  simp

theorem cutAtCommas_comma : cutAtCommas depth .outside (',' :: cs) =
    if depth = 0 then (cutAtCommas 0 .outside cs).map ([] :: ·)
    else (cutAtCommas depth .outside cs).map (consFirst ',') := by
  rw [cutAtCommas.eq_def]
  simp

theorem cutAtCommas_inside : cutAtCommas depth .inside (c :: cs) =
    (cutAtCommas depth (.after false c) cs).map (consFirst c) := by
  rw [cutAtCommas]

theorem cutAtCommas_escaped : cutAtCommas depth .escaped (c :: cs) =
    (cutAtCommas depth .inside cs).map (consFirst c) := by
  rw [cutAtCommas]
  rfl

end characters

/-- The text put in front of the first part. -/
def onFirst (text : List Char) (parts : List (List Char)) : List (List Char) :=
  text.foldr consFirst parts

/-- The cut passes over the text wherever it stands, and is outside quotes after it as before. -/
def Inert (text : List Char) : Prop :=
  ∀ depth rest, cutAtCommas depth .outside (text ++ rest) =
    (cutAtCommas depth .outside rest).map (onFirst text)

/-- The cut passes over the text within parentheses. -/
def InertWithin (text : List Char) : Prop :=
  ∀ depth rest, cutAtCommas (depth + 1) .outside (text ++ rest) =
    (cutAtCommas (depth + 1) .outside rest).map (onFirst text)

section cut

variable {text text' : List Char} {c : Char}

@[simp] theorem onFirst_nil : onFirst [] = id := rfl

theorem onFirst_append (text text' : List Char) :
    onFirst (text ++ text') = onFirst text ∘ onFirst text' := funext fun _ => List.foldr_append

theorem onFirst_cons (text part : List Char) (parts : List (List Char)) :
    onFirst text (part :: parts) = (text ++ part) :: parts := by
  induction text with
  | nil => rfl
  | cons c text ih =>
    show consFirst c (onFirst text _) = _
    rw [ih]
    rfl

theorem inert_nil : Inert [] := fun depth rest => by simp

theorem Inert.within (h : Inert text) : InertWithin text := fun depth rest => h (depth + 1) rest

theorem Inert.append (h : Inert text) (h' : Inert text') : Inert (text ++ text') := by
  intro depth rest
  rw [List.append_assoc, h, h', Option.map_map, onFirst_append]

theorem InertWithin.append (h : InertWithin text) (h' : InertWithin text') :
    InertWithin (text ++ text') := by
  intro depth rest
  rw [List.append_assoc, h, h', Option.map_map, onFirst_append]

theorem inert_of_plain (h : ∀ c ∈ text, c ≠ '(' ∧ c ≠ ')' ∧ c ≠ ',' ∧ c ≠ '\'') : Inert text := by
  induction text with
  | nil => exact inert_nil
  | cons c text ih =>
    intro depth rest
    rw [List.cons_append, cutAtCommas_plain (h c List.mem_cons_self),
      ih fun d hd => h d (List.mem_cons_of_mem c hd), Option.map_map]
    rfl

theorem inert_of_blank (h : Blanks text) : Inert text := by
  refine inert_of_plain fun c hc => ?_
  have hblank := h c hc
  refine ⟨?_, ?_, ?_, ?_⟩ <;> rintro rfl <;> exact absurd hblank (by decide)

theorem inertWithin_comma : InertWithin [','] := by
  intro depth rest
  rw [List.singleton_append, cutAtCommas_comma, if_neg (Nat.succ_ne_zero depth)]
  rfl

theorem InertWithin.inParentheses (h : InertWithin text) : Inert ('(' :: (text ++ [')'])) := by
  intro depth rest
  rw [List.cons_append, List.append_assoc, cutAtCommas_open, h, List.singleton_append,
    cutAtCommas_close, Option.map_map, Option.map_map]
  congr 1
  funext parts
  show consFirst '(' (onFirst text (consFirst ')' parts)) = consFirst '(' (onFirst (text ++ [')']) parts)
  rw [onFirst_append]
  rfl

theorem cutAtCommas_backslashed (cs : List Char) (depth : Nat) (rest : List Char) :
    cutAtCommas depth .inside (backslashed '\'' cs ++ '\'' :: rest) =
      (cutAtCommas depth .outside rest).map (onFirst (backslashed '\'' cs ++ ['\''])) := by
  induction cs with
  | nil =>
    show cutAtCommas depth .inside ('\'' :: rest) = _
    rw [cutAtCommas_inside]
    rfl
  | cons c cs ih =>
    by_cases h : c = '\'' ∨ c = '\\'
    · rw [backslashed_cons_special h, List.cons_append, List.cons_append, cutAtCommas_inside]
      show (cutAtCommas depth .escaped _).map _ = _
      rw [cutAtCommas_escaped, ih, Option.map_map, Option.map_map]
      rfl
    · rw [backslashed_cons_plain h, List.cons_append, cutAtCommas_inside]
      rw [not_or] at h
      have hafter : Quoting.after false c = .inside := by simp [Quoting.after, h.1, h.2]
      rw [hafter, ih, Option.map_map]
      rfl

theorem inert_inMarks (cs : List Char) : Inert (inMarks '\'' cs) := by
  intro depth rest
  rw [inMarks, List.cons_append, cutAtCommas_quote, List.append_assoc, List.singleton_append,
    cutAtCommas_backslashed, Option.map_map]
  rfl

end cut

theorem inertWithin_joined {entries : List Placed} (h : ∀ e ∈ entries, Inert e.text) :
    InertWithin (joined entries) := by
  induction entries with
  | nil => exact inert_nil.within
  | cons e entries ih =>
    have he := (h e List.mem_cons_self).within
    cases entries with
    | nil => exact he
    | cons e' entries =>
      exact he.append (inertWithin_comma.append (ih fun e'' he'' => h e'' (List.mem_cons_of_mem e he'')))

/-- **The cut at the commas gives back the texts of arguments**, with all blanks around them. -/
theorem cutAtCommas_joined {blanks : List Char} {e : Placed} {entries : List Placed}
    (hblanks : Inert blanks) (h : ∀ e' ∈ e :: entries, Inert e'.text) :
    cutAtCommas 0 .outside (blanks ++ joined (e :: entries)) =
      some ((blanks ++ e.text) :: entries.map Placed.text) := by
  induction entries generalizing blanks e with
  | nil =>
    have he : Inert (blanks ++ e.text) := hblanks.append (h e List.mem_cons_self)
    have hcut := he 0 []
    rw [List.append_nil] at hcut
    show cutAtCommas 0 .outside (blanks ++ e.text) = _
    rw [hcut, cutAtCommas, if_pos rfl, Option.map_some, onFirst_cons, List.append_nil]
    rfl
  | cons e' entries ih =>
    have he : Inert (blanks ++ e.text) := hblanks.append (h e List.mem_cons_self)
    have hrest := ih inert_nil fun e'' he'' => h e'' (List.mem_cons_of_mem e he'')
    rw [List.nil_append] at hrest
    show cutAtCommas 0 .outside (blanks ++ (e.text ++ ',' :: joined (e' :: entries))) = _
    rw [← List.append_assoc, he, cutAtCommas_comma, if_pos rfl, hrest, Option.map_some,
      Option.map_some, onFirst_cons, List.append_nil]
    rfl

/-! ## Words -/

/-- A text that the cut passes over, with no blank at either end. -/
structure IsWord (word : List Char) : Prop where
  inert : Inert word
  first : ∃ c cs, word = c :: cs ∧ isBlank c = false
  last : ∃ cs c, word = cs ++ [c] ∧ isBlank c = false

section words

variable {word : List Char} {e : Placed} {blanks : List Char}

theorem isWord_of_plain (hplain : ∀ c ∈ word, c ≠ '(' ∧ c ≠ ')' ∧ c ≠ ',' ∧ c ≠ '\'') {c : Char}
    {cs : List Char} (hfirst : word = c :: cs) (hc : isBlank c = false)
    (hlast : ∀ c, word.getLast? = some c → isBlank c = false) : IsWord word where
  inert := inert_of_plain hplain
  first := ⟨c, cs, hfirst, hc⟩
  last := by
    have hne : word ≠ [] := by simp [hfirst]
    exact ⟨word.dropLast, word.getLast hne, (List.dropLast_concat_getLast hne).symm,
      hlast _ (List.getLast?_eq_some_getLast hne)⟩

theorem IsWord.trim_text (h : IsWord e.word) (hblanks : Blanks blanks) :
    trim (blanks ++ e.text) = e.word := by
  obtain ⟨c, cs, hfirst, hc⟩ := h.first
  obtain ⟨ds, d, hlast, hd⟩ := h.last
  rw [Placed.text, List.append_assoc, ← List.append_assoc]
  refine trim_of_blanks (fun c hc => ?_) (fun c hc => e.blank c (List.mem_append_right _ hc)) hfirst hc
    hlast hd
  exact (List.mem_append.mp hc).elim (hblanks c) fun hc => e.blank c (List.mem_append_left _ hc)

theorem IsWord.trim_eq (h : IsWord word) : trim word = word := by
  obtain ⟨c, cs, hfirst, hc⟩ := h.first
  obtain ⟨ds, d, hlast, hd⟩ := h.last
  have := trim_of_blanks blanks_nil blanks_nil hfirst hc hlast hd
  rwa [List.nil_append, List.append_nil] at this

theorem IsWord.inert_text (h : IsWord e.word) : Inert e.text :=
  ((inert_of_blank fun c hc => e.blank c (List.mem_append_left _ hc)).append h.inert).append
    (inert_of_blank fun c hc => e.blank c (List.mem_append_right _ hc))

end words

/-! ## Integers -/

section integers

open Reader

theorem splitSign_of_isDigit {c : Char} {cs : List Char} (h : c.isDigit = true) :
    splitSign (c :: cs) = (false, c :: cs) := by
  unfold splitSign
  split
  · next heq =>
    cases heq
    exact absurd h (by decide)
  · next heq =>
    cases heq
    exact absurd h (by decide)
  · rfl

theorem splitSign_toString (i : Int) :
    splitSign (toString i).toList = (decide (i < 0), Nat.toDigits 10 i.natAbs) := by
  rw [toList_toString]
  split
  · next h => rw [decide_eq_true h, splitSign]
  · next h =>
    obtain ⟨c, cs, hcs⟩ := List.exists_cons_of_ne_nil (Nat.toDigits_ne_nil (n := i.natAbs) (b := 10))
    have hc : c.isDigit = true := isDigit_of_mem_toDigits (hcs ▸ List.mem_cons_self)
    rw [decide_eq_false h, hcs, splitSign_of_isDigit hc]

theorem signedInteger?_toString {i : Int} (h : Number.isSigned64 i = true) :
    signedInteger? (toString i).toList = some i := by
  have hdigits : (Nat.toDigits 10 i.natAbs).all Char.isDigit = true :=
    List.all_eq_true.mpr fun c hc => isDigit_of_mem_toDigits hc
  have hi : (if decide (i < 0) = true then -(i.natAbs : Int) else i.natAbs) = i := by
    split
    · next hneg =>
      have := of_decide_eq_true hneg
      omega
    · next hpos =>
      have := of_decide_eq_false (Bool.eq_false_iff.mpr hpos)
      omega
  unfold signedInteger?
  rw [splitSign_toString]
  dsimp only
  rw [natOfDigits_toDigits, hi, hdigits, h, List.isEmpty_eq_false_iff.mpr Nat.toDigits_ne_nil]
  rfl

end integers

/-! ## Every spelled argument is a word -/

theorem plain_of_isDigit {c : Char} (h : c = '-' ∨ c.isDigit = true) :
    isBlank c = false ∧ c ≠ '(' ∧ c ≠ ')' ∧ c ≠ ',' ∧ c ≠ '\'' ∧ c ≠ '$' := by
  rcases h with rfl | h
  · decide
  · refine ⟨not_isBlank_of_isDigit h, ?_, ?_, ?_, ?_, ?_⟩ <;> rintro rfl <;>
      exact absurd h (by decide)

theorem isWord_integer (i : Int) : IsWord (toString i).toList := by
  obtain ⟨c, cs, hcs, hc, hall⟩ := toString_eq_cons i
  have hword : ∀ d ∈ (toString i).toList, d = '-' ∨ d.isDigit = true := by
    rw [hcs]
    exact List.forall_mem_cons.mpr ⟨hc, fun d hd => .inr (hall d hd)⟩
  refine isWord_of_plain (fun d hd => ?_) hcs (plain_of_isDigit hc).1 fun d hd => ?_
  · obtain ⟨-, hopen, hclose, hcomma, hquote, -⟩ := plain_of_isDigit (hword d hd)
    exact ⟨hopen, hclose, hcomma, hquote⟩
  · exact (plain_of_isDigit (hword d (List.mem_of_getLast? hd))).1

theorem IsPathWord.isWord {word : List Char} {p : Path} (h : IsPathWord word p) : IsWord word := by
  obtain ⟨cs, hcs⟩ : ∃ cs, word = '$' :: cs := List.head?_eq_some_iff.mp h.dollar
  exact isWord_of_plain h.plain hcs (by decide) h.last

theorem isWord_call {name inner : List Char} (hname : IsFunctionName name) (h : InertWithin inner) :
    IsWord (name ++ '(' :: (inner ++ [')'])) := by
  obtain ⟨c, cs, hcs⟩ := List.exists_cons_of_ne_nil hname.nonempty
  refine ⟨(inert_of_plain fun d hd => (hname.plain d hd).2).append h.inParentheses,
    ⟨c, cs ++ '(' :: (inner ++ [')']), by rw [hcs, List.cons_append], ?_⟩,
    ⟨name ++ '(' :: inner, ')', ?_, by decide⟩⟩
  · exact (hname.plain c (hcs ▸ List.mem_cons_self)).1
  · rw [List.append_assoc name, List.cons_append]

/-- **Every argument is spelled by a text that the cut passes over.** -/
theorem Argument.Spelled.isWord {a : Argument} {word : List Char} (h : a.Spelled word) :
    IsWord word := by
  induction h with
  | null =>
    exact isWord_of_plain (by simp) rfl (by decide) fun _ hc => by
      cases hc
      decide
  | yes =>
    exact isWord_of_plain (by simp) rfl (by decide) fun _ hc => by
      cases hc
      decide
  | no =>
    exact isWord_of_plain (by simp) rfl (by decide) fun _ hc => by
      cases hc
      decide
  | integer _ => exact isWord_integer _
  | string s =>
    exact ⟨inert_inMarks s.toList, ⟨'\'', _, rfl, by decide⟩, ⟨_, '\'', List.cons_append.symm, by decide⟩⟩
  | path h => exact h.isWord
  | call name blanks entries hname hblanks _ ih =>
    exact isWord_call hname
      ((inert_of_blank hblanks).within.append (inertWithin_joined fun e he => (ih e he).inert_text))

/-! ## Literals, and texts that are none -/

theorem unescape_backslashed (cs : List Char) : unescape (backslashed '\'' cs) = cs := by
  induction cs with
  | nil => rfl
  | cons c cs ih =>
    by_cases h : c = '\'' ∨ c = '\\'
    · rw [backslashed_cons_special h]
      rcases h with rfl | rfl
      · rw [unescape, ih]
      · rw [unescape, ih]
    · rw [backslashed_cons_plain h, unescape, ih]
      · rintro _ rfl
        simp at h
      · rintro _ rfl
        simp at h

theorem quotedArgument_inMarks (cs : List Char) :
    quotedArgument (inMarks '\'' cs) = .ok (.literal (.str (String.ofList cs))) := by
  have hlast : (inMarks '\'' cs).getLast? = some '\'' := by
    rw [inMarks, ← List.cons_append, List.getLast?_concat]
  have hlength : ¬(inMarks '\'' cs).length < 2 := by simp [inMarks]
  have htail : (inMarks '\'' cs).tail.dropLast = backslashed '\'' cs := by
    rw [inMarks, List.tail_cons, List.dropLast_concat]
  unfold quotedArgument
  rw [hlast, htail, unescape_backslashed]
  simp [hlength]

section call

variable {cs : List Char} {c : Char}

theorem mem_splitSign (h : c ∈ cs) (hc : c ≠ '-' ∧ c ≠ '+') : c ∈ (splitSign cs).2 := by
  unfold splitSign
  split
  · exact (List.mem_cons.mp h).resolve_left hc.1
  · exact (List.mem_cons.mp h).resolve_left hc.2
  · exact h

theorem mem_dropWhile {p : Char → Bool} (h : c ∈ cs) (hc : p c = false) : c ∈ cs.dropWhile p := by
  rw [← List.takeWhile_append_dropWhile (p := p) (l := cs)] at h
  refine (List.mem_append.mp h).resolve_left fun h => ?_
  rw [List.mem_takeWhile_imp h] at hc
  cases hc

theorem all_isDigit_splitSign (h : '(' ∈ cs) : (splitSign cs).2.all Char.isDigit = false :=
  List.all_eq_false.mpr ⟨'(', mem_splitSign h (by decide), by decide⟩

theorem exponent?_eq_none (h : '(' ∈ cs) : exponent? cs = none := by
  cases cs with
  | nil => cases h
  | cons mark cs =>
    rw [exponent?]
    split
    · next hmark =>
      have hrest : '(' ∈ cs := by
        refine (List.mem_cons.mp h).resolve_left ?_
        rintro rfl
        exact absurd hmark (by decide)
      simp [all_isDigit_splitSign hrest]
    · rfl

theorem double?_eq_none (h : '(' ∈ cs) : double? cs = none := by
  have htail : '(' ∈ (splitSign cs).2.dropWhile Char.isDigit :=
    mem_dropWhile (mem_splitSign h (by decide)) (by decide)
  unfold double?
  dsimp only
  split
  · next r hpoint =>
    rw [hpoint] at htail
    have hr : '(' ∈ r.dropWhile Char.isDigit :=
      mem_dropWhile ((List.mem_cons.mp htail).resolve_left (by decide)) (by decide)
    simp [exponent?_eq_none hr]
  · simp [exponent?_eq_none htail]

/-- **A call is no literal**: no literal but a text in quotes has a parenthesis in it. -/
theorem wordValue?_eq_none (h : '(' ∈ cs) : wordValue? cs = none := by
  have hinteger : signedInteger? cs = none := by
    simp [signedInteger?, all_isDigit_splitSign h]
  have hne : ∀ word : List Char, '(' ∉ word → cs ≠ word := fun word hword heq => hword (heq ▸ h)
  rw [wordValue?, if_neg (hne _ (by decide)), if_neg (hne _ (by decide)), if_neg (hne _ (by decide)),
    hinteger]
  exact Option.map_eq_none_iff.mpr (double?_eq_none h)

end call

/-! ## Reading calls -/

/-- The parts of a call are its name and the text between its parentheses. -/
theorem callParts_spelled {name : String} {inner : List Char} (hname : IsFunctionName name.toList)
    (hword : IsWord (name.toList ++ '(' :: (inner ++ [')']))) :
    callParts (name.toList ++ '(' :: (inner ++ [')'])) = .ok (name, inner) := by
  have hrun : ∀ c ∈ name.toList, decide (c ≠ '(') = true :=
    fun c hc => decide_eq_true (hname.plain c hc).2.1
  have hstops : Stops (fun c => decide (c ≠ '(')) ('(' :: (inner ++ [')'])) := stops_cons rfl
  have hblank : ∀ c ∈ name.toList, isBlank c = false := fun c hc => (hname.plain c hc).1
  obtain ⟨c, cs, hcs⟩ := List.exists_cons_of_ne_nil hname.nonempty
  have htrim : trim name.toList = name.toList := by
    have hlast := List.dropLast_concat_getLast hname.nonempty
    have := trim_of_blanks blanks_nil blanks_nil hcs
      (hblank c (hcs ▸ List.mem_cons_self)) hlast.symm (hblank _ (List.getLast_mem hname.nonempty))
    rwa [List.nil_append, List.append_nil] at this
  have hlast : (name.toList ++ '(' :: (inner ++ [')'])).getLast? = some ')' := by
    rw [← List.cons_append, ← List.append_assoc, List.getLast?_concat]
  have hany : (name.toList.isEmpty || name.toList.any isBlank) = false := by
    rw [Bool.or_eq_false_iff]
    exact ⟨List.isEmpty_eq_false_iff.mpr hname.nonempty,
      List.any_eq_false.mpr fun c hc => Bool.eq_false_iff.mp (hblank c hc)⟩
  unfold callParts
  dsimp only
  rw [hword.trim_eq, dropWhile_run hrun hstops, takeWhile_run hrun hstops, htrim, hlast, hany]
  simp

/-- The cut at the commas gives back the arguments, each with the blanks around it. -/
theorem splitArguments_joined {blanks : List Char} {entries : List Placed}
    (hblanks : Blanks blanks) (h : ∀ e ∈ entries, IsWord e.word) :
    ∃ parts, splitArguments (blanks ++ joined entries) = some parts ∧
      parts.map trim = entries.map Placed.word := by
  cases entries with
  | nil =>
    refine ⟨[], ?_, rfl⟩
    rw [joined, List.append_nil, splitArguments, trim_eq_nil hblanks]
    rfl
  | cons e entries =>
    have hfirst := h e List.mem_cons_self
    obtain ⟨c, cs, hcs, hc⟩ := hfirst.first
    have hmem : c ∈ blanks ++ joined (e :: entries) := by
      have hword : c ∈ e.text := by simp [Placed.text, hcs]
      refine List.mem_append_right _ ?_
      cases entries with
      | nil => exact hword
      | cons e' entries => exact List.mem_append_left _ hword
    refine ⟨(blanks ++ e.text) :: entries.map Placed.text, ?_, ?_⟩
    · rw [splitArguments, List.isEmpty_eq_false_iff.mpr (trim_ne_nil hmem hc), if_neg Bool.false_ne_true,
        cutAtCommas_joined (inert_of_blank hblanks) fun e' he' => (h e' he').inert_text]
    · rw [List.map_cons, List.map_cons, hfirst.trim_text hblanks, List.map_map]
      congr 1
      refine List.map_congr_left fun e' he' => ?_
      exact (h e' (List.mem_cons_of_mem e he')).trim_text blanks_nil

/-- An argument is read as what its text spells, if `nested` does so for calls. -/
theorem argumentWith_spelled {nested : List Char → Except CallFault Call} {a : Argument}
    {word : List Char} (h : a.Spelled word)
    (hnested : ∀ name arguments, a = .call name arguments → nested word = .ok ⟨name, arguments⟩) :
    argumentWith nested word = .ok a := by
  cases h with
  | null => rfl
  | yes => rfl
  | no => rfl
  | @integer i hi =>
    obtain ⟨c, cs, hcs, hc, -⟩ := toString_eq_cons i
    obtain ⟨-, -, -, -, hquote, hdollar⟩ := plain_of_isDigit hc
    have hne : ∀ d ds, ¬(d = '-' ∨ d.isDigit = true) → (toString i).toList ≠ d :: ds := by
      rintro d ds hd heq
      rw [hcs] at heq
      cases heq
      exact hd hc
    have hvalue : wordValue? (toString i).toList = some (.int i) := by
      rw [wordValue?, if_neg (hne _ _ (by decide)), if_neg (hne _ _ (by decide)),
        if_neg (hne _ _ (by decide)), signedInteger?_toString hi]
    rw [argumentWith, hvalue, hcs]
    simp [hquote, hdollar]
  | string s =>
    rw [argumentWith, if_pos (by rfl), quotedArgument_inMarks, String.ofList_toList]
  | @path p _ hpath =>
    rw [argumentWith, hpath.dollar, if_neg (by decide), if_pos rfl, pathArgument, hpath.parse]
  | call name blanks entries hname _ _ =>
    obtain ⟨c, cs, hcs⟩ := List.exists_cons_of_ne_nil hname.nonempty
    have hquote : c ≠ '\'' := (hname.plain c (hcs ▸ List.mem_cons_self)).2.2.2.2
    have hdollar : c ≠ '$' := fun hc => hname.dollar (by rw [hcs, hc]; rfl)
    have hvalue : wordValue? (name.toList ++ '(' :: (blanks ++ joined entries ++ [')'])) = none :=
      wordValue?_eq_none (List.mem_append_right _ List.mem_cons_self)
    rw [argumentWith, hvalue, hnested name _ rfl, hcs]
    simp [hquote, hdollar]

theorem length_word_le_joined {entries : List Placed} {e : Placed} (h : e ∈ entries) :
    e.word.length ≤ (joined entries).length := by
  have hword (e : Placed) : e.word.length ≤ e.text.length := by
    rw [Placed.text, List.length_append, List.length_append]
    omega
  induction entries with
  | nil => cases h
  | cons e' entries ih =>
    cases entries with
    | nil =>
      rw [List.mem_singleton.mp h]
      exact hword e'
    | cons e'' entries =>
      have hlength : (joined (e' :: e'' :: entries)).length =
          e'.text.length + ((joined (e'' :: entries)).length + 1) := List.length_append
      rcases List.mem_cons.mp h with rfl | h
      · have := hword e
        omega
      · have := ih h
        omega

/-- A call is read as what its text spells if there is a step of depth for every character: the text of
an inner call is shorter. -/
theorem parseCall_spelled {depth : Nat} {name : String} {arguments : List Argument} {text : List Char}
    (h : (Argument.call name arguments).Spelled text) (hdepth : text.length < depth) :
    parseCall depth text = .ok ⟨name, arguments⟩ := by
  induction depth generalizing name arguments text with
  | zero => cases hdepth
  | succ depth ih =>
    have hword := h.isWord
    cases h with
    | call _ blanks entries hname hblanks hentries =>
      obtain ⟨parts, hparts, htrim⟩ := splitArguments_joined hblanks fun e he => (hentries e he).isWord
      have hargument : ∀ e ∈ entries, argumentWith (parseCall depth) e.word = .ok e.argument := by
        intro e he
        refine argumentWith_spelled (hentries e he) fun name' arguments' heq => ?_
        refine ih (heq ▸ hentries e he) ?_
        have := length_word_le_joined he
        simp only [List.length_append, List.length_cons] at hdepth
        omega
      have hread : parts.mapM (fun part => argumentWith (parseCall depth) (trim part)) =
          .ok (entries.map Placed.argument) := by
        show parts.mapM (argumentWith (parseCall depth) ∘ trim) = _
        rw [← List.mapM_map, htrim]
        exact Except.mapM_map_eq_ok_map hargument
      rw [parseCall, callWith, callParts_spelled hname hword, Except.ok_bind]
      dsimp only
      rw [hparts]
      dsimp only
      rw [hread]
      rfl

/-! ## What can be spelled -/

/-- The function names, integers and paths of the argument can be written down. -/
inductive Argument.Expressible : Argument → Prop where
  | null : Expressible (.literal .null)
  | bool (b : Bool) : Expressible (.literal (.bool b))
  | integer {i : Int} : Number.isSigned64 i → Expressible (.literal (.int i))
  | string (s : String) : Expressible (.literal (.str s))
  | path {p : Path} {word : List Char} : IsPathWord word p → Expressible (.path p)
  | call {name : String} {arguments : List Argument} : IsFunctionName name.toList →
      (∀ a ∈ arguments, Expressible a) → Expressible (.call name arguments)

theorem Argument.Expressible.spelled {a : Argument} (h : a.Expressible) : ∃ text, a.Spelled text := by
  induction h with
  | null => exact ⟨_, .null⟩
  | bool b => cases b with
    | true => exact ⟨_, .yes⟩
    | false => exact ⟨_, .no⟩
  | integer hi => exact ⟨_, .integer hi⟩
  | string s => exact ⟨_, .string s⟩
  | path h => exact ⟨_, .path h⟩
  | @call name arguments hname harguments ih =>
    have hentries : ∃ entries : List Placed, entries.map Placed.argument = arguments ∧
        ∀ e ∈ entries, e.argument.Spelled e.word := by
      clear hname harguments
      induction arguments with
      | nil => exact ⟨[], rfl, nofun⟩
      | cons a arguments ihs =>
        obtain ⟨entries, hmap, hall⟩ := ihs fun b hb => ih b (List.mem_cons_of_mem a hb)
        obtain ⟨word, hword⟩ := ih a List.mem_cons_self
        exact ⟨⟨a, [], word, [], nofun⟩ :: entries, by rw [List.map_cons, hmap],
          List.forall_mem_cons.mpr ⟨hword, hall⟩⟩
    obtain ⟨entries, rfl, hall⟩ := hentries
    exact ⟨_, .call name [] entries hname nofun hall⟩

theorem Argument.Spelled.expressible {a : Argument} {text : List Char} (h : a.Spelled text) :
    a.Expressible := by
  induction h with
  | null => exact .null
  | yes => exact .bool true
  | no => exact .bool false
  | integer hi => exact .integer hi
  | string s => exact .string s
  | path h => exact .path h
  | call name blanks entries hname _ _ ih => exact .call hname (List.forall_mem_map.mpr ih)

/-- The call can be written down. -/
def Call.Expressible (call : Call) : Prop :=
  (Argument.call call.name call.arguments).Expressible

/-- **Every call is read as it is spelled.** The calls that have a spelling are those that can be
written down, and any text that spells a call is read as it: however deep the calls nest, whatever
their texts hold and whatever blanks stand around the arguments. -/
theorem Call.parse_spelled_call (call : Call) :
    (call.Expressible ↔ ∃ text : String, call.Spelled text.toList) ∧
      ∀ text : String, call.Spelled text.toList → Call.parse text = .ok call := by
  refine ⟨⟨fun h => ?_, fun ⟨text, h⟩ => h.expressible⟩, fun text h => ?_⟩
  · obtain ⟨text, htext⟩ := Argument.Expressible.spelled h
    exact ⟨String.ofList text, by rwa [Call.Spelled, String.toList_ofList]⟩
  · exact parseCall_spelled h (by rw [String.length_toList]; exact Nat.lt_succ_self _)

/-- A call within a call, with blanks, an escaped quote and an escaped backslash, a comma and a
parenthesis in quotes, an integer, and a path. -/
theorem call_parse_spelled_format :
    Call.parse "States.Format( 'it\\'s, (a\\\\','b' , f_1(-3,$.a[1]\t, null ))" = .ok ⟨"States.Format",
      [.literal (.str "it's, (a\\"), .literal (.str "b"), .call "f_1" [.literal (.int (-3)),
        .path ⟨"$.a[1]", false, "$.a[1]", .root, [.child "a", .index 1]⟩, .literal .null]]⟩ := by
  have hblank (b : List Char) (h : b.all isBlank = true) : Blanks b := List.all_eq_true.mp h
  have hpath : IsPathWord "$.a[1]".toList
      ⟨"$.a[1]", false, "$.a[1]", .root, [.child "a", .index 1]⟩ :=
    ⟨by decide, by with_unfolding_all rfl, fun _ hc => by cases hc; decide, by simp⟩
  have hinner : Argument.Spelled _ "f_1(-3,$.a[1]\t, null )".toList :=
    .call "f_1" [] [⟨.literal (.int (-3)), [], "-3".toList, [], nofun⟩,
        ⟨.path _, [], "$.a[1]".toList, ['\t'], hblank _ rfl⟩,
        ⟨.literal .null, [' '], "null".toList, [' '], hblank _ rfl⟩]
      (isFunctionName_of_isAlphanum (by decide) (List.all_iff_forall_prop.mp (by decide))) nofun
      (List.forall_mem_cons.mpr ⟨.integer (i := -3) (by decide), List.forall_mem_cons.mpr
        ⟨.path hpath, List.forall_mem_cons.mpr ⟨.null, nofun⟩⟩⟩)
  exact (Call.parse_spelled_call _).2 _ (.call "States.Format" []
    [⟨.literal (.str "it's, (a\\"), [' '], inMarks '\'' "it's, (a\\".toList, [], hblank _ rfl⟩,
      ⟨.literal (.str "b"), [], inMarks '\'' ['b'], [' '], hblank _ rfl⟩,
      ⟨_, [' '], "f_1(-3,$.a[1]\t, null )".toList, [], hblank _ rfl⟩]
    (isFunctionName_of_isAlphanum (by decide) (List.all_iff_forall_prop.mp (by decide))) nofun
    (List.forall_mem_cons.mpr ⟨.string _, List.forall_mem_cons.mpr
      ⟨.string _, List.forall_mem_cons.mpr ⟨hinner, nofun⟩⟩⟩))

end StepFlow
