import Mathlib.Data.List.Basic
import StepFlow.Proofs.Intrinsic.Call

/-!
# Arguments in quotes

The cut at the commas counts the quotes of all arguments, while the reading of one argument looks only at
its first and last characters. So a text that starts with a quote may be several texts in quotes with
something between them, and then all of it becomes one literal.

* `QuotedText`, `QuotedString`: one text in quotes, and `QuotedRun`: several of them;
* `Uncut`: a text that the cut at the commas leaves in one piece;
* `CutsFirst`: what the cut does with one character;
* `uncut_of_cutAtCommas`, `Uncut.cutAtCommas_append`: the cut gives such texts, and leaves them as they are;
* `Uncut.trim`: the blanks around them do not matter;
* `Uncut.quotedRun`: a text in one piece that starts and ends with a quote is texts in quotes;
* `Call.HasArgument`: the texts of the arguments of a call, at any depth;
* **`Call.quoted_arguments`**.
-/

namespace StepFlow

open Text

variable {depth : Nat} {text rest : List Char}

/-! ## Texts in quotes -/

/-- What stands between quotes: characters other than quotes and backslashes, and characters of any kind
with a backslash before them. -/
inductive QuotedText : List Char → Prop where
  | nil : QuotedText []
  | plain {c : Char} {cs : List Char} : c ≠ '\'' → c ≠ '\\' → QuotedText cs → QuotedText (c :: cs)
  | escaped {c : Char} {cs : List Char} : QuotedText cs → QuotedText ('\\' :: c :: cs)

/-- One text in quotes: its only quotes without a backslash are its first and last characters. -/
def QuotedString (text : List Char) : Prop := ∃ cs, QuotedText cs ∧ text = '\'' :: (cs ++ ['\''])

/-- Texts in quotes, with anything but quotes between them. -/
inductive QuotedRun : List Char → Prop where
  | single {text : List Char} : QuotedString text → QuotedRun text
  | cons {text gap rest : List Char} : QuotedString text → '\'' ∉ gap → QuotedRun rest →
      QuotedRun (text ++ (gap ++ rest))

/-- The text closes all of its parentheses and `depth` more, and it has no comma outside of all of these
and of quotes. -/
inductive Uncut : (depth : Nat) → List Char → Prop where
  | nil : Uncut 0 []
  | quoted {depth : Nat} {cs rest : List Char} : QuotedText cs → Uncut depth rest →
      Uncut depth ('\'' :: (cs ++ '\'' :: rest))
  | opening {depth : Nat} {rest : List Char} : Uncut (depth + 1) rest → Uncut depth ('(' :: rest)
  | closing {depth : Nat} {rest : List Char} : Uncut depth rest → Uncut (depth + 1) (')' :: rest)
  | comma {depth : Nat} {rest : List Char} : Uncut (depth + 1) rest → Uncut (depth + 1) (',' :: rest)
  | plain {depth : Nat} {c : Char} {rest : List Char} : c ≠ '(' ∧ c ≠ ')' ∧ c ≠ ',' ∧ c ≠ '\'' →
      Uncut depth rest → Uncut depth (c :: rest)

/-- Only one quote can end a text in quotes. -/
theorem QuotedText.unique {cs cs' rest' : List Char} (h : QuotedText cs) (h' : QuotedText cs')
    (heq : cs ++ '\'' :: rest = cs' ++ '\'' :: rest') : cs = cs' ∧ rest = rest' := by
  induction h generalizing cs' with
  | nil =>
    cases h' with
    | nil =>
      cases heq
      exact ⟨rfl, rfl⟩
    | plain hquote _ _ =>
      cases heq
      exact absurd rfl hquote
    | escaped _ => cases heq
  | plain hquote hslash _ ih =>
    cases h' with
    | nil =>
      cases heq
      exact absurd rfl hquote
    | plain _ _ h' =>
      obtain ⟨rfl, hcs⟩ := List.cons.inj heq
      obtain ⟨rfl, rfl⟩ := ih h' hcs
      exact ⟨rfl, rfl⟩
    | escaped _ => exact absurd (List.cons.inj heq).1 hslash
  | escaped _ ih =>
    cases h' with
    | nil => cases heq
    | plain _ hslash _ => exact absurd (List.cons.inj heq).1.symm hslash
    | escaped h' =>
      obtain ⟨rfl, hcs⟩ := List.cons.inj (List.cons.inj heq).2
      obtain ⟨rfl, rfl⟩ := ih h' hcs
      exact ⟨rfl, rfl⟩

/-! ## What the cut gives -/

/-- What the first part is when the cut goes on from a place outside of quotes or within them. -/
def IsFirstPart (depth : Nat) : Quoting → List Char → Prop
  | .outside, part => Uncut depth part
  | .inside, part => ∃ cs rest, QuotedText cs ∧ Uncut depth rest ∧ part = cs ++ '\'' :: rest
  | .escaped, part => ∃ c cs rest, QuotedText cs ∧ Uncut depth rest ∧ part = c :: (cs ++ '\'' :: rest)

theorem isFirstPart_cons_inside {c : Char} {part : List Char}
    (h : IsFirstPart depth (.after false c) part) : IsFirstPart depth .inside (c :: part) := by
  unfold Quoting.after at h
  by_cases hslash : c = '\\'
  · subst hslash
    obtain ⟨c, cs, rest, hcs, hrest, rfl⟩ := h
    exact ⟨'\\' :: c :: cs, rest, .escaped hcs, hrest, rfl⟩
  by_cases hquote : c = '\''
  · subst hquote
    exact ⟨[], part, .nil, h, rfl⟩
  · rw [if_neg Bool.false_ne_true, if_neg hslash, if_neg hquote] at h
    obtain ⟨cs, rest, hcs, hrest, rfl⟩ := h
    exact ⟨c :: cs, rest, .plain hquote hslash hcs, hrest, rfl⟩

/-- What a cut does with the character in front of a text: it goes to the first part of what is cut from
there on, or it is a comma that ends a part. -/
inductive CutsFirst : Nat → Quoting → Char → List Char → List (List Char) → Prop where
  | taken {depth depth' : Nat} {quoting quoting' : Quoting} {c : Char} {cs : List Char}
      {parts : List (List Char)} : cutAtCommas depth' quoting' cs = some parts →
      (∀ part, IsFirstPart depth' quoting' part → IsFirstPart depth quoting (c :: part)) →
      CutsFirst depth quoting c cs (consFirst c parts)
  | comma {cs : List Char} {parts : List (List Char)} : cutAtCommas 0 .outside cs = some parts →
      CutsFirst 0 .outside ',' cs ([] :: parts)

theorem CutsFirst.of_map {depth' : Nat} {quoting quoting' : Quoting} {c : Char} {cs : List Char}
    {parts : List (List Char)} (h : (cutAtCommas depth' quoting' cs).map (consFirst c) = some parts)
    (hcons : ∀ part, IsFirstPart depth' quoting' part → IsFirstPart depth quoting (c :: part)) :
    CutsFirst depth quoting c cs parts := by
  obtain ⟨parts', hparts', rfl⟩ := Option.map_eq_some_iff.mp h
  exact .taken hparts' hcons

theorem cutsFirst_outside {c : Char} {cs : List Char} {parts : List (List Char)}
    (h : cutAtCommas depth .outside (c :: cs) = some parts) : CutsFirst depth .outside c cs parts := by
  by_cases hquote : c = '\''
  · subst hquote
    rw [cutAtCommas_quote] at h
    refine .of_map h fun part hpart => ?_
    obtain ⟨cs, rest, hcs, hrest, rfl⟩ := hpart
    exact .quoted hcs hrest
  by_cases hopen : c = '('
  · subst hopen
    rw [cutAtCommas_open] at h
    exact .of_map h fun part hpart => .opening hpart
  by_cases hclose : c = ')'
  · subst hclose
    cases depth with
    | zero =>
      rw [cutAtCommas.eq_def] at h
      simp at h
    | succ depth =>
      rw [cutAtCommas_close] at h
      exact .of_map h fun part hpart => .closing hpart
  by_cases hcomma : c = ','
  · subst hcomma
    rw [cutAtCommas_comma] at h
    split at h
    · next hdepth =>
      subst hdepth
      obtain ⟨parts', hparts', rfl⟩ := Option.map_eq_some_iff.mp h
      exact .comma hparts'
    · next hdepth =>
      obtain ⟨depth, rfl⟩ := Nat.exists_eq_succ_of_ne_zero hdepth
      exact .of_map h fun part hpart => .comma hpart
  · have hplain : c ≠ '(' ∧ c ≠ ')' ∧ c ≠ ',' ∧ c ≠ '\'' := ⟨hopen, hclose, hcomma, hquote⟩
    rw [cutAtCommas_plain hplain] at h
    exact .of_map h fun part hpart => .plain hplain hpart

theorem cutsFirst_of_cutAtCommas {quoting : Quoting} {c : Char} {cs : List Char}
    {parts : List (List Char)} (h : cutAtCommas depth quoting (c :: cs) = some parts) :
    CutsFirst depth quoting c cs parts := by
  cases quoting with
  | outside => exact cutsFirst_outside h
  | inside =>
    rw [cutAtCommas_inside] at h
    exact .of_map h fun part => isFirstPart_cons_inside
  | escaped =>
    rw [cutAtCommas_escaped] at h
    refine .of_map h fun part hpart => ?_
    obtain ⟨cs, rest, hcs, hrest, rfl⟩ := hpart
    exact ⟨c, cs, rest, hcs, hrest, rfl⟩

theorem cutAtCommas_nil {quoting : Quoting} {parts : List (List Char)}
    (h : cutAtCommas depth quoting [] = some parts) : quoting = .outside ∧ depth = 0 ∧ parts = [[]] := by
  cases quoting with
  | outside =>
    rw [cutAtCommas] at h
    split at h
    · next hdepth =>
      cases h
      exact ⟨rfl, hdepth, rfl⟩
    · cases h
  | inside => cases h
  | escaped => cases h

/-- **The cut leaves no comma and no open quote or parenthesis in its parts.** -/
theorem uncut_of_cutAtCommas {quoting : Quoting} {cs : List Char} {parts : List (List Char)}
    (h : cutAtCommas depth quoting cs = some parts) :
    ∃ part rest, parts = part :: rest ∧ IsFirstPart depth quoting part ∧ ∀ p ∈ rest, Uncut 0 p := by
  induction cs generalizing depth quoting parts with
  | nil =>
    obtain ⟨rfl, rfl, rfl⟩ := cutAtCommas_nil h
    exact ⟨[], [], rfl, .nil, List.forall_mem_nil _⟩
  | cons c cs ih =>
    cases cutsFirst_of_cutAtCommas h with
    | taken hcut hcons =>
      obtain ⟨part, rest, rfl, hpart, hrest⟩ := ih hcut
      exact ⟨c :: part, rest, rfl, hcons part hpart, hrest⟩
    | comma hcut =>
      obtain ⟨part, rest, rfl, hpart, hrest⟩ := ih hcut
      exact ⟨[], part :: rest, rfl, .nil, List.forall_mem_cons.mpr ⟨hpart, hrest⟩⟩

/-! ## What the cut leaves as it is -/

theorem QuotedText.cutAtCommas_append {cs : List Char} (h : QuotedText cs) (depth : Nat) (rest : List Char) :
    cutAtCommas depth .inside (cs ++ '\'' :: rest) =
      (cutAtCommas depth .outside rest).map (onFirst (cs ++ ['\''])) := by
  induction h with
  | nil =>
    rw [List.nil_append, cutAtCommas_inside]
    rfl
  | @plain c cs hquote hslash _ ih =>
    have hafter : Quoting.after false c = .inside := by simp [Quoting.after, hquote, hslash]
    rw [List.cons_append, cutAtCommas_inside, hafter, ih, Option.map_map]
    rfl
  | @escaped c cs _ ih =>
    rw [List.cons_append, List.cons_append, cutAtCommas_inside]
    show (cutAtCommas depth .escaped (c :: (cs ++ '\'' :: rest))).map _ = _
    rw [cutAtCommas_escaped, ih, Option.map_map, Option.map_map]
    rfl

namespace Uncut

/-- **The cut passes over the text.** -/
theorem cutAtCommas_append (h : Uncut depth text) (outer : Nat) (rest : List Char) :
    cutAtCommas (outer + depth) .outside (text ++ rest) =
      (cutAtCommas outer .outside rest).map (onFirst text) := by
  induction h with
  | nil => simp
  | @quoted depth cs text hcs _ ih =>
    have hsplit : '\'' :: (cs ++ '\'' :: text) = '\'' :: (cs ++ ['\'']) ++ text := by simp
    rw [List.cons_append, cutAtCommas_quote, List.append_assoc, List.cons_append,
      hcs.cutAtCommas_append, ih, Option.map_map, Option.map_map, hsplit,
      onFirst_append ('\'' :: (cs ++ ['\''])) text]
    rfl
  | opening _ ih =>
    rw [List.cons_append, cutAtCommas_open, Nat.add_assoc, ih, Option.map_map]
    rfl
  | closing _ ih =>
    rw [List.cons_append, ← Nat.add_assoc, cutAtCommas_close, ih, Option.map_map]
    rfl
  | @comma depth rest _ ih =>
    rw [List.cons_append, cutAtCommas_comma, if_neg (by omega), ih, Option.map_map]
    rfl
  | plain hc _ ih =>
    rw [List.cons_append, cutAtCommas_plain hc, ih, Option.map_map]
    rfl

theorem inert (h : Uncut 0 text) : Inert text := fun outer rest => h.cutAtCommas_append outer rest

theorem cutAtCommas_eq (h : Uncut 0 text) : cutAtCommas 0 .outside text = some [text] := by
  have hcut := h.inert 0 []
  rwa [List.append_nil, cutAtCommas, if_pos rfl, Option.map_some, onFirst_cons, List.append_nil] at hcut

/-! ## Blanks around a text -/

theorem dropBlanks (h : Uncut depth text) : Uncut depth (dropBlanks text) := by
  induction h with
  | nil => exact .nil
  | quoted hcs hrest =>
    rw [dropBlanks_cons (by decide)]
    exact .quoted hcs hrest
  | opening hrest =>
    rw [dropBlanks_cons (by decide)]
    exact .opening hrest
  | closing hrest =>
    rw [dropBlanks_cons (by decide)]
    exact .closing hrest
  | comma hrest =>
    rw [dropBlanks_cons (by decide)]
    exact .comma hrest
  | @plain depth c rest hc hrest ih =>
    cases hblank : isBlank c with
    | true =>
      rwa [show Text.dropBlanks (c :: rest) = Text.dropBlanks rest from
        List.dropWhile_cons_of_pos hblank]
    | false =>
      rw [dropBlanks_cons hblank]
      exact .plain hc hrest

/-- A blank at the end can be taken off. -/
theorem of_concat_blank {cs : List Char} {c : Char} (hc : isBlank c = true) (h : Uncut depth (cs ++ [c])) :
    Uncut depth cs := by
  generalize htext : cs ++ [c] = text at h
  induction h generalizing cs with
  | nil => simp at htext
  | @quoted depth body rest hbody hrest ih =>
    rcases List.eq_nil_or_concat rest with rfl | ⟨rest, c', rfl⟩
    · have hlast := congrArg List.getLast? htext
      rw [List.getLast?_concat, ← List.cons_append, List.getLast?_concat, Option.some.injEq] at hlast
      exact absurd hc (hlast ▸ by decide)
    · have hsplit : '\'' :: (body ++ '\'' :: (rest ++ [c'])) = '\'' :: (body ++ '\'' :: rest) ++ [c'] := by
        simp
      rw [List.concat_eq_append] at hrest ih htext
      obtain ⟨rfl, hlast⟩ := List.append_inj' (htext.trans hsplit) rfl
      exact .quoted hbody (ih (by rw [hlast]))
  | opening hrest ih =>
    cases cs with
    | nil =>
      cases htext
      exact absurd hc (by decide)
    | cons x cs =>
      cases htext
      exact .opening (ih rfl)
  | closing hrest ih =>
    cases cs with
    | nil =>
      cases htext
      exact absurd hc (by decide)
    | cons x cs =>
      cases htext
      exact .closing (ih rfl)
  | comma hrest ih =>
    cases cs with
    | nil =>
      cases htext
      exact absurd hc (by decide)
    | cons x cs =>
      cases htext
      exact .comma (ih rfl)
  | plain hplain hrest ih =>
    cases cs with
    | nil =>
      cases htext
      exact hrest
    | cons x cs =>
      cases htext
      exact .plain hplain (ih rfl)

theorem trim (h : Uncut depth text) : Uncut depth (trim text) := by
  have hright : ∀ cs : List Char, Uncut depth cs.reverse → Uncut depth (cs.dropWhile isBlank).reverse := by
    intro cs hcs
    induction cs with
    | nil => exact hcs
    | cons c cs ih =>
      cases hc : isBlank c with
      | true =>
        rw [List.dropWhile_cons_of_pos hc]
        rw [List.reverse_cons] at hcs
        exact ih (hcs.of_concat_blank hc)
      | false =>
        rwa [List.dropWhile_cons_of_neg (by simp [hc])]
  refine hright (Text.dropBlanks text).reverse ?_
  rw [List.reverse_reverse]
  exact h.dropBlanks

/-! ## Texts in quotes one after another -/

/-- What ends with a quote ends with texts in quotes. -/
theorem exists_quotedRun (h : Uncut depth text) (hlast : text.getLast? = some '\'') :
    ∃ gap run, text = gap ++ run ∧ '\'' ∉ gap ∧ QuotedRun run := by
  have hcons : ∀ {c : Char} {rest : List Char}, c ≠ '\'' → (c :: rest).getLast? = some '\'' →
      (rest.getLast? = some '\'' → ∃ gap run, rest = gap ++ run ∧ '\'' ∉ gap ∧ QuotedRun run) →
      ∃ gap run, c :: rest = gap ++ run ∧ '\'' ∉ gap ∧ QuotedRun run := by
    intro c rest hc hlast ih
    have hrest : rest.getLast? = some '\'' := by
      cases rest with
      | nil =>
        cases hlast
        exact absurd rfl hc
      | cons d rest => rwa [List.getLast?_cons_cons] at hlast
    obtain ⟨gap, run, rfl, hgap, hrun⟩ := ih hrest
    exact ⟨c :: gap, run, rfl, List.not_mem_cons_of_ne_of_not_mem hc.symm hgap, hrun⟩
  induction h with
  | nil => cases hlast
  | @quoted depth cs rest hcs _ ih =>
    have hstring : QuotedString ('\'' :: (cs ++ ['\''])) := ⟨cs, hcs, rfl⟩
    cases rest with
    | nil => exact ⟨[], _, rfl, List.not_mem_nil, .single hstring⟩
    | cons c rest =>
      have hrest : (c :: rest).getLast? = some '\'' := by
        rwa [← List.cons_append, List.getLast?_append_of_ne_nil _ (List.cons_ne_nil _ _),
          List.getLast?_cons_cons] at hlast
      obtain ⟨gap, run, heq, hgap, hrun⟩ := ih hrest
      refine ⟨[], _, rfl, List.not_mem_nil, ?_⟩
      have hsplit : '\'' :: (cs ++ '\'' :: (c :: rest)) = '\'' :: (cs ++ ['\'']) ++ (gap ++ run) := by
        rw [heq]
        simp
      rw [hsplit]
      exact .cons hstring hgap hrun
  | opening _ ih => exact hcons (by decide) hlast ih
  | closing _ ih => exact hcons (by decide) hlast ih
  | comma _ ih => exact hcons (by decide) hlast ih
  | plain hc _ ih => exact hcons hc.2.2.2 hlast ih

/-- **A text in one piece that starts and ends with a quote is texts in quotes.** -/
theorem quotedRun (h : Uncut depth text) (hfirst : text.head? = some '\'')
    (hlast : text.getLast? = some '\'') : QuotedRun text := by
  obtain ⟨gap, run, rfl, hgap, hrun⟩ := h.exists_quotedRun hlast
  cases gap with
  | nil => exact hrun
  | cons c gap =>
    cases hfirst
    exact absurd List.mem_cons_self hgap

end Uncut

namespace QuotedRun

theorem exists_ends (h : QuotedRun text) : ∃ cs, text = '\'' :: (cs ++ ['\'']) := by
  induction h with
  | single h =>
    obtain ⟨cs, -, rfl⟩ := h
    exact ⟨cs, rfl⟩
  | @cons text gap rest h _ _ ih =>
    obtain ⟨cs, -, rfl⟩ := h
    obtain ⟨ds, rfl⟩ := ih
    exact ⟨cs ++ ['\''] ++ (gap ++ '\'' :: ds), by simp⟩

theorem not_quotedString_iff (h : QuotedRun text) : ¬ QuotedString text ↔
    ∃ first gap others, text = first ++ (gap ++ others) ∧ QuotedString first ∧ '\'' ∉ gap ∧
      QuotedRun others := by
  constructor
  · intro hnot
    cases h with
    | single h => exact absurd h hnot
    | cons hfirst hgap hothers => exact ⟨_, _, _, rfl, hfirst, hgap, hothers⟩
  · rintro ⟨first, gap, others, rfl, ⟨cs, hcs, rfl⟩, -, hothers⟩ ⟨cs', hcs', heq⟩
    obtain ⟨ds, rfl⟩ := hothers.exists_ends
    have hend : cs ++ '\'' :: (gap ++ '\'' :: (ds ++ ['\''])) = cs' ++ '\'' :: [] := by
      rw [List.cons_append, List.append_assoc] at heq
      exact (List.cons.inj heq).2
    have hnil := (hcs.unique hcs' hend).2
    exact List.append_ne_nil_of_right_ne_nil gap (List.cons_ne_nil _ _) hnil

end QuotedRun

/-! ## The arguments of a call -/

/-- The text is an argument of the call that the expression is read as, or of a call within it, and it is
read as the argument. -/
inductive Call.HasArgument : (expression : List Char) → Call → (text : List Char) → Argument → Prop where
  | here {expression inner : List Char} {call : Call} {parts : List (List Char)} {i : Nat}
      {part : List Char} {a : Argument} :
      callParts expression = .ok (call.name, inner) → splitArguments inner = some parts →
      parts[i]? = some part → call.arguments[i]? = some a → HasArgument expression call (trim part) a
  | within {expression text text' : List Char} {call inner : Call} {a : Argument} :
      HasArgument expression call text (.call inner.name inner.arguments) →
      HasArgument text inner text' a → HasArgument expression call text' a

section reading

variable {nested : List Char → Except CallFault Call} {expression : List Char} {call : Call} {a : Argument}

theorem uncut_of_splitArguments {inner : List Char} {parts : List (List Char)}
    (h : splitArguments inner = some parts) : ∀ part ∈ parts, Uncut 0 part := by
  unfold splitArguments at h
  split at h
  · cases h
    exact List.forall_mem_nil _
  · obtain ⟨part, rest, rfl, hpart, hrest⟩ := uncut_of_cutAtCommas h
    exact List.forall_mem_cons.mpr ⟨hpart, hrest⟩

theorem nested_of_argumentWith {inner : Call} (h : argumentWith nested text =
    .ok (.call inner.name inner.arguments)) : nested text = .ok inner := by
  unfold argumentWith quotedArgument pathArgument at h
  split at h
  · split at h <;> cases h
  split at h
  · split at h <;> cases h
  split at h
  · cases h
  split at h
  · cases h
  split at h
  · next call hcall =>
    cases call
    cases inner
    cases h
    exact hcall
  · cases h

theorem quoted_of_argumentWith (hfirst : text.head? = some '\'') (h : argumentWith nested text = .ok a) :
    text.getLast? = some '\'' ∧ a = .literal (.str (String.ofList (unescape text.tail.dropLast))) := by
  rw [argumentWith, if_pos hfirst, quotedArgument] at h
  split at h
  · cases h
  · next hends =>
    cases h
    rw [Bool.or_eq_true, not_or, decide_eq_true_eq, decide_eq_true_eq, not_not] at hends
    exact ⟨hends.2, rfl⟩

theorem parts_of_callWith {argument : List Char → Except CallFault Argument}
    (h : callWith argument expression = .ok call) :
    ∃ inner parts, callParts expression = .ok (call.name, inner) ∧ splitArguments inner = some parts ∧
      parts.mapM (fun part => argument (trim part)) = .ok call.arguments := by
  obtain ⟨⟨name, inner⟩, hparts, h⟩ := Except.bind_eq_ok_iff.mp h
  dsimp only at h
  split at h
  · cases h
  · next parts hsplit =>
    obtain ⟨arguments, harguments, h⟩ := Except.bind_eq_ok_iff.mp h
    cases h
    exact ⟨inner, parts, hparts, hsplit, harguments⟩

/-- **Every argument, at any depth, is a text in one piece and was read as such.** -/
theorem Call.HasArgument.exists_argumentWith (h : call.HasArgument expression text a) {depth : Nat}
    (hcall : parseCall depth expression = .ok call) :
    Uncut 0 text ∧ ∃ depth', argumentWith (parseCall depth') text = .ok a := by
  induction h generalizing depth with
  | here hparts hsplit hpart ha =>
    cases depth with
    | zero => cases hcall
    | succ depth =>
      obtain ⟨inner, parts, hparts', hsplit', harguments⟩ := parts_of_callWith hcall
      cases hparts.symm.trans hparts'
      cases hsplit.symm.trans hsplit'
      obtain ⟨a', ha', hread⟩ := (Except.getElem?_of_mapM harguments).2 _ _ hpart
      cases ha.symm.trans ha'
      exact ⟨(uncut_of_splitArguments hsplit _ (List.mem_of_getElem? hpart)).trim, depth, hread⟩
  | within _ _ ih ih' =>
    obtain ⟨-, depth', hinner⟩ := ih hcall
    exact ih' (nested_of_argumentWith hinner)

end reading

/-- A text in one piece that starts and ends with a quote is read as one literal. -/
theorem Call.parse_quotedRun {name : String} (hname : IsFunctionName name.toList) (h : QuotedRun text)
    (hcut : Uncut 0 text) : Call.parse (String.ofList (name.toList ++ '(' :: (text ++ [')']))) =
      .ok ⟨name, [.literal (.str (String.ofList (unescape text.tail.dropLast)))]⟩ := by
  obtain ⟨cs, rfl⟩ := h.exists_ends
  have hlast : ('\'' :: (cs ++ ['\''])).getLast? = some '\'' := by
    rw [← List.cons_append, List.getLast?_concat]
  have hword : IsWord ('\'' :: (cs ++ ['\''])) :=
    ⟨hcut.inert, ⟨'\'', _, rfl, by decide⟩, ⟨_, '\'', List.cons_append.symm, by decide⟩⟩
  have htrim := hword.trim_eq
  have hsplit : splitArguments ('\'' :: (cs ++ ['\''])) = some ['\'' :: (cs ++ ['\''])] := by
    rw [splitArguments, htrim, if_neg (by simp), hcut.cutAtCommas_eq]
  have hread : ∀ nested, argumentWith nested ('\'' :: (cs ++ ['\''])) =
      .ok (.literal (.str (String.ofList (unescape cs)))) := by
    intro nested
    rw [argumentWith, List.head?_cons, if_pos rfl, quotedArgument, if_neg (by simp [hlast]), List.tail_cons,
      List.dropLast_concat]
  rw [Call.parse, String.toList_ofList, parseCall, callWith,
    callParts_spelled hname (isWord_call hname hcut.inert.within), Except.ok_bind]
  dsimp only
  rw [hsplit]
  dsimp only
  rw [List.mapM_cons, htrim, hread, List.tail_cons, List.dropLast_concat]
  rfl

/-- **What an argument is that starts with a quote.** In every expression that is accepted, and at any depth
of its calls, such an argument is one or more texts in quotes with other characters between them. It ends with
a quote, closes its parentheses and has no comma outside of them, and everything between its first and last
quotes becomes one literal. So it is not a single text in quotes exactly if several of them have no comma
between them. And every text of this shape is accepted. -/
theorem Call.quoted_arguments (hfirst : text.head? = some '\'') :
    (∀ (expression : String) (call : Call) (a : Argument), Call.parse expression = .ok call →
      call.HasArgument expression.toList text a →
        QuotedRun text ∧ Uncut 0 text ∧
          a = .literal (.str (String.ofList (unescape text.tail.dropLast))) ∧
          (¬ QuotedString text ↔ ∃ first gap others, text = first ++ (gap ++ others) ∧ QuotedString first ∧
            '\'' ∉ gap ∧ QuotedRun others)) ∧
    (QuotedRun text → Uncut 0 text → ∀ name : String, IsFunctionName name.toList →
      Call.parse (String.ofList (name.toList ++ '(' :: (text ++ [')']))) =
        .ok ⟨name, [.literal (.str (String.ofList (unescape text.tail.dropLast)))]⟩) := by
  refine ⟨fun expression call a hcall h => ?_,
    fun hrun hcut name hname => Call.parse_quotedRun hname hrun hcut⟩
  obtain ⟨hcut, depth, hread⟩ := h.exists_argumentWith hcall
  obtain ⟨hlast, ha⟩ := quoted_of_argumentWith hfirst hread
  have hrun := hcut.quotedRun hfirst hlast
  exact ⟨hrun, hcut, ha, hrun.not_quotedString_iff⟩

/-- A text in quotes within a call within a call; and three texts in quotes that become one literal. -/
theorem Call.quoted_arguments_nested :
    QuotedRun "'b\\''".toList ∧ Uncut 0 "'b\\''".toList ∧
      Call.parse "f('a'('b')'c')" = .ok ⟨"f", [.literal (.str "a'('b')'c")]⟩ := by
  have hparse : Call.parse "g(1, f('b\\'' ))" =
      .ok ⟨"g", [.literal (.int 1), .call "f" [.literal (.str "b'")]]⟩ := by
    with_unfolding_all rfl
  have houter : Call.HasArgument "g(1, f('b\\'' ))".toList
      ⟨"g", [.literal (.int 1), .call "f" [.literal (.str "b'")]]⟩ "f('b\\'' )".toList
      (.call "f" [.literal (.str "b'")]) := by
    have hparts : callParts "g(1, f('b\\'' ))".toList = .ok ("g", "1, f('b\\'' )".toList) := by rfl
    have hsplit : splitArguments "1, f('b\\'' )".toList = some ["1".toList, " f('b\\'' )".toList] := by rfl
    exact .here (i := 1) hparts hsplit rfl rfl
  have hinner : Call.HasArgument "f('b\\'' )".toList ⟨"f", [.literal (.str "b'")]⟩ "'b\\''".toList
      (.literal (.str "b'")) := by
    have hparts : callParts "f('b\\'' )".toList = .ok ("f", "'b\\'' ".toList) := by rfl
    have hsplit : splitArguments "'b\\'' ".toList = some ["'b\\'' ".toList] := by rfl
    exact .here (i := 0) hparts hsplit rfl rfl
  obtain ⟨hrun, hcut, -⟩ := (Call.quoted_arguments rfl).1 _ _ _ hparse (houter.within hinner)
  have htext (c : Char) (h : c ≠ '\'' ∧ c ≠ '\\') : QuotedText [c] := .plain h.1 h.2 .nil
  have hstring (c : Char) (h : c ≠ '\'' ∧ c ≠ '\\') : QuotedString ['\'', c, '\''] :=
    ⟨[c], htext c h, rfl⟩
  have hmerged : QuotedRun
      (['\'', 'a', '\''] ++ (['('] ++ (['\'', 'b', '\''] ++ ([')'] ++ ['\'', 'c', '\''])))) :=
    .cons (hstring 'a' (by decide)) (by decide)
      (.cons (hstring 'b' (by decide)) (by decide) (.single (hstring 'c' (by decide))))
  have hclosed : Uncut 0 "'a'('b')'c'".toList :=
    .quoted (htext 'a' (by decide)) (.opening (.quoted (htext 'b' (by decide)) (.closing
      (.quoted (htext 'c' (by decide)) .nil))))
  have hname : IsFunctionName "f".toList :=
    isFunctionName_of_isAlphanum (by decide) (List.all_iff_forall_prop.mp (by decide))
  have hliteral : String.ofList (unescape "'a'('b')'c'".toList.tail.dropLast) = "a'('b')'c" := by decide
  have hread := (@Call.quoted_arguments "'a'('b')'c'".toList rfl).2 hmerged hclosed "f" hname
  rw [hliteral] at hread
  exact ⟨hrun, hcut, hread⟩

/-- A comma is missing, and the two texts in quotes become one literal. -/
theorem Call.quoted_arguments_merged :
    Call.parse "States.Array('a' 'b')" = .ok ⟨"States.Array", [.literal (.str "a' 'b")]⟩ ∧
      Call.HasArgument "States.Array('a' 'b')".toList ⟨"States.Array", [.literal (.str "a' 'b")]⟩
        "'a' 'b'".toList (.literal (.str "a' 'b")) ∧
      ¬ QuotedString "'a' 'b'".toList := by
  refine ⟨by with_unfolding_all rfl, ?_, ?_⟩
  · have hparts : callParts "States.Array('a' 'b')".toList = .ok ("States.Array", "'a' 'b'".toList) := by rfl
    have hsplit : splitArguments "'a' 'b'".toList = some ["'a' 'b'".toList] := by rfl
    exact .here (i := 0) hparts hsplit rfl rfl
  · rintro ⟨cs, hcs, heq⟩
    have hinner : "a' 'b".toList = cs := by
      have := congrArg (fun text => text.tail.dropLast) heq
      rwa [List.tail_cons, List.dropLast_concat] at this
    subst hinner
    cases hcs with
    | plain _ _ hcs =>
      cases hcs with
      | plain hquote => exact hquote rfl

end StepFlow
