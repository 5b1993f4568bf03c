import StepFlow.Path.Query
import StepFlow.Proofs.Text.Blank

/-!
# How queries are spelled

The texts of a query, as a grammar of its own: names stand after a dot or in quotes, integers are
written in decimal, blanks may stand between the parts, and a part of a filter has parentheses where
it would not be read as a part otherwise.

* `Chained`: links joined to the left by an operator, and `Listed`: one text after another;
* `Segment.Spelled`, `Operand.Spelled`, `Test.Spelled`, `Filter.Spelled`: the grammar;
* `Segment.Sound`: integers in range, steps that are not zero, unions of two or more;
* **`exists_spelled`**: everything sound has a spelling.
-/

namespace StepFlow

open Text

/-! ## Lists and chains -/

/-- The texts of items, one after another. -/
inductive Listed {α : Type} (Item : α → List Char → Prop) : List α → List Char → Prop where
  | nil : Listed Item [] []
  | cons {a : α} {as : List α} {t ts : List Char} :
      Item a t → Listed Item as ts → Listed Item (a :: as) (t ++ ts)

/-- The texts of links with a sign between them; they are joined to the left. -/
inductive Chained (sign : List Char) (join : Filter → Filter → Filter)
    (Link : Filter → List Char → Prop) : Filter → List Char → Prop where
  | link {f : Filter} {t : List Char} : Link f t → Chained sign join Link f t
  | more {f g : Filter} {t b u : List Char} : Chained sign join Link f t → Blanks b → Link g u →
      Chained sign join Link (join f g) (t ++ b ++ sign ++ u)

/-! ## Names, indexes and slices -/

/-- A name that may stand after a dot. -/
structure IsPlainName (name : List Char) : Prop where
  nonempty : name ≠ []
  star : name.head? ≠ some '*'
  plain : ∀ c ∈ name, isBlank c = false ∧
    c ∉ ['.', '[', '=', '!', '<', '>', '&', '|', ')', ']', ',']

/-- The marks that quotes are made of. -/
def marks : List Char := ['\'', '"']

/-- The text spells the choice. -/
inductive Selector.Spelled : Selector → List Char → Prop where
  | name (mark : Char) (s : String) : mark ∈ marks → Spelled (.name s) (inMarks mark s.toList)
  | index {i : Int} : Number.isSigned64 i = true → Spelled (.index i) (toString i).toList

/-- The text spells a choice after a comma. -/
inductive Selector.SpelledNext : Selector → List Char → Prop where
  | mk {c : Selector} {b b' t : List Char} : Blanks b → Blanks b' → c.Spelled t →
      SpelledNext c (b ++ ',' :: b' ++ t)

/-- The text spells the bound of a slice, which may be left out. -/
inductive SpelledBound : Option Int → List Char → Prop where
  | none : SpelledBound none []
  | some {i : Int} : Number.isSigned64 i = true → SpelledBound (some i) (toString i).toList

/-- The text spells the step of a slice, which is one if it is left out, with the colon or without. -/
inductive SpelledStep : Int → List Char → Prop where
  | omitted : SpelledStep 1 []
  | given {step : Option Int} {b t : List Char} : Blanks b → SpelledBound step t → step ≠ some 0 →
      SpelledStep (step.getD 1) (':' :: b ++ t)

/-- The text spells the segment within brackets, unless it is a filter. -/
inductive Segment.SpelledWithin : Segment → List Char → Prop where
  | wildcard : SpelledWithin .wildcard ['*']
  | slice {start stop : Option Int} {step : Int} {t u v b b' b'' : List Char} :
      SpelledBound start t → SpelledBound stop u → SpelledStep step v →
      Blanks b → Blanks b' → Blanks b'' →
      SpelledWithin (.slice start stop step) (t ++ b ++ ':' :: b' ++ u ++ b'' ++ v)
  | child {name : String} {t : List Char} : (Selector.name name).Spelled t →
      SpelledWithin (.child name) t
  | index {i : Int} {t : List Char} : (Selector.index i).Spelled t → SpelledWithin (.index i) t
  | union {first second : Selector} {others : List Selector} {t ts : List Char} : first.Spelled t →
      Listed Selector.SpelledNext (second :: others) ts →
      SpelledWithin (.union (first :: second :: others)) (t ++ ts)

/-! ## Segments and filters -/

def Anchor.mark : Anchor → Char
  | .root => '$'
  | .current => '@'

/-- The text spells the literal of a filter. -/
inductive SpelledLiteral : Json → List Char → Prop where
  | null : SpelledLiteral .null ['n', 'u', 'l', 'l']
  | yes : SpelledLiteral (.bool true) ['t', 'r', 'u', 'e']
  | no : SpelledLiteral (.bool false) ['f', 'a', 'l', 's', 'e']
  | integer {i : Int} : Number.isExact i = true → SpelledLiteral (.int i) (toString i).toList
  | string (mark : Char) (s : String) : mark ∈ marks → SpelledLiteral (.str s) (inMarks mark s.toList)

mutual

/-- The text spells the segment. -/
inductive Segment.Spelled : Segment → List Char → Prop where
  | name {name : String} : IsPlainName name.toList → Segment.Spelled (.child name) ('.' :: name.toList)
  | wildcard : Segment.Spelled .wildcard ['.', '*']
  | within {s : Segment} {t b b' : List Char} : s.SpelledWithin t → Blanks b → Blanks b' →
      Segment.Spelled s ('[' :: b ++ t ++ b' ++ [']'])
  | filter {f : Filter} {t b b' b₁ b₂ : List Char} :
      Chained ['|', '|'] .or (Chained ['&', '&'] .and Test.Spelled) f t →
      Blanks b → Blanks b' → Blanks b₁ → Blanks b₂ →
      Segment.Spelled (.filter f) ('[' :: b ++ '?' :: b' ++ '(' :: t ++ b₁ ++ ')' :: b₂ ++ [']'])

/-- The text spells the operand. -/
inductive Operand.Spelled : Operand → List Char → Prop where
  | path (a : Anchor) {segments : List Segment} {t : List Char} :
      Listed Segment.Spelled segments t → Operand.Spelled (.path a segments) (a.mark :: t)
  | literal {v : Json} {t : List Char} : SpelledLiteral v t → Operand.Spelled (.literal v) t

/-- The text spells the filter, which is no chain or stands in parentheses. -/
inductive Test.Spelled : Filter → List Char → Prop where
  | compare {l r : Operand} {t u b b' b'' : List Char} (c : Comparison) : l.Spelled t → r.Spelled u →
      Blanks b → Blanks b' → Blanks b'' →
      Test.Spelled (.compare l c r) (b ++ t ++ b' ++ c.sign.toList ++ b'' ++ u)
  | present {o : Operand} {t b : List Char} : o.Spelled t → Blanks b → Test.Spelled (.present o) (b ++ t)
  | parentheses {f : Filter} {t b b' : List Char} :
      Chained ['|', '|'] .or (Chained ['&', '&'] .and Test.Spelled) f t → Blanks b → Blanks b' →
      Test.Spelled f (b ++ '(' :: t ++ b' ++ [')'])

end

/-- The text spells the filter as links of a disjunction. -/
def Conjunction.Spelled : Filter → List Char → Prop := Chained ['&', '&'] .and Test.Spelled

/-- The text spells the filter. -/
def Filter.Spelled : Filter → List Char → Prop := Chained ['|', '|'] .or Conjunction.Spelled

/-- The text spells the query with this anchor and these segments. -/
def SpelledQuery (a : Anchor) (segments : List Segment) (text : List Char) : Prop :=
  (Operand.path a segments).Spelled text

/-! ## What can be spelled -/

/-- Whether the index of the choice is in range. -/
def Selector.isSpellable : Selector → Bool
  | .name _ => true
  | .index i => Number.isSigned64 i

/-- Whether the value is one that a filter can have as a literal, apart from doubles. -/
def Json.isSpellable : Json → Bool
  | .null | .bool _ | .str _ => true
  | .num (.int i) => Number.isExact i
  | _ => false

mutual

/-- Whether the integers of the segment are in range, its step is not zero and its union has two
choices or more, and the same of all that it holds. -/
def Segment.isSpellable : Segment → Bool
  | .child _ | .wildcard => true
  | .index i => Number.isSigned64 i
  | .union choices => 2 ≤ choices.length && choices.all Selector.isSpellable
  | .slice start stop step => start.all Number.isSigned64 && stop.all Number.isSigned64 &&
      (step ≠ 0 && Number.isSigned64 step)
  | .filter test => test.isSpellable

/-- Whether everything that the filter holds can be spelled. -/
def Filter.isSpellable : Filter → Bool
  | .or left right | .and left right => left.isSpellable && right.isSpellable
  | .compare left _ right => left.isSpellable && right.isSpellable
  | .present operand => operand.isSpellable

/-- Whether the literal or the segments of the operand can be spelled. -/
def Operand.isSpellable : Operand → Bool
  | .path _ segments => segmentsSpellable segments
  | .literal value => value.isSpellable

/-- Whether all segments can be spelled. -/
def segmentsSpellable : List Segment → Bool
  | [] => true
  | s :: segments => s.isSpellable && segmentsSpellable segments

end

theorem Selector.exists_spelled (c : Selector) (h : c.isSpellable = true) : ∃ t, c.Spelled t := by
  cases c with
  | name s => exact ⟨_, .name '"' s (by decide)⟩
  | index i => exact ⟨_, .index h⟩

theorem exists_spelledNext {choices : List Selector} (h : choices.all Selector.isSpellable = true) :
    ∃ t, Listed Selector.SpelledNext choices t := by
  induction choices with
  | nil => exact ⟨_, .nil⟩
  | cons c choices ih =>
    rw [List.all_cons, Bool.and_eq_true] at h
    obtain ⟨t, ht⟩ := c.exists_spelled h.1
    obtain ⟨ts, hts⟩ := ih h.2
    exact ⟨_, .cons (.mk blanks_nil blanks_nil ht) hts⟩

theorem exists_spelledBound {bound : Option Int} (h : bound.all Number.isSigned64 = true) :
    ∃ t, SpelledBound bound t := by
  cases bound with
  | none => exact ⟨_, .none⟩
  | some i => exact ⟨_, .some h⟩

theorem exists_spelledWithin_union {choices : List Selector} (hl : 2 ≤ choices.length)
    (h : choices.all Selector.isSpellable = true) : ∃ t, (Segment.union choices).SpelledWithin t := by
  obtain ⟨first, second, others, rfl⟩ : ∃ c d cs, choices = c :: d :: cs := by
    match choices, hl with
    | c :: d :: cs, _ => exact ⟨c, d, cs, rfl⟩
  rw [List.all_cons, Bool.and_eq_true] at h
  obtain ⟨t, ht⟩ := first.exists_spelled h.1
  obtain ⟨ts, hts⟩ := exists_spelledNext h.2
  exact ⟨_, .union ht hts⟩

theorem exists_spelledWithin_slice {start stop : Option Int} {step : Int}
    (hstart : start.all Number.isSigned64 = true) (hstop : stop.all Number.isSigned64 = true)
    (hzero : step ≠ 0) (hstep : Number.isSigned64 step = true) :
    ∃ t, (Segment.slice start stop step).SpelledWithin t := by
  obtain ⟨t, ht⟩ := exists_spelledBound hstart
  obtain ⟨u, hu⟩ := exists_spelledBound hstop
  have hv : SpelledStep step _ := .given (b := []) blanks_nil (.some hstep) (by simp [hzero])
  exact ⟨_, .slice ht hu hv blanks_nil blanks_nil blanks_nil⟩

theorem Json.exists_spelledLiteral (v : Json) (h : v.isSpellable = true) : ∃ t, SpelledLiteral v t := by
  match v, h with
  | .null, _ => exact ⟨_, .null⟩
  | .bool true, _ => exact ⟨_, .yes⟩
  | .bool false, _ => exact ⟨_, .no⟩
  | .str s, _ => exact ⟨_, .string '"' s (by decide)⟩
  | .num (.int i), h => exact ⟨_, .integer h⟩

mutual

theorem Segment.exists_spelled (s : Segment) (h : s.isSpellable = true) : ∃ t, s.Spelled t := by
  match s, h with
  | .child name, _ =>
    exact ⟨_, .within (.child (.name '"' name (by decide))) blanks_nil blanks_nil⟩
  | .index i, h =>
    rw [Segment.isSpellable] at h
    exact ⟨_, .within (.index (.index h)) blanks_nil blanks_nil⟩
  | .wildcard, _ => exact ⟨_, .wildcard⟩
  | .union choices, h =>
    simp only [Segment.isSpellable, Bool.and_eq_true, decide_eq_true_eq] at h
    obtain ⟨t, ht⟩ := exists_spelledWithin_union h.1 h.2
    exact ⟨_, .within ht blanks_nil blanks_nil⟩
  | .slice start stop step, h =>
    simp only [Segment.isSpellable, Bool.and_eq_true, decide_eq_true_eq] at h
    obtain ⟨⟨hstart, hstop⟩, hzero, hstep⟩ := h
    obtain ⟨t, ht⟩ := exists_spelledWithin_slice hstart hstop hzero hstep
    exact ⟨_, .within ht blanks_nil blanks_nil⟩
  | .filter f, h =>
    rw [Segment.isSpellable] at h
    obtain ⟨t, ht⟩ := f.exists_spelled h
    exact ⟨_, .filter (.link (.link ht)) blanks_nil blanks_nil blanks_nil blanks_nil⟩

/-- Every filter has a spelling that stands anywhere: chains are put in parentheses. -/
theorem Filter.exists_spelled (f : Filter) (h : f.isSpellable = true) : ∃ t, Test.Spelled f t := by
  match f, h with
  | .or l r, h =>
    rw [Filter.isSpellable, Bool.and_eq_true] at h
    obtain ⟨t, ht⟩ := l.exists_spelled h.1
    obtain ⟨u, hu⟩ := r.exists_spelled h.2
    exact ⟨_, .parentheses (.more (.link (.link ht)) blanks_nil (.link hu)) blanks_nil blanks_nil⟩
  | .and l r, h =>
    rw [Filter.isSpellable, Bool.and_eq_true] at h
    obtain ⟨t, ht⟩ := l.exists_spelled h.1
    obtain ⟨u, hu⟩ := r.exists_spelled h.2
    exact ⟨_, .parentheses (.link (.more (.link ht) blanks_nil hu)) blanks_nil blanks_nil⟩
  | .compare l c r, h =>
    rw [Filter.isSpellable, Bool.and_eq_true] at h
    obtain ⟨t, ht⟩ := l.exists_spelled h.1
    obtain ⟨u, hu⟩ := r.exists_spelled h.2
    exact ⟨_, .compare c ht hu blanks_nil blanks_nil blanks_nil⟩
  | .present o, h =>
    rw [Filter.isSpellable] at h
    obtain ⟨t, ht⟩ := o.exists_spelled h
    exact ⟨_, .present ht blanks_nil⟩

theorem Operand.exists_spelled (o : Operand) (h : o.isSpellable = true) : ∃ t, o.Spelled t := by
  match o, h with
  | .path a segments, h =>
    rw [Operand.isSpellable] at h
    obtain ⟨t, ht⟩ := exists_spelled_segments segments h
    exact ⟨_, .path a ht⟩
  | .literal v, h =>
    rw [Operand.isSpellable] at h
    obtain ⟨t, ht⟩ := v.exists_spelledLiteral h
    exact ⟨_, .literal ht⟩

theorem exists_spelled_segments (segments : List Segment) (h : segmentsSpellable segments = true) :
    ∃ t, Listed Segment.Spelled segments t := by
  match segments, h with
  | [], _ => exact ⟨_, .nil⟩
  | s :: segments, h =>
    rw [segmentsSpellable, Bool.and_eq_true] at h
    obtain ⟨t, ht⟩ := s.exists_spelled h.1
    obtain ⟨ts, hts⟩ := exists_spelled_segments segments h.2
    exact ⟨_, .cons ht hts⟩

end

end StepFlow
