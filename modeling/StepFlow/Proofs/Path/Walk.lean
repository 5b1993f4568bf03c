import StepFlow.Path.Basic
import StepFlow.Proofs.Text.Walk

/-!
# Queries read by offsets

The reader of queries that keeps nothing but the source and an offset: it finds the next character by cutting
the source at the offset, goes on by as many bytes as a character has, takes a name or a number by a cut
between two offsets, and goes back to an earlier offset to report some of its faults. Its loops and its calls
of itself within filters are bounded by a number of rounds only, behind which the walk is given up.

* `QueryWalk.integer`, `QueryWalk.quoted`, …: the walks over the parts of a query, and `Query.walk`: over a
  whole text;
* `leads_integer`, `leads_quoted`, `leads_selectors`, …: each leads where the reader of the same part does;
* `LeadsFilters`, the hypothesis on the walks over filters of shorter texts, under which `leads_bracket`,
  `leads_path` and `leads_test` lead where their readers do;
* `leads_chain`, `leads_filter`: the induction on the depth, and `leads_query`;
* **`Query.walk_keeps_between_characters`**: the walk over any text ends, and it has stood between characters
  only.
-/

namespace StepFlow

open Text Text.Walk

namespace QueryWalk

/-- A walk over a part of a query. -/
abbrev Part (α : Type) : Type := Walk SyntaxFault α

/-- Requires the character `c`. -/
def require (c : Char) : Part Unit := do
  unless ← eat c do
    fault (.expected c)

/-- The integer that was passed since an earlier place, if anything was. What is no integer of 64 bits is a
fault at that place. -/
def integerSince (start : Nat) : Part (Option Int) := do
  let text ← since start
  if text.isEmpty then return none
  match Grammar.integer? text with
  | some i => return some i
  | none =>
    moveTo start
    fault (.badInteger (String.ofList text))

/-- An integer, if there is a minus or a digit. -/
def integer : Part (Option Int) := do
  let start ← offset
  let _ ← eat '-'
  skipWhile Char.isDigit
  integerSince start

/-- One round of a quoted name: its end, or a character more. The characters are gathered in reverse. -/
def quotedRound (mark : Char) (acc : List Char) : Part (List Char ⊕ List Char) := do
  match ← next? with
  | none => fault .unterminated
  | some c =>
    if c = '\\' then
      match ← next? with
      | some d => return .inl (d :: acc)
      | none => fault .unterminated
    else if c = mark then return .inr acc
    else return .inl (c :: acc)

/-- A quoted name, up to the next unescaped `mark`. -/
def quoted (mark : Char) : Part String := do
  let _ ← next?
  return String.ofList (← loop (quotedRound mark) []).reverse

/-- A name of at least one character. -/
def memberName (nested : Bool) : Part Segment := do
  let start ← offset
  skipWhile (Grammar.isNameChar nested)
  if start = (← offset) then fault .noMemberName
  else return .child (String.ofList (← since start))

/-- The segment after a dot. -/
def dotSegment (nested : Bool) : Part Segment := do
  match ← peek with
  | some '.' => fault .recursiveDescent
  | some '*' =>
    let _ ← next?
    return .wildcard
  | _ => memberName nested

/-- The end and the step of a slice, after its first colon. -/
def sliceFrom (start : Option Int) : Part Segment := do
  skipBlanks
  let stop ← integer
  skipBlanks
  let step ← if ← eat ':' then do
      skipBlanks
      pure ((← integer).getD 1)
    else pure 1
  if step = 0 then fault .zeroStep else return .slice start stop step

/-- A choice of a union after the first. -/
def choice : Part Selector := do
  match ← peek with
  | some c =>
    if Grammar.isMark c then return .name (← quoted c)
    match ← integer with
    | some i => return .index i
    | none => fault .noIndex
  | none => fault .noIndex

/-- One round of a union: its end, or a comma and a choice more. -/
def choicesRound (acc : List Selector) : Part (List Selector ⊕ List Selector) := do
  skipBlanks
  if ← eat ',' then
    skipBlanks
    return .inl ((← choice) :: acc)
  else return .inr acc

/-- The choices of a union, of which the first one has been read. -/
def unionFrom (first : Selector) : Part Segment := do
  return Grammar.segmentOf (← loop choicesRound [first]).reverse

/-- A name, an index, a union or a slice. -/
def selectors : Part Segment := do
  match ← peek with
  | some c =>
    if Grammar.isMark c then return ← unionFrom (.name (← quoted c))
  | none => pure ()
  let start ← integer
  skipBlanks
  if ← eat ':' then sliceFrom start
  else match start with
    | some i => unionFrom (.index i)
    | none => fault .noSelector

/-- The anchor of a query. -/
def anchor : Part Anchor := do
  match ← peek with
  | some '$' =>
    let _ ← next?
    return .root
  | some '@' =>
    let _ ← next?
    return .current
  | _ => fault .noAnchor

/-- A sign of comparison, if there is one. -/
def comparison : Part (Option Comparison) := do
  if ← eatAll ['=', '='] then return some .eq
  else if ← eatAll ['!', '='] then return some .ne
  else if ← eatAll ['<', '='] then return some .le
  else if ← eatAll ['>', '='] then return some .ge
  else if ← eat '<' then return some .lt
  else if ← eat '>' then return some .gt
  else return none

/-- An unquoted literal. -/
def word : Part Operand := do
  let start ← offset
  skipWhile Grammar.isWordChar
  match Grammar.literal? (← since start) with
  | some value => return .literal value
  | none =>
    moveTo start
    fault .noOperand

/-- The segment after an opening bracket; `inner` goes over what stands between the parentheses of a
filter. -/
def bracket (inner : Part Filter) : Part Segment := do
  skipBlanks
  let segment ← match ← peek with
    | some '*' => do
      let _ ← next?
      pure Segment.wildcard
    | some '?' => do
      let _ ← next?
      skipBlanks
      require '('
      let test ← inner
      skipBlanks
      require ')'
      pure (Segment.filter test)
    | _ => selectors
  skipBlanks
  require ']'
  return segment

/-- One round of the segments: their end, or a segment more. -/
def segmentsRound (inner : Part Filter) (nested : Bool) (acc : List Segment) :
    Part (List Segment ⊕ List Segment) := do
  match ← peek with
  | some '.' =>
    let _ ← next?
    return .inl ((← dotSegment nested) :: acc)
  | some '[' =>
    let _ ← next?
    return .inl ((← bracket inner) :: acc)
  | none => return .inr acc
  | some c => if nested then return .inr acc else fault (.unexpected c)

/-- An anchor and its segments. -/
def path (inner : Part Filter) (nested : Bool) : Part (Anchor × List Segment) := do
  let a ← anchor
  let acc ← loop (segmentsRound inner nested) []
  return (a, acc.reverse)

/-- An operand: a query, a quoted text or a literal. -/
def operand (inner : Part Filter) : Part Operand := do
  match ← peek with
  | some c =>
    if c = '@' || c = '$' then
      let (a, segments) ← path inner true
      return .path a segments
    if Grammar.isMark c then return .literal (.str (← quoted c))
  | none => pure ()
  word

/-- A test in parentheses, a comparison, or an operand that has to be present. -/
def test (inner : Part Filter) : Part Filter := do
  skipBlanks
  if ← eat '(' then
    let f ← inner
    skipBlanks
    require ')'
    return f
  let left ← operand inner
  skipBlanks
  match ← comparison with
  | some c =>
    skipBlanks
    return .compare left c (← operand inner)
  | none => return .present left

/-- One round of a chain: its end, or an operator and a link more, joined to the left. -/
def chainRound (sign : List Char) (join : Filter → Filter → Filter) (link : Part Filter)
    (left : Filter) : Part (Filter ⊕ Filter) := do
  skipBlanks
  if ← eatAll sign then return .inl (join left (← link)) else return .inr left

/-- Links joined by an operator. -/
def chain (sign : List Char) (join : Filter → Filter → Filter) (link : Part Filter) :
    Part Filter := do
  loop (chainRound sign join link) (← link)

/-- A filter. The walk is given up in a filter that nests deeper than `depth`. -/
def filter : (depth : Nat) → Part Filter
  | 0 => giveUp
  | depth + 1 => chain ['|', '|'] .or (chain ['&', '&'] .and (test (filter depth)))

def query (depth : Nat) : Part (Anchor × List Segment) := do
  let q ← path (filter depth) false
  if ← atEnd then return q else fault .trailing

end QueryWalk

/-- The walk over a text that spells a query, from its start: what it ends with and where it has stood,
unless it is given up for the sake of `bound`. -/
def Query.walk (source : String) (bound : Nat) :
    Option (Except (Mishap SyntaxFault) (Anchor × List Segment) × Footing) :=
  QueryWalk.query bound ⟨source.toList, bound⟩ ⟨0, []⟩

namespace QueryWalk

variable {ground : Ground} {cs r : List Char}

/-! ## Integers and names -/

theorem leads_require (c : Char) : Leads ground (require c) cs (Grammar.require c cs) := by
  refine (leads_eat c).bind fun found r _ _ => ?_
  cases found with
  | true => exact leads_pure ()
  | false => exact leads_fault _

theorem leads_integerSince {text : List Char} (h : ground.Leaves (text ++ r)) :
    Leads ground (integerSince (placeOf ground.source (text ++ r))) r
      ((if text.isEmpty then pure none
        else match Grammar.integer? text with
          | some i => pure (some i)
          | none => Scanner.faultAt (text ++ r) (.badInteger (String.ofList text)) :
        Grammar.Part (Option Int)) r) := by
  refine (leads_since h.suffix).andThen fun _ => ?_
  split
  · exact leads_pure _
  · cases Grammar.integer? text with
    | some i => exact leads_pure _
    | none => exact leads_faultAt h _

theorem leads_integer : Leads ground integer cs (Grammar.integer cs) := by
  refine .of_leaves fun hcs => leads_offset.andThen fun _ => ?_
  rw [Grammar.integer, Scanner.bind_of_ok (a := cs) (r := cs) rfl]
  refine (leads_eat '-').bind fun minus r hminus _ => leads_run _ fun ds r' hds => ?_
  -- the sign and the digits are all that was passed
  have htext : (if minus then '-' :: ds else ds) ++ r' = cs := by
    cases minus with
    | true => rw [if_pos rfl, List.cons_append, hds, Scanner.eq_cons_of_eat hminus]
    | false => rw [if_neg Bool.false_ne_true, hds, Scanner.eq_of_eat hminus]
  rw [← htext] at hcs ⊢
  exact leads_integerSince hcs

theorem leadsBelow_quotedRound (mark : Char) (acc : List Char) :
    LeadsBelow cs.length ground (quotedRound mark acc) cs (Grammar.quotedRound mark acc cs) := by
  refine .bind leads_next? fun next r hnext _ => ?_
  cases hnext
  cases cs with
  | nil => exact .fault _
  | cons c cs =>
    refine .of_lt ?_ (Nat.lt_succ_self _)
    dsimp only [List.head?_cons, List.tail_cons]
    split
    · refine leads_next?.bind fun next r hnext _ => ?_
      cases hnext
      cases cs with
      | nil => exact leads_fault _
      | cons d cs => exact leads_pure _
    · split
      · exact leads_pure _
      · exact leads_pure _

theorem leads_quoted (mark : Char) :
    Leads ground (quoted mark) (mark :: cs) (Grammar.quoted mark (mark :: cs)) := by
  rw [Grammar.quoted, Scanner.bind_of_ok (Scanner.eat_cons mark)]
  refine leads_next?.andThen fun _ => ?_
  exact (Leads.loop fun acc _ _ => leadsBelow_quotedRound mark acc).bind fun acc _ _ _ => leads_pure _

/-! ## Segments -/

theorem leads_memberName (nested : Bool) : Leads ground (memberName nested) cs
    ((do
      let name ← Scanner.takeWhile (Grammar.isNameChar nested)
      if name.isEmpty then Scanner.fault .noMemberName else return .child (String.ofList name) :
      Grammar.Part Segment) cs) := by
  refine .of_leaves fun hcs => leads_offset.andThen fun _ => leads_run _ fun name r hname => ?_
  subst hname
  refine leads_offset.andThen fun _ => ?_
  rw [placeOf_append_right hcs.suffix]
  cases name with
  | nil =>
    rw [utf8Length, Nat.add_zero, if_pos rfl]
    exact leads_fault _
  | cons c name =>
    have hpos := c.utf8Size_pos
    rw [if_neg (by rw [utf8Length]; omega)]
    exact (leads_since hcs.suffix).andThen fun _ => leads_pure _

theorem leads_dotSegment (nested : Bool) :
    Leads ground (dotSegment nested) cs (Grammar.dotSegment nested cs) := by
  refine leads_peek.bind fun next r hnext _ => ?_
  cases hnext
  generalize cs.head? = next
  by_cases hdot : next = some '.'
  · subst hdot
    exact leads_fault _
  · by_cases hstar : next = some '*'
    · subst hstar
      exact leads_next?.andThen fun _ => leads_pure _
    · -- with both signs excluded the readers come down to the name
      simp only
      exact leads_memberName nested

theorem leads_sliceFrom (start : Option Int) :
    Leads ground (sliceFrom start) cs (Grammar.sliceFrom start cs) := by
  refine leads_skipBlanks.bind fun _ _ _ _ => leads_integer.bind fun stop _ _ _ =>
    leads_skipBlanks.bind fun _ _ _ _ => (leads_eat ':').bind fun colon r _ _ => ?_
  have hstep (step : Int) (r : List Char) : Leads ground
      (if step = 0 then fault .zeroStep else return .slice start stop step : Part Segment) r
      ((if step = 0 then Scanner.fault .zeroStep else return .slice start stop step :
        Grammar.Part Segment) r) := by
    split
    · exact leads_fault _
    · exact leads_pure _
  cases colon with
  | true =>
    refine leads_skipBlanks.bind fun _ _ _ _ => leads_integer.bind fun step r _ _ => ?_
    exact hstep _ r
  | false => exact hstep 1 r

theorem leads_choice : Leads ground choice cs (Grammar.choice cs) := by
  refine leads_peek.bind fun next r hnext _ => ?_
  cases hnext
  cases cs with
  | nil => exact leads_fault _
  | cons c cs =>
    dsimp only [List.head?_cons]
    split
    · exact (leads_quoted c).bind fun _ _ _ _ => leads_pure _
    · refine leads_integer.bind fun i r _ _ => ?_
      cases i with
      | some i => exact leads_pure _
      | none => exact leads_fault _

theorem leadsBelow_choicesRound (acc : List Selector) :
    LeadsBelow cs.length ground (choicesRound acc) cs (Grammar.choicesRound acc cs) := by
  refine .bind leads_skipBlanks fun _ r _ hr => .bind (leads_eat ',') fun comma r' hcomma _ => ?_
  cases comma with
  | true =>
    refine .of_lt ?_ (Nat.lt_of_lt_of_le (Scanner.length_lt_of_eat hcomma) hr.length_le)
    exact leads_skipBlanks.bind fun _ _ _ _ => leads_choice.bind fun _ _ _ _ => leads_pure _
  | false => exact .done _

theorem leads_unionFrom (first : Selector) :
    Leads ground (unionFrom first) cs (Grammar.unionFrom first cs) :=
  (Leads.loop fun acc _ _ => leadsBelow_choicesRound acc).bind fun _ _ _ _ => leads_pure _

theorem leads_selectors : Leads ground selectors cs (Grammar.selectors cs) := by
  refine leads_peek.bind fun next r hnext _ => ?_
  cases hnext
  have hrest : Leads ground (do
      let start ← integer
      skipBlanks
      if ← eat ':' then sliceFrom start
      else match start with
        | some i => unionFrom (.index i)
        | none => fault .noSelector : Part Segment) cs
      ((do
      let start ← Grammar.integer
      Scanner.skipBlanks
      if ← Scanner.eat ':' then Grammar.sliceFrom start
      else match start with
        | some i => Grammar.unionFrom (.index i)
        | none => Scanner.fault .noSelector : Grammar.Part Segment) cs) := by
    refine leads_integer.bind fun start _ _ _ => leads_skipBlanks.bind fun _ _ _ _ =>
      (leads_eat ':').bind fun colon r _ _ => ?_
    cases colon with
    | true => exact leads_sliceFrom start
    | false =>
      cases start with
      | some i => exact leads_unionFrom _
      | none => exact leads_fault _
  cases cs with
  | nil => exact hrest
  | cons c cs =>
    dsimp only [List.head?_cons]
    split
    · exact (leads_quoted c).bind fun _ _ _ _ => leads_unionFrom _
    · exact hrest

/-! ## Anchors, words and signs -/

theorem leads_anchor : Leads ground anchor cs (Grammar.anchor cs) := by
  refine leads_peek.andThen fun _ => ?_
  unfold Grammar.anchor
  cases cs with
  | nil => exact leads_fault _
  | cons c cs =>
    dsimp only [List.head?_cons]
    split
    · next h =>
      cases h
      rw [Scanner.bind_of_ok (Scanner.eat_cons '$')]
      exact leads_next?.andThen fun _ => leads_pure _
    · next h =>
      cases h
      rw [Scanner.bind_of_ok (Scanner.eat_of_ne (by decide))]
      simp only [Bool.false_eq_true, if_false]
      rw [Scanner.bind_of_ok (Scanner.eat_cons '@')]
      exact leads_next?.andThen fun _ => leads_pure _
    · next hroot hcurrent =>
      rw [Scanner.bind_of_ok (Scanner.eat_of_ne fun h => hroot (congrArg some h))]
      simp only [Bool.false_eq_true, if_false]
      rw [Scanner.bind_of_ok (Scanner.eat_of_ne fun h => hcurrent (congrArg some h))]
      exact leads_fault _

theorem leads_orElse {α : Type} {a : α} {m : Part Bool} {f : Part α} {s : Grammar.Part Bool}
    {k : Grammar.Part α} (hm : Leads ground m cs (s cs)) (hf : ∀ r, Leads ground f r (k r)) :
    Leads ground (do if ← m then return a else f) cs
      ((do if ← s then return a else k : Grammar.Part α) cs) := by
  refine hm.bind fun found r _ _ => ?_
  cases found with
  | true => exact leads_pure a
  | false => exact hf r

theorem leads_comparison : Leads ground comparison cs (Grammar.comparison cs) :=
  leads_orElse (leads_eatAll _) fun _ => leads_orElse (leads_eatAll _) fun _ =>
    leads_orElse (leads_eatAll _) fun _ => leads_orElse (leads_eatAll _) fun _ =>
      leads_orElse (leads_eat _) fun _ => leads_orElse (leads_eat _) fun _ => leads_pure none

theorem leads_word : Leads ground word cs
    ((do
      match Grammar.literal? (← Scanner.takeWhile Grammar.isWordChar) with
      | some value => return .literal value
      | none => Scanner.faultAt cs .noOperand : Grammar.Part Operand) cs) := by
  refine .of_leaves fun hcs => leads_offset.andThen fun _ => leads_run _ fun text r htext => ?_
  subst htext
  refine (leads_since hcs.suffix).andThen fun _ => ?_
  cases Grammar.literal? text with
  | some value => exact leads_pure _
  | none => exact leads_faultAt hcs _

/-! ## Filters -/

/-- Where fewer than `n` characters are left, the walk leads to what the scanner of filters says. -/
def LeadsFilters (ground : Ground) (inner : Part Filter) (scan : Grammar.Part Filter) (n : Nat) : Prop :=
  ∀ cs : List Char, cs.length < n → Leads ground inner cs (scan cs)

section filters

variable {inner : Part Filter} {scan : Grammar.Part Filter} {n : Nat}

theorem leads_bracket (hinner : LeadsFilters ground inner scan n) (hn : cs.length ≤ n) :
    Leads ground (bracket inner) cs (Grammar.bracket scan cs) := by
  refine leads_skipBlanks.bind fun _ r _ hr => leads_peek.bind fun next r' hnext _ => ?_
  cases hnext
  have hend (segment : Segment) (r : List Char) : Leads ground
      (do skipBlanks; require ']'; return segment : Part Segment) r
      ((do Scanner.skipBlanks; Grammar.require ']'; return segment : Grammar.Part Segment) r) :=
    leads_skipBlanks.bind fun _ _ _ _ => (leads_require ']').bind fun _ _ _ _ => leads_pure _
  generalize hnext : r.head? = next
  by_cases hstar : next = some '*'
  · subst hstar
    exact leads_next?.bind fun _ r₁ _ _ => hend .wildcard r₁
  by_cases hquery : next = some '?'
  · subst hquery
    refine leads_next?.bind fun _ r₁ hr₁ _ => leads_skipBlanks.bind fun _ r₂ _ hr₂ =>
      (leads_require '(').bind fun _ r₃ _ hr₃ => ?_
    obtain ⟨tail, rfl⟩ := List.head?_eq_some_iff.mp hnext
    cases hr₁
    have hlt : r₃.length < n := by
      have h₁ : r₃.length ≤ tail.length := (hr₃.trans hr₂).length_le
      have h₂ := hr.length_le
      rw [List.length_cons] at h₂
      omega
    exact (hinner r₃ hlt).bind fun test _ _ _ => leads_skipBlanks.bind fun _ _ _ _ =>
      (leads_require ')').bind fun _ r₄ _ _ => hend (.filter test) r₄
  · simp only
    exact leads_selectors.bind fun segment r _ _ => hend segment r

theorem leadsBelow_segmentsRound (hinner : LeadsFilters ground inner scan n) (hn : cs.length ≤ n)
    (nested : Bool) (acc : List Segment) : LeadsBelow cs.length ground (segmentsRound inner nested acc) cs
      (Grammar.segmentsRound scan nested acc cs) := by
  refine .bind leads_peek fun next r hnext _ => ?_
  cases hnext
  generalize hnext : cs.head? = next
  split
  · obtain ⟨tail, rfl⟩ := List.head?_eq_some_iff.mp hnext
    refine .bind leads_next? fun _ r hr _ => ?_
    cases hr
    refine .of_lt ?_ (Nat.lt_succ_self _)
    exact (leads_dotSegment nested).bind fun _ _ _ _ => leads_pure _
  · obtain ⟨tail, rfl⟩ := List.head?_eq_some_iff.mp hnext
    refine .bind leads_next? fun _ r hr _ => ?_
    cases hr
    refine .of_lt ?_ (Nat.lt_succ_self _)
    exact (leads_bracket hinner (Nat.le_of_succ_le hn)).bind fun _ _ _ _ => leads_pure _
  · exact .done _
  · cases nested with
    | true =>
      simp only [↓reduceIte]
      exact .done _
    | false =>
      simp only [Bool.false_eq_true, ↓reduceIte]
      exact .fault _

theorem leads_path (hinner : LeadsFilters ground inner scan n) (hn : cs.length ≤ n) (nested : Bool) :
    Leads ground (path inner nested) cs (Grammar.path scan nested cs) := by
  refine leads_anchor.bind fun a r _ hr => ?_
  refine Leads.bind (Leads.loop fun acc r' hr' => ?_) fun _ _ _ _ => leads_pure _
  exact leadsBelow_segmentsRound hinner ((hr'.trans hr).length_le.trans hn) nested acc

theorem leads_operand (hinner : LeadsFilters ground inner scan n) (hn : cs.length ≤ n) :
    Leads ground (operand inner) cs (Grammar.operand scan cs) := by
  rw [Grammar.operand, Scanner.bind_of_ok (a := cs) (r := cs) rfl]
  refine leads_peek.andThen fun _ => ?_
  cases cs with
  | nil => exact leads_word
  | cons c cs =>
    dsimp only [List.head?_cons]
    split
    · exact (leads_path hinner hn true).bind fun _ _ _ _ => leads_pure _
    · split
      · exact (leads_quoted c).bind fun _ _ _ _ => leads_pure _
      · exact leads_word

theorem leads_test (hinner : LeadsFilters ground inner scan n) (hn : cs.length ≤ n) :
    Leads ground (test inner) cs (Grammar.test scan cs) := by
  refine leads_skipBlanks.bind fun _ r _ hr => (leads_eat '(').bind fun found r' hfound hr' => ?_
  cases found with
  | true =>
    have hlt := Nat.lt_of_lt_of_le (Scanner.length_lt_of_eat hfound) (hr.length_le.trans hn)
    exact (hinner r' hlt).bind fun _ _ _ _ => leads_skipBlanks.bind fun _ _ _ _ =>
      (leads_require ')').bind fun _ _ _ _ => leads_pure _
  | false =>
    refine (leads_operand hinner ((hr'.trans hr).length_le.trans hn)).bind fun left r₁ _ hr₁ =>
      leads_skipBlanks.bind fun _ r₂ _ hr₂ => leads_comparison.bind fun sign r₃ _ hr₃ => ?_
    cases sign with
    | none => exact leads_pure _
    | some c =>
      refine leads_skipBlanks.bind fun _ r₄ _ hr₄ => ?_
      have hsuffix := hr₄.trans (hr₃.trans (hr₂.trans (hr₁.trans (hr'.trans hr))))
      exact (leads_operand hinner (hsuffix.length_le.trans hn)).bind fun _ _ _ _ => leads_pure _

end filters

section chains

variable {link : Part Filter} {scan : Grammar.Part Filter} {sign : List Char}
  {join : Filter → Filter → Filter}

theorem leads_chain (hsign : sign ≠ []) (hlink : ∀ r, r <:+ cs → Leads ground link r (scan r)) :
    Leads ground (chain sign join link) cs (Grammar.chain sign join scan cs) := by
  refine (hlink cs List.suffix_rfl).bind fun left r _ hr => Leads.loop fun left r' hr' => ?_
  refine .bind leads_skipBlanks fun _ r₁ _ hr₁ => .bind (leads_eatAll sign) fun found r₂ hfound hr₂ => ?_
  cases found with
  | true =>
    have hlt := Nat.lt_of_lt_of_le (Scanner.length_lt_of_eatAll hsign hfound) hr₁.length_le
    have hsuffix := hr₂.trans (hr₁.trans (hr'.trans hr))
    exact .of_lt ((hlink r₂ hsuffix).bind fun _ _ _ _ => leads_pure _) hlt
  | false => exact .done _

end chains

theorem leads_filter {d e : Nat} (hd : cs.length < d) (he : cs.length < e) :
    Leads ground (filter d) cs (Grammar.filter e cs) := by
  induction d generalizing e cs with
  | zero => exact absurd hd (Nat.not_lt_zero _)
  | succ d ih =>
    obtain ⟨e, rfl⟩ := Nat.exists_eq_add_one_of_ne_zero (Nat.ne_zero_of_lt he)
    have hinner : LeadsFilters ground (filter d) (Grammar.filter e) cs.length := fun r hr =>
      ih (Nat.lt_of_lt_of_le hr (Nat.le_of_lt_succ hd)) (Nat.lt_of_lt_of_le hr (Nat.le_of_lt_succ he))
    refine leads_chain (by decide) fun r hr => leads_chain (by decide) fun r' hr' => ?_
    exact leads_test hinner (hr'.trans hr).length_le

theorem leads_query {d e : Nat} (hd : cs.length ≤ d) (he : cs.length ≤ e) : Leads ground (query d) cs
    ((Scanner.complete (Grammar.query e) .trailing cs).map fun q => (q, [])) := by
  have hinner : LeadsFilters ground (filter d) (Grammar.filter e) cs.length := fun r hr =>
    leads_filter (Nat.lt_of_lt_of_le hr hd) (Nat.lt_of_lt_of_le hr he)
  have hpath := leads_path hinner (Nat.le_refl _) false
  unfold Scanner.complete Grammar.query query
  cases hq : Grammar.path (Grammar.filter e) false cs with
  | error f =>
    rw [hq] at hpath
    exact hpath.andThen_error
  | ok p =>
    obtain ⟨q, r⟩ := p
    rw [hq] at hpath
    refine hpath.andThen fun _ => leads_atEnd.andThen fun _ => ?_
    cases r with
    | nil => exact leads_pure q
    | cons c r => exact leads_fault _

end QueryWalk

theorem Path.parseQuery_eq (source : String) : Path.parseQuery source =
    match Scanner.complete (Grammar.query source.toList.length) .trailing source.toList with
    | .ok q => .ok ⟨source, q.1, q.2⟩
    | .error f => .error (.unreadable source (placeOf source.toList f.rest) f.cause) := by
  unfold Path.parseQuery Query.parse
  dsimp only
  cases Scanner.complete (Grammar.query source.toList.length) .trailing source.toList with
  | ok q => rfl
  | error f => rfl

/-- **The walk over any text ends**: no loop takes more rounds than one for each character and a last one, and
filters do not nest deeper than that. All places where the walk has stood are between characters, so it has
never cut one apart. It ends with what the reader of queries says, a fault at the place where it stands then. -/
theorem Query.walk_keeps_between_characters {source : String} {bound : Nat} (h : source.length < bound) :
    ∃ result foot, Query.walk source bound = some (result, foot) ∧
      (∀ n ∈ foot.offset :: foot.earlier,
        ∃ before after : String, source = before ++ after ∧ n = before.utf8ByteSize) ∧
      match result with
      | .ok (anchor, segments) => Path.parseQuery source = .ok ⟨source, anchor, segments⟩
      | .error (.fault cause n) =>
        Path.parseQuery source = .error (.unreadable source n cause) ∧ n = foot.offset ∧
          n ≤ source.utf8ByteSize
      | .error .misstep => False := by
  have hend := QueryWalk.leads_query (Nat.le_of_lt h) (Nat.le_refl _) _ (Footing.At.start h)
  rw [Path.parseQuery_eq]
  change ∃ result foot, QueryWalk.query bound ⟨source.toList, bound⟩ ⟨0, []⟩ = _ ∧ _
  generalize QueryWalk.query bound ⟨source.toList, bound⟩ ⟨0, []⟩ = last at hend ⊢
  generalize Scanner.complete (Grammar.query source.toList.length) .trailing source.toList = parsed at hend ⊢
  cases parsed with
  | ok q =>
    cases hend with
    | @ok _ _ foot hfoot _ => exact ⟨.ok q, foot, rfl, hfoot.exists_append, rfl⟩
  | error f =>
    cases hend with
    | @error _ foot hfoot =>
      obtain ⟨before, after, hsource, hoffset⟩ := hfoot.exists_append foot.offset List.mem_cons_self
      refine ⟨_, foot, rfl, hfoot.exists_append, by rw [hfoot.offset], rfl, ?_⟩
      rw [hoffset, hsource, String.utf8ByteSize_append]
      exact Nat.le_add_right _ _

/-- Two of the characters take two bytes, and the name in quotation marks is not at its end. -/
theorem Query.walk_unterminated : "$.é['ß".length < 7 ∧
    ∃ foot, Query.walk "$.é['ß" 7 = some (.error (.fault .unterminated 8), foot) ∧
      (∀ n ∈ foot.offset :: foot.earlier,
        ∃ before after : String, "$.é['ß" = before ++ after ∧ n = before.utf8ByteSize) ∧
      Path.parseQuery "$.é['ß" = .error (.unreadable "$.é['ß" 8 .unterminated) := by
  have hbound : "$.é['ß".length < 7 := by decide
  obtain ⟨result, foot, hwalk, hplaces, hresult⟩ := Query.walk_keeps_between_characters hbound
  have heval : Query.walk "$.é['ß" 7 =
      some (.error (.fault .unterminated 8), ⟨8, [6, 5, 4, 2, 1, 0]⟩) := rfl
  cases heval.symm.trans hwalk
  exact ⟨hbound, _, heval, hplaces, hresult.1⟩

end StepFlow
