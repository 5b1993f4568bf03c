import StepFlow.Path.Query.Grammar
import StepFlow.Proofs.Except
import StepFlow.Proofs.Path.Spelling

/-!
# What reading a query gives

The integers of a query that is read are signed 64-bit integers, and its slices have a step, also
within filters.

* `Segment.Everywhere`, `everywhere`: a property of all segments, those within filters included;
* `Grammar.gives_bracket`, `Grammar.gives_path`, `Grammar.gives_filter`: the readers, one by one;
* **`everywhere_of_parse`**: all segments of a query that is read are legal.
-/

namespace StepFlow

open Text Text.Scanner

/-! ## Properties of segments -/

mutual

/-- The segment has the property `P`, and so has every segment that it holds. -/
def Segment.Everywhere (P : Segment → Prop) : Segment → Prop
  | .filter test => P (.filter test) ∧ test.Everywhere P
  | s => P s

/-- Every segment within the filter has the property `P`. -/
def Filter.Everywhere (P : Segment → Prop) : Filter → Prop
  | .or left right | .and left right => left.Everywhere P ∧ right.Everywhere P
  | .compare left _ right => left.Everywhere P ∧ right.Everywhere P
  | .present operand => operand.Everywhere P

/-- Every segment within the operand has the property `P`. -/
def Operand.Everywhere (P : Segment → Prop) : Operand → Prop
  | .path _ segments => everywhere P segments
  | .literal _ => True

/-- All segments have the property `P`, and so has every segment that they hold. -/
def everywhere (P : Segment → Prop) : List Segment → Prop
  | [] => True
  | s :: segments => s.Everywhere P ∧ everywhere P segments

end

variable {P Q R : Segment → Prop}

theorem everywhere_iff {segments : List Segment} :
    everywhere P segments ↔ ∀ s ∈ segments, s.Everywhere P := by
  induction segments with
  | nil => simp [everywhere]
  | cons s segments ih => rw [everywhere, ih, List.forall_mem_cons]

mutual

theorem Segment.Everywhere.imp (h : ∀ s, P s → Q s → R s) (s : Segment) (hp : s.Everywhere P)
    (hq : s.Everywhere Q) : s.Everywhere R := by
  match s, hp, hq with
  | .filter test, hp, hq => exact ⟨h _ hp.1 hq.1, Filter.Everywhere.imp h test hp.2 hq.2⟩
  | .child _, hp, hq => exact h _ hp hq
  | .index _, hp, hq => exact h _ hp hq
  | .wildcard, hp, hq => exact h _ hp hq
  | .union _, hp, hq => exact h _ hp hq
  | .slice _ _ _, hp, hq => exact h _ hp hq

theorem Filter.Everywhere.imp (h : ∀ s, P s → Q s → R s) (f : Filter) (hp : f.Everywhere P)
    (hq : f.Everywhere Q) : f.Everywhere R := by
  match f, hp, hq with
  | .or l r, hp, hq =>
    exact ⟨Filter.Everywhere.imp h l hp.1 hq.1, Filter.Everywhere.imp h r hp.2 hq.2⟩
  | .and l r, hp, hq =>
    exact ⟨Filter.Everywhere.imp h l hp.1 hq.1, Filter.Everywhere.imp h r hp.2 hq.2⟩
  | .compare l _ r, hp, hq =>
    exact ⟨Operand.Everywhere.imp h l hp.1 hq.1, Operand.Everywhere.imp h r hp.2 hq.2⟩
  | .present o, hp, hq => exact Operand.Everywhere.imp h o hp hq

theorem Operand.Everywhere.imp (h : ∀ s, P s → Q s → R s) (o : Operand) (hp : o.Everywhere P)
    (hq : o.Everywhere Q) : o.Everywhere R := by
  match o, hp, hq with
  | .path _ segments, hp, hq => exact everywhere_imp h segments hp hq
  | .literal _, _, _ => trivial

/-- What follows of every segment from two properties that all segments have. -/
theorem everywhere_imp (h : ∀ s, P s → Q s → R s) (segments : List Segment)
    (hp : everywhere P segments) (hq : everywhere Q segments) : everywhere R segments := by
  match segments, hp, hq with
  | [], _, _ => trivial
  | s :: rest, hp, hq => exact ⟨Segment.Everywhere.imp h s hp.1 hq.1, everywhere_imp h rest hp.2 hq.2⟩

end

/-! ## Legal segments -/

/-- The integers of the segment are signed 64-bit integers, and the step of a slice is not zero. -/
def Segment.IsLegal : Segment → Prop
  | .index i => Number.isSigned64 i = true
  | .union choices => ∀ c ∈ choices, c.isSpellable = true
  | .slice start stop step => start.all Number.isSigned64 = true ∧ stop.all Number.isSigned64 = true ∧
      step ≠ 0 ∧ Number.isSigned64 step = true
  | _ => True

namespace Grammar

theorem isSigned64_of_integer? {text : List Char} {i : Int} (h : integer? text = some i) :
    Number.isSigned64 i = true := by
  unfold integer? at h
  split at h
  next negative ds _ =>
  dsimp only at h
  generalize (if negative = true then -(Reader.natOfDigits ds : Int) else Reader.natOfDigits ds) = n at h
  split at h
  · cases h
  · next hn =>
    cases h
    rw [Bool.or_eq_true, not_or] at hn
    simpa using hn.2

theorem gives_integer : Gives (fun bound => bound.all Number.isSigned64 = true) integer := by
  refine gives_bind fun start => gives_bind fun minus => gives_bind fun ds => ?_
  dsimp only
  refine Gives.ite (gives_pure rfl) ?_
  split
  · next h => exact gives_pure (isSigned64_of_integer? h)
  · exact gives_faultAt _ _

theorem gives_sliceFrom {start : Option Int} (hstart : start.all Number.isSigned64 = true) :
    Gives (Segment.Everywhere Segment.IsLegal) (sliceFrom start) := by
  have hone : Number.isSigned64 1 = true := by decide
  have hstep : ∀ {step : Option Int}, step.all Number.isSigned64 = true →
      Number.isSigned64 (step.getD 1) = true
    | none, _ => hone
    | some _, hs => hs
  refine gives_bind fun _ => gives_integer.bind fun stop hstop => gives_bind fun _ => ?_
  have hslice : ∀ step, Number.isSigned64 step = true → Gives (Segment.Everywhere Segment.IsLegal)
      (if step = 0 then fault .zeroStep else pure (.slice start stop step) : Part Segment) := by
    intro step hs
    split
    · exact gives_fault _
    · next hzero => exact gives_pure ⟨hstart, hstop, hzero, hs⟩
  have hgiven : ∀ step : Int, Number.isSigned64 step = true →
      Gives (fun step => Number.isSigned64 step = true) (pure step : Part Int) :=
    fun _ hs => gives_pure hs
  refine gives_bind fun found => Gives.ite ?_ ((hgiven 1 hone).bind hslice)
  exact gives_bind fun _ => gives_integer.bind fun step hs => (hgiven _ (hstep hs)).bind hslice

theorem gives_choice : Gives (fun c => c.isSpellable = true) choice := by
  refine gives_bind fun next => ?_
  split
  · refine Gives.ite (gives_bind fun name => gives_pure rfl) ?_
    refine gives_integer.bind fun i hi => ?_
    split
    · exact gives_pure hi
    · exact gives_fault _
  · exact gives_fault _

theorem everywhere_segmentOf {choices : List Selector} (h : ∀ c ∈ choices, c.isSpellable = true) :
    (segmentOf choices).Everywhere Segment.IsLegal := by
  unfold segmentOf
  split
  · trivial
  · next i => exact h (.index i) List.mem_cons_self
  · exact h

theorem gives_unionFrom {first : Selector} (h : first.isSpellable = true) :
    Gives (Segment.Everywhere Segment.IsLegal) (unionFrom first) := by
  have hround : ∀ acc : List Selector, (∀ c ∈ acc, c.isSpellable = true) →
      Gives (Sum.elim (fun acc => ∀ c ∈ acc, c.isSpellable = true)
        fun acc => ∀ c ∈ acc, c.isSpellable = true) (choicesRound acc) := by
    intro acc hacc
    refine gives_bind fun _ => gives_bind fun found => Gives.ite ?_ (gives_pure hacc)
    exact gives_bind fun _ => gives_choice.bind fun c hc =>
      gives_pure (List.forall_mem_cons.mpr ⟨hc, hacc⟩)
  refine (gives_iterate hround (fun _ h => h) (List.forall_mem_singleton.mpr h)).bind
    fun acc hacc => gives_pure (everywhere_segmentOf fun c hc => hacc c (List.mem_reverse.mp hc))

theorem gives_selectors : Gives (Segment.Everywhere Segment.IsLegal) selectors := by
  refine gives_bind fun next => ?_
  split
  case' h_1 => refine Gives.ite (gives_bind fun name => gives_unionFrom rfl) ?_
  -- what does not begin with a name begins with an index or a colon
  all_goals
    refine gives_integer.bind fun start hstart => gives_bind fun _ => gives_bind fun found => ?_
    refine Gives.ite (gives_sliceFrom hstart) ?_
    split
    · exact gives_unionFrom hstart
    · exact gives_fault _

/-! ## Filters and queries -/

/-- The reader gives filters with legal segments. -/
def GivesLegal (inner : Part Filter) : Prop := Gives (Filter.Everywhere Segment.IsLegal) inner

section inner

variable {inner : Part Filter} {nested : Bool}

theorem gives_dotSegment : Gives (Segment.Everywhere Segment.IsLegal) (dotSegment nested) := by
  refine gives_bind fun next => ?_
  split
  · exact gives_fault _
  · exact gives_bind fun _ => gives_pure trivial
  · exact gives_bind fun name => Gives.ite (gives_fault _) (gives_pure trivial)

theorem gives_bracket (hinner : GivesLegal inner) :
    Gives (Segment.Everywhere Segment.IsLegal) (bracket inner) := by
  have hclose : ∀ s : Segment, s.Everywhere Segment.IsLegal →
      Gives (Segment.Everywhere Segment.IsLegal) (do skipBlanks; require ']'; return s : Part Segment) :=
    fun s hs => gives_bind fun _ => gives_bind fun _ => gives_pure hs
  have hgiven : ∀ s : Segment, s.Everywhere Segment.IsLegal →
      Gives (Segment.Everywhere Segment.IsLegal) (pure s : Part Segment) := fun _ hs => gives_pure hs
  refine gives_bind fun _ => gives_bind fun next => ?_
  split
  · exact gives_bind fun _ => (hgiven .wildcard trivial).bind hclose
  · refine gives_bind fun _ => gives_bind fun _ => gives_bind fun _ => hinner.bind fun test htest => ?_
    exact gives_bind fun _ => gives_bind fun _ => (hgiven (.filter test) ⟨trivial, htest⟩).bind hclose
  · exact gives_selectors.bind hclose

theorem gives_segmentsRound (hinner : GivesLegal inner) {acc : List Segment}
    (hacc : everywhere Segment.IsLegal acc) :
    Gives (Sum.elim (everywhere Segment.IsLegal) (everywhere Segment.IsLegal))
      (segmentsRound inner nested acc) := by
  refine gives_bind fun next => ?_
  split
  · exact gives_bind fun _ => gives_dotSegment.bind fun s hs => gives_pure ⟨hs, hacc⟩
  · exact gives_bind fun _ => (gives_bracket hinner).bind fun s hs => gives_pure ⟨hs, hacc⟩
  · exact gives_pure hacc
  · exact Gives.ite (gives_pure hacc) (gives_fault _)

theorem gives_path (hinner : GivesLegal inner) :
    Gives (fun p => everywhere Segment.IsLegal p.2) (path inner nested) := by
  have hsegments : Gives (everywhere Segment.IsLegal) (iterate (segmentsRound inner nested) id []) :=
    gives_iterate (fun _ hacc => gives_segmentsRound hinner hacc) (fun _ hacc => hacc) trivial
  refine gives_bind fun a => hsegments.bind fun acc hacc => gives_pure ?_
  exact everywhere_iff.mpr fun s hs => everywhere_iff.mp hacc s (List.mem_reverse.mp hs)

theorem gives_operand (hinner : GivesLegal inner) :
    Gives (Operand.Everywhere Segment.IsLegal) (operand inner) := by
  refine gives_bind fun start => ?_
  split
  case' h_1 =>
    refine Gives.ite ((gives_path hinner).bind fun p hp => gives_pure hp) ?_
    refine Gives.ite (gives_bind fun s => gives_pure trivial) ?_
  -- what is neither a path nor a text is a word
  all_goals
    refine gives_bind fun word => ?_
    split
    · exact gives_pure trivial
    · exact gives_faultAt _ _

theorem gives_test (hinner : GivesLegal inner) : GivesLegal (test inner) := by
  refine gives_bind fun _ => gives_bind fun found => Gives.ite ?_ ?_
  · exact hinner.bind fun f hf => gives_bind fun _ => gives_bind fun _ => gives_pure hf
  · refine (gives_operand hinner).bind fun left hleft => gives_bind fun _ => gives_bind fun sign => ?_
    split
    · exact gives_bind fun _ => (gives_operand hinner).bind fun right hright => gives_pure ⟨hleft, hright⟩
    · exact gives_pure hleft

theorem gives_chain {sign : List Char} {join : Filter → Filter → Filter}
    (hjoin : ∀ left right, left.Everywhere Segment.IsLegal → right.Everywhere Segment.IsLegal →
      (join left right).Everywhere Segment.IsLegal) (hlink : GivesLegal inner) :
    GivesLegal (chain sign join inner) := by
  refine hlink.bind fun first hfirst => gives_iterate (fun left hleft => ?_) (fun _ h => h) hfirst
  refine gives_bind fun _ => gives_bind fun found => Gives.ite ?_ (gives_pure hleft)
  exact hlink.bind fun right hright => gives_pure (hjoin left right hleft hright)

end inner

theorem gives_filter (depth : Nat) : GivesLegal (filter depth) := by
  induction depth with
  | zero => exact gives_fault _
  | succ depth ih =>
    exact gives_chain (fun _ _ hl hr => ⟨hl, hr⟩) (gives_chain (fun _ _ hl hr => ⟨hl, hr⟩) (gives_test ih))

end Grammar

/-- **All segments of a query that is read are legal**, also those within filters. -/
theorem everywhere_of_parse {text : String} {q : Query} (h : Query.parse text = .ok q) :
    everywhere Segment.IsLegal q.segments := by
  unfold Query.parse complete at h
  obtain ⟨p, hp, h⟩ := Except.bind_eq_ok_iff.mp h
  cases h
  split at hp
  · cases hp
  · next hread =>
    cases hp
    exact Grammar.gives_path (Grammar.gives_filter _) _ _ _ hread
  · cases hp

end StepFlow
