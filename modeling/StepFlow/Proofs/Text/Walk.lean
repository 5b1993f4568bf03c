import StepFlow.Proofs.Text.Scanning

/-!
# Reading by offsets

A scanner is handed what is left of a text. A walk has the whole text and a number of bytes, and takes what
is left by cutting the text there. It goes wrong if the number is not one at which the text can be cut, and
its loops are kept from going on for ever by a bound only, behind which the walk is given up.

* `splitBytes?`, `slice?`: a text cut by numbers of bytes;
* `Ground`, `Footing`, `Walk`: the text and the bound, the place of a walk and all places before it, and the
  walks;
* `Walk.peek`, `Walk.eat`, `Walk.skipWhile`, …: the elementary walks, and `Walk.loop`: rounds until one
  says that it was the last;
* `Leads`: a walk ends as a scanner does, where the scanner leaves off, and it has stood between characters
  only. Walks that lead somewhere lead there one after another (`Leads.bind`);
* `LeadsBelow`: besides, a round that asks for another one has passed a character;
* **`Leads.loop`**: a loop of such rounds ends.
-/

namespace StepFlow.Text

/-! ## Cutting by bytes -/

/-- The first `n` bytes of a text and what follows them, unless they end within a character or there are
not as many. -/
def splitBytes? : List Char → Nat → Option (List Char × List Char)
  | cs, 0 => some ([], cs)
  | [], _ + 1 => none
  | c :: cs, n + 1 =>
    if c.utf8Size ≤ n + 1 then
      (splitBytes? cs (n + 1 - c.utf8Size)).map fun p => (c :: p.1, p.2)
    else none

/-- What stands in a text from one offset up to another. -/
def slice? (source : List Char) (first last : Nat) : Option (List Char) :=
  if first ≤ last then
    (splitBytes? source first).bind fun p => (splitBytes? p.2 (last - first)).map Prod.fst
  else none

/-! ## Walks -/

/-- Where a walk goes: a text, and a bound on the rounds of a loop and on the depth of a recursion, behind
which a walk is given up. -/
structure Ground where
  source : List Char
  bound : Nat

/-- Where a walk stands, as a number of bytes, and where it stood before, the latest place first. -/
structure Footing where
  offset : Nat
  earlier : List Nat

/-- What keeps a walk from going on. -/
inductive Mishap (ε : Type) where
  /-- A fault, at an offset. -/
  | fault (cause : ε) (offset : Nat)
  /-- The source was to be cut where it has no place to be cut. -/
  | misstep

/-- A reader that knows a place in the source by its offset only. It gives nothing at all if it was given
up. -/
abbrev Walk (ε α : Type) : Type :=
  ReaderT Ground (ExceptT (Mishap ε) (StateT Footing Option)) α

namespace Walk

variable {ε α β : Type}

/-- The offset of the current place. -/
def offset : Walk ε Nat := fun _ foot => some (.ok foot.offset, foot)

def moveTo (n : Nat) : Walk ε Unit := fun _ foot => some (.ok (), ⟨n, foot.offset :: foot.earlier⟩)

/-- Reports a fault at the current place. -/
def fault (cause : ε) : Walk ε α := fun _ foot => some (.error (.fault cause foot.offset), foot)

def giveUp : Walk ε α := fun _ _ => none

/-- A cut of the source, if there is one. -/
def cut (part : List Char → Footing → Option α) : Walk ε α := fun ground foot =>
  match part ground.source foot with
  | some a => some (.ok a, foot)
  | none => some (.error .misstep, foot)

/-- What is left of the source from the current place on. -/
def rest : Walk ε (List Char) := cut fun source foot => (splitBytes? source foot.offset).map Prod.snd

/-- What stands in the source between an earlier place and the current one. -/
def since (start : Nat) : Walk ε (List Char) := cut fun source foot => slice? source start foot.offset

/-- Whether the current place is the end of the source. -/
def atEnd : Walk ε Bool := fun ground foot =>
  some (.ok (utf8Length ground.source ≤ foot.offset), foot)

def peek : Walk ε (Option Char) := do
  return (← rest).head?

/-- The next character, and goes behind it. -/
def next? : Walk ε (Option Char) := do
  match ← peek with
  | some c =>
    moveTo ((← offset) + c.utf8Size)
    return some c
  | none => return none

/-- Goes behind the next character if it is `c`, and says whether it is. -/
def eat (c : Char) : Walk ε Bool := do
  if (← peek) = some c then
    moveTo ((← offset) + c.utf8Size)
    return true
  else return false

/-- Goes behind `word` if the source goes on with it, and says whether it does. -/
def eatAll (word : List Char) : Walk ε Bool := do
  if word.isPrefixOf (← rest) then
    moveTo ((← offset) + utf8Length word)
    return true
  else return false

/-- At most `n` rounds of a loop, from `a` on, until `step` answers that it is done. -/
def rounds (step : α → Walk ε (α ⊕ β)) : (n : Nat) → α → Walk ε β
  | 0, _ => giveUp
  | n + 1, a => do
    match ← step a with
    | .inl a' => rounds step n a'
    | .inr b => return b

/-- Repeats `step`, from `a` on, until it answers that it is done. -/
def loop (step : α → Walk ε (α ⊕ β)) (a : α) : Walk ε β := fun ground =>
  rounds step ground.bound a ground

/-- One round of a run: its end, or behind a character that satisfies `p`. -/
def runRound (p : Char → Bool) : Unit → Walk ε (Unit ⊕ Unit) := fun _ => do
  match ← peek with
  | some c =>
    if p c then
      let _ ← next?
      return .inl ()
    else return .inr ()
  | none => return .inr ()

/-- Goes behind the characters that satisfy `p`, one by one. -/
def skipWhile (p : Char → Bool) : Walk ε Unit := loop (runRound p) ()

def skipBlanks : Walk ε Unit := skipWhile isBlank

end Walk

/-! ## Bytes of a text -/

theorem utf8Length_append (cs ds : List Char) :
    utf8Length (cs ++ ds) = utf8Length cs + utf8Length ds := by
  induction cs with
  | nil => exact (Nat.zero_add _).symm
  | cons c cs ih => rw [List.cons_append, utf8Length, utf8Length, ih, Nat.add_assoc]

theorem utf8ByteSize_ofList (cs : List Char) : (String.ofList cs).utf8ByteSize = utf8Length cs := by
  induction cs with
  | nil => rfl
  | cons c cs ih =>
    rw [String.ofList_cons, String.utf8ByteSize_append, String.utf8ByteSize_singleton, ih]
    rfl

theorem splitBytes?_append (cs ds : List Char) : splitBytes? (cs ++ ds) (utf8Length cs) = some (cs, ds) := by
  induction cs with
  | nil => rw [List.nil_append, utf8Length, splitBytes?]
  | cons c cs ih =>
    obtain ⟨n, hn⟩ : ∃ n, utf8Length (c :: cs) = n + 1 :=
      Nat.exists_eq_add_one.mpr (Nat.lt_of_lt_of_le c.utf8Size_pos (Nat.le_add_right _ _))
    have hrest : n + 1 - c.utf8Size = utf8Length cs := by
      rw [← hn, utf8Length, Nat.add_sub_cancel_left]
    rw [List.cons_append, hn, splitBytes?, if_pos (hn ▸ Nat.le_add_right _ _), hrest, ih]
    rfl

theorem slice?_append (before cs ds : List Char) :
    slice? (before ++ (cs ++ ds)) (utf8Length before) (utf8Length (before ++ cs)) = some cs := by
  rw [slice?, utf8Length_append, if_pos (Nat.le_add_right _ _), splitBytes?_append, Option.bind_some,
    Nat.add_sub_cancel_left, splitBytes?_append]
  rfl

/-! ## Where a walk stands -/

variable {ε α β : Type} {ground : Ground} {source cs r : List Char} {foot : Footing} {n : Nat} {a : α}

/-- The offset is the number of bytes of some first characters of the source. -/
def IsPlace (source : List Char) (n : Nat) : Prop := ∃ before, before <+: source ∧ utf8Length before = n

/-- The offset of the place where `cs` is left of the source. -/
def placeOf (source cs : List Char) : Nat := utf8Length source - utf8Length cs

/-- There is a place where `cs` is left of the source, and no walk is given up before it has passed all
characters. -/
structure Ground.Leaves (ground : Ground) (cs : List Char) : Prop where
  suffix : cs <:+ ground.source
  ample : ground.source.length < ground.bound

/-- The walk stands where `cs` is left of the source, and has stood between characters only. -/
structure Footing.At (ground : Ground) (cs : List Char) (foot : Footing) : Prop extends
    ground.Leaves cs where
  offset : foot.offset = placeOf ground.source cs
  earlier : ∀ n ∈ foot.earlier, IsPlace ground.source n

theorem placeOf_append (before cs : List Char) : placeOf (before ++ cs) cs = utf8Length before := by
  rw [placeOf, utf8Length_append, Nat.add_sub_cancel]

theorem isPlace_placeOf (h : cs <:+ source) : IsPlace source (placeOf source cs) := by
  obtain ⟨before, rfl⟩ := h
  exact ⟨before, List.prefix_append before cs, (placeOf_append before cs).symm⟩

theorem placeOf_append_right {run : List Char} (h : run ++ r <:+ source) :
    placeOf source r = placeOf source (run ++ r) + utf8Length run := by
  obtain ⟨before, rfl⟩ := h
  rw [placeOf_append, ← List.append_assoc, placeOf_append, utf8Length_append]

/-- The bytes before a place are those of a text that can be cut off there. -/
theorem IsPlace.exists_append {source : String} (h : IsPlace source.toList n) :
    ∃ before after : String, source = before ++ after ∧ n = before.utf8ByteSize := by
  obtain ⟨before, ⟨after, hsource⟩, hn⟩ := h
  refine ⟨String.ofList before, String.ofList after, ?_, ?_⟩
  · rw [← String.ofList_append, hsource, String.ofList_toList]
  · rw [utf8ByteSize_ofList, hn]

theorem Ground.Leaves.mono (h : ground.Leaves cs) (hr : r <:+ cs) : ground.Leaves r :=
  ⟨hr.trans h.suffix, h.ample⟩

theorem Ground.Leaves.length_lt (h : ground.Leaves cs) : cs.length < ground.bound :=
  Nat.lt_of_le_of_lt h.suffix.length_le h.ample

theorem Ground.Leaves.at (h : ground.Leaves cs) : Footing.At ground cs ⟨placeOf ground.source cs, []⟩ :=
  ⟨h, rfl, List.forall_mem_nil _⟩

theorem Footing.At.move (h : foot.At ground cs) (hr : ground.Leaves r) :
    Footing.At ground r ⟨placeOf ground.source r, foot.offset :: foot.earlier⟩ :=
  ⟨hr, rfl, List.forall_mem_cons.mpr ⟨h.offset ▸ isPlace_placeOf h.suffix, h.earlier⟩⟩

theorem Footing.At.start (h : source.length < n) : Footing.At ⟨source, n⟩ source ⟨0, []⟩ :=
  ⟨⟨List.suffix_rfl, h⟩, (Nat.sub_self _).symm, List.forall_mem_nil _⟩

/-- Every place of a walk is the number of bytes of a text that can be cut off there. -/
theorem Footing.At.exists_append {source : String} (h : foot.At ⟨source.toList, n⟩ cs) :
    ∀ k ∈ foot.offset :: foot.earlier,
      ∃ before after : String, source = before ++ after ∧ k = before.utf8ByteSize := by
  intro k hk
  cases hk with
  | head => exact (h.offset ▸ isPlace_placeOf h.suffix : IsPlace _ foot.offset).exists_append
  | tail _ hk => exact (h.earlier k hk).exists_append

/-- What a walk ends with is what a scanner says of the text that is left, at the place that the scanner
leaves. -/
inductive Agrees (ground : Ground) (cs : List Char) :
    Option (Except (Mishap ε) α × Footing) → Except (Fault ε) (α × List Char) → Prop where
  | ok {a : α} {r : List Char} {foot : Footing} : foot.At ground r → r <:+ cs →
      Agrees ground cs (some (.ok a, foot)) (.ok (a, r))
  | error {f : Fault ε} {foot : Footing} : foot.At ground f.rest →
      Agrees ground cs (some (.error (.fault f.cause foot.offset), foot)) (.error f)

/-- From the place where `cs` is left, the walk leads to what a scanner says. -/
def Leads (ground : Ground) (m : Walk ε α) (cs : List Char) (out : Except (Fault ε) (α × List Char)) :
    Prop :=
  ∀ foot : Footing, foot.At ground cs → Agrees ground cs (m ground foot) out

theorem Walk.bind_of_ok {m : Walk ε α} {f : α → Walk ε β} {foot' : Footing}
    (h : m ground foot = some (.ok a, foot')) : (m >>= f) ground foot = f a ground foot' := by
  change Option.bind (m ground foot) _ = _
  rw [h]
  rfl

theorem Walk.bind_of_error {m : Walk ε α} {f : α → Walk ε β} {e : Mishap ε} {foot' : Footing}
    (h : m ground foot = some (.error e, foot')) : (m >>= f) ground foot = some (.error e, foot') := by
  change Option.bind (m ground foot) _ = _
  rw [h]
  rfl

namespace Leads

variable {m : Walk ε α} {f : α → Walk ε β} {s : Scanner ε α} {k : α → Scanner ε β}
  {out : Except (Fault ε) (α × List Char)} {out' : Except (Fault ε) (β × List Char)}

theorem of_leaves (h : ground.Leaves cs → Leads ground m cs out) : Leads ground m cs out :=
  fun foot hfoot => h hfoot.toLeaves foot hfoot

theorem suffix (h : Leads ground m cs (.ok (a, r))) (hcs : ground.Leaves cs) : r <:+ cs := by
  have hend := h _ hcs.at
  generalize m ground _ = first at hend
  cases hend with
  | ok _ hr => exact hr

theorem andThen (hm : Leads ground m cs (.ok (a, r))) (hf : r <:+ cs → Leads ground (f a) r out') :
    Leads ground (m >>= f) cs out' := by
  intro foot hfoot
  have hfirst := hm foot hfoot
  generalize hout : m ground foot = first at hfirst
  cases hfirst with
  | ok hat hr =>
    rw [Walk.bind_of_ok hout]
    have hsecond := hf hr _ hat
    generalize f a ground _ = second at hsecond
    cases hsecond with
    | ok hat' hr' => exact .ok hat' (hr'.trans hr)
    | error hat' => exact .error hat'

theorem andThen_error {e : Fault ε} (hm : Leads ground m cs (.error e)) :
    Leads ground (m >>= f) cs (.error e) := by
  intro foot hfoot
  have hfirst := hm foot hfoot
  generalize hout : m ground foot = first at hfirst
  cases hfirst with
  | error hat =>
    rw [Walk.bind_of_error hout]
    exact .error hat

/-- **Walks one after another lead where scanners one after another do.** -/
theorem bind (hm : Leads ground m cs (s cs))
    (hf : ∀ a r, s cs = .ok (a, r) → r <:+ cs → Leads ground (f a) r (k a r)) :
    Leads ground (m >>= f) cs ((s >>= k) cs) := by
  cases hs : s cs with
  | error e =>
    rw [Scanner.bind_of_error hs]
    rw [hs] at hm
    exact hm.andThen_error
  | ok p =>
    rw [Scanner.bind_of_ok hs]
    rw [hs] at hm
    exact hm.andThen fun hr => hf p.1 p.2 hs hr

end Leads

/-! ## The elementary walks -/

section elementary

variable {p : Char → Bool} {c : Char}

theorem leads_pure (a : α) : Leads ground (pure a : Walk ε α) cs (.ok (a, cs)) :=
  fun _ hfoot => .ok hfoot List.suffix_rfl

theorem leads_fault (cause : ε) : Leads ground (Walk.fault cause : Walk ε α) cs (.error ⟨cause, cs⟩) :=
  fun _ hfoot => Agrees.error (f := ⟨cause, cs⟩) hfoot

theorem leads_offset :
    Leads ground (Walk.offset : Walk ε Nat) cs (.ok (placeOf ground.source cs, cs)) :=
  fun _ hfoot => hfoot.offset ▸ .ok hfoot List.suffix_rfl

theorem leads_moveTo (run : List Char) (hn : utf8Length run = n) :
    Leads ground (Walk.moveTo (placeOf ground.source (run ++ r) + n) : Walk ε Unit) (run ++ r)
      (.ok ((), r)) := by
  subst hn
  intro foot hfoot
  rw [← placeOf_append_right hfoot.suffix]
  have hr : r <:+ run ++ r := List.suffix_append run r
  exact .ok (hfoot.move (hfoot.mono hr)) hr

theorem leads_faultAt (h : ground.Leaves r) (cause : ε) :
    Leads ground (do Walk.moveTo (placeOf ground.source r); Walk.fault cause : Walk ε α) cs
      (.error ⟨cause, r⟩) :=
  fun _ hfoot => Agrees.error (f := ⟨cause, r⟩) (hfoot.move h)

theorem leads_rest : Leads ground (Walk.rest : Walk ε (List Char)) cs (.ok (cs, cs)) := by
  intro foot hfoot
  have hcut : (splitBytes? ground.source foot.offset).map Prod.snd = some cs := by
    obtain ⟨before, hbefore⟩ := hfoot.suffix
    rw [hfoot.offset, ← hbefore, placeOf_append, splitBytes?_append]
    rfl
  unfold Walk.rest Walk.cut
  dsimp only
  rw [hcut]
  exact .ok hfoot List.suffix_rfl

theorem leads_since {run : List Char} (h : run ++ r <:+ ground.source) :
    Leads ground (Walk.since (placeOf ground.source (run ++ r)) : Walk ε (List Char)) r
      (.ok (run, r)) := by
  intro foot hfoot
  have hcut : slice? ground.source (placeOf ground.source (run ++ r)) foot.offset = some run := by
    obtain ⟨before, hbefore⟩ := h
    rw [hfoot.offset, ← hbefore, placeOf_append, ← List.append_assoc, placeOf_append, List.append_assoc,
      slice?_append]
  unfold Walk.since Walk.cut
  dsimp only
  rw [hcut]
  exact .ok hfoot List.suffix_rfl

theorem leads_peek : Leads ground (Walk.peek : Walk ε (Option Char)) cs (Scanner.peek cs) :=
  leads_rest.andThen fun _ => leads_pure _

theorem leads_pass (c : Char) (cs : List Char) {b : β} :
    Leads ground (do Walk.moveTo ((← Walk.offset) + c.utf8Size); return b : Walk ε β) (c :: cs)
      (.ok (b, cs)) :=
  leads_offset.andThen fun _ => (leads_moveTo [c] rfl).andThen fun _ => leads_pure b

theorem leads_next? : Leads ground (Walk.next? : Walk ε (Option Char)) cs (Scanner.next? cs) := by
  refine leads_peek.andThen fun _ => ?_
  cases cs with
  | nil => exact leads_pure none
  | cons c cs => exact leads_pass c cs

theorem leads_eat (c : Char) : Leads ground (Walk.eat c : Walk ε Bool) cs (Scanner.eat c cs) := by
  refine leads_peek.andThen fun _ => ?_
  cases cs with
  | nil => exact leads_pure false
  | cons d cs =>
    by_cases h : d = c
    · subst h
      rw [Scanner.eat_cons, List.head?_cons, if_pos rfl]
      exact leads_pass d cs
    · rw [Scanner.eat_of_ne h, if_neg (by simpa using h)]
      exact leads_pure false

theorem leads_eatAll (word : List Char) :
    Leads ground (Walk.eatAll word : Walk ε Bool) cs (Scanner.eatAll word cs) := by
  refine leads_rest.andThen fun _ => ?_
  unfold Scanner.eatAll
  split
  · next h =>
    obtain ⟨r, rfl⟩ := List.isPrefixOf_iff_prefix.mp h
    rw [List.drop_left]
    exact leads_offset.andThen fun _ => (leads_moveTo word rfl).andThen fun _ => leads_pure true
  · exact leads_pure false

theorem leads_atEnd : Leads ground (Walk.atEnd : Walk ε Bool) cs (.ok (cs.isEmpty, cs)) := by
  intro foot hfoot
  have hend : decide (utf8Length ground.source ≤ foot.offset) = cs.isEmpty := by
    obtain ⟨before, hbefore⟩ := hfoot.suffix
    rw [hfoot.offset, ← hbefore, placeOf_append, utf8Length_append]
    cases cs with
    | nil => exact decide_eq_true (Nat.le_refl _)
    | cons c cs =>
      have hpos := c.utf8Size_pos
      exact decide_eq_false (by rw [utf8Length]; omega)
  unfold Walk.atEnd
  rw [hend]
  exact .ok hfoot List.suffix_rfl

end elementary

/-! ## Loops -/

theorem Leads.of_rounds {step : α → Walk ε (α ⊕ β)} {out : Except (Fault ε) (β × List Char)}
    (h : ∀ n, cs.length < n → Leads ground (Walk.rounds step n a) cs out) :
    Leads ground (Walk.loop step a) cs out :=
  fun foot hfoot => h _ hfoot.length_lt foot hfoot

theorem leads_runRound_more {p : Char → Bool} {c : Char} (h : p c = true) :
    Leads ground (Walk.runRound p () : Walk ε (Unit ⊕ Unit)) (c :: cs) (.ok (.inl (), cs)) := by
  refine leads_peek.andThen fun _ => ?_
  dsimp only [List.head?_cons]
  rw [if_pos h]
  exact leads_next?.andThen fun _ => leads_pure _

theorem leads_runRound_done {p : Char → Bool} (h : Stops p cs) :
    Leads ground (Walk.runRound p () : Walk ε (Unit ⊕ Unit)) cs (.ok (.inr (), cs)) := by
  refine leads_peek.andThen fun _ => ?_
  cases cs with
  | nil => exact leads_pure _
  | cons c cs =>
    dsimp only [List.head?_cons]
    rw [if_neg (by rw [h c rfl]; exact Bool.false_ne_true)]
    exact leads_pure _

theorem leads_skipWhile (p : Char → Bool) :
    Leads ground (Walk.skipWhile p : Walk ε Unit) cs (.ok ((), cs.dropWhile p)) := by
  refine .of_rounds fun n hn => ?_
  induction n generalizing cs with
  | zero => exact absurd hn (Nat.not_lt_zero _)
  | succ n ih =>
    cases cs with
    | nil => exact (leads_runRound_done stops_nil).andThen fun _ => leads_pure ()
    | cons c cs =>
      rw [List.dropWhile_cons]
      split
      · next hc => exact (leads_runRound_more hc).andThen fun _ => ih (Nat.lt_of_succ_lt_succ hn)
      · next hc =>
        have hstop : Stops p (c :: cs) := stops_cons (eq_false_of_ne_true hc)
        exact (leads_runRound_done hstop).andThen fun _ => leads_pure ()

/-- What is passed in a run, and what is left then, is the text again. -/
theorem leads_run (p : Char → Bool) {m : Walk ε α} {k : List Char → Scanner ε α}
    (h : ∀ run r, run ++ r = cs → Leads ground m r (k run r)) :
    Leads ground (do Walk.skipWhile p; m) cs ((do k (← Scanner.takeWhile p) : Scanner ε α) cs) :=
  (leads_skipWhile p).andThen fun _ => h _ _ List.takeWhile_append_dropWhile

theorem leads_skipBlanks : Leads ground (Walk.skipBlanks : Walk ε Unit) cs (Scanner.skipBlanks cs) :=
  leads_skipWhile isBlank

/-- From the place where `cs` is left, the walk leads to what a scanner says, and to one with fewer than `n`
characters left if it is a round that asks for another one. -/
structure LeadsBelow (n : Nat) (ground : Ground) (m : Walk ε (α ⊕ β)) (cs : List Char)
    (out : Except (Fault ε) ((α ⊕ β) × List Char)) : Prop where
  leads : Leads ground m cs out
  length_lt : ground.Leaves cs → ∀ {a r}, out = .ok (.inl a, r) → r.length < n

namespace LeadsBelow

variable {γ : Type} {m : Walk ε (α ⊕ β)} {out : Except (Fault ε) ((α ⊕ β) × List Char)}

theorem of_lt (h : Leads ground m cs out) (hn : cs.length < n) : LeadsBelow n ground m cs out := by
  refine ⟨h, fun hcs a r hout => ?_⟩
  subst hout
  exact Nat.lt_of_le_of_lt (h.suffix hcs).length_le hn

theorem done (b : β) : LeadsBelow n ground (pure (.inr b) : Walk ε (α ⊕ β)) cs (.ok (.inr b, cs)) :=
  ⟨leads_pure _, fun _ _ _ h => by cases h⟩

theorem fault (cause : ε) :
    LeadsBelow n ground (Walk.fault cause : Walk ε (α ⊕ β)) cs (.error ⟨cause, cs⟩) :=
  ⟨leads_fault cause, fun _ _ _ h => by cases h⟩

theorem bind {m : Walk ε γ} {f : γ → Walk ε (α ⊕ β)} {s : Scanner ε γ} {k : γ → Scanner ε (α ⊕ β)}
    (hm : Leads ground m cs (s cs))
    (hf : ∀ c r, s cs = .ok (c, r) → r <:+ cs → LeadsBelow n ground (f c) r (k c r)) :
    LeadsBelow n ground (m >>= f) cs ((s >>= k) cs) := by
  refine ⟨hm.bind fun c r hs hr => (hf c r hs hr).leads, fun hcs a r hout => ?_⟩
  obtain ⟨c, r', hs, hk⟩ := Scanner.bind_eq_ok_iff.mp hout
  rw [hs] at hm
  have hr' := hm.suffix hcs
  exact (hf c r' hs hr').length_lt (hcs.mono hr') hk

end LeadsBelow

/-- **A loop ends** if every round that asks for another one has passed a character. -/
theorem Leads.loop {step : α → Walk ε (α ⊕ β)} {scan : α → Scanner ε (α ⊕ β)} {finish : α → β}
    (hround : ∀ a r, r <:+ cs → LeadsBelow r.length ground (step a) r (scan a r)) :
    Leads ground (Walk.loop step a) cs (Scanner.iterate scan finish a cs) := by
  refine .of_rounds fun n hn => ?_
  induction n generalizing a cs with
  | zero => exact absurd hn (Nat.not_lt_zero _)
  | succ n ih =>
    refine .of_leaves fun hcs => ?_
    obtain ⟨hleads, hlt⟩ := hround a cs List.suffix_rfl
    cases hs : scan a cs with
    | error e =>
      rw [Scanner.iterate_fault hs]
      rw [hs] at hleads
      exact hleads.andThen_error
    | ok p =>
      obtain ⟨next, r⟩ := p
      rw [hs] at hleads
      cases next with
      | inl a' =>
        have hshorter := hlt hcs hs
        rw [Scanner.iterate_more hs hshorter]
        refine hleads.andThen fun hr => ?_
        exact ih (fun a r' hr' => hround a r' (hr'.trans hr))
          (Nat.lt_of_lt_of_le hshorter (Nat.le_of_lt_succ hn))
      | inr b =>
        rw [Scanner.iterate_done hs]
        exact hleads.andThen fun _ => leads_pure b

/-! ## Characters that were found -/

namespace Scanner

theorem eq_cons_of_eat {c : Char} (h : (eat c : Scanner ε Bool) cs = .ok (true, r)) : cs = c :: r := by
  unfold eat at h
  split at h
  · split at h
    · next heq =>
      cases h
      rw [heq]
    · cases h
  · cases h

theorem length_lt_of_eat {c : Char} (h : (eat c : Scanner ε Bool) cs = .ok (true, r)) :
    r.length < cs.length := by
  rw [eq_cons_of_eat h]
  exact Nat.lt_succ_self _

theorem eq_of_eat {c : Char} (h : (eat c : Scanner ε Bool) cs = .ok (false, r)) : cs = r := by
  unfold eat at h
  split at h
  · split at h
    · cases h
    · cases h
      rfl
  · cases h
    rfl

theorem length_lt_of_eatAll {word : List Char} (hword : word ≠ [])
    (h : (eatAll word : Scanner ε Bool) cs = .ok (true, r)) : r.length < cs.length := by
  unfold eatAll at h
  split at h
  · next hprefix =>
    cases h
    have hle := (List.isPrefixOf_iff_prefix.mp hprefix).length_le
    have hpos := List.length_pos_iff.mpr hword
    rw [List.length_drop]
    omega
  · cases h

end Scanner

end StepFlow.Text
