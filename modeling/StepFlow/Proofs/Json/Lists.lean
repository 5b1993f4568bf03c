import StepFlow.Proofs.Json.Number

/-!
# Lists in texts

The items of an array and the members of an object are read one after another, with a comma before all
but the first.

* `Reads`, `Refuses`: what becomes of a text wherever it stands in a document;
* `listed`: the texts of a list of items;
* `iterate_listed`: one round after another;
* **`listOf_listed`**, **`listOf_refuses`**: a list is read if every item is, and refused if an item is.
-/

namespace StepFlow.Reader

open Text Text.Scanner

variable {α : Type} {item : Part α} {closing : Char} {text : List Char} {render : α → List Char}

/-- The text is read as `a`, wherever it stands. -/
def Reads (item : Part α) (text : List Char) (a : α) : Prop :=
  ∀ rest, Stops isNumberChar rest → item (text ++ rest) = .ok (a, rest)

/-- The text is refused, wherever it stands. -/
def Refuses (item : Part α) (text : List Char) : Prop :=
  ∀ rest, Stops isNumberChar rest → ∃ e, item (text ++ rest) = .error e

/-- The text starts with a character that neither separates nor ends items. -/
def Starts (text : List Char) : Prop :=
  ∃ c cs, text = c :: cs ∧ isSpace c = false ∧ c ≠ ']' ∧ c ≠ '\x7d'

/-- A character that ends a list. -/
def IsClosing (c : Char) : Prop := c = ']' ∨ c = '\x7d'

theorem skipSpace_of_head {c : Char} {cs : List Char} (h : isSpace c = false) :
    skipSpace (c :: cs) = .ok ((), c :: cs) := by
  unfold skipSpace
  rw [bind_of_ok (a := []) (r := c :: cs)]
  · rfl
  · have hs : Stops isSpace (c :: cs) := stops_cons h
    show Except.ok _ = _
    rw [hs.takeWhile, hs.dropWhile]

theorem expect_cons (c : Char) (cs : List Char) : expect c (c :: cs) = .ok ((), cs) := by
  unfold expect
  rw [bind_of_ok (eat_cons c), if_pos rfl]
  rfl

/-- The comma before an item, which the first one does not have. -/
def comma (isFirst : Bool) : List Char := if isFirst then [] else [',']

/-- The texts of items, of which the first one may be the first of the list. -/
def listed (render : α → List Char) : (isFirst : Bool) → List α → List Char
  | _, [] => []
  | isFirst, a :: as => comma isFirst ++ render a ++ listed render false as

theorem listed_append (isFirst : Bool) (as bs : List α) :
    listed render isFirst (as ++ bs) =
      listed render isFirst as ++ listed render (isFirst && as.isEmpty) bs := by
  induction as generalizing isFirst with
  | nil => simp [listed]
  | cons a as ih => simp [listed, ih]

/-! ## Rounds -/

theorem listRound_end (hc : IsClosing closing) (acc : List α) (rest : List Char) :
    listRound item closing acc (closing :: rest) = .ok (.inr acc, rest) := by
  have hs : isSpace closing = false := by rcases hc with rfl | rfl <;> rfl
  unfold listRound
  rw [bind_of_ok (skipSpace_of_head hs), bind_of_ok (eat_cons closing), if_pos rfl]
  rfl

theorem listRound_item (hc : IsClosing closing) (ht : Starts text) (acc : List α) (rest : List Char) :
    listRound item closing acc (comma acc.isEmpty ++ (text ++ rest)) =
      (item >>= fun a => pure (.inl (a :: acc))) (text ++ rest) := by
  obtain ⟨c, cs, rfl, hspace, hsquare, hbrace⟩ := ht
  have hclosing : c ≠ closing := by rcases hc with rfl | rfl <;> assumption
  have hcomma : ',' ≠ closing := by rcases hc with rfl | rfl <;> decide
  unfold listRound
  cases acc with
  | nil =>
    show _ = (item >>= _) (c :: (cs ++ rest))
    rw [show comma ([] : List α).isEmpty ++ (c :: cs ++ rest) = c :: (cs ++ rest) from rfl,
      bind_of_ok (skipSpace_of_head hspace), bind_of_ok (eat_of_ne hclosing), if_neg (by decide)]
    rfl
  | cons b acc =>
    show _ = (item >>= _) (c :: (cs ++ rest))
    rw [show comma (b :: acc).isEmpty ++ (c :: cs ++ rest) = ',' :: c :: (cs ++ rest) from rfl,
      bind_of_ok (skipSpace_of_head rfl), bind_of_ok (eat_of_ne hcomma), if_neg (by decide)]
    simp only [List.isEmpty_cons, Bool.false_eq_true, if_false]
    rw [bind_of_ok (expect_cons ',' _), bind_of_ok (skipSpace_of_head hspace)]

theorem stops_closing (hc : IsClosing closing) (rest : List Char) :
    Stops isNumberChar (closing :: rest) := by
  rcases hc with rfl | rfl <;> exact stops_cons rfl

theorem stops_listed (render : α → List Char) (as : List α) {tail : List Char}
    (h : Stops isNumberChar tail) : Stops isNumberChar (listed render false as ++ tail) := by
  cases as with
  | nil => exact h
  | cons a as => exact stops_cons rfl

/-- **Items are read one after another**, whatever comes after them. -/
theorem iterate_listed (hc : IsClosing closing) {as : List α}
    (h : ∀ a ∈ as, Starts (render a) ∧ Reads item (render a) a) (acc : List α) (tail : List Char)
    (htail : as ≠ [] → Stops isNumberChar tail) :
    iterate (listRound item closing) id acc (listed render acc.isEmpty as ++ tail) =
      iterate (listRound item closing) id (as.reverse ++ acc) tail := by
  induction as generalizing acc with
  | nil => rfl
  | cons a as ih =>
    obtain ⟨hstarts, hreads⟩ := h a List.mem_cons_self
    have htail := htail (List.cons_ne_nil a as)
    have hround : listRound item closing acc (listed render acc.isEmpty (a :: as) ++ tail) =
        .ok (.inl (a :: acc), listed render false as ++ tail) := by
      rw [listed, List.append_assoc, List.append_assoc, listRound_item hc hstarts,
        bind_of_ok (hreads _ (stops_listed render as htail))]
      rfl
    have hlength : (listed render false as ++ tail).length <
        (listed render acc.isEmpty (a :: as) ++ tail).length := by
      obtain ⟨c, cs, ha, -⟩ := hstarts
      simp only [listed, ha, List.length_append, List.length_cons]
      omega
    rw [iterate_more hround hlength]
    have := ih (fun b hb => h b (List.mem_cons_of_mem a hb)) (a :: acc) fun _ => htail
    rw [List.isEmpty_cons] at this
    rw [this, List.reverse_cons, List.append_assoc, List.singleton_append]

/-! ## Lists -/

/-- **A list is read if every item is.** -/
theorem listOf_listed (hc : IsClosing closing) {as : List α}
    (h : ∀ a ∈ as, Starts (render a) ∧ Reads item (render a) a) (rest : List Char) :
    listOf item closing (listed render true as ++ closing :: rest) = .ok (as, rest) := by
  have hiterate : iterate (listRound item closing) id [] (listed render true as ++ closing :: rest) =
      .ok (as.reverse, rest) := by
    have := iterate_listed hc h [] (closing :: rest) fun _ => stops_closing hc rest
    rw [List.isEmpty_nil, List.append_nil] at this
    rw [this, iterate_done (listRound_end hc _ rest)]
  unfold listOf
  rw [bind_of_ok hiterate]
  show Except.ok _ = _
  rw [List.reverse_reverse]

/-- **A list is refused if an item is**, and all items before it are read. -/
theorem listOf_refuses (hc : IsClosing closing) {before after : List α} {a : α}
    (h : ∀ b ∈ before, Starts (render b) ∧ Reads item (render b) b) (hs : Starts (render a))
    (ha : Refuses item (render a)) (rest : List Char) :
    ∃ e, listOf item closing (listed render true (before ++ a :: after) ++ closing :: rest) =
      .error e := by
  have htail := stops_listed render after (stops_closing hc rest)
  obtain ⟨e, he⟩ := ha _ htail
  refine ⟨e, ?_⟩
  have hround : listRound item closing before.reverse (listed render before.isEmpty (a :: after) ++
      closing :: rest) = .error e := by
    have hempty : before.isEmpty = before.reverse.isEmpty := by simp
    rw [listed, List.append_assoc, List.append_assoc, hempty, listRound_item hc hs, bind_of_error he]
  have hiterate : iterate (listRound item closing) id []
      (listed render true (before ++ a :: after) ++ closing :: rest) = .error e := by
    have := iterate_listed hc h [] (listed render before.isEmpty (a :: after) ++ closing :: rest)
      fun hne => by
        have : before.isEmpty = false := by simpa using hne
        rw [this]
        exact stops_cons rfl
    rw [List.isEmpty_nil, List.append_nil] at this
    rw [listed_append, Bool.true_and, List.append_assoc, this, iterate_fault hround]
  unfold listOf
  rw [bind_of_error hiterate]

end StepFlow.Reader
