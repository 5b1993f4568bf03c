import StepFlow.Proofs.Json.Depth
import StepFlow.Proofs.Json.Lists
import StepFlow.Proofs.Json.Quote
import StepFlow.Proofs.Json.Regular
import StepFlow.Proofs.Keyed

/-!
# Documents are read as they are printed

* `Number.Printable`: numbers that are read as they are printed;
* `Json.text_arr`, `Json.text_obj`: the printed form of arrays and objects;
* `Reader.reads_value`: a value is read, if it nests no deeper than the bound, and
* `Reader.refuses_value`: refused if it does;
* **`Json.read?_render`**, **`Json.read?_render_deep`**: whole documents.
-/

namespace StepFlow

/-! ## Printed values -/

/-- The number is read as it is printed. -/
def Number.Printable (n : Number) : Prop := Number.read? n.render.toList = some n

namespace Json

/-- The printed form of a value, as characters. -/
def text (j : Json) : List Char := j.render.toList

/-- The printed form of a member, as characters. -/
def memberText (e : String × Json) : List Char :=
  '"' :: e.1.toList.flatMap escape ++ '"' :: ':' :: e.2.text

theorem text_str (s : String) : (str s).text = '"' :: s.toList.flatMap escape ++ ['"'] := by
  simp [text, render, quote]

theorem renderItems_eq_map (items : List Json) : renderItems items = items.map render := by
  induction items with
  | nil => rfl
  | cons j items ih => rw [renderItems, ih, List.map_cons]

theorem toList_member (e : String × Json) :
    (quote e.1 ++ ":" ++ e.2.render).toList = memberText e := by
  simp [quote, memberText, text]

theorem renderMembers_eq_map (members : Keyed Json) :
    renderMembers members = members.map fun e => quote e.1 ++ ":" ++ e.2.render := by
  induction members with
  | nil => rfl
  | cons e members ih =>
    obtain ⟨k, j⟩ := e
    rw [renderMembers, ih, List.map_cons]

theorem intercalate_eq_listed {α : Type} (f : α → List Char) (as : List α) :
    [','].intercalate (as.map f) = Reader.listed f true as := by
  cases as with
  | nil => rfl
  | cons a as =>
    have key : ∀ (as : List α) (a : α), [','].intercalate (f a :: as.map f) =
        f a ++ Reader.listed f false as := by
      intro as
      induction as with
      | nil =>
        intro a
        simp [Reader.listed]
      | cons b as ih =>
        intro a
        rw [List.map_cons, List.intercalate_cons_cons, ih]
        simp [Reader.listed, Reader.comma]
    rw [List.map_cons, key]
    rfl

theorem text_arr (items : List Json) :
    (arr items).text = '[' :: Reader.listed text true items ++ [']'] := by
  rw [text, render, enclose, String.toList_append, String.toList_append, String.toList_intercalate,
    renderItems_eq_map, List.map_map]
  show '[' :: ([','].intercalate (items.map text)) ++ [']'] = _
  rw [intercalate_eq_listed]

theorem text_obj (members : Keyed Json) :
    (obj members).text = '\x7b' :: Reader.listed memberText true members ++ ['\x7d'] := by
  rw [text, render, enclose, String.toList_append, String.toList_append, String.toList_intercalate,
    renderMembers_eq_map, List.map_map]
  have hmap : members.map (String.toList ∘ fun e => quote e.1 ++ ":" ++ e.2.render) =
      members.map memberText := List.map_congr_left fun e _ => toList_member e
  rw [hmap]
  show '\x7b' :: ([','].intercalate (members.map memberText)) ++ ['\x7d'] = _
  rw [intercalate_eq_listed]

end Json

/-! ## Reading -/

namespace Reader

open Text Text.Scanner Json

variable {rest : List Char}

theorem starts_memberText (e : String × Json) : Starts (memberText e) :=
  ⟨_, _, rfl, rfl, by decide, by decide⟩

/-- A character with which a number starts. -/
def IsNumberHead (c : Char) : Prop := c = '-' ∨ c.isDigit = true

theorem IsNumberHead.ne {c d : Char} (hc : IsNumberHead c) (hd : d ≠ '-') (hd' : d.isDigit = false) :
    c ≠ d := by
  rintro rfl
  rcases hc with rfl | hc
  · exact hd rfl
  · rw [hc] at hd'
    cases hd'

theorem IsNumberHead.isSpace {c : Char} (hc : IsNumberHead c) : isSpace c = false := by
  simp [Reader.isSpace, hc.ne (d := ' ') (by decide) (by decide),
    hc.ne (d := '\t') (by decide) (by decide), hc.ne (d := '\n') (by decide) (by decide),
    hc.ne (d := '\r') (by decide) (by decide)]

theorem head_text_num {n : Number} (h : n.Printable) :
    ∃ c cs, (num n).text = c :: cs ∧ IsNumberHead c := head_of_number (number_of_read? h)

theorem starts_text {j : Json} (h : j.Regular Number.Printable) : Starts j.text := by
  cases h with
  | null => exact ⟨_, _, rfl, rfl, by decide, by decide⟩
  | bool b => cases b <;> exact ⟨_, _, rfl, rfl, by decide, by decide⟩
  | num hn =>
    obtain ⟨c, cs, htext, hc⟩ := head_text_num hn
    exact ⟨c, cs, htext, hc.isSpace, hc.ne (by decide) (by decide), hc.ne (by decide) (by decide)⟩
  | str s => exact text_str s ▸ ⟨_, _, rfl, rfl, by decide, by decide⟩
  | arr => exact text_arr _ ▸ ⟨_, _, rfl, rfl, by decide, by decide⟩
  | obj => exact text_obj _ ▸ ⟨_, _, rfl, rfl, by decide, by decide⟩

/-! ## Values by their first characters -/

variable {d : Nat}

theorem value_null : value d ('n' :: 'u' :: 'l' :: 'l' :: rest) = .ok (.null, rest) := by
  cases d <;> rfl

theorem value_true : value d ('t' :: 'r' :: 'u' :: 'e' :: rest) = .ok (.bool true, rest) := by
  cases d <;> rfl

theorem value_false :
    value d ('f' :: 'a' :: 'l' :: 's' :: 'e' :: rest) = .ok (.bool false, rest) := by
  cases d <;> rfl

theorem value_str (s : String) :
    value d ('"' :: (s.toList.flatMap escape ++ '"' :: rest)) = .ok (.str s, rest) := by
  have hvalue : ∀ cs, value d ('"' :: cs) = (Json.str <$> stringBody) cs := by
    cases d <;> exact fun _ => rfl
  rw [hvalue]
  exact map_of_ok (stringBody_quote s)

theorem value_arr (cs : List Char) :
    value (d + 1) ('[' :: cs) = (Json.arr <$> listOf (value d) ']') cs := rfl

theorem value_obj (cs : List Char) :
    value (d + 1) ('\x7b' :: cs) = (ofMembers <$> listOf (memberWith (value d)) '\x7d') cs := rfl

theorem value_zero_arr (cs : List Char) : ∃ e, value 0 ('[' :: cs) = .error e := ⟨_, rfl⟩

theorem value_zero_obj (cs : List Char) : ∃ e, value 0 ('\x7b' :: cs) = .error e := ⟨_, rfl⟩

theorem valueFrom_number {nested : Option (Part Json)} {c : Char} (hc : IsNumberHead c) :
    valueFrom nested (some c) = Json.num <$> number := by
  have hn : c ≠ 'n' := hc.ne (by decide) (by decide)
  have ht : c ≠ 't' := hc.ne (by decide) (by decide)
  have hf : c ≠ 'f' := hc.ne (by decide) (by decide)
  have hquote : c ≠ '"' := hc.ne (by decide) (by decide)
  have hsquare : c ≠ '[' := hc.ne (by decide) (by decide)
  have hbrace : c ≠ '\x7b' := hc.ne (by decide) (by decide)
  simp [valueFrom, hn, ht, hf, hquote, hsquare, hbrace]

theorem value_number {c : Char} {cs : List Char} (hc : IsNumberHead c) :
    value d (c :: cs) = (Json.num <$> number) (c :: cs) := by
  have hpeek : (peek : Part (Option Char)) (c :: cs) = .ok (some c, c :: cs) := rfl
  cases d <;>
    rw [value, bind_of_ok (skipSpace_of_head hc.isSpace), bind_of_ok hpeek, valueFrom_number hc]

/-! ## Members -/

theorem memberWith_text {item : Part Json} (e : String × Json) (rest : List Char) :
    memberWith item (memberText e ++ rest) = ((fun j => (e.1, j)) <$> item) (e.2.text ++ rest) := by
  simp only [memberText, List.cons_append, List.append_assoc]
  unfold memberWith
  rw [bind_of_ok (skipSpace_of_head rfl), bind_of_ok (expect_cons _ _),
    bind_of_ok (stringBody_quote e.1), bind_of_ok (skipSpace_of_head rfl),
    bind_of_ok (expect_cons _ _)]
  rfl

theorem reads_member {item : Part Json} {e : String × Json} (h : Reads item e.2.text e.2) :
    Reads (memberWith item) (memberText e) e := by
  intro rest hrest
  rw [memberWith_text]
  exact map_of_ok (h rest hrest)

theorem refuses_member {item : Part Json} {e : String × Json} (h : Refuses item e.2.text) :
    Refuses (memberWith item) (memberText e) := by
  intro rest hrest
  obtain ⟨f, hf⟩ := h rest hrest
  rw [memberWith_text]
  exact ⟨f, map_of_error hf⟩

/-! ## Values -/

theorem depth_le_of_mem_items {items : List Json} {j : Json} {d : Nat} (hj : j ∈ items)
    (h : (arr items).depth ≤ d + 1) : j.depth ≤ d := by
  have := depth_lt_of_mem_items hj
  omega

theorem depth_le_of_mem_members {members : Keyed Json} {e : String × Json} {d : Nat}
    (he : e ∈ members) (h : (obj members).depth ≤ d + 1) : e.2.depth ≤ d := by
  have := depth_lt_of_mem_members he
  omega

/-- **A value is read as it is printed**, if it nests no deeper than the bound. -/
theorem reads_value {j : Json} (h : j.Regular Number.Printable) {d : Nat} (hd : j.depth ≤ d) :
    Reads (value d) j.text j := by
  intro rest hrest
  induction h generalizing d rest with
  | null => exact value_null
  | bool b =>
    cases b with
    | false => exact value_false
    | true => exact value_true
  | @num n hn =>
    obtain ⟨c, cs, htext, hc⟩ := head_text_num hn
    rw [htext, List.cons_append, value_number hc, ← List.cons_append, ← htext]
    exact map_of_ok (number_append hn hrest)
  | str s =>
    simp only [text_str, List.cons_append, List.append_assoc, List.nil_append]
    exact value_str s
  | @arr items hitems ih =>
    simp only [text_arr, List.cons_append, List.append_assoc, List.nil_append]
    cases d with
    | zero => exact absurd hd (by simp [depth])
    | succ d =>
      rw [value_arr]
      refine map_of_ok (listOf_listed (.inl rfl) (fun j hj => ⟨starts_text (hitems j hj), ?_⟩) rest)
      exact ih j hj (depth_le_of_mem_items hj hd)
  | @obj members hsorted hmembers ih =>
    simp only [text_obj, List.cons_append, List.append_assoc, List.nil_append]
    cases d with
    | zero => exact absurd hd (by simp [depth])
    | succ d =>
      have hlist : listOf (memberWith (value d)) '\x7d'
          (listed memberText true members ++ '\x7d' :: rest) = .ok (members, rest) :=
        listOf_listed (.inr rfl) (fun e he => ⟨starts_memberText e, reads_member fun rest hrest =>
          ih e he (depth_le_of_mem_members he hd) rest hrest⟩) rest
      rw [value_obj]
      rw [map_of_ok hlist, ofMembers, Keyed.ofList_of_sorted hsorted]

/-- **A value is refused** if it nests deeper than the bound. -/
theorem refuses_value {j : Json} (h : j.Regular Number.Printable) {d : Nat} (hd : d < j.depth) :
    Refuses (value d) j.text := by
  intro rest hrest
  induction h generalizing d rest with
  | null => exact absurd hd (Nat.not_lt_zero d)
  | bool b => exact absurd hd (Nat.not_lt_zero d)
  | num => exact absurd hd (Nat.not_lt_zero d)
  | str s => exact absurd hd (Nat.not_lt_zero d)
  | @arr items hitems ih =>
    simp only [text_arr, List.cons_append, List.append_assoc, List.nil_append]
    cases d with
    | zero => exact value_zero_arr _
    | succ d =>
      obtain ⟨before, j, after, rfl, hbefore, hj⟩ := exists_deep_item (Nat.lt_of_succ_lt_succ hd)
      have hmem : j ∈ before ++ j :: after := List.mem_append_right _ List.mem_cons_self
      have hlist : ∃ e, listOf (value d) ']'
          (listed text true (before ++ j :: after) ++ ']' :: rest) = .error e :=
        listOf_refuses (.inl rfl) (fun b hb => ⟨starts_text (hitems b (List.mem_append_left _ hb)),
          reads_value (hitems b (List.mem_append_left _ hb)) (hbefore b hb)⟩)
          (starts_text (hitems j hmem)) (ih j hmem hj) rest
      obtain ⟨e, he⟩ := hlist
      exact ⟨e, value_arr _ ▸ map_of_error he⟩
  | @obj members hsorted hmembers ih =>
    simp only [text_obj, List.cons_append, List.append_assoc, List.nil_append]
    cases d with
    | zero => exact value_zero_obj _
    | succ d =>
      obtain ⟨before, m, after, rfl, hbefore, hm⟩ := exists_deep_member (Nat.lt_of_succ_lt_succ hd)
      have hmem : m ∈ before ++ m :: after := List.mem_append_right _ List.mem_cons_self
      have hlist : ∃ e, listOf (memberWith (value d)) '\x7d'
          (listed memberText true (before ++ m :: after) ++ '\x7d' :: rest) = .error e :=
        listOf_refuses (.inr rfl) (fun b hb => ⟨starts_memberText b,
          reads_member (reads_value (hmembers b (List.mem_append_left _ hb)) (hbefore b hb))⟩)
          (starts_memberText m) (refuses_member (ih m hmem hm)) rest
      obtain ⟨e, he⟩ := hlist
      exact ⟨e, value_obj _ ▸ map_of_error he⟩

end Reader

/-! ## Documents -/

open Text Text.Scanner Reader

variable {j : Json}

/-- **A document is read as it is printed**, if it does not nest too deep. -/
theorem Json.read?_render (h : j.Regular Number.Printable) (hd : j.depth ≤ maxDepth) :
    Json.read? j.render = some j := by
  have hvalue : value maxDepth j.text = .ok (j, []) := by
    have := reads_value h hd [] stops_nil
    rwa [List.append_nil] at this
  have hdocument : document j.render.toList = .ok (j, []) := by
    unfold document
    rw [show j.render.toList = j.text from rfl, bind_of_ok hvalue]
    rfl
  unfold Json.read? complete
  rw [hdocument]
  rfl

/-- **A document that nests too deep is refused** although it is printed. -/
theorem Json.read?_render_deep (h : j.Regular Number.Printable) (hd : maxDepth < j.depth) :
    Json.read? j.render = none := by
  obtain ⟨e, he⟩ := refuses_value h hd [] stops_nil
  rw [List.append_nil] at he
  have hdocument : document j.render.toList = .error e := by
    unfold document
    rw [show j.render.toList = j.text from rfl, bind_of_error he]
  unfold Json.read? complete
  rw [hdocument]
  rfl

end StepFlow
