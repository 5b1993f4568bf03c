import Mathlib.Data.List.Nodup
import StepFlow.Proofs.Path.Put

/-!
# A write hits what a read selects

A write goes down depth first and changes the document on its way, while a read works on the document
as it is. They agree on the places all the same: below every value a write changes what a read selects
there, each place once, and leaves the rest of what exists alone.

* `Slice.pairwise_positions`, `Slice.nodup_positions`: a slice goes on in the direction of its step and
  visits no position twice;
* `Rewritten`: what one segment of a write does to the values one step down;
* `rewritten_cons`: every segment but a union does just that where a read selects;
* **`Query.set_hits_selection`**: a write without unions changes what is selected, and no scalar beside.
-/

namespace StepFlow

/-! ## The positions of a slice -/

namespace Slice

variable {stop step cursor x : Int} {rounds : Nat}

theorem dropLast_cursors_succ : (cursors stop step (rounds + 1) cursor).dropLast =
    if inside cursor stop step then cursor :: (cursors stop step rounds (cursor + step)).dropLast
    else [] := by
  rw [cursors]
  split
  · refine List.dropLast_cons_of_ne_nil ?_
    cases rounds with
    | zero => simp [cursors]
    | succ rounds =>
      rw [cursors]
      split <;> simp
  · rfl

theorem mem_dropLast_cursors (h : x ∈ (cursors stop step rounds cursor).dropLast) :
    inside x stop step = true ∧ (0 < step → cursor ≤ x) ∧ (step < 0 → x ≤ cursor) := by
  induction rounds generalizing cursor with
  | zero => cases h
  | succ rounds ih =>
    rw [dropLast_cursors_succ] at h
    split at h
    · next hi =>
      rcases List.mem_cons.mp h with rfl | h
      · exact ⟨hi, fun _ => Int.le_refl x, fun _ => Int.le_refl x⟩
      · obtain ⟨hx, hle, hge⟩ := ih h
        exact ⟨hx, fun hs => by have := hle hs; omega, fun hs => by have := hge hs; omega⟩
    · cases h

theorem pairwise_dropLast_cursors : (cursors stop step rounds cursor).dropLast.Pairwise fun x y =>
    if 0 < step then x < y else y < x := by
  induction rounds generalizing cursor with
  | zero => simp [cursors]
  | succ rounds ih =>
    rw [dropLast_cursors_succ]
    by_cases hi : inside cursor stop step = true
    · rw [if_pos hi, List.pairwise_cons]
      refine ⟨fun y hy => ?_, ih⟩
      obtain ⟨-, hle, hge⟩ := mem_dropLast_cursors hy
      by_cases hup : 0 < step
      · rw [if_pos hup]
        omega
      · simp only [inside, hup, if_false, Bool.and_eq_true, decide_eq_true_eq] at hi
        rw [if_neg hup]
        omega
    · simp [hi]

theorem nonneg_of_mem_places {length : Nat} {start stop : Option Int}
    (h : x ∈ (places length start stop step).dropLast) : 0 ≤ x := by
  obtain ⟨hinside, hle, -⟩ := mem_dropLast_cursors h
  unfold inside at hinside
  by_cases hs : step > 0
  · have hfirst : 0 ≤ first length start step := by
      rw [first, if_pos hs, clamp]
      omega
    have hx := hle hs
    omega
  · -- going down, the cursor stays behind the end of the slice, which is `-1` at least
    have hlast : -1 ≤ last length stop step := by
      rw [last, if_neg hs, clamp]
      omega
    simp only [hs, if_false, Bool.and_eq_true, decide_eq_true_eq] at hinside
    omega

/-- A slice visits the positions one behind the other in the direction of its step. -/
theorem pairwise_positions (length : Nat) (start stop : Option Int) (step : Int) :
    (positions length start stop step).Pairwise fun i j => if 0 < step then i < j else j < i := by
  refine List.pairwise_map.mpr (pairwise_dropLast_cursors.imp_of_mem fun hx hy hxy => ?_)
  have h0 := nonneg_of_mem_places hx
  have h1 := nonneg_of_mem_places hy
  split_ifs at hxy ⊢ <;> omega

theorem nodup_positions (length : Nat) (start stop : Option Int) (step : Int) :
    (positions length start stop step).Nodup := by
  refine (pairwise_positions length start stop step).imp fun hij => ?_
  split_ifs at hij <;> omega

end Slice

/-! ## One step of a write -/

/-- `after` is `before` where `write` has been done at some of the steps down and no other value has
changed. -/
structure Rewritten (write : Json → Written Json) (chosen : Hop → Prop) (before after : Json) :
    Prop where
  written : ∀ {hop child}, before.below? hop = some child → chosen hop →
    (write child).fault = none ∧ after.below? hop = some (write child).result
  kept : ∀ {hop child}, before.below? hop = some child → ¬ chosen hop →
    after.below? hop = some child
  scalar : before.IsScalar → after = before

variable {root value node child : Json} {w : Json → Written Json} {segment : Segment}
  {rest segments : List Segment} {hop : Hop} {items : List Json}

theorem Written.andThen_fault {α : Type} {u : Written α} {next : α → Written α} :
    (u.andThen next).fault = none ↔ u.fault = none ∧ (next u.result).fault = none := by
  unfold Written.andThen
  cases h : u.fault <;> simp [h]

theorem Written.andThen_of_fault {α : Type} {u : Written α} (h : u.fault = none)
    (next : α → Written α) : u.andThen next = next u.result := by
  rw [Written.andThen, h]

theorem writeAt_of_fault {i j : Nat} (h : (writeAt i w items).fault = none) :
    (∀ {old}, items[i]? = some old →
      (w old).fault = none ∧ (writeAt i w items).result[i]? = some (w old).result) ∧
    (j ≠ i → (writeAt i w items).result[j]? = items[j]?) := by
  rw [writeAt] at h ⊢
  split at h
  · next old hold =>
    refine ⟨fun {old'} ho => ?_, fun hj => List.getElem?_set_ne (Ne.symm hj)⟩
    cases hold.symm.trans ho
    exact ⟨h, List.getElem?_set_self (List.getElem?_eq_some_iff.mp hold).1⟩
  · next hnone =>
    refine ⟨fun {old'} ho => ?_, fun _ => rfl⟩
    rw [hnone] at ho
    cases ho

/-- Changing items at different positions changes each of them once. -/
theorem writePositions_of_fault {positions : List Nat} {j : Nat} (hn : positions.Nodup)
    (h : (writePositions w positions items).fault = none) :
    (j ∈ positions → ∀ {old}, items[j]? = some old → (w old).fault = none ∧
      (writePositions w positions items).result[j]? = some (w old).result) ∧
    (j ∉ positions → (writePositions w positions items).result[j]? = items[j]?) := by
  induction positions generalizing items with
  | nil => exact ⟨fun hj => absurd hj List.not_mem_nil, fun _ => rfl⟩
  | cons i rest ih =>
    obtain ⟨hi, hrest⟩ := List.nodup_cons.mp hn
    rw [writePositions] at h ⊢
    obtain ⟨hfirst, hnext⟩ := Written.andThen_fault.mp h
    obtain ⟨hself, hother⟩ := writeAt_of_fault (j := j) hfirst
    obtain ⟨hmem, hnot⟩ := ih hrest hnext
    rw [Written.andThen_of_fault hfirst]
    constructor
    · intro hj old ho
      rcases List.mem_cons.mp hj with rfl | hj
      · rw [hnot hi]
        exact hself ho
      · have hne : j ≠ i := fun heq => hi (heq ▸ hj)
        exact hmem hj ((hother hne).trans ho)
    · intro hj
      obtain ⟨hne, hj⟩ := not_or.mp (mt List.mem_cons.mpr hj)
      rw [hnot hj, hother hne]

theorem rewritten_each (h : (writeEach w node).fault = none) :
    Rewritten w (fun _ => True) node (writeEach w node).result where
  written hc _ := by
    rw [result_writeEach h, Json.below?_mapChildren, hc]
    exact ⟨writeEach_eq_none_iff.mp h _ (Json.mem_children_of_below? hc), rfl⟩
  kept _ hchosen := absurd trivial hchosen
  scalar hscalar := by
    cases node with
    | arr items => cases hscalar
    | obj members => cases hscalar
    | _ => rfl

theorem rewritten_singular (hs : segment.IsSingular)
    (h : (write root value (segment :: rest) node).fault = none) :
    Rewritten (write root value rest) (· ∈ segment.hops root node) node
      (write root value (segment :: rest) node).result := by
  obtain ⟨hop, hl, hi, hw⟩ := exists_lands_of_fault_eq_none hs h
  rw [hw]
  refine ⟨fun {other child} hc hchosen => ?_, fun {other child} hc hchosen => ?_, fun hscalar => ?_⟩
  · cases hl.eq_of_mem_hops hchosen
    rw [hc, Option.getD_some] at hi ⊢
    exact ⟨hi, Json.below?_put_self ..⟩
  · have hne : other ≠ hop := by
      rintro rfl
      exact hchosen (hl.hops_eq hc ▸ List.mem_singleton_self other)
    exact Json.below?_put_of_ne hl.takes hne hc _
  · exact absurd hscalar hl.not_isScalar

theorem rewritten_slice {start stop : Option Int} {step : Int}
    (h : (write root value (.slice start stop step :: rest) node).fault = none) :
    Rewritten (write root value rest) (· ∈ (Segment.slice start stop step).hops root node) node
      (write root value (.slice start stop step :: rest) node).result := by
  rw [write.eq_def] at h ⊢
  cases node with
  | arr items =>
    dsimp only at h ⊢
    have hfits : Slice.fits items.length start stop step = true := by
      by_contra hfits
      rw [if_neg hfits] at h
      cases h
    rw [if_pos hfits] at h ⊢
    have hpositions := Slice.nodup_positions items.length start stop step
    refine ⟨fun {hop child} hc hchosen => ?_, fun {hop child} hc hchosen => ?_, fun hs => by cases hs⟩
    · obtain ⟨i, hi, rfl⟩ := List.mem_map.mp hchosen
      exact (writePositions_of_fault hpositions h).1 hi hc
    · cases hop with
      | member name => cases hc
      | item i =>
        have hi := fun hi => hchosen (List.mem_map_of_mem hi)
        exact ((writePositions_of_fault hpositions h).2 hi).trans hc
  | _ => exact ⟨fun _ hchosen => absurd hchosen List.not_mem_nil, fun hc _ => hc, fun _ => rfl⟩

theorem rewritten_filter {test : Filter}
    (h : (write root value (.filter test :: rest) node).fault = none) :
    Rewritten (write root value rest) (· ∈ (Segment.filter test).hops root node) node
      (write root value (.filter test :: rest) node).result := by
  rw [write] at h ⊢
  have heach := rewritten_each h
  have hfits : ∀ {hop child}, node.below? hop = some child → ¬ test.overruns root child = true := by
    intro hop child hc hover
    have hfault := (heach.written hc trivial).1
    rw [if_pos hover] at hfault
    cases hfault
  refine ⟨fun {hop child} hc hchosen => ?_, fun {hop child} hc hchosen => ?_, heach.scalar⟩
  · have hpass : test.holds root child = true := by
      have hany := (List.mem_filter.mp hchosen).2
      rwa [hc] at hany
    have hwritten := heach.written hc trivial
    rwa [if_neg (hfits hc), if_pos hpass] at hwritten
  · have hfail : ¬ test.holds root child = true := by
      intro hpass
      refine hchosen (List.mem_filter.mpr ⟨Json.mem_hops hc, ?_⟩)
      rw [hc]
      exact hpass
    have hwritten := heach.written hc trivial
    rw [if_neg (hfits hc), if_neg hfail] at hwritten
    exact hwritten.2

/-- **A segment of a write does its work where a read selects**, and there only. -/
theorem rewritten_cons (hs : ∀ choices, segment ≠ .union choices)
    (h : (write root value (segment :: rest) node).fault = none) :
    Rewritten (write root value rest) (· ∈ segment.hops root node) node
      (write root value (segment :: rest) node).result := by
  cases segment with
  | child name => exact rewritten_singular trivial h
  | index i => exact rewritten_singular trivial h
  | wildcard =>
    rw [write] at h ⊢
    have heach := rewritten_each h
    exact ⟨fun hc _ => heach.written hc trivial,
      fun hc hchosen => absurd (Json.mem_hops hc) hchosen, heach.scalar⟩
  | union choices => exact absurd rfl (hs choices)
  | slice start stop step => exact rewritten_slice h
  | filter test => exact rewritten_filter h

/-! ## Whole queries -/

theorem not_union_of_cons (hs : ∀ choices, .union choices ∉ segment :: rest) :
    (∀ choices, segment ≠ .union choices) ∧ ∀ choices, .union choices ∉ rest := by
  refine ⟨?_, fun choices hm => hs choices (List.mem_cons_of_mem segment hm)⟩
  rintro choices rfl
  exact hs choices List.mem_cons_self

theorem at?_write_of_mem_ways (hs : ∀ choices, .union choices ∉ segments)
    (h : (write root value segments node).fault = none) {location : List Hop}
    (hl : location ∈ ways root segments node) :
    (write root value segments node).result.at? location = some value := by
  induction segments generalizing node location with
  | nil =>
    cases List.mem_singleton.mp hl
    rfl
  | cons segment rest ih =>
    obtain ⟨hsegment, hrest⟩ := not_union_of_cons hs
    obtain ⟨hop, child, l, hh, hc, hr, rfl⟩ := mem_ways_cons.mp hl
    obtain ⟨hfault, hbelow⟩ := (rewritten_cons hsegment h).written hc hh
    exact Json.at?_cons_eq_some.mpr ⟨_, hbelow, ih hrest hfault hr⟩

/-- A write leaves scalars alone that no such way leads to or past. -/
theorem at?_write_of_scalar (hs : ∀ choices, .union choices ∉ segments)
    (h : (write root value segments node).fault = none) {location : List Hop} {x : Json}
    (hx : node.at? location = some x) (hscalar : x.IsScalar)
    (hl : ∀ l ∈ ways root segments node, ¬ l <+: location) :
    (write root value segments node).result.at? location = some x := by
  induction segments generalizing node location with
  | nil => exact absurd List.nil_prefix (hl [] (List.mem_singleton.mpr rfl))
  | cons segment rest ih =>
    obtain ⟨hsegment, hrest⟩ := not_union_of_cons hs
    have hstep := rewritten_cons hsegment h
    cases location with
    | nil =>
      cases hx
      rw [hstep.scalar hscalar]
      rfl
    | cons hop location =>
      obtain ⟨child, hc, hx⟩ := Json.at?_cons_eq_some.mp hx
      refine Json.at?_cons_eq_some.mpr ?_
      by_cases hh : hop ∈ segment.hops root node
      · obtain ⟨hfault, hbelow⟩ := hstep.written hc hh
        refine ⟨_, hbelow, ih hrest hfault hx fun l hm hp => ?_⟩
        exact hl (hop :: l) (mem_ways_cons.mpr ⟨hop, child, l, hh, hc, hm, rfl⟩)
          (List.cons_prefix_cons.mpr ⟨rfl, hp⟩)
      · exact ⟨child, hstep.kept hc hh, hx⟩

/-- **A write hits what a read selects.** If a write without unions succeeds, its value stands at every
location that the query selects in the document, which are the places of the values that a read gives;
and every scalar at or above which nothing is selected is as before. -/
theorem Query.set_hits_selection (q : Query) (hs : ∀ choices, .union choices ∉ q.segments)
    {document value : Json} (h : (q.set value document).fault = none) :
    (document.WellFormed →
      (q.get document).map some = (q.locations document).map document.at?) ∧
    (∀ location ∈ q.locations document, (q.set value document).result.at? location = some value) ∧
    ∀ location x, document.at? location = some x → x.IsScalar →
      (∀ l ∈ q.locations document, ¬ l <+: location) →
        (q.set value document).result.at? location = some x :=
  ⟨q.get_eq_at_locations, fun _ hl => at?_write_of_mem_ways hs h hl,
    fun _ _ hx hscalar hl => at?_write_of_scalar hs h hx hscalar hl⟩

/-- A filter that refers to the root, and a slice below it: the second item of the first list is
written, the second item of the other list is not. -/
theorem Query.set_hits_filtered_slice :
    (Query.set ⟨"$.a[?(@.k == $.want)].v[1:]", .root, [.child "a",
        .filter (.compare (.path .current [.child "k"]) .eq (.path .root [.child "want"])),
        .child "v", .slice (some 1) none 1]⟩ (.str "z")
      (.obj [("a", .arr [.obj [("k", .str "x"), ("v", .arr [.bool true, .null])],
        .obj [("k", .str "y"), ("v", .arr [.bool true, .bool true])]]),
        ("want", .str "x")])).result.at? [.member "a", .item 0, .member "v", .item 1] =
      some (.str "z") ∧
    (Query.set ⟨"$.a[?(@.k == $.want)].v[1:]", .root, [.child "a",
        .filter (.compare (.path .current [.child "k"]) .eq (.path .root [.child "want"])),
        .child "v", .slice (some 1) none 1]⟩ (.str "z")
      (.obj [("a", .arr [.obj [("k", .str "x"), ("v", .arr [.bool true, .null])],
        .obj [("k", .str "y"), ("v", .arr [.bool true, .bool true])]]),
        ("want", .str "x")])).result.at? [.member "a", .item 1, .member "v", .item 1] =
      some (.bool true) := by
  have h : (Query.set ⟨"$.a[?(@.k == $.want)].v[1:]", .root, [.child "a",
        .filter (.compare (.path .current [.child "k"]) .eq (.path .root [.child "want"])),
        .child "v", .slice (some 1) none 1]⟩ (.str "z")
      (.obj [("a", .arr [.obj [("k", .str "x"), ("v", .arr [.bool true, .null])],
        .obj [("k", .str "y"), ("v", .arr [.bool true, .bool true])]]),
        ("want", .str "x")])).fault = none := by decide
  obtain ⟨-, hwritten, hkept⟩ := Query.set_hits_selection _ (by simp) h
  exact ⟨hwritten _ (by decide), hkept _ _ rfl trivial (by decide)⟩

end StepFlow
