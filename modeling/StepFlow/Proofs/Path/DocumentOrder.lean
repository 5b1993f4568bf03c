import StepFlow.Path.Basic
import StepFlow.Proofs.Path.Stride

/-!
# Document order

All locations in a document stand in one order: a value before the values within it, and these one after
another, items by position and members by name. A query without unions and without slices that go down
selects its locations in this order.

* `Hop.Before`: the order of steps down, which orders locations as words;
* `Json.locations`: all locations in a document, depth first;
* `Segment.Admits`, `Along`: the steps that segments ask for, one by one;
* `mem_ways_iff_along`, `pairwise_ways`: the ways of a query are those steps, in document order;
* `overrunsAlong_iff`: where a read breaks off;
* **`Query.reads_in_document_order`**: what a read gives.
-/

namespace StepFlow

/-! ## The order of locations -/

/-- Of two steps down from one value, the first one comes before the other one. -/
def Hop.Before : Hop → Hop → Prop
  | .member k, .member l => k < l
  | .item i, .item j => i < j
  | _, _ => False

/-- The order of locations: they are compared from the root down. -/
abbrev LocationBefore : List Hop → List Hop → Prop := List.Lex Hop.Before

theorem Hop.Before.asymm {a b : Hop} (h : a.Before b) : ¬ b.Before a := by
  cases a <;> cases b
  · exact String.lt_asymm h
  · exact fun h => h
  · exact fun h => h
  · exact Nat.lt_asymm h

instance : Std.Irrefl LocationBefore where
  irrefl location := List.lex_irrefl (fun _ h => Hop.Before.asymm h h) location

instance : Std.Antisymm LocationBefore where
  antisymm _ _ h h' := absurd h' (List.lex_asymm Hop.Before.asymm h)

theorem pairwise_flatMap {α : Type} {l : List α} {hop : α → Hop} {f : α → List (List Hop)}
    (hl : l.Pairwise fun a b => (hop a).Before (hop b))
    (hf : ∀ a ∈ l, ∃ rest : List (List Hop), f a = rest.map (hop a :: ·) ∧ rest.Pairwise LocationBefore) :
    (l.flatMap f).Pairwise LocationBefore := by
  refine List.pairwise_flatMap.mpr ⟨fun a ha => ?_, hl.imp_of_mem fun ha hb hab x hx y hy => ?_⟩
  · obtain ⟨rest, hrest, hpairwise⟩ := hf a ha
    rw [hrest]
    exact List.pairwise_map.mpr (hpairwise.imp .cons)
  · obtain ⟨rest, hrest, -⟩ := hf _ ha
    obtain ⟨rest', hrest', -⟩ := hf _ hb
    rw [hrest] at hx
    rw [hrest'] at hy
    obtain ⟨x, -, rfl⟩ := List.mem_map.mp hx
    obtain ⟨y, -, rfl⟩ := List.mem_map.mp hy
    exact .rel hab

/-! ## All locations in a document -/

namespace Json

/-- The values directly below a value, each with the step that leads to it, in order. -/
def parts : Json → List (Hop × Json)
  | .arr items => items.zipIdx.map fun p => (.item p.2, p.1)
  | .obj members => members.map fun e => (.member e.1, e.2)
  | _ => []

mutual

/-- All locations below a value, depth first: the value itself, and then what is within its parts. -/
def locations : Json → List (List Hop)
  | .arr items => [] :: locationsOfItems 0 items
  | .obj members => [] :: locationsOfMembers members
  | _ => [[]]

/-- The locations within the items of an array from position `i` on. -/
def locationsOfItems (i : Nat) : List Json → List (List Hop)
  | [] => []
  | item :: rest => item.locations.map (.item i :: ·) ++ locationsOfItems (i + 1) rest

/-- The locations within the members of an object. -/
def locationsOfMembers : List (String × Json) → List (List Hop)
  | [] => []
  | (name, value) :: rest => value.locations.map (.member name :: ·) ++ locationsOfMembers rest

end

variable {node child : Json} {hop : Hop} {l : List Hop}

theorem hops_eq (node : Json) : node.hops = node.parts.map Prod.fst := by
  cases node with
  | arr items =>
    rw [hops, parts, List.map_map, List.range_eq_range', ← List.zipIdx_map_snd, List.map_map]
    rfl
  | obj members =>
    rw [hops, parts, Keyed.keys, List.map_map, List.map_map]
    rfl
  | _ => rfl

theorem mem_parts (h : node.WellFormed) : (hop, child) ∈ node.parts ↔ node.below? hop = some child := by
  cases h with
  | @arr items hi =>
    simp only [parts, List.mem_map, Prod.mk.injEq, Prod.exists, List.mem_zipIdx_iff_getElem?]
    cases hop with
    | member name => simp [below?, member?]
    | item k => simp [below?_item]
  | @obj members hs hm =>
    simp only [parts, List.mem_map, Prod.mk.injEq, Prod.exists]
    cases hop with
    | member name =>
      simp only [Hop.member.injEq, below?_member]
      constructor
      · rintro ⟨_, _, he, rfl, rfl⟩
        exact Keyed.find?_of_mem (Keyed.nodup_keys hs) he
      · exact fun hc => ⟨name, child, Keyed.mem_of_find? hc, rfl, rfl⟩
    | item k => simp [below?, items?]
  | _ => cases hop <;> simp [parts, below?, member?, items?]

theorem pairwise_hops (h : node.WellFormed) : node.hops.Pairwise Hop.Before := by
  cases h with
  | arr hi => exact List.pairwise_map.mpr List.pairwise_lt_range
  | obj hs hm => exact List.pairwise_map.mpr (List.pairwise_map.mpr hs)
  | _ => exact .nil

theorem locationsOfItems_eq (i : Nat) (items : List Json) : locationsOfItems i items =
    (items.zipIdx i).flatMap fun p => p.1.locations.map (.item p.2 :: ·) := by
  induction items generalizing i with
  | nil => rfl
  | cons item items ih => rw [locationsOfItems, List.zipIdx_cons, List.flatMap_cons, ih]

theorem locationsOfMembers_eq (members : List (String × Json)) : locationsOfMembers members =
    members.flatMap fun e => e.2.locations.map (.member e.1 :: ·) := by
  induction members with
  | nil => rfl
  | cons e members ih => rw [locationsOfMembers, List.flatMap_cons, ih]

theorem locations_eq (node : Json) : node.locations =
    [] :: node.parts.flatMap fun p => p.2.locations.map (p.1 :: ·) := by
  cases node with
  | arr items =>
    rw [locations, locationsOfItems_eq, parts, List.flatMap_map]
  | obj members =>
    rw [locations, locationsOfMembers_eq, parts, List.flatMap_map]
  | _ => rfl

theorem cons_mem_locations (h : node.WellFormed) : hop :: l ∈ node.locations ↔
    ∃ child, node.below? hop = some child ∧ l ∈ child.locations := by
  rw [locations_eq]
  simp only [List.mem_cons, reduceCtorEq, false_or, List.mem_flatMap, List.mem_map, List.cons.injEq,
    Prod.exists, ← mem_parts h]
  constructor
  · rintro ⟨_, child, hp, _, hl, rfl, rfl⟩
    exact ⟨child, hp, hl⟩
  · rintro ⟨child, hp, hl⟩
    exact ⟨hop, child, hp, l, hl, rfl, rfl⟩

/-- **The enumeration is of all locations**: those at which something stands. -/
theorem mem_locations (h : node.WellFormed) :
    l ∈ node.locations ↔ ∃ value, node.at? l = some value := by
  induction l generalizing node with
  | nil =>
    rw [locations_eq]
    exact iff_of_true List.mem_cons_self ⟨node, rfl⟩
  | cons hop l ih =>
    rw [cons_mem_locations h]
    simp only [at?_cons_eq_some]
    constructor
    · rintro ⟨child, hc, hl⟩
      obtain ⟨value, hv⟩ := (ih (h.of_below? hc)).mp hl
      exact ⟨value, child, hc, hv⟩
    · rintro ⟨value, child, hc, hv⟩
      exact ⟨child, hc, (ih (h.of_below? hc)).mpr ⟨value, hv⟩⟩

/-- **The enumeration is in document order.** -/
theorem pairwise_locations (h : node.WellFormed) : node.locations.Pairwise LocationBefore := by
  have hparts : ∀ {node : Json}, node.WellFormed →
      (∀ p ∈ node.parts, p.2.locations.Pairwise LocationBefore) →
        node.locations.Pairwise LocationBefore := by
    intro node h hp
    have hhops := pairwise_hops h
    rw [hops_eq] at hhops
    rw [locations_eq, List.pairwise_cons]
    refine ⟨fun l hl => ?_, pairwise_flatMap (List.pairwise_map.mp hhops) fun p hm => ⟨_, rfl, hp p hm⟩⟩
    obtain ⟨p, -, hl⟩ := List.mem_flatMap.mp hl
    obtain ⟨l, -, rfl⟩ := List.mem_map.mp hl
    exact .nil
  induction h with
  | arr hi ih =>
    refine hparts (.arr hi) fun p hp => ?_
    obtain ⟨q, hq, rfl⟩ := List.mem_map.mp hp
    exact ih _ (List.fst_mem_of_mem_zipIdx hq)
  | obj hs hm ih =>
    refine hparts (.obj hs hm) fun p hp => ?_
    obtain ⟨e, he, rfl⟩ := List.mem_map.mp hp
    exact ih e he
  | _ => simp [locations]

end Json

/-! ## What segments ask for -/

instance (length : Nat) (start stop : Option Int) (step : Int) (i : Nat) :
    Decidable (Slice.Lists length start stop step i) :=
  if hstep : step = 0 then
    decidable_of_iff (i < length ∧ (i : Int) = Slice.origin length start step) <| by
      subst hstep
      refine ⟨fun ⟨hi, heq⟩ => ⟨hi, ⟨0, by simp [heq]⟩, by simp, by simp⟩, ?_⟩
      rintro ⟨hi, ⟨m, hm⟩, -, -⟩
      exact ⟨hi, by simpa using hm⟩
  else decidable_of_iff _ (Slice.mem_positions_iff_lists hstep)

/-- The step leads down from an array to one of its items, and the number of items and the position are
as asked for. -/
def Hop.IsItem (asked : Nat → Nat → Prop) (node : Json) (hop : Hop) : Prop :=
  match node, hop with
  | .arr items, .item p => asked items.length p
  | _, _ => False

instance (asked : Nat → Nat → Prop) [∀ length p, Decidable (asked length p)] (node : Json) (hop : Hop) :
    Decidable (hop.IsItem asked node) :=
  match node, hop with
  | .arr items, .item p => inferInstanceAs (Decidable (asked items.length p))
  | .arr _, .member _ => .isFalse id
  | .null, _ | .bool _, _ | .num _, _ | .str _, _ | .obj _, _ => .isFalse id

/-- The step down from `node` satisfies a segment. -/
def Segment.Admits (root node : Json) (hop : Hop) : Segment → Prop
  | .child name => hop = .member name
  | .index i => hop.IsItem (fun length p => (p : Int) = if i < 0 then i + length else i) node
  | .wildcard => True
  | .union choices => ∃ choice ∈ choices, choice.hop? node = some hop
  | .slice start stop step => hop.IsItem (fun length p => Slice.Lists length start stop step p) node
  | .filter test => (node.below? hop).any (test.holds root) = true

instance (root node : Json) (hop : Hop) : (segment : Segment) → Decidable (segment.Admits root node hop)
  | .child name => inferInstanceAs (Decidable (hop = .member name))
  | .index i =>
    inferInstanceAs (Decidable (hop.IsItem (fun length p => (p : Int) = if i < 0 then i + length else i) node))
  | .wildcard => .isTrue trivial
  | .union choices => inferInstanceAs (Decidable (∃ choice ∈ choices, choice.hop? node = some hop))
  | .slice start stop step =>
    inferInstanceAs (Decidable (hop.IsItem (fun length p => Slice.Lists length start stop step p) node))
  | .filter test => inferInstanceAs (Decidable ((node.below? hop).any (test.holds root) = true))

/-- The steps of a location below `node` satisfy the segments, one by one. -/
def Along (root : Json) : List Segment → (node : Json) → List Hop → Prop
  | [], _, [] => True
  | segment :: rest, node, hop :: l =>
    segment.Admits root node hop ∧ ∃ child ∈ node.below? hop, Along root rest child l
  | _, _, _ => False

instance Along.decidable (root : Json) : (segments : List Segment) → (node : Json) → (l : List Hop) →
    Decidable (Along root segments node l)
  | [], _, [] => .isTrue trivial
  | segment :: rest, node, hop :: l =>
    have : ∀ child, Decidable (Along root rest child l) := fun child => Along.decidable root rest child l
    inferInstanceAs (Decidable (segment.Admits root node hop ∧ ∃ child ∈ node.below? hop, Along root rest child l))
  | [], _, _ :: _ => .isFalse id
  | _ :: _, _, [] => .isFalse id

/-- The locations whose steps satisfy the segments of the query, as the document enumerates them. -/
def Query.selected (q : Query) (document : Json) : List (List Hop) :=
  document.locations.filter fun l => Along document q.segments document l

/-- Neither a union nor a slice that goes down. -/
def Segment.IsForward : Segment → Prop
  | .union _ => False
  | .slice _ _ step => 0 < step
  | _ => True

/-! ## The ways of a query -/

variable {root node child : Json} {segment : Segment} {segments : List Segment} {hop : Hop} {l : List Hop}

theorem Segment.mem_hops_iff_admits (hs : segment.IsForward) (hc : node.below? hop = some child) :
    hop ∈ segment.hops root node ↔ segment.Admits root node hop := by
  cases segment with
  | child name => exact List.mem_singleton
  | index i =>
    cases node with
    | arr items =>
      cases hop with
      | member name => cases hc
      | item p =>
        have hp : p < items.length := (List.getElem?_eq_some_iff.mp hc).1
        simp [Segment.hops, Segment.Admits, Hop.IsItem, Json.position?, Json.items?, position?_eq_some, hp]
    | _ => simp [Segment.hops, Segment.Admits, Hop.IsItem, Json.position?, Json.items?]
  | wildcard => exact iff_of_true (Json.mem_hops hc) trivial
  | union choices => cases hs
  | slice start stop step =>
    have hstep : 0 < step := hs
    cases node with
    | arr items =>
      cases hop with
      | member name => cases hc
      | item p =>
        simp [Segment.hops, Segment.Admits, Hop.IsItem, Slice.mem_positions_iff_lists hstep.ne']
    | _ => simp [Segment.hops, Segment.Admits, Hop.IsItem]
  | filter test => simp [Segment.hops, Segment.Admits, Json.mem_hops hc]

theorem mem_ways_iff_along (hs : ∀ s ∈ segments, s.IsForward) :
    l ∈ ways root segments node ↔ Along root segments node l := by
  induction segments generalizing node l with
  | nil => cases l <;> simp [ways, Along]
  | cons segment rest ih =>
    obtain ⟨hsegment, hrest⟩ := List.forall_mem_cons.mp hs
    rw [mem_ways_cons]
    cases l with
    | nil => simp [Along]
    | cons hop l =>
      constructor
      · rintro ⟨_, child, _, hh, hc, hl, heq⟩
        cases heq
        exact ⟨(Segment.mem_hops_iff_admits hsegment hc).mp hh, child, hc, (ih hrest).mp hl⟩
      · rintro ⟨hh, child, hc, hl⟩
        exact ⟨hop, child, l, (Segment.mem_hops_iff_admits hsegment hc).mpr hh, hc, (ih hrest).mpr hl, rfl⟩

theorem Segment.pairwise_hops (hs : segment.IsForward) (h : node.WellFormed) :
    (segment.hops root node).Pairwise Hop.Before := by
  cases segment with
  | child name => exact List.pairwise_singleton _ _
  | index i =>
    rw [Segment.hops]
    cases node.position? i <;> simp
  | wildcard => exact Json.pairwise_hops h
  | union choices => cases hs
  | slice start stop step =>
    have hstep : 0 < step := hs
    cases node with
    | arr items =>
      refine List.pairwise_map.mpr ((Slice.pairwise_positions ..).imp fun {i j} hij => ?_)
      rw [if_pos hstep] at hij
      exact hij
    | _ => exact .nil
  | filter test => exact (Json.pairwise_hops h).filter _

/-- **The ways of a query are in document order.** -/
theorem pairwise_ways (hs : ∀ s ∈ segments, s.IsForward) (h : node.WellFormed) :
    (ways root segments node).Pairwise LocationBefore := by
  induction segments generalizing node with
  | nil => exact List.pairwise_singleton _ _
  | cons segment rest ih =>
    obtain ⟨hsegment, hrest⟩ := List.forall_mem_cons.mp hs
    refine pairwise_flatMap (Segment.pairwise_hops hsegment h) fun hop _ => ?_
    cases hc : node.below? hop with
    | none => exact ⟨[], rfl, .nil⟩
    | some child => exact ⟨_, rfl, ih hrest (h.of_below? hc)⟩

theorem Query.mem_selected (q : Query) {document : Json} (hd : document.WellFormed) :
    l ∈ q.selected document ↔
      (∃ value, document.at? l = some value) ∧ Along document q.segments document l := by
  rw [Query.selected, List.mem_filter, decide_eq_true_iff, Json.mem_locations hd]

/-- **The locations of a query are those of the document that satisfy its segments**, in the same order. -/
theorem Query.locations_eq_selected (q : Query) (hs : ∀ s ∈ q.segments, s.IsForward) {document : Json}
    (hd : document.WellFormed) : q.locations document = q.selected document := by
  refine (pairwise_ways hs hd).eq_of_mem_iff ((Json.pairwise_locations hd).filter _) fun l => ?_
  rw [q.mem_selected hd, ← mem_ways_iff_along hs]
  exact ⟨fun h => ⟨exists_at?_of_mem_ways h, h⟩, And.right⟩

/-! ## Where a read breaks off -/

theorem mem_select_iff (h : node.WellFormed) : child ∈ segment.select root node ↔
    ∃ hop ∈ segment.hops root node, node.below? hop = some child := by
  rw [segment.select_eq_filterMap h, List.mem_filterMap]

/-- **A read breaks off where a cursor runs out of range** at a value that the segments before it lead
to. -/
theorem overrunsAlong_iff (hs : ∀ s ∈ segments, s.IsForward) {nodes : List Json}
    (h : ∀ node ∈ nodes, node.WellFormed) : overrunsAlong root segments nodes = true ↔
      ∃ node ∈ nodes, ∃ before segment after l x, segments = before ++ segment :: after ∧
        Along root before node l ∧ node.at? l = some x ∧ segment.overruns root x = true := by
  induction segments generalizing nodes with
  | nil => simp [overrunsAlong]
  | cons segment rest ih =>
    obtain ⟨hsegment, hrest⟩ := List.forall_mem_cons.mp hs
    have hnext : ∀ child ∈ nodes.flatMap (segment.select root), child.WellFormed := by
      intro child hc
      obtain ⟨node, hn, hc⟩ := List.mem_flatMap.mp hc
      obtain ⟨hop, -, hc⟩ := (mem_select_iff (h node hn)).mp hc
      exact (h node hn).of_below? hc
    rw [overrunsAlong, Bool.or_eq_true, List.any_eq_true, ih hrest hnext]
    constructor
    · rintro (⟨node, hn, hover⟩ | ⟨child, hc, before, s, after, l, x, rfl, hl, hx, hover⟩)
      · exact ⟨node, hn, [], segment, rest, [], node, rfl, trivial, rfl, hover⟩
      · obtain ⟨node, hn, hc⟩ := List.mem_flatMap.mp hc
        obtain ⟨hop, hh, hc⟩ := (mem_select_iff (h node hn)).mp hc
        exact ⟨node, hn, segment :: before, s, after, hop :: l, x, rfl,
          ⟨(Segment.mem_hops_iff_admits hsegment hc).mp hh, child, hc, hl⟩,
          Json.at?_cons_eq_some.mpr ⟨child, hc, hx⟩, hover⟩
    · rintro ⟨node, hn, before, s, after, l, x, heq, hl, hx, hover⟩
      cases before with
      | nil =>
        cases heq
        cases l with
        | nil =>
          cases hx
          exact .inl ⟨node, hn, hover⟩
        | cons hop l => cases hl
      | cons s' before =>
        cases heq
        cases l with
        | nil => cases hl
        | cons hop l =>
          obtain ⟨hh, child, hc, hl⟩ := hl
          have hchild : child ∈ nodes.flatMap (segment.select root) :=
            List.mem_flatMap.mpr ⟨node, hn, (mem_select_iff (h node hn)).mpr
              ⟨hop, (Segment.mem_hops_iff_admits hsegment hc).mpr hh, hc⟩⟩
          obtain ⟨child', hc', hx⟩ := Json.at?_cons_eq_some.mp hx
          cases hc.symm.trans hc'
          exact .inr ⟨child, hchild, before, s, after, l, x, rfl, hl, hx, hover⟩

/-! ## Single values -/

theorem Segment.IsSingular.overruns (h : segment.IsSingular) : segment.overruns root node = false := by
  cases segment <;> first | rfl | cases h

theorem Segment.IsSingular.length_select_le (h : segment.IsSingular) :
    (segment.select root node).length ≤ 1 := by
  cases segment with
  | child name => exact Option.length_toList_le
  | index i => exact Option.length_toList_le
  | _ => cases h

theorem length_selectAll_le (hs : ∀ s ∈ segments, s.IsSingular) {nodes : List Json}
    (h : nodes.length ≤ 1) : (selectAll root segments nodes).length ≤ 1 := by
  induction segments generalizing nodes with
  | nil => exact h
  | cons segment rest ih =>
    obtain ⟨hsegment, hrest⟩ := List.forall_mem_cons.mp hs
    refine ih hrest ?_
    match nodes, h with
    | [], _ => simp
    | [node], _ =>
      rw [List.flatMap_singleton]
      exact hsegment.length_select_le

/-! ## Reading -/

/-- **What a read gives, and in which order.** A query without unions and without slices that go down
gives a list of values exactly if no cursor runs out of range at a value that the segments before it lead
to. Then the values are those at the locations that the document enumerates and whose steps satisfy the
segments of the query; these locations are all different and in document order. A query of members and
items only always gives a list, of one value at most. -/
theorem Query.reads_in_document_order (q : Query) (hs : ∀ s ∈ q.segments, s.IsForward) {document : Json}
    (hd : document.WellFormed) :
    (∀ values, q.read document = .ok values ↔ q.overruns document = false ∧
      values.map some = (q.selected document).map document.at?) ∧
    (q.overruns document = true ↔ ∃ before segment after l x, q.segments = before ++ segment :: after ∧
      Along document before document l ∧ document.at? l = some x ∧ segment.overruns document x = true) ∧
    (∀ l, l ∈ q.selected document ↔
      (∃ value, document.at? l = some value) ∧ Along document q.segments document l) ∧
    (q.selected document).Pairwise LocationBefore ∧ (q.selected document).Nodup ∧
    ((∀ s ∈ q.segments, s.IsSingular) → ∃ values, q.read document = .ok values ∧ values.length ≤ 1) := by
  have hselected := q.locations_eq_selected hs hd
  have hget := q.get_eq_at_locations hd
  have hpairwise : (q.selected document).Pairwise LocationBefore := (Json.pairwise_locations hd).filter _
  have hoverruns : q.overruns document = true ↔ ∃ before segment after l x,
      q.segments = before ++ segment :: after ∧ Along document before document l ∧
        document.at? l = some x ∧ segment.overruns document x = true := by
    rw [Query.overruns, overrunsAlong_iff hs (List.forall_mem_singleton.mpr hd)]
    simp
  refine ⟨fun values => ?_, hoverruns, fun l => q.mem_selected hd, hpairwise, hpairwise.nodup,
    fun hsingular => ?_⟩
  · rw [← hselected, ← hget, Query.read]
    have hinj : values.map some = (q.get document).map some ↔ values = q.get document :=
      (List.map_injective_iff.mpr (Option.some_injective _)).eq_iff
    rw [hinj]
    by_cases hover : q.overruns document = true
    · simp [hover]
    · simp [hover, eq_comm]
  · refine ⟨q.get document, ?_, length_selectAll_le hsingular (Nat.le_refl 1)⟩
    rw [Query.read, if_neg]
    rw [hoverruns]
    rintro ⟨before, segment, after, l, x, heq, -, -, hover⟩
    have hmem : segment ∈ q.segments := by simp [heq]
    rw [(hsingular segment hmem).overruns] at hover
    cases hover

/-- Three orders, and the state that is wanted of them. -/
def ordersDocument : Json :=
  .obj [("orders", .arr [.obj [("sku", .str "a"), ("state", .str "open")],
    .obj [("sku", .str "b"), ("state", .str "sent")], .obj [("sku", .str "c"), ("state", .str "open")]]),
    ("wanted", .str "open")]

theorem ordersDocument_wellFormed : ordersDocument.WellFormed := by
  have horder : ∀ sku state, (Json.obj [("sku", .str sku), ("state", .str state)]).WellFormed := by
    intro sku state
    exact .obj (Keyed.sorted_pair (by decide)) (by simp [Json.WellFormed.str])
  have horders := Json.WellFormed.arr (List.forall_mem_cons.mpr ⟨horder "a" "open",
    List.forall_mem_cons.mpr ⟨horder "b" "sent", List.forall_mem_singleton.mpr (horder "c" "open")⟩⟩)
  exact .obj (Keyed.sorted_pair (by decide))
    (List.forall_mem_cons.mpr ⟨horders, List.forall_mem_singleton.mpr (.str "open")⟩)

/-- All members of the orders in the state that is wanted. -/
def wantedOrders : Query :=
  ⟨"$.orders[?(@.state == $.wanted)][*]", .root, [.child "orders",
    .filter (.compare (.path .current [.child "state"]) .eq (.path .root [.child "wanted"])), .wildcard]⟩

/-- Two of the three orders pass the filter, which refers to the root. -/
theorem Query.reads_in_document_order_wanted :
    (∀ s ∈ wantedOrders.segments, s.IsForward) ∧ ordersDocument.WellFormed ∧
      wantedOrders.read ordersDocument = .ok [.str "a", .str "open", .str "c", .str "open"] := by
  have hforward : ∀ s ∈ wantedOrders.segments, s.IsForward := by
    simp [wantedOrders, Segment.IsForward]
  obtain ⟨hread, -⟩ := Query.reads_in_document_order wantedOrders hforward ordersDocument_wellFormed
  exact ⟨hforward, ordersDocument_wellFormed, (hread _).mpr ⟨rfl, rfl⟩⟩

/-- The step of a slice leads from the only order that it selects beyond the greatest signed integer. -/
theorem Query.breaks_off_at_last_step : ∃ q : Query,
    Query.parse "$.orders[1::9223372036854775807].sku" = .ok q ∧ (∀ s ∈ q.segments, s.IsForward) ∧
      q.selected ordersDocument = [[.member "orders", .item 1, .member "sku"]] ∧
      q.read ordersDocument = .error (.overrun "$.orders[1::9223372036854775807].sku") := by
  refine ⟨⟨"$.orders[1::9223372036854775807].sku", .root,
    [.child "orders", .slice (some 1) none 9223372036854775807, .child "sku"]⟩,
    by with_unfolding_all rfl, ?_, ?_, rfl⟩
  · simp [Segment.IsForward]
  · decide

end StepFlow
