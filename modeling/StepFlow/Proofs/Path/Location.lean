import Mathlib.Data.List.Basic
import StepFlow.Path.Query.Select
import StepFlow.Proofs.Keyed

/-!
# Locations in documents

A location is the way from a document down to a value in it. What a query selects are locations; the
values that it gives are those that stand there.

* `Hop`, `Json.below?`, `Json.at?`: ways down, and what stands at their end;
* `Segment.hops`, `ways`, `Query.locations`: what a query selects, depth first;
* **`Query.get_eq_at_locations`**: a query gives the values at its locations, in order.
-/

namespace StepFlow

/-- One step down: to a member of an object or to an item of an array. -/
inductive Hop where
  | member (name : String)
  | item (position : Nat)
deriving DecidableEq, Repr

namespace Json

/-- The value one step below a value. -/
def below? (node : Json) : Hop → Option Json
  | .member name => node.member? name
  | .item i => node.items?.bind fun items => items[i]?

/-- The value at a location. -/
def at? : (node : Json) → List Hop → Option Json
  | node, [] => some node
  | node, hop :: rest => (node.below? hop).bind fun child => child.at? rest

/-- Neither `null` nor an array nor an object. -/
def IsScalar : Json → Prop
  | .bool _ => True
  | .num _ => True
  | .str _ => True
  | _ => False

/-- All steps that lead down from a value, in order. -/
def hops : Json → List Hop
  | .arr items => (List.range items.length).map .item
  | .obj members => (Keyed.keys members).map .member
  | _ => []

/-- The position that an index names in a value, if it names one. -/
def position? (index : Int) (node : Json) : Option Nat :=
  node.items?.bind fun items => StepFlow.position? items.length index

end Json

/-! ## What a query selects -/

/-- The step that one choice stands for. -/
def Selector.hop? (node : Json) : Selector → Option Hop
  | .name key => some (.member key)
  | .index i => (node.position? i).map .item

/-- The steps that a segment allows from a value. -/
def Segment.hops (root node : Json) : Segment → List Hop
  | .child name => [.member name]
  | .index i => (node.position? i).toList.map .item
  | .wildcard => node.hops
  | .union choices => choices.filterMap (Selector.hop? node)
  | .slice start stop step =>
    match node with
    | .arr items => (Slice.positions items.length start stop step).map .item
    | _ => []
  | .filter test => node.hops.filter fun hop => (node.below? hop).any (test.holds root)

/-- The ways down from a value all of whose steps are allowed, segment by segment. -/
def ways (root : Json) : List Segment → (node : Json) → List (List Hop)
  | [], _ => [[]]
  | segment :: rest, node =>
    (segment.hops root node).flatMap fun hop =>
      (node.below? hop).elim [] fun child => (ways root rest child).map (hop :: ·)

/-- The locations that a query selects in a document. -/
def Query.locations (q : Query) (document : Json) : List (List Hop) :=
  ways document q.segments document

/-! ## Steps down -/

namespace Json

variable {node child : Json} {hop : Hop}

theorem at?_cons (node : Json) (hop : Hop) (rest : List Hop) :
    node.at? (hop :: rest) = (node.below? hop).bind fun child => child.at? rest := rfl

theorem at?_cons_eq_some {rest : List Hop} {value : Json} : node.at? (hop :: rest) = some value ↔
    ∃ child, node.below? hop = some child ∧ child.at? rest = some value := by
  rw [at?_cons, Option.bind_eq_some_iff]

theorem below?_item {items : List Json} {i : Nat} :
    (Json.arr items).below? (.item i) = items[i]? := rfl

theorem below?_member {members : Keyed Json} {name : String} :
    (Json.obj members).below? (.member name) = Keyed.find? name members := rfl

theorem WellFormed.of_mem_children (h : node.WellFormed) (hc : child ∈ node.children) :
    child.WellFormed := by
  cases h with
  | arr hi => exact hi child hc
  | obj hs hm =>
    obtain ⟨e, he, rfl⟩ := List.mem_map.mp hc
    exact hm e he
  | _ => cases hc

theorem mem_hops (hc : node.below? hop = some child) : hop ∈ node.hops := by
  cases node with
  | arr items =>
    cases hop with
    | member name => cases hc
    | item i => exact List.mem_map_of_mem (List.mem_range.mpr (List.getElem?_eq_some_iff.mp hc).1)
  | obj members =>
    cases hop with
    | member name => exact List.mem_map_of_mem (Keyed.mem_keys.mpr ⟨child, hc⟩)
    | item i => cases hc
  | _ => cases hop <;> cases hc

theorem mem_children_of_below? (hc : node.below? hop = some child) : child ∈ node.children := by
  cases node with
  | arr items =>
    cases hop with
    | member name => cases hc
    | item i => exact List.mem_of_getElem? hc
  | obj members =>
    cases hop with
    | member name => exact List.mem_map_of_mem (Keyed.mem_of_find? hc)
    | item i => cases hc
  | _ => cases hop <;> cases hc

theorem WellFormed.of_below? (h : node.WellFormed) (hc : node.below? hop = some child) :
    child.WellFormed :=
  h.of_mem_children (mem_children_of_below? hc)

theorem map_below?_hops (h : node.WellFormed) :
    node.hops.map node.below? = node.children.map some := by
  cases h with
  | @arr items hi =>
    rw [hops, List.map_map]
    refine List.ext_getElem? fun i => ?_
    rw [List.getElem?_map, List.getElem?_map]
    by_cases h : i < items.length
    · rw [List.getElem?_range h, children, List.getElem?_eq_getElem h]
      exact congrArg some (List.getElem?_eq_getElem h)
    · rw [children, List.getElem?_eq_none (by simpa using h), List.getElem?_eq_none (by simpa using h)]
      rfl
  | @obj members hs hm =>
    rw [hops, children, List.map_map]
    exact Keyed.map_find?_keys hs
  | _ => rfl

theorem map_below?_filter_hops (h : node.WellFormed) (test : Json → Bool) :
    (node.hops.filter fun hop => (node.below? hop).any test).map node.below? =
      (node.children.filter test).map some :=
  calc (node.hops.filter fun hop => (node.below? hop).any test).map node.below?
      = (node.hops.map node.below?).filter fun child => child.any test :=
        (List.filter_map (p := fun child : Option Json => child.any test)).symm
    _ = (node.children.map some).filter fun child => child.any test := by
        rw [map_below?_hops h]
    _ = (node.children.filter test).map some := List.filter_map

end Json

/-! ## A query gives the values at its locations -/

variable {root node : Json}

theorem Selector.select?_eq (node : Json) (choice : Selector) :
    choice.select? node = (choice.hop? node).bind node.below? := by
  cases choice with
  | name key => rfl
  | index i =>
    cases node with
    | arr items =>
      show (position? items.length i).bind _ = ((position? items.length i).map Hop.item).bind _
      rw [Option.bind_map]
      rfl
    | _ => rfl

/-- One segment gives what stands one step down. -/
theorem Segment.select_eq_filterMap (h : node.WellFormed) (segment : Segment) :
    segment.select root node = (segment.hops root node).filterMap node.below? := by
  have hmap : ∀ {hops : List Hop} {nodes : List Json},
      hops.map node.below? = nodes.map some → nodes = hops.filterMap node.below? := by
    intro hops nodes h
    calc nodes = (nodes.map some).filterMap id := by
          rw [List.filterMap_map]
          exact List.filterMap_some.symm
      _ = (hops.map node.below?).filterMap id := by rw [h]
      _ = hops.filterMap node.below? := List.filterMap_map
  cases segment with
  | child name =>
    rw [Segment.select, Segment.hops]
    cases hc : node.member? name <;> simp [Json.below?, hc]
  | index i =>
    rw [Segment.select, Segment.hops]
    cases node with
    | arr items =>
      show ((position? items.length i).bind _).toList =
        ((position? items.length i).toList.map Hop.item).filterMap _
      cases position? items.length i with
      | none => rfl
      | some p => cases hc : items[p]? <;> simp [Json.below?_item, hc]
    | _ => rfl
  | wildcard => exact hmap (Json.map_below?_hops h)
  | union choices =>
    rw [Segment.select, Segment.hops, List.filterMap_filterMap]
    exact congrArg (List.filterMap · choices) (funext (Selector.select?_eq node))
  | slice start stop step =>
    cases node with
    | arr items =>
      rw [Segment.select, Segment.hops, List.filterMap_map]
      rfl
    | _ => rfl
  | filter test => exact hmap (Json.map_below?_filter_hops h _)

theorem mem_ways_cons {segment : Segment} {rest : List Segment} {location : List Hop} :
    location ∈ ways root (segment :: rest) node ↔ ∃ hop child l, hop ∈ segment.hops root node ∧
      node.below? hop = some child ∧ l ∈ ways root rest child ∧ hop :: l = location := by
  rw [ways, List.mem_flatMap]
  constructor
  · rintro ⟨hop, hh, hl⟩
    cases hc : node.below? hop with
    | none =>
      rw [hc] at hl
      exact absurd hl List.not_mem_nil
    | some child =>
      rw [hc] at hl
      obtain ⟨l, hr, rfl⟩ := List.mem_map.mp hl
      exact ⟨hop, child, l, hh, hc, hr, rfl⟩
  · rintro ⟨hop, child, l, hh, hc, hl, rfl⟩
    refine ⟨hop, hh, ?_⟩
    rw [hc]
    exact List.mem_map_of_mem hl

theorem exists_at?_of_mem_ways {segments : List Segment} {location : List Hop}
    (h : location ∈ ways root segments node) : ∃ value, node.at? location = some value := by
  induction segments generalizing node location with
  | nil =>
    cases List.mem_singleton.mp h
    exact ⟨node, rfl⟩
  | cons segment rest ih =>
    obtain ⟨hop, child, l, -, hc, hl, rfl⟩ := mem_ways_cons.mp h
    obtain ⟨value, hv⟩ := ih hl
    exact ⟨value, Json.at?_cons_eq_some.mpr ⟨child, hc, hv⟩⟩

theorem filterMap_at?_ways (h : node.WellFormed) (segment : Segment) (rest : List Segment) :
    (ways root (segment :: rest) node).filterMap node.at? =
      (segment.select root node).flatMap fun child =>
        (ways root rest child).filterMap child.at? := by
  rw [ways, List.filterMap_flatMap, segment.select_eq_filterMap h,
    List.filterMap_eq_flatMap_toList, List.flatMap_assoc]
  refine List.flatMap_congr fun hop _ => ?_
  cases hc : node.below? hop with
  | none => rfl
  | some child =>
    have hat : node.at? ∘ (hop :: ·) = child.at? := by
      funext l
      rw [Function.comp_apply, Json.at?_cons, hc]
      rfl
    show ((ways root rest child).map (hop :: ·)).filterMap node.at? = List.flatMap _ [child]
    rw [List.filterMap_map, hat, List.flatMap_singleton]

theorem selectAll_eq_flatMap (segments : List Segment) {nodes : List Json}
    (h : ∀ node ∈ nodes, node.WellFormed) : selectAll root segments nodes =
      nodes.flatMap fun node => (ways root segments node).filterMap node.at? := by
  induction segments generalizing nodes with
  | nil => exact (List.flatMap_singleton' nodes).symm
  | cons segment rest ih =>
    have hs : ∀ child ∈ nodes.flatMap (segment.select root), child.WellFormed := by
      intro child hc
      obtain ⟨node, hn, hc⟩ := List.mem_flatMap.mp hc
      rw [segment.select_eq_filterMap (h node hn)] at hc
      obtain ⟨hop, -, hc⟩ := List.mem_filterMap.mp hc
      exact (h node hn).of_below? hc
    rw [selectAll, ih hs, List.flatMap_assoc]
    exact List.flatMap_congr fun node hn => (filterMap_at?_ways (h node hn) segment rest).symm

/-- **A query gives the values at its locations**, in the order of the locations. -/
theorem Query.get_eq_at_locations (q : Query) {document : Json} (h : document.WellFormed) :
    (q.get document).map some = (q.locations document).map document.at? := by
  have hget : q.get document = (q.locations document).filterMap document.at? := by
    rw [Query.get, selectAll_eq_flatMap q.segments (List.forall_mem_singleton.mpr h),
      List.flatMap_singleton]
    rfl
  rw [hget, List.map_filterMap, ← List.filterMap_eq_map]
  refine List.filterMap_congr fun location hl => ?_
  obtain ⟨value, hv⟩ := exists_at?_of_mem_ways hl
  rw [Function.comp_apply, hv]
  rfl

end StepFlow
