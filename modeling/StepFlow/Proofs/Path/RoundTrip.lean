import StepFlow.Proofs.Path.Basic
import StepFlow.Proofs.Path.Put

/-!
# Writing back what was read

What a reference path reads can be written back. The document is the same afterwards unless a wildcard
of the path leads to a value that lacks what comes next: a read passes over such a value, but a write
adds what is missing, or fails.

* `Unbroken`: every member and index on the way exists, also below every wildcard;
* `write_of_unbroken`, `unbroken_of_write`: writing back along an unbroken way changes nothing, and
  after a write the way is unbroken;
* **`ReferencePath.merge_read`**: which round trips are faithful;
* **`ReferencePath.merge_read_adds_member`**: one that is not.
-/

namespace StepFlow

/-- The members and items that the segments name all exist, below every value that a wildcard leads
to. -/
def Unbroken : List Segment → Json → Prop
  | [], _ => True
  | .child name :: rest, node => ∃ child, node.member? name = some child ∧ Unbroken rest child
  | .index i :: rest, node => ∃ child, node.item? i = some child ∧ Unbroken rest child
  | .wildcard :: rest, node => ∀ child ∈ node.children, Unbroken rest child
  | _, _ => False

variable {root root' value node child : Json} {w : Json → Written Json} {segment : Segment}
  {rest segments : List Segment}

theorem mem_selectAll {nodes : List Json} {x : Json} : x ∈ selectAll root segments nodes ↔
    ∃ node ∈ nodes, x ∈ selectAll root segments [node] := by
  induction segments generalizing nodes with
  | nil => simp [selectAll]
  | cons segment rest ih =>
    simp only [selectAll, List.flatMap_singleton]
    rw [ih]
    constructor
    · rintro ⟨child, hc, hx⟩
      obtain ⟨node, hn, hc⟩ := List.mem_flatMap.mp hc
      exact ⟨node, hn, ih.mpr ⟨child, hc, hx⟩⟩
    · rintro ⟨node, hn, hx⟩
      obtain ⟨child, hc, hx⟩ := ih.mp hx
      exact ⟨child, List.mem_flatMap.mpr ⟨node, hn, hc⟩, hx⟩

theorem unbroken_singular (root : Json) (hs : segment.IsSingular) :
    Unbroken (segment :: rest) node ↔
      ∃ child, segment.select root node = [child] ∧ Unbroken rest child := by
  cases segment with
  | child name =>
    refine exists_congr fun child => and_congr_left fun _ => ?_
    rw [Segment.select, Option.toList_eq_singleton_iff]
  | index i =>
    refine exists_congr fun child => and_congr_left fun _ => ?_
    rw [Segment.select, Option.toList_eq_singleton_iff]
  | _ => cases hs

/-! ## Writing back -/

theorem writeEach_of_done (h : ∀ child ∈ node.children, w child = .done child) :
    writeEach w node = .done node := by
  have hfault : (writeEach w node).fault = none :=
    writeEach_eq_none_iff.mpr fun child hc => congrArg Written.fault (h child hc)
  have hresult : (writeEach w node).result = node :=
    (result_writeEach hfault).trans
      (Json.mapChildren_of_eq fun child hc => congrArg Written.result (h child hc))
  exact congrArg₂ Written.mk hresult hfault

/-- Along an unbroken way, writing the value that stands at every end changes nothing. -/
theorem write_of_unbroken (hd : node.WellFormed) (hu : Unbroken segments node)
    (hv : ∀ x ∈ selectAll root segments [node], x = value) :
    write root' value segments node = .done node := by
  induction segments generalizing node with
  | nil =>
    rw [hv node (List.mem_singleton_self node)]
    rfl
  | cons segment rest ih =>
    rw [selectAll, List.flatMap_singleton] at hv
    have hsingular : segment.IsSingular →
        write root' value (segment :: rest) node = .done node := by
      intro hs
      obtain ⟨child, hc, hrest⟩ := (unbroken_singular root hs).mp hu
      rw [hc] at hv
      obtain ⟨hop, hl⟩ := exists_lands_of_mem_select hs (hc ▸ List.mem_singleton_self child)
      have hbelow := Option.toList_eq_singleton_iff.mp (hl.select_eq.symm.trans hc)
      rw [hl.write_eq, hbelow, Option.getD_some, ih (hd.of_below? hbelow) hrest hv]
      exact congrArg Written.done (Json.put_of_below? hd hbelow)
    cases segment with
    | child name => exact hsingular trivial
    | index i => exact hsingular trivial
    | wildcard =>
      rw [write]
      refine writeEach_of_done fun child hc => ih (hd.of_mem_children hc) (hu child hc) ?_
      intro x hx
      exact hv x (mem_selectAll.mpr ⟨child, hc, hx⟩)
    | _ => cases hu

/-! ## After a write -/

theorem unbroken_of_write (hs : ∀ segment ∈ segments, segment.forbidden? = none)
    (h : (write root value segments node).fault = none) :
    Unbroken segments (write root value segments node).result := by
  induction segments generalizing node with
  | nil => trivial
  | cons segment rest ih =>
    obtain ⟨hsegment, hrest⟩ := List.forall_mem_cons.mp hs
    have hsingular : segment.IsSingular →
        Unbroken (segment :: rest) (write root value (segment :: rest) node).result := by
      intro hs
      obtain ⟨hop, hl, hi, hw⟩ := exists_lands_of_fault_eq_none hs h
      refine (unbroken_singular root hs).mpr ⟨_, ?_, ih hrest hi⟩
      rw [hw, (hl.put _).select_eq, Json.below?_put_self]
      rfl
    cases segment with
    | child name => exact hsingular trivial
    | index i => exact hsingular trivial
    | wildcard =>
      rw [write] at h ⊢
      intro child hc
      rw [result_writeEach h, Json.children_mapChildren] at hc
      obtain ⟨old, hold, rfl⟩ := List.mem_map.mp hc
      exact ih hrest (writeEach_eq_none_iff.mp h old hold)
    | _ => cases hsegment

theorem unbroken_of_selectAll (hs : ∀ segment ∈ segments, segment.IsSingular) {x : Json}
    (hx : x ∈ selectAll root segments [node]) : Unbroken segments node := by
  induction segments generalizing node with
  | nil => trivial
  | cons segment rest ih =>
    obtain ⟨hsegment, hrest⟩ := List.forall_mem_cons.mp hs
    rw [selectAll, List.flatMap_singleton] at hx
    obtain ⟨child, hc, hx⟩ := mem_selectAll.mp hx
    obtain ⟨hop, hl⟩ := exists_lands_of_mem_select hsegment hc
    rw [hl.select_eq, Option.mem_toList] at hc
    refine (unbroken_singular root hsegment).mpr ⟨child, ?_, ih hrest hx⟩
    rw [hl.select_eq, hc]
    rfl

/-! ## Reference paths -/

theorem Query.put_eq_ok {q : Query} {document result : Json} :
    q.put value document = .ok result ↔
      (q.set value document).fault = none ∧ (q.set value document).result = result := by
  rw [Query.put]
  split
  · next h => simp [h]
  · next h => simp [h]
  · next h => simp [h]

/-- **Which round trips are faithful.** If a reference path reads a value from a document, writing it
back gives the same document exactly if the way of the path is unbroken. Without wildcards it always
is. -/
theorem ReferencePath.merge_read {text : String} {p : ReferencePath}
    (hp : ReferencePath.parse text = .ok p) (hcontext : ∀ rest, text.toList ≠ '$' :: '$' :: rest)
    (context : Json) {document value : Json} (hd : document.WellFormed)
    (hv : p.path.read context document = .ok value) :
    (p.path.merge context document value = .ok document ↔ Unbroken p.path.query.segments document) ∧
      (.wildcard ∉ p.path.query.segments → p.path.merge context document value = .ok document) := by
  have htarget : p.path.target context document = document := by
    rw [Path.target, Path.inContext_of_parse (ReferencePath.parse_path hp) hcontext]
    rfl
  rw [Path.read_eq_ok, htarget] at hv
  rw [Path.merge, htarget, Query.put_eq_ok]
  obtain ⟨-, hv⟩ := hv
  have hback : Unbroken p.path.query.segments document →
      (p.path.query.set value document).fault = none ∧
        (p.path.query.set value document).result = document := by
    intro hu
    have hw : p.path.query.set value document = .done document :=
      write_of_unbroken hd hu fun x hx => List.mem_singleton.mp (hv ▸ hx)
    rw [hw]
    exact ⟨rfl, rfl⟩
  refine ⟨⟨?_, hback⟩, fun hwildcard => hback ?_⟩
  · rintro ⟨hfault, hresult⟩
    have hu := unbroken_of_write p.forbidden?_of_mem hfault
    rwa [← Query.set, hresult] at hu
  · have hs : ∀ segment ∈ p.path.query.segments, segment.IsSingular := by
      intro segment hm
      have hf := p.forbidden?_of_mem segment hm
      cases segment with
      | child name => trivial
      | index i => trivial
      | wildcard => exact absurd hm hwildcard
      | _ => cases hf
    exact unbroken_of_selectAll hs (hv ▸ List.mem_singleton_self value)

/-- A wildcard whose only value has the next member. -/
theorem ReferencePath.merge_read_single_item :
    ∃ p, ReferencePath.parse "$.a[*].b" = .ok p ∧
      p.path.merge (.obj []) (.obj [("a", .arr [.obj [("b", .int 1)]])]) (.int 1) =
        .ok (.obj [("a", .arr [.obj [("b", .int 1)]])]) := by
  have hp : ReferencePath.parse "$.a[*].b" = .ok ⟨⟨"$.a[*].b", false,
      ⟨"$.a[*].b", .root, [.child "a", .wildcard, .child "b"]⟩⟩, rfl⟩ := by
    with_unfolding_all rfl
  have hcontext : ∀ rest, "$.a[*].b".toList ≠ '$' :: '$' :: rest := by simp
  have hd : (Json.obj [("a", .arr [.obj [("b", .int 1)]])]).WellFormed := by
    refine .obj (List.pairwise_singleton _ _) (List.forall_mem_singleton.mpr (.arr ?_))
    refine List.forall_mem_singleton.mpr (.obj (List.pairwise_singleton _ _) ?_)
    exact List.forall_mem_singleton.mpr (.num _)
  have hfaithful := ReferencePath.merge_read hp hcontext (.obj []) hd rfl
  refine ⟨_, hp, hfaithful.1.mpr ⟨_, rfl, ?_⟩⟩
  exact List.forall_mem_singleton.mpr ⟨_, rfl, trivial⟩

/-- A wildcard that leads to an object without the next member: the round trip adds the member. -/
theorem ReferencePath.merge_read_adds_member :
    ∃ p, ReferencePath.parse "$.a[*].b" = .ok p ∧
      p.path.read (.obj []) (.obj [("a", .arr [.obj [("b", .int 1)], .obj []])]) = .ok (.int 1) ∧
      p.path.merge (.obj []) (.obj [("a", .arr [.obj [("b", .int 1)], .obj []])]) (.int 1) =
        .ok (.obj [("a", .arr [.obj [("b", .int 1)], .obj [("b", .int 1)]])]) :=
  ⟨⟨⟨"$.a[*].b", false, ⟨"$.a[*].b", .root, [.child "a", .wildcard, .child "b"]⟩⟩, rfl⟩,
    by with_unfolding_all rfl, rfl, rfl⟩

end StepFlow
