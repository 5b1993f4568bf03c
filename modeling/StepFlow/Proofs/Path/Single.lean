import StepFlow.Proofs.Path.Put

/-!
# Writing to one place

A path of members and indexes names one place in a document, also where the document does not reach it
yet. A write there succeeds exactly if every value on the way can hold the next one.

* `Walkable`: what the way to the place may meet;
* `fault_eq_none_iff_walkable`, `select_written`, `write_write`, `exists_written_location`,
  `scalar_of_failed_write`: success, reading back, writing again, what else changes, and what a failure
  leaves alone;
* **`Query.set_singular`**: all of it, for whole queries.
-/

namespace StepFlow

/-- The way that the segments describe from a value, or from where there is none, meets only objects
with the next member, arrays with the next item, `null`, and nothing. An array may be extended, up to
1024 items further than the next one. -/
def Walkable : List Segment → Option Json → Prop
  | [], _ => True
  | .child name :: rest, node =>
    (∀ value, node = some value → value = .null ∨ ∃ members, value = .obj members) ∧
      Walkable rest (node.bind (·.member? name))
  | .index i :: rest, node =>
    let length := ((node.bind Json.items?).getD []).length
    (∀ value, node = some value → value = .null ∨ ∃ items, value = .arr items) ∧
      (if i < 0 then 0 ≤ i + length else i - length ≤ 1024) ∧
        Walkable rest (node.bind (·.item? i))
  | _, _ => False

variable {root root' value other node : Json} {segment : Segment} {rest segments : List Segment}
  {hop : Hop}

/-! ## Success -/

theorem walkable_none : Walkable segments none ↔ Walkable segments (some .null) := by
  cases segments with
  | nil => rfl
  | cons segment rest =>
    cases segment with
    | child name =>
      refine and_congr_left fun _ => iff_of_true (fun _ h => nomatch h) ?_
      rintro _ ⟨⟩
      exact .inl rfl
    | index i =>
      refine and_congr_left fun _ => iff_of_true (fun _ h => nomatch h) ?_
      rintro _ ⟨⟩
      exact .inl rfl
    | _ => rfl

theorem exists_writePosition?_iff {length : Nat} {i : Int} :
    (∃ p, writePosition? length i = some p) ↔
      if i < 0 then 0 ≤ i + length else i - length ≤ 1024 := by
  simp only [writePosition?_eq_some, position?_eq_some]
  split
  · constructor
    · rintro ⟨p, hp⟩
      omega
    · intro h
      exact ⟨(i + length).toNat, by omega⟩
  · constructor
    · rintro ⟨p, rfl, hp⟩
      rw [maxPadding] at hp
      omega
    · intro h
      refine ⟨i.toNat, by omega, ?_⟩
      rw [maxPadding]
      omega

theorem exists_lands_of_walkable (h : Walkable (segment :: rest) (some node)) :
    ∃ hop, segment.Lands node hop := by
  cases segment with
  | child name =>
    rcases h.1 node rfl with rfl | ⟨members, rfl⟩
    · exact ⟨_, .newObject name⟩
    · exact ⟨_, .member name members⟩
  | index i =>
    obtain ⟨hn, hi, -⟩ := h
    rcases hn node rfl with rfl | ⟨items, rfl⟩
    · obtain ⟨p, hp⟩ := exists_writePosition?_iff.mpr hi
      exact ⟨_, .newArray hp⟩
    · obtain ⟨p, hp⟩ := exists_writePosition?_iff.mpr hi
      exact ⟨_, .item hp⟩
  | _ => cases h

theorem Segment.Lands.walkable_cons (h : segment.Lands node hop) :
    Walkable (segment :: rest) (some node) ↔ Walkable rest (node.below? hop) := by
  cases h with
  | newObject name =>
    refine and_iff_right ?_
    rintro _ ⟨⟩
    exact .inl rfl
  | member name members =>
    refine and_iff_right ?_
    rintro _ ⟨⟩
    exact .inr ⟨members, rfl⟩
  | newArray hp =>
    refine (and_iff_right ?_).trans (and_iff_right (exists_writePosition?_iff.mp ⟨_, hp⟩))
    rintro _ ⟨⟩
    exact .inl rfl
  | @item i items p hp =>
    refine (and_iff_right ?_).trans ((and_iff_right (exists_writePosition?_iff.mp ⟨_, hp⟩)).trans ?_)
    · rintro _ ⟨⟩
      exact .inr ⟨items, rfl⟩
    · rw [Json.below?_item, ← item?_of_writePosition? hp, Option.bind_some]

/-- **A write succeeds exactly if the way is walkable.** -/
theorem fault_eq_none_iff_walkable (hs : ∀ segment ∈ segments, segment.IsSingular) :
    (write root value segments node).fault = none ↔ Walkable segments (some node) := by
  induction segments generalizing node with
  | nil => exact iff_of_true rfl trivial
  | cons segment rest ih =>
    obtain ⟨hsegment, hrest⟩ := List.forall_mem_cons.mp hs
    have hlands : ∀ hop, segment.Lands node hop →
        ((write root value (segment :: rest) node).fault = none ↔
          Walkable (segment :: rest) (some node)) := by
      intro hop hl
      rw [hl.write_eq, hl.walkable_cons]
      refine (ih hrest).trans ?_
      cases node.below? hop with
      | none => exact walkable_none.symm
      | some child => rfl
    rcases lands_or_fails root value hsegment rest node with ⟨hop, hl⟩ | ⟨result, fault, hw, -⟩
    · exact hlands hop hl
    · refine iff_of_false (fun h => ?_) fun h => ?_
      · rw [hw] at h
        cases h
      · obtain ⟨hop, hl⟩ := exists_lands_of_walkable h
        have hnone := (hlands hop hl).mpr h
        rw [hw] at hnone
        cases hnone

/-! ## What a write leaves -/

theorem select_written (hs : ∀ segment ∈ segments, segment.IsSingular)
    (h : (write root value segments node).fault = none) :
    selectAll root' segments [(write root value segments node).result] = [value] := by
  induction segments generalizing node with
  | nil => rfl
  | cons segment rest ih =>
    obtain ⟨hsegment, hrest⟩ := List.forall_mem_cons.mp hs
    obtain ⟨hop, hl, hi, hw⟩ := exists_lands_of_fault_eq_none hsegment h
    rw [hw, selectAll, List.flatMap_singleton, (hl.put _).select_eq, Json.below?_put_self]
    exact ih hrest hi

theorem write_write (hs : ∀ segment ∈ segments, segment.IsSingular)
    (h : (write root value segments node).fault = none) :
    write root' other segments (write root value segments node).result =
      write root other segments node := by
  induction segments generalizing node with
  | nil => rfl
  | cons segment rest ih =>
    obtain ⟨hsegment, hrest⟩ := List.forall_mem_cons.mp hs
    obtain ⟨hop, hl, hi, hw⟩ := exists_lands_of_fault_eq_none hsegment h
    rw [hw, (hl.put _).write_eq, Json.below?_put_self, Option.getD_some, ih hrest hi, hl.write_eq]
    exact congrArg (Written.map · _) (funext (Json.put_put node hop _))

/-- After a write the path selects one location. The written value stands there, and what stands
neither above nor below it is as before. -/
theorem exists_written_location (hs : ∀ segment ∈ segments, segment.IsSingular)
    (h : (write root value segments node).fault = none) :
    ∃ location, ways root' segments (write root value segments node).result = [location] ∧
      (write root value segments node).result.at? location = some value ∧
        ∀ l x, node.at? l = some x → ¬ l <+: location → ¬ location <+: l →
          (write root value segments node).result.at? l = some x := by
  induction segments generalizing node with
  | nil => exact ⟨[], rfl, rfl, fun l x _ _ hl => absurd (List.nil_prefix) hl⟩
  | cons segment rest ih =>
    obtain ⟨hsegment, hrest⟩ := List.forall_mem_cons.mp hs
    obtain ⟨hop, hl, hi, hw⟩ := exists_lands_of_fault_eq_none hsegment h
    obtain ⟨location, hways, hvalue, hframe⟩ := ih hrest hi
    have hself := Json.below?_put_self node hop
      (write root value rest ((node.below? hop).getD .null)).result
    rw [hw]
    refine ⟨hop :: location, ?_, ?_, ?_⟩
    · rw [ways, (hl.put _).hops_eq hself, List.flatMap_singleton, hself, Option.elim_some, hways]
      rfl
    · exact Json.at?_cons_eq_some.mpr ⟨_, hself, hvalue⟩
    · intro l x hx habove hbelow
      cases l with
      | nil => exact absurd List.nil_prefix habove
      | cons other l =>
        refine Json.at?_put hl.takes hx ?_
        rintro rfl hold
        exact hframe l x hold (fun hp => habove (List.cons_prefix_cons.mpr ⟨rfl, hp⟩))
          (fun hp => hbelow (List.cons_prefix_cons.mpr ⟨rfl, hp⟩))

theorem scalar_of_failed_write (hs : ∀ segment ∈ segments, segment.IsSingular)
    (h : (write root value segments node).fault ≠ none) {location : List Hop} {x : Json}
    (hx : node.at? location = some x) (hscalar : x.IsScalar) :
    (write root value segments node).result.at? location = some x := by
  induction segments generalizing node location with
  | nil => exact absurd rfl h
  | cons segment rest ih =>
    obtain ⟨hsegment, hrest⟩ := List.forall_mem_cons.mp hs
    rcases lands_or_fails root value hsegment rest node with ⟨hop, hl⟩ | ⟨result, fault, hw, hn⟩
    · rw [hl.write_eq] at h ⊢
      cases location with
      | nil =>
        cases hx
        exact absurd hscalar hl.not_isScalar
      | cons other l => exact Json.at?_put hl.takes hx fun _ hold => ih hrest h hold
    · rw [hw]
      rcases hn with rfl | rfl
      · cases location with
        | nil =>
          cases hx
          cases hscalar
        | cons other l =>
          obtain ⟨child, hc, -⟩ := Json.at?_cons_eq_some.mp hx
          cases other <;> cases hc
      · exact hx

/-! ## Whole queries -/

/-- **Writing by members and indexes.** A write succeeds exactly if the way is walkable. If it does,
the query selects one location in the new document, at which the written value stands; another write
has the outcome that it has on the document itself; and what stands neither above nor below the
location is as before. If it fails, every scalar is as before. -/
theorem Query.set_singular (q : Query) (hs : ∀ segment ∈ q.segments, segment.IsSingular)
    (document value other : Json) :
    ((q.set value document).fault = none ↔ Walkable q.segments (some document)) ∧
    ((q.set value document).fault = none →
      q.get (q.set value document).result = [value] ∧
      q.set other (q.set value document).result = q.set other document ∧
      ∃ location, q.locations (q.set value document).result = [location] ∧
        (q.set value document).result.at? location = some value ∧
          ∀ l x, document.at? l = some x → ¬ l <+: location → ¬ location <+: l →
            (q.set value document).result.at? l = some x) ∧
    ((q.set value document).fault ≠ none → ∀ l x, document.at? l = some x → x.IsScalar →
      (q.set value document).result.at? l = some x) :=
  ⟨fault_eq_none_iff_walkable hs,
    fun h => ⟨select_written hs h, write_write hs h, exists_written_location hs h⟩,
    fun h _ _ hx hscalar => scalar_of_failed_write hs h hx hscalar⟩

/-- The last item is `null` and gets a member whose value is an array with a gap. -/
theorem Query.set_in_last_item :
    Walkable [.child "a", .index (-1), .child "b", .index 1]
      (some (.obj [("a", .arr [.int 7, .null]), ("c", .bool true)])) ∧
    Query.get ⟨"$.a[-1].b[1]", .root, [.child "a", .index (-1), .child "b", .index 1]⟩
      (.obj [("a", .arr [.int 7, .obj [("b", .arr [.null, .str "x"])]]), ("c", .bool true)]) =
        [.str "x"] := by
  have hs : ∀ segment ∈ [.child "a", .index (-1), .child "b", .index 1],
      Segment.IsSingular segment := by
    simp [Segment.IsSingular]
  obtain ⟨hsuccess, hdone, -⟩ := Query.set_singular
    ⟨"$.a[-1].b[1]", .root, [.child "a", .index (-1), .child "b", .index 1]⟩ hs
    (.obj [("a", .arr [.int 7, .null]), ("c", .bool true)]) (.str "x") .null
  exact ⟨hsuccess.mp (by decide), (hdone (by decide)).1⟩

end StepFlow
