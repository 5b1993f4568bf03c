import StepFlow.Path.Basic
import StepFlow.Proofs.Path.Cursor
import StepFlow.Proofs.Path.Soundness

/-!
# Slices that run out of range

A read or a write breaks off where the cursor of a slice runs out of range. Whether it can is a matter
of room: an array of `n` items and a step that is at most `n` less than the greatest signed integer leave
the cursor in range, and the items that a write adds are as few as its indexes are small.

* `Json.Within`: values whose arrays have a limited number of items;
* `Segment.Leaves`: segments that leave room for arrays of this size;
* `overrunsAlong_eq_false`: a read of such values along such segments stays in range;
* `Written.Stays`, `stays_write`: and so does a write, which leaves such a value;
* **`Query.stays_in_range`**: what can be said of any query that is read.
-/

namespace StepFlow

/-! ## Room -/

/-- Every array within the value has at most `room` items. -/
inductive Json.Within (room : Nat) : Json → Prop where
  | intro {j : Json} : (∀ items, j = .arr items → items.length ≤ room) →
      (∀ c ∈ j.children, Within room c) → Within room j

/-- The segment leaves room for arrays of up to `room` items: no step leads from within such an array
beyond the greatest signed integer, and no index beyond its end. -/
def Segment.Leaves (room : Nat) : Segment → Prop
  | .slice _ _ step => room + step ≤ Number.maxSigned + 1
  | .index i => i < room
  | .union choices => ∀ i : Int, .index i ∈ choices → i < room
  | _ => True

variable {room : Nat} {root node value x : Json} {items : List Json} {members : Keyed Json}
  {segment : Segment} {segments : List Segment}

namespace Json

theorem within_arr : (arr items).Within room ↔ items.length ≤ room ∧ ∀ j ∈ items, j.Within room := by
  constructor
  · rintro ⟨hl, h⟩
    exact ⟨hl items rfl, h⟩
  · rintro ⟨hl, h⟩
    refine ⟨?_, h⟩
    rintro _ ⟨⟩
    exact hl

theorem within_obj : (obj members).Within room ↔ ∀ e ∈ members, e.2.Within room := by
  constructor
  · rintro ⟨-, h⟩ e he
    exact h e.2 (List.mem_map_of_mem he)
  · intro h
    refine ⟨nofun, fun c hc => ?_⟩
    obtain ⟨e, he, rfl⟩ := List.mem_map.mp hc
    exact h e he

theorem within_null : null.Within room := ⟨nofun, fun _ hc => absurd hc List.not_mem_nil⟩

theorem Within.of_mem_children (h : node.Within room) (hx : x ∈ node.children) : x.Within room := by
  obtain ⟨-, hc⟩ := h
  exact hc x hx

end Json

/-! ## Reading -/

theorem mem_children_of_mem_select (hx : x ∈ segment.select root node) : x ∈ node.children := by
  have hmember : ∀ {name : String}, x ∈ node.member? name → x ∈ node.children := by
    intro name h
    have hbelow : node.below? (.member name) = some x := h
    exact Json.mem_children_of_below? hbelow
  have hitem : ∀ {i : Int}, x ∈ node.item? i → x ∈ node.children := by
    intro i h
    cases node with
    | arr items =>
      obtain ⟨p, -, hp⟩ := Option.bind_eq_some_iff.mp h
      exact List.mem_of_getElem? hp
    | _ => cases h
  cases segment with
  | child name => exact hmember (Option.mem_toList.mp hx)
  | index i => exact hitem (Option.mem_toList.mp hx)
  | wildcard => exact hx
  | union choices =>
    obtain ⟨choice, -, hx⟩ := List.mem_filterMap.mp hx
    cases choice with
    | name key => exact hmember hx
    | index i => exact hitem hx
  | slice start stop step =>
    cases node with
    | arr items =>
      obtain ⟨p, -, hp⟩ := List.mem_filterMap.mp hx
      exact List.mem_of_getElem? hp
    | _ => cases hx
  | filter test => exact (List.mem_filter.mp hx).1

/-- The segment is one that may have been read, and it leaves room. -/
def Segment.InRoom (room : Nat) (s : Segment) : Prop := s.IsLegal ∧ s.Leaves room

theorem fits_of_inRoom {start stop : Option Int} {step : Int} (hroom : (room : Int) ≤ Number.maxSigned)
    (h : (Segment.slice start stop step).InRoom room) (hl : items.length ≤ room) :
    Slice.fits items.length start stop step = true := by
  obtain ⟨⟨-, -, -, hsigned⟩, hleaves⟩ := h
  have hstep : Number.minInt ≤ step := (Slice.isSigned64_iff.mp hsigned).1
  exact Slice.fits_of_room hroom hstep hleaves hl

mutual

theorem Segment.overruns_eq_false {root node : Json} (hroom : (room : Int) ≤ Number.maxSigned)
    (hroot : root.Within room) (s : Segment) (hs : s.Everywhere (Segment.InRoom room))
    (hnode : node.Within room) : s.overruns root node = false := by
  match s, hs with
  | .slice start stop step, hs =>
    cases node with
    | arr items =>
      rw [Segment.overruns, fits_of_inRoom hroom hs (Json.within_arr.mp hnode).1]
      rfl
    | _ => rfl
  | .filter test, hs =>
    rw [Segment.overruns, List.any_eq_false]
    intro child hc
    rw [Filter.overruns_eq_false hroom hroot test hs.2 (hnode.of_mem_children hc)]
    exact Bool.false_ne_true
  | .child _, _ => rfl
  | .index _, _ => rfl
  | .wildcard, _ => rfl
  | .union _, _ => rfl

theorem Filter.overruns_eq_false {root node : Json} (hroom : (room : Int) ≤ Number.maxSigned)
    (hroot : root.Within room) (f : Filter) (hf : f.Everywhere (Segment.InRoom room))
    (hnode : node.Within room) : f.overruns root node = false := by
  match f, hf with
  | .or l r, hf =>
    rw [Filter.overruns, Filter.overruns_eq_false hroom hroot l hf.1 hnode,
      Filter.overruns_eq_false hroom hroot r hf.2 hnode, Bool.and_false, Bool.or_false]
  | .and l r, hf =>
    rw [Filter.overruns, Filter.overruns_eq_false hroom hroot l hf.1 hnode,
      Filter.overruns_eq_false hroom hroot r hf.2 hnode, Bool.and_false, Bool.or_false]
  | .compare l _ r, hf =>
    rw [Filter.overruns, Operand.overruns_eq_false hroom hroot l hf.1 hnode,
      Operand.overruns_eq_false hroom hroot r hf.2 hnode, Bool.or_false]
  | .present o, hf =>
    rw [Filter.overruns]
    exact Operand.overruns_eq_false hroom hroot o hf hnode

theorem Operand.overruns_eq_false {root node : Json} (hroom : (room : Int) ≤ Number.maxSigned)
    (hroot : root.Within room) (o : Operand) (ho : o.Everywhere (Segment.InRoom room))
    (hnode : node.Within room) : o.overruns root node = false := by
  match o, ho with
  | .literal _, _ => rfl
  | .path .root segments, ho =>
    rw [Operand.overruns]
    exact overrunsAlong_eq_false hroom hroot segments ho (List.forall_mem_singleton.mpr hroot)
  | .path .current segments, ho =>
    rw [Operand.overruns]
    exact overrunsAlong_eq_false hroom hroot segments ho (List.forall_mem_singleton.mpr hnode)

/-- **A read along segments that leave room stays in range.** -/
theorem overrunsAlong_eq_false {root : Json} (hroom : (room : Int) ≤ Number.maxSigned)
    (hroot : root.Within room) (segments : List Segment)
    (hs : everywhere (Segment.InRoom room) segments) {nodes : List Json}
    (hnodes : ∀ n ∈ nodes, n.Within room) : overrunsAlong root segments nodes = false := by
  match segments, hs with
  | [], _ => rfl
  | s :: rest, hs =>
    rw [overrunsAlong, Bool.or_eq_false_iff, List.any_eq_false]
    refine ⟨fun node hn => ?_, overrunsAlong_eq_false hroom hroot rest hs.2 fun x hx => ?_⟩
    · rw [Segment.overruns_eq_false hroom hroot s hs.1 (hnodes node hn)]
      exact Bool.false_ne_true
    · obtain ⟨node, hn, hx⟩ := List.mem_flatMap.mp hx
      exact (hnodes node hn).of_mem_children (mem_children_of_mem_select hx)

end

/-! ## Writing -/

/-- What the write leaves has the property `P`, and it has not run out of range. -/
def Written.Stays {α : Type} (P : α → Prop) (w : Written α) : Prop :=
  P w.result ∧ w.fault ≠ some .overrun

namespace Written

variable {α β : Type} {P : α → Prop} {Q : β → Prop} {w : Written α}

theorem stays_done {a : α} (h : P a) : (done a).Stays P := ⟨h, nofun⟩

theorem stays_failed {a : α} {fault : WriteFault} (h : P a) (hf : fault ≠ .overrun) :
    (failed a fault).Stays P := ⟨h, fun heq => hf (Option.some.inj heq)⟩

theorem Stays.map {f : α → β} (h : w.Stays P) (hf : ∀ a, P a → Q (f a)) : (w.map f).Stays Q :=
  ⟨hf _ h.1, h.2⟩

theorem Stays.andThen {next : α → Written α} (h : w.Stays P) (hnext : ∀ a, P a → (next a).Stays P) :
    (w.andThen next).Stays P := by
  unfold Written.andThen
  split
  · exact hnext _ h.1
  · exact h

end Written

open Written

section writes

variable {w : Json → Written Json}

/-- On values within the room the write leaves such a value and stays in range. -/
def Sparing (room : Nat) (w : Json → Written Json) : Prop :=
  ∀ node : Json, node.Within room → (w node).Stays (Json.Within room)

theorem stays_writeMember (hw : Sparing room w) (name : String) : Sparing room (writeMember name w) := by
  have hentry : ∀ members : Keyed Json, (∀ e ∈ members, e.2.Within room) →
      ((writeEntry name w members).map Json.obj).Stays (Json.Within room) := by
    intro members h
    have hold : ((Keyed.find? name members).getD .null).Within room := by
      cases hfind : Keyed.find? name members with
      | none => exact Json.within_null
      | some old => exact h _ (Keyed.mem_of_find? hfind)
    refine ((hw _ hold).map (Q := fun members => ∀ e ∈ members, e.2.Within room)
      fun new hnew e he => ?_).map fun members h => Json.within_obj.mpr h
    rcases Keyed.mem_insert he with rfl | he
    · exact hnew
    · exact h e he
  intro node hnode
  cases node with
  | null => exact hentry [] fun e he => absurd he List.not_mem_nil
  | obj members => exact hentry members (Json.within_obj.mp hnode)
  | _ => exact stays_failed hnode nofun

/-- The items of an array within the room. -/
def ItemsWithin (room : Nat) (items : List Json) : Prop :=
  items.length ≤ room ∧ ∀ j ∈ items, j.Within room

theorem stays_writeAt (hw : Sparing room w) (i : Nat) (h : ItemsWithin room items) :
    (writeAt i w items).Stays (ItemsWithin room) := by
  unfold writeAt
  split
  · next old hold =>
    refine (hw old (h.2 old (List.mem_of_getElem? hold))).map fun new hnew => ?_
    refine ⟨by rw [List.length_set]; exact h.1, fun j hj => ?_⟩
    rcases List.mem_or_eq_of_mem_set hj with hj | rfl
    · exact h.2 j hj
    · exact hnew
  · exact stays_done h

theorem itemsWithin_padTo {i : Nat} (h : ItemsWithin room items) (hi : i < room) :
    ItemsWithin room (padTo i items) := by
  refine ⟨?_, fun j hj => ?_⟩
  · rw [length_padTo]
    exact Nat.max_le.mpr ⟨h.1, hi⟩
  · rcases List.mem_append.mp hj with hj | hj
    · exact h.2 j hj
    · rw [(List.mem_replicate.mp hj).2]
      exact Json.within_null

theorem stays_writeItem (hw : Sparing room w) {index : Int} (hi : index < room) :
    Sparing room (writeItem index w) := by
  have hitems : ∀ items, ItemsWithin room items →
      ((writeIndexed index w items).map Json.arr).Stays (Json.Within room) := by
    intro items h
    refine Written.Stays.map (P := ItemsWithin room) ?_ fun items h => Json.within_arr.mpr h
    unfold writeIndexed
    split
    · next p hp =>
      have hl := h.1
      have hroom : p < room := by
        rw [writePosition?_eq_some] at hp
        split at hp
        · exact Nat.lt_of_lt_of_le (position?_eq_some.mp hp).1 hl
        · omega
      exact stays_writeAt hw p (itemsWithin_padTo h hroom)
    · exact stays_failed h nofun
  intro node hnode
  cases node with
  | null => exact hitems [] ⟨Nat.zero_le room, fun j hj => absurd hj List.not_mem_nil⟩
  | arr items => exact hitems items (Json.within_arr.mp hnode)
  | _ => exact stays_failed hnode nofun

theorem stays_writeChoices (hw : Sparing room w) {choices : List Selector}
    (hc : ∀ i : Int, .index i ∈ choices → i < room) : Sparing room (writeChoices w choices) := by
  induction choices with
  | nil => exact fun node hnode => stays_done hnode
  | cons choice choices ih =>
    refine fun node hnode => Stays.andThen ?_ fun node hnode => ih (fun i hi => ?_) node hnode
    · cases choice with
      | name key => exact stays_writeMember hw key node hnode
      | index i => exact stays_writeItem hw (hc i List.mem_cons_self) node hnode
    · exact hc i (List.mem_cons_of_mem choice hi)

theorem stays_writePositions (hw : Sparing room w) {positions : List Nat} (h : ItemsWithin room items) :
    (writePositions w positions items).Stays (ItemsWithin room) := by
  induction positions generalizing items with
  | nil => exact stays_done h
  | cons i positions ih => exact (stays_writeAt hw i h).andThen fun items h => ih h

theorem stays_writeItems (hw : Sparing room w) (h : ∀ j ∈ items, j.Within room) :
    (writeItems w items).Stays fun new => new.length = items.length ∧ ∀ j ∈ new, j.Within room := by
  induction items with
  | nil => exact stays_done ⟨rfl, h⟩
  | cons item items ih =>
    obtain ⟨hitem, hitems⟩ := List.forall_mem_cons.mp h
    obtain ⟨hresult, hfault⟩ := hw item hitem
    unfold writeItems
    dsimp only
    split
    · next fault heq =>
      refine stays_failed ⟨rfl, List.forall_mem_cons.mpr ⟨hresult, hitems⟩⟩ ?_
      rintro rfl
      exact hfault heq
    · refine (ih hitems).map fun new hnew => ⟨?_, List.forall_mem_cons.mpr ⟨hresult, hnew.2⟩⟩
      rw [List.length_cons, List.length_cons, hnew.1]

theorem stays_writeMembers (hw : Sparing room w) (h : ∀ e ∈ members, e.2.Within room) :
    (writeMembers w members).Stays fun new => ∀ e ∈ new, e.2.Within room := by
  induction members with
  | nil => exact stays_done h
  | cons e members ih =>
    obtain ⟨key, old⟩ := e
    obtain ⟨he, hmembers⟩ := List.forall_mem_cons.mp h
    obtain ⟨hresult, hfault⟩ := hw old he
    unfold writeMembers
    dsimp only
    split
    · next fault heq =>
      refine stays_failed (List.forall_mem_cons.mpr ⟨hresult, hmembers⟩) ?_
      rintro rfl
      exact hfault heq
    · exact (ih hmembers).map fun new hnew => List.forall_mem_cons.mpr ⟨hresult, hnew⟩

theorem stays_writeEach (hw : Sparing room w) : Sparing room (writeEach w) := by
  intro node hnode
  cases node with
  | arr items =>
    obtain ⟨hl, h⟩ := Json.within_arr.mp hnode
    exact (stays_writeItems hw h).map fun new hnew => Json.within_arr.mpr ⟨hnew.1 ▸ hl, hnew.2⟩
  | obj members =>
    exact (stays_writeMembers hw (Json.within_obj.mp hnode)).map fun new hnew => Json.within_obj.mpr hnew
  | _ => exact stays_done hnode

end writes

/-- **A write along segments that leave room stays in range**, and what it leaves is within the room. -/
theorem stays_write (hroom : (room : Int) ≤ Number.maxSigned) (hroot : root.Within room)
    (hvalue : value.Within room) (hs : everywhere (Segment.InRoom room) segments) :
    Sparing room (write root value segments) := by
  induction segments with
  | nil => exact fun node _ => stays_done hvalue
  | cons segment rest ih =>
    obtain ⟨hsegment, hrest⟩ := hs
    have hw := ih hrest
    intro node hnode
    cases segment with
    | child name => exact stays_writeMember hw name node hnode
    | index i => exact stays_writeItem hw hsegment.2 node hnode
    | wildcard => exact stays_writeEach hw node hnode
    | union choices => exact stays_writeChoices hw hsegment.2 node hnode
    | slice start stop step =>
      cases node with
      | arr items =>
        have hitems := Json.within_arr.mp hnode
        rw [write, if_pos (fits_of_inRoom hroom hsegment hitems.1)]
        exact (stays_writePositions hw hitems).map fun items h => Json.within_arr.mpr h
      | _ => exact stays_done hnode
    | filter test =>
      refine stays_writeEach (fun child hc => ?_) node hnode
      rw [Filter.overruns_eq_false hroom hroot test hsegment.2 hc, if_neg Bool.false_ne_true]
      split
      · exact hw child hc
      · exact stays_done hc

/-! ## Queries that are read -/

/-- The cursor of the segment, if it has one, behaves over every array that a machine can hold. -/
def Segment.Behaves : Segment → Prop
  | .slice start stop step => ∀ length : Nat, (length : Int) ≤ Number.maxSigned →
      Slice.Behaves length start stop step
  | _ => True

theorem Segment.IsLegal.behaves {s : Segment} (h : s.IsLegal) : s.Behaves := by
  cases s with
  | slice start stop step =>
    obtain ⟨-, -, -, hsigned⟩ := h
    exact fun length hl => Slice.behaves hl (Slice.isSigned64_iff.mp hsigned).1 start stop
  | _ => trivial

/-- **What stays in range.** Every slice of a query that is read, also within its filters, visits
positions of the array only, and its cursor stays in range except where a position that it visits and
its step add up to more than the greatest signed integer. So no read and no write by a query runs out of
range that leaves room for the arrays of the document and of the value. -/
theorem Query.stays_in_range {text : String} {q : Query} (h : Query.parse text = .ok q) :
    everywhere Segment.Behaves q.segments ∧
      ∀ (room : Nat) (document : Json), (room : Int) ≤ Number.maxSigned →
        everywhere (Segment.Leaves room) q.segments → document.Within room →
          q.read document = .ok (q.get document) ∧
          ∀ value : Json, value.Within room →
            q.put value document ≠ .error (.overrun q.source) := by
  have hlegal := everywhere_of_parse h
  refine ⟨everywhere_imp (fun s hs _ => hs.behaves) _ hlegal hlegal, ?_⟩
  intro room document hroom hleaves hdocument
  have hs : everywhere (Segment.InRoom room) q.segments :=
    everywhere_imp (fun s hs hl => ⟨hs, hl⟩) _ hlegal hleaves
  constructor
  · have hread := overrunsAlong_eq_false hroom hdocument _ hs (List.forall_mem_singleton.mpr hdocument)
    rw [Query.read, Query.overruns, hread, if_neg Bool.false_ne_true]
  · intro value hvalue hput
    have hfault := (stays_write hroom hdocument hvalue hs document hdocument).2
    unfold Query.put Query.set at hput
    dsimp only at hput
    split at hput
    · cases hput
    · next hover => exact hfault hover
    · cases hput

/-- A slice with almost the greatest step, over two items. -/
theorem Query.stays_in_range_two_items : ∃ q : Query,
    Query.parse "$.a[::9223372036854775000]" = .ok q ∧
      q.read (.obj [("a", .arr [.bool true, .null])]) = .ok [.bool true] := by
  have hq : Query.parse "$.a[::9223372036854775000]" = .ok ⟨"$.a[::9223372036854775000]", .root,
      [.child "a", .slice none none 9223372036854775000]⟩ := by
    with_unfolding_all rfl
  have hdocument : (Json.obj [("a", .arr [.bool true, .null])]).Within 2 := by
    refine Json.within_obj.mpr (List.forall_mem_singleton.mpr (Json.within_arr.mpr ⟨by decide, ?_⟩))
    refine List.forall_mem_cons.mpr ⟨⟨nofun, nofun⟩, List.forall_mem_singleton.mpr Json.within_null⟩
  have hleaves : everywhere (Segment.Leaves 2) [.child "a", .slice none none 9223372036854775000] := by
    have hsum : (2 : Int) + 9223372036854775000 ≤ Number.maxSigned + 1 := by decide
    exact ⟨trivial, hsum, trivial⟩
  exact ⟨_, hq, ((Query.stays_in_range hq).2 2 _ (by decide) hleaves hdocument).1⟩

/-- The step of a slice leads from the last item beyond the greatest signed integer. -/
theorem Query.overruns_last_step : ∃ q : Query,
    Query.parse "$[1::9223372036854775807]" = .ok q ∧
      q.read (.arr [.int 0, .int 1, .int 2]) = .error (.overrun "$[1::9223372036854775807]") ∧
      q.put (.int 5) (.arr [.int 0, .int 1, .int 2]) = .error (.overrun "$[1::9223372036854775807]") :=
  ⟨⟨"$[1::9223372036854775807]", .root, [.slice (some 1) none 9223372036854775807]⟩,
    by with_unfolding_all rfl, rfl, rfl⟩

end StepFlow
