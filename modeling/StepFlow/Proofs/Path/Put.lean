import StepFlow.Path.Query.Write
import StepFlow.Proofs.Path.Location

/-!
# Changing the value one step down

A member or index segment takes a write to one step down from a value: to the step's value, if there
is one, and to a `null` that is added for it otherwise.

* `Json.put`: a value with something else one step down, made an object or array as needed;
* `Json.mapChildren`, `result_writeEach`: a write to every child changes every child;
* `Segment.Lands`: the step to which a write by a member or index segment goes;
* `Segment.Lands.write_eq`, `lands_or_fails`: such a write puts there what the write below gives, or it
  fails.
-/

namespace StepFlow

/-! ## Positions in arrays -/

theorem position?_eq_some {length p : Nat} {index : Int} : position? length index = some p ↔
    p < length ∧ (p : Int) = if index < 0 then index + length else index := by
  simp only [position?]
  split <;> split <;> simp <;> omega

theorem writePosition?_eq_some {length p : Nat} {index : Int} :
    writePosition? length index = some p ↔
      if index < 0 then position? length index = some p
      else index = p ∧ p - length ≤ maxPadding := by
  rw [writePosition?]
  split
  · rfl
  · split <;> simp <;> omega

theorem writePosition?_of_position? {length p : Nat} {index : Int}
    (h : position? length index = some p) : writePosition? length index = some p := by
  rw [writePosition?_eq_some]
  split
  · exact h
  · next hi =>
    rw [position?_eq_some, if_neg hi] at h
    omega

theorem position?_of_writePosition? {length p : Nat} {index : Int}
    (h : writePosition? length index = some p) (hp : p < length) :
    position? length index = some p := by
  rw [writePosition?_eq_some] at h
  split at h
  · exact h
  · next hi =>
    rw [position?_eq_some, if_neg hi]
    omega

theorem writePosition?_max {length p : Nat} {index : Int}
    (h : writePosition? length index = some p) :
    writePosition? (max length (p + 1)) index = some p := by
  refine writePosition?_of_position? ?_
  rw [writePosition?_eq_some] at h
  rw [position?_eq_some]
  split at h
  · next hi =>
    rw [position?_eq_some, if_pos hi] at h
    rw [if_pos hi]
    omega
  · next hi =>
    rw [if_neg hi]
    omega

/-! ## Padding -/

section padding

variable {items : List Json} {i j : Nat}

theorem length_padTo (i : Nat) (items : List Json) :
    (padTo i items).length = max items.length (i + 1) := by
  rw [padTo, List.length_append, List.length_replicate]
  omega

theorem padTo_of_lt (h : i < items.length) : padTo i items = items := by
  rw [padTo, Nat.sub_eq_zero_of_le h, List.replicate_zero, List.append_nil]

theorem getElem?_padTo_of_lt (h : j < items.length) : (padTo i items)[j]? = items[j]? :=
  List.getElem?_append_left h

theorem getElem?_padTo_self (i : Nat) (items : List Json) :
    (padTo i items)[i]? = some (items[i]?.getD .null) := by
  by_cases h : i < items.length
  · rw [getElem?_padTo_of_lt h, List.getElem?_eq_getElem h, Option.getD_some]
  · rw [padTo, List.getElem?_append_right (by omega), List.getElem?_replicate, if_pos (by omega),
      List.getElem?_eq_none (by omega), Option.getD_none]

end padding

/-! ## A value with something else one step down -/

namespace Json

/-- Whether a value can have something at a step, given that `null` may become an object or array. -/
def Takes : Json → Hop → Prop
  | .null, _ => True
  | .obj _, .member _ => True
  | .arr _, .item _ => True
  | _, _ => False

/-- The value with `x` one step down. -/
def put (node : Json) (hop : Hop) (x : Json) : Json :=
  match hop with
  | .member name => .obj (Keyed.insert name x (node.members?.getD []))
  | .item i => .arr ((padTo i (node.items?.getD [])).set i x)

variable {node child : Json} {hop other : Hop}

theorem below?_put_self (node : Json) (hop : Hop) (x : Json) :
    (node.put hop x).below? hop = some x := by
  cases hop with
  | member name =>
    rw [put, below?_member, Keyed.find?_insert, if_pos rfl]
  | item i =>
    rw [put, below?_item, List.getElem?_set_self]
    rw [length_padTo]
    omega

theorem below?_put_of_ne (h : node.Takes hop) (hne : other ≠ hop)
    (hc : node.below? other = some child) (x : Json) :
    (node.put hop x).below? other = some child := by
  cases other with
  | member name =>
    cases node with
    | obj members =>
      cases hop with
      | member name' =>
        have hn : name' ≠ name := fun heq => hne (congrArg Hop.member heq.symm)
        rw [put, below?_member, Keyed.find?_insert, if_neg hn]
        exact hc
      | item i => cases h
    | _ => cases hc
  | item i =>
    cases node with
    | arr items =>
      cases hop with
      | member name => cases h
      | item j =>
        have hj : j ≠ i := fun heq => hne (congrArg Hop.item heq.symm)
        have hi : i < items.length := (List.getElem?_eq_some_iff.mp hc).1
        rw [put, below?_item, List.getElem?_set_ne hj]
        exact (getElem?_padTo_of_lt hi).trans hc
    | _ => cases hc

theorem at?_put {l : List Hop} {x value : Json} (h : node.Takes hop)
    (hx : node.at? (other :: l) = some value)
    (hself : other = hop → ((node.below? hop).getD .null).at? l = some value →
      x.at? l = some value) : (node.put hop x).at? (other :: l) = some value := by
  obtain ⟨child, hc, hx⟩ := at?_cons_eq_some.mp hx
  refine at?_cons_eq_some.mpr ?_
  by_cases ho : other = hop
  · subst ho
    refine ⟨x, below?_put_self .., hself rfl ?_⟩
    rw [hc]
    exact hx
  · exact ⟨child, below?_put_of_ne h ho hc x, hx⟩

theorem put_put (node : Json) (hop : Hop) (x y : Json) :
    (node.put hop x).put hop y = node.put hop y := by
  cases hop with
  | member name => exact congrArg obj (Keyed.insert_insert name x y _)
  | item i =>
    have hi : i < ((padTo i (node.items?.getD [])).set i x).length := by
      rw [List.length_set, length_padTo]
      omega
    show arr ((padTo i ((padTo i _).set i x)).set i y) = arr ((padTo i _).set i y)
    rw [padTo_of_lt hi, List.set_set]

theorem put_of_below? (h : node.WellFormed) (hc : node.below? hop = some child) :
    node.put hop child = node := by
  cases hop with
  | member name =>
    cases h with
    | obj hs hm => exact congrArg obj (Keyed.insert_of_find? hs hc)
    | _ => cases hc
  | item i =>
    cases node with
    | arr items =>
      obtain ⟨hi, hc⟩ := List.getElem?_eq_some_iff.mp hc
      show arr ((padTo i items).set i child) = arr items
      rw [padTo_of_lt hi, ← hc, List.set_getElem_self]
    | _ => cases hc

end Json

/-! ## Changing every value one step down -/

section children

variable {node child : Json} {hop : Hop} {f : Json → Json} {w : Json → Written Json}

/-- The value with every item or member changed. -/
def Json.mapChildren (f : Json → Json) : Json → Json
  | .arr items => .arr (items.map f)
  | .obj members => .obj (members.map fun e => (e.1, f e.2))
  | node => node

theorem Json.children_mapChildren : (node.mapChildren f).children = node.children.map f := by
  cases node with
  | arr items => rfl
  | obj members => simp [mapChildren, children]
  | _ => rfl

theorem Json.below?_mapChildren : (node.mapChildren f).below? hop = (node.below? hop).map f := by
  cases node with
  | arr items =>
    cases hop with
    | member name => rfl
    | item i => exact List.getElem?_map
  | obj members =>
    cases hop with
    | member name => exact Keyed.find?_map name f members
    | item i => rfl
  | _ => cases hop <;> rfl

theorem Json.mapChildren_of_eq (h : ∀ child ∈ node.children, f child = child) :
    node.mapChildren f = node := by
  cases node with
  | arr items => exact congrArg arr ((List.map_congr_left h).trans (List.map_id items))
  | obj members =>
    have hm : ∀ e ∈ members, (e.1, f e.2) = e :=
      fun e he => Prod.ext rfl (h e.2 (List.mem_map_of_mem he))
    exact congrArg obj ((List.map_congr_left hm).trans (List.map_id members))
  | _ => rfl

theorem writeItems_eq_none_iff {items : List Json} :
    (writeItems w items).fault = none ↔ ∀ item ∈ items, (w item).fault = none := by
  induction items with
  | nil => exact iff_of_true rfl fun _ h => absurd h List.not_mem_nil
  | cons item items ih =>
    rw [List.forall_mem_cons, ← ih, writeItems]
    cases h : (w item).fault <;> simp [Written.failed, Written.map]

theorem result_writeItems {items : List Json} (h : (writeItems w items).fault = none) :
    (writeItems w items).result = items.map fun item => (w item).result := by
  induction items with
  | nil => rfl
  | cons item items ih =>
    obtain ⟨hitem, hitems⟩ := List.forall_mem_cons.mp (writeItems_eq_none_iff.mp h)
    have hrest := ih (writeItems_eq_none_iff.mpr hitems)
    simp [writeItems, hitem, Written.map, hrest]

theorem writeMembers_eq_none_iff {members : Keyed Json} :
    (writeMembers w members).fault = none ↔ ∀ e ∈ members, (w e.2).fault = none := by
  induction members with
  | nil => exact iff_of_true rfl fun _ h => absurd h List.not_mem_nil
  | cons e members ih =>
    rw [List.forall_mem_cons, ← ih, writeMembers]
    cases h : (w e.2).fault <;> simp [Written.failed, Written.map]

theorem result_writeMembers {members : Keyed Json} (h : (writeMembers w members).fault = none) :
    (writeMembers w members).result = members.map fun e => (e.1, (w e.2).result) := by
  induction members with
  | nil => rfl
  | cons e members ih =>
    obtain ⟨he, hmembers⟩ := List.forall_mem_cons.mp (writeMembers_eq_none_iff.mp h)
    have hrest := ih (writeMembers_eq_none_iff.mpr hmembers)
    simp [writeMembers, he, Written.map, hrest]

/-- A write to every child succeeds if it does so for each of them. -/
theorem writeEach_eq_none_iff :
    (writeEach w node).fault = none ↔ ∀ child ∈ node.children, (w child).fault = none := by
  cases node with
  | arr items => exact writeItems_eq_none_iff
  | obj members =>
    rw [Json.children, List.forall_mem_map]
    exact writeMembers_eq_none_iff
  | _ => exact iff_of_true rfl fun _ h => absurd h List.not_mem_nil

theorem result_writeEach (h : (writeEach w node).fault = none) :
    (writeEach w node).result = node.mapChildren fun child => (w child).result := by
  cases node with
  | arr items => exact congrArg Json.arr (result_writeItems h)
  | obj members => exact congrArg Json.obj (result_writeMembers h)
  | _ => rfl

end children

/-! ## Writing through one member or index segment -/

/-- Whether a segment names one step: a member or an index. -/
def Segment.IsSingular : Segment → Prop
  | .child _ => True
  | .index _ => True
  | _ => False

/-- A write by a member or index segment can go to a step: `null` counts as an empty object or
array. -/
inductive Segment.Lands : Segment → Json → Hop → Prop where
  | newObject (name : String) : Lands (.child name) .null (.member name)
  | member (name : String) (members : Keyed Json) : Lands (.child name) (.obj members) (.member name)
  | newArray {i : Int} {p : Nat} : writePosition? 0 i = some p → Lands (.index i) .null (.item p)
  | item {i : Int} {items : List Json} {p : Nat} : writePosition? items.length i = some p →
      Lands (.index i) (.arr items) (.item p)

section lands

variable {root value node child : Json} {segment : Segment} {rest : List Segment} {hop other : Hop}

theorem Segment.Lands.takes (h : segment.Lands node hop) : node.Takes hop := by
  cases h <;> trivial

theorem Segment.Lands.not_isScalar (h : segment.Lands node hop) : ¬ node.IsScalar := by
  cases h <;> exact id

theorem writeIndexed_eq {i : Int} {p : Nat} (write : Json → Written Json) (items : List Json)
    (h : writePosition? items.length i = some p) : writeIndexed i write items =
      (write (items[p]?.getD .null)).map fun new => (padTo p items).set p new := by
  rw [writeIndexed, h]
  show writeAt p write (padTo p items) = _
  rw [writeAt, getElem?_padTo_self]

/-- **A write that can land puts there what the write below gives.** -/
theorem Segment.Lands.write_eq (h : segment.Lands node hop) :
    write root value (segment :: rest) node =
      (write root value rest ((node.below? hop).getD .null)).map (node.put hop) := by
  cases h with
  | newObject name => rw [write]; rfl
  | member name members => rw [write]; rfl
  | newArray hp =>
    rw [write, writeItem, writeIndexed_eq _ [] hp]
    rfl
  | item hp =>
    rw [write, writeItem, writeIndexed_eq _ _ hp]
    rfl

/-- A write that cannot land fails. It changes nothing, except that it may leave an empty array in place
of `null`. -/
theorem lands_or_fails (root value : Json) (hs : segment.IsSingular) (rest : List Segment)
    (node : Json) : (∃ hop, segment.Lands node hop) ∨ ∃ result fault,
      write root value (segment :: rest) node = .failed result fault ∧
        (node = .null ∨ result = node) := by
  cases segment with
  | child name =>
    cases node with
    | null => exact .inl ⟨_, .newObject name⟩
    | obj members => exact .inl ⟨_, .member name members⟩
    | _ => exact .inr ⟨_, _, by rw [write]; rfl, .inr rfl⟩
  | index i =>
    have hfails : ∀ items : List Json, writePosition? items.length i = none →
        writeIndexed i (write root value rest) items = .failed items (.outOfRange i) := by
      intro items hp
      rw [writeIndexed, hp]
    cases node with
    | null =>
      cases hp : writePosition? 0 i with
      | some p => exact .inl ⟨_, .newArray hp⟩
      | none => exact .inr ⟨_, _, by rw [write, writeItem, hfails [] hp]; rfl, .inl rfl⟩
    | arr items =>
      cases hp : writePosition? items.length i with
      | some p => exact .inl ⟨_, .item hp⟩
      | none => exact .inr ⟨_, _, by rw [write, writeItem, hfails items hp]; rfl, .inr rfl⟩
    | _ => exact .inr ⟨_, _, by rw [write]; rfl, .inr rfl⟩
  | _ => cases hs

/-- A write that has succeeded has gone to a place one step down. -/
theorem exists_lands_of_fault_eq_none (hs : segment.IsSingular)
    (h : (write root value (segment :: rest) node).fault = none) : ∃ hop, segment.Lands node hop ∧
      (write root value rest ((node.below? hop).getD .null)).fault = none ∧
        (write root value (segment :: rest) node).result =
          node.put hop (write root value rest ((node.below? hop).getD .null)).result := by
  rcases lands_or_fails root value hs rest node with ⟨hop, hl⟩ | ⟨result, fault, hw, -⟩
  · rw [hl.write_eq] at h ⊢
    exact ⟨hop, hl, h, rfl⟩
  · rw [hw] at h
    cases h

theorem Segment.Lands.eq_of_mem_hops (h : segment.Lands node hop)
    (ho : other ∈ segment.hops root node) : other = hop := by
  cases h with
  | newObject name => exact List.mem_singleton.mp ho
  | member name members => exact List.mem_singleton.mp ho
  | newArray hp => cases ho
  | item hp =>
    obtain ⟨q, hq, rfl⟩ := List.mem_map.mp ho
    have hqp := (writePosition?_of_position? (Option.mem_toList.mp hq)).symm.trans hp
    exact congrArg Hop.item (Option.some.inj hqp)

/-- A read looks where a write lands if there is something. -/
theorem Segment.Lands.hops_eq (h : segment.Lands node hop) (hc : node.below? hop = some child) :
    segment.hops root node = [hop] := by
  cases h with
  | newObject name => cases hc
  | member name members => rfl
  | newArray hp => cases hc
  | @item i items p hp =>
    have hlt : p < items.length := (List.getElem?_eq_some_iff.mp hc).1
    show (position? items.length i).toList.map Hop.item = _
    rw [position?_of_writePosition? hp hlt]
    rfl

theorem item?_of_writePosition? {i : Int} {items : List Json} {p : Nat}
    (hp : writePosition? items.length i = some p) : (Json.arr items).item? i = items[p]? := by
  show (position? items.length i).bind (items[·]?) = items[p]?
  by_cases hlt : p < items.length
  · rw [position?_of_writePosition? hp hlt, Option.bind_some]
  · rw [List.getElem?_eq_none (Nat.not_lt.mp hlt), Option.bind_eq_none_iff]
    intro q hq
    have hqp := Option.some.inj ((writePosition?_of_position? hq).symm.trans hp)
    exact List.getElem?_eq_none (hqp ▸ Nat.not_lt.mp hlt)

theorem Segment.Lands.select_eq (h : segment.Lands node hop) :
    segment.select root node = (node.below? hop).toList := by
  rw [Segment.select.eq_def]
  cases h with
  | newObject name => rfl
  | member name members => rfl
  | newArray hp => rfl
  | item hp => exact congrArg Option.toList (item?_of_writePosition? hp)

theorem exists_lands_of_mem_select (hs : segment.IsSingular)
    (h : child ∈ segment.select root node) : ∃ hop, segment.Lands node hop := by
  cases segment with
  | child name =>
    rw [Segment.select] at h
    cases node with
    | obj members => exact ⟨_, .member name members⟩
    | _ => cases h
  | index i =>
    rw [Segment.select] at h
    cases node with
    | arr items =>
      obtain ⟨p, hp, -⟩ := Option.bind_eq_some_iff.mp (Option.mem_toList.mp h)
      exact ⟨_, .item (writePosition?_of_position? hp)⟩
    | _ => cases h
  | _ => cases hs

theorem Segment.Lands.put (h : segment.Lands node hop) (x : Json) :
    segment.Lands (node.put hop x) hop := by
  have hlength : ∀ (p : Nat) (items : List Json),
      ((padTo p items).set p x).length = max items.length (p + 1) := by
    intro p items
    rw [List.length_set, length_padTo]
  cases h with
  | newObject name => exact .member name _
  | member name members => exact .member name _
  | newArray hp => exact .item (hlength .. ▸ writePosition?_max hp)
  | item hp => exact .item (hlength .. ▸ writePosition?_max hp)

end lands

end StepFlow
