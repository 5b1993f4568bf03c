import StepFlow.Json.Basic
import StepFlow.Proofs.Keyed

/-!
# Values in order

A value is regular if the members of its objects stand in key order and its numbers are of a given kind.
A machine can hold it if it can count its parts.

* `Json.Regular`, `Json.Regular.children`: the property, which the parts of a value inherit;
* `Json.Holds`, `Json.hasDouble`: one value is part of another, and a double is;
* `Json.Regular.of_holds`: the numbers of a regular value are settled one by one;
* `Number.Exact`: numbers that a document can hold;
* `Json.Holdable`: values whose parts can be counted.
-/

namespace StepFlow

/-- An integer of a document is one that a document can hold. -/
def Number.Exact : Number → Prop
  | .int i => isExact i = true
  | .float _ => True

namespace Json

/-- The objects within the value are in key order, and its numbers have the property `P`. -/
inductive Regular (P : Number → Prop) : Json → Prop where
  | null : Regular P .null
  | bool (b : Bool) : Regular P (.bool b)
  | num {n : Number} : P n → Regular P (.num n)
  | str (s : String) : Regular P (.str s)
  | arr {items : List Json} : (∀ j ∈ items, Regular P j) → Regular P (.arr items)
  | obj {members : Keyed Json} : members.Sorted → (∀ e ∈ members, Regular P e.2) →
      Regular P (.obj members)

/-- A value stands somewhere within another one. -/
inductive Holds (part : Json) : Json → Prop where
  | self : Holds part part
  | child {j c : Json} : c ∈ j.children → Holds part c → Holds part j

mutual

/-- Whether there is a double within the value. -/
def hasDouble : Json → Bool
  | .num (.float _) => true
  | .arr items => hasDoubleItems items
  | .obj members => hasDoubleMembers members
  | _ => false

/-- Whether there is a double within the items of an array. -/
def hasDoubleItems : List Json → Bool
  | [] => false
  | j :: rest => hasDouble j || hasDoubleItems rest

/-- Whether there is a double within the members of an object. -/
def hasDoubleMembers : List (String × Json) → Bool
  | [] => false
  | (_, j) :: rest => hasDouble j || hasDoubleMembers rest

end

variable {P Q : Number → Prop} {j c : Json}

theorem Regular.children (h : j.Regular P) (hc : c ∈ j.children) : c.Regular P := by
  cases h with
  | arr h => exact h c hc
  | obj _ h =>
    obtain ⟨e, he, rfl⟩ := List.mem_map.mp hc
    exact h e he
  | _ => exact absurd hc List.not_mem_nil

theorem Regular.of_holds (h : j.Regular P) (hQ : ∀ n, P n → Holds (.num n) j → Q n) :
    j.Regular Q := by
  induction h with
  | null => exact .null
  | bool b => exact .bool b
  | num hn => exact .num (hQ _ hn .self)
  | str s => exact .str s
  | arr _ ih => exact .arr fun j hj => ih j hj fun n hn hh => hQ n hn (.child hj hh)
  | obj hs _ ih =>
    exact .obj hs fun e he => ih e he fun n hn hh => hQ n hn (.child (List.mem_map_of_mem he) hh)

theorem hasDouble_of_mem_children (hc : c ∈ j.children) (h : c.hasDouble = true) :
    j.hasDouble = true := by
  cases j with
  | arr items =>
    have hc : c ∈ items := hc
    show hasDoubleItems items = true
    induction items with
    | nil => cases hc
    | cons i items ih =>
      rw [hasDoubleItems]
      rcases List.mem_cons.mp hc with rfl | hc
      · rw [h, Bool.true_or]
      · rw [ih hc hc, Bool.or_true]
  | obj members =>
    have hc : c ∈ members.map Prod.snd := hc
    show hasDoubleMembers members = true
    induction members with
    | nil => cases hc
    | cons e members ih =>
      rw [hasDoubleMembers]
      rcases List.mem_cons.mp hc with rfl | hc
      · rw [h, Bool.true_or]
      · rw [ih hc hc, Bool.or_true]
  | _ => cases hc

theorem hasDouble_of_holds {x : Float} (h : Holds (.num (.float x)) j) : j.hasDouble = true := by
  induction h with
  | self => rfl
  | child hc _ ih => exact hasDouble_of_mem_children hc ih

theorem regular_ofMembers {members : List (String × Json)} (h : ∀ e ∈ members, e.2.Regular P) :
    (ofMembers members).Regular P :=
  .obj (Keyed.sorted_ofList members) fun e he => h e (Keyed.mem_of_mem_ofList he)

/-! ## Values that a machine can hold -/

/-- A machine can hold the value: it can count what every array and object within it holds. -/
inductive Holdable : Json → Prop where
  | intro {j : Json} : j.children.length < 18446744073709551616 → (∀ c ∈ j.children, Holdable c) →
      Holdable j

@[simp] theorem holdable_arr {items : List Json} : (arr items).Holdable ↔
    items.length < 18446744073709551616 ∧ ∀ j ∈ items, j.Holdable :=
  ⟨fun ⟨hl, h⟩ => ⟨hl, h⟩, fun ⟨hl, h⟩ => ⟨hl, h⟩⟩

@[simp] theorem holdable_obj {members : Keyed Json} : (obj members).Holdable ↔
    members.length < 18446744073709551616 ∧ ∀ e ∈ members, e.2.Holdable := by
  refine ⟨fun ⟨hl, h⟩ => ⟨?_, fun e he => h _ (List.mem_map_of_mem he)⟩, fun ⟨hl, h⟩ => ⟨?_, ?_⟩⟩
  · rwa [children, List.length_map] at hl
  · rwa [children, List.length_map]
  · exact fun c hc => by
      obtain ⟨e, he, rfl⟩ := List.mem_map.mp hc
      exact h e he

theorem holdable_of_children_eq_nil {j : Json} (h : j.children = []) : j.Holdable :=
  ⟨by rw [h]; decide, by rw [h]; exact fun c hc => absurd hc List.not_mem_nil⟩

@[simp] theorem holdable_null : null.Holdable := holdable_of_children_eq_nil rfl

@[simp] theorem holdable_bool (b : Bool) : (bool b).Holdable := holdable_of_children_eq_nil rfl

@[simp] theorem holdable_str (s : String) : (str s).Holdable := holdable_of_children_eq_nil rfl

theorem holdable_ofMembers {members : List (String × Json)}
    (hl : members.length < 18446744073709551616) (h : ∀ e ∈ members, e.2.Holdable) :
    (ofMembers members).Holdable :=
  holdable_obj.mpr ⟨Nat.lt_of_le_of_lt (Keyed.length_ofList_le members) hl,
    fun e he => h e (Keyed.mem_of_mem_ofList he)⟩

end Json

end StepFlow
