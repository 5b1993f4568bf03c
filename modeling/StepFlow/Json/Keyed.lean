/-!
# Tables in key order

A table is a list of keys and values in which the keys increase strictly. Texts are ordered by code
points, which is also the order of their UTF-8 bytes.

* `Keyed.Sorted`: the order of the keys, as a predicate on the list;
* `Keyed.find?`, `Keyed.insert`, `Keyed.erase`, `Keyed.ofList`: the operations on a table;
* `Keyed.Sorted.insert`, `Keyed.sorted_ofList`: the operations keep the order.
-/

namespace StepFlow

abbrev Keyed (α : Type) : Type := List (String × α)

namespace Keyed

variable {α : Type}

def Sorted (t : Keyed α) : Prop :=
  t.Pairwise fun a b => a.1 < b.1

/-- The value at `key`. -/
def find? (key : String) : Keyed α → Option α
  | [] => none
  | (k, v) :: t => if k = key then some v else find? key t

/-- Puts `value` at `key`, in place of what was there. -/
def insert (key : String) (value : α) : Keyed α → Keyed α
  | [] => [(key, value)]
  | (k, v) :: t =>
    if key < k then (key, value) :: (k, v) :: t
    else if key = k then (key, value) :: t
    else (k, v) :: insert key value t

/-- Takes `key` and its value away. -/
def erase (key : String) (t : Keyed α) : Keyed α :=
  t.filter fun e => e.1 ≠ key

/-- The table of a list of entries, of which the last one with a key counts. -/
def ofList (entries : List (String × α)) : Keyed α :=
  entries.foldl (fun t e => insert e.1 e.2 t) []

def keys (t : Keyed α) : List String :=
  t.map Prod.fst

/-! ## The order is kept -/

theorem mem_insert {key : String} {value : α} {e : String × α} {t : Keyed α}
    (h : e ∈ insert key value t) : e = (key, value) ∨ e ∈ t := by
  induction t with
  | nil => simpa [insert] using h
  | cons a t ih =>
    obtain ⟨k, v⟩ := a
    simp only [insert] at h
    split at h
    · simpa using h
    · split at h
      · rcases List.mem_cons.1 h with h | h <;> simp [h]
      · rcases List.mem_cons.1 h with h | h
        · simp [h]
        · rcases ih h with h | h <;> simp [h]

theorem Sorted.insert {t : Keyed α} (h : t.Sorted) (key : String) (value : α) :
    (Keyed.insert key value t).Sorted := by
  induction t with
  | nil => simp [Keyed.insert, Sorted]
  | cons a t ih =>
    obtain ⟨k, v⟩ := a
    have hk : ∀ e ∈ t, k < e.1 := fun e he => List.rel_of_pairwise_cons h he
    have ht : Sorted t := List.Pairwise.of_cons h
    simp only [Keyed.insert]
    split
    · next hlt =>
      refine List.Pairwise.cons (fun e he => ?_) h
      rcases List.mem_cons.1 he with rfl | he
      · exact hlt
      · exact String.lt_trans hlt (hk e he)
    · split
      · next heq => exact List.Pairwise.cons (fun e he => heq ▸ hk e he) ht
      · next hnlt hne =>
        refine List.Pairwise.cons (fun e he => ?_) (ih ht)
        rcases mem_insert he with rfl | he
        · exact Std.lt_of_le_of_ne (String.not_lt.1 hnlt) (Ne.symm hne)
        · exact hk e he

theorem sorted_ofList (entries : List (String × α)) : Sorted (ofList entries) := by
  suffices h : ∀ t : Keyed α, Sorted t →
      Sorted (entries.foldl (fun t e => Keyed.insert e.1 e.2 t) t) from
    h [] List.Pairwise.nil
  induction entries with
  | nil => exact fun t h => h
  | cons e entries ih => exact fun t h => ih _ (h.insert e.1 e.2)

end Keyed

end StepFlow
