import StepFlow.Json.Keyed

/-!
# Looking up in tables

* `find?_insert`, `find?_erase`: what the operations on a table do to the value at a key;
* `mem_keys`: the keys are those at which there is a value;
* `find?_ofList`, `find?_ofList_append`, `ofList_of_sorted`: a list of entries as a table;
* `length_erase_lt`: taking a key away makes a table shorter.
-/

namespace StepFlow.Keyed

variable {α β : Type} {k : String} {t : Keyed α}

@[simp] theorem find?_nil : find? k ([] : Keyed α) = none := rfl

theorem find?_cons (k l : String) (v : α) (t : Keyed α) :
    find? k ((l, v) :: t) = if l = k then some v else find? k t := rfl

theorem mem_of_find? {v : α} (h : find? k t = some v) : (k, v) ∈ t := by
  induction t with
  | nil => simp at h
  | cons e t ih =>
    obtain ⟨l, w⟩ := e
    rw [find?_cons] at h
    split at h
    · next hl =>
      cases h
      exact hl ▸ List.mem_cons_self
    · exact List.mem_cons_of_mem _ (ih h)

theorem find?_eq_none : find? k t = none ↔ k ∉ t.keys := by
  induction t with
  | nil => simp [keys]
  | cons e t ih =>
    obtain ⟨l, w⟩ := e
    rw [find?_cons]
    split
    · next hl => simp [keys, hl]
    · next hl =>
      rw [ih]
      simp [keys, Ne.symm hl]

theorem mem_keys : k ∈ t.keys ↔ ∃ v, find? k t = some v := by
  rw [← Option.ne_none_iff_exists', ne_eq, find?_eq_none, Decidable.not_not]

theorem find?_of_mem {v : α} (hk : t.keys.Nodup) (h : (k, v) ∈ t) : find? k t = some v := by
  induction t with
  | nil => exact absurd h List.not_mem_nil
  | cons e t ih =>
    obtain ⟨l, w⟩ := e
    rw [keys, List.map_cons, List.nodup_cons] at hk
    rw [find?_cons]
    rcases List.mem_cons.mp h with h | h
    · cases h
      rw [if_pos rfl]
    · have hne : l ≠ k := by
        rintro rfl
        exact hk.1 (List.mem_map.mpr ⟨_, h, rfl⟩)
      rw [if_neg hne, ih hk.2 h]

theorem nodup_keys (h : t.Sorted) : t.keys.Nodup := by
  refine List.pairwise_map.mpr (List.Pairwise.imp (fun {a b} hlt heq => ?_) h)
  exact String.lt_irrefl b.1 (heq ▸ hlt)

theorem map_find?_keys (h : t.Sorted) : t.keys.map (find? · t) = (t.map Prod.snd).map some := by
  induction t with
  | nil => rfl
  | cons e t ih =>
    obtain ⟨l, v⟩ := e
    have hne : ∀ m ∈ keys t, find? m ((l, v) :: t) = find? m t := by
      intro m hm
      obtain ⟨e, he, rfl⟩ := List.mem_map.mp hm
      have hlt : l < e.1 := List.rel_of_pairwise_cons h he
      rw [find?_cons, if_neg fun heq => String.lt_irrefl _ (heq ▸ hlt)]
    have ht : (keys t).map (find? · ((l, v) :: t)) = (keys t).map (find? · t) :=
      List.map_congr_left hne
    rw [keys, List.map_cons, List.map_cons, List.map_cons, List.map_cons, find?_cons, if_pos rfl,
      ← keys, ht, ih h.of_cons]

theorem find?_map (k : String) (f : α → β) (t : Keyed α) :
    find? k (t.map fun e => (e.1, f e.2)) = (find? k t).map f := by
  induction t with
  | nil => rfl
  | cons e t ih =>
    obtain ⟨l, v⟩ := e
    rw [List.map_cons, find?_cons, find?_cons, ih]
    split <;> rfl

theorem find?_insert (k l : String) (v : α) (t : Keyed α) :
    find? l (insert k v t) = if k = l then some v else find? l t := by
  induction t with
  | nil => simp [insert, find?_cons]
  | cons e t ih =>
    obtain ⟨m, w⟩ := e
    rw [insert]
    split
    · rw [find?_cons]
    · split
      · next hm =>
        rw [find?_cons, find?_cons, hm]
        split <;> rfl
      · next hm =>
        rw [find?_cons, find?_cons, ih]
        by_cases hl : m = l
        · rw [if_pos hl, if_pos hl, if_neg]
          exact fun h => hm (h.trans hl.symm)
        · rw [if_neg hl, if_neg hl]

theorem insert_insert (k : String) (v w : α) (t : Keyed α) :
    insert k w (insert k v t) = insert k w t := by
  have hk : ¬ k < k := String.lt_irrefl k
  induction t with
  | nil => rw [insert, insert, insert, if_neg hk, if_pos rfl]
  | cons e t ih =>
    obtain ⟨l, u⟩ := e
    by_cases hlt : k < l
    · rw [insert, if_pos hlt, insert, if_neg hk, if_pos rfl, insert, if_pos hlt]
    · by_cases heq : k = l
      · rw [insert, if_neg hlt, if_pos heq, insert, if_neg hk, if_pos rfl, insert, if_neg hlt,
          if_pos heq]
      · rw [insert, if_neg hlt, if_neg heq, insert, if_neg hlt, if_neg heq, ih, insert, if_neg hlt,
          if_neg heq]

theorem insert_of_find? {v : α} (h : t.Sorted) (hv : find? k t = some v) : insert k v t = t := by
  induction t with
  | nil => cases hv
  | cons e t ih =>
    obtain ⟨l, u⟩ := e
    rw [find?_cons] at hv
    split at hv
    · next hl =>
      cases hv
      rw [insert, if_neg (hl ▸ String.lt_irrefl l), if_pos hl.symm, hl]
    · next hl =>
      have hlt : l < k := List.rel_of_pairwise_cons h (mem_of_find? hv)
      rw [insert, if_neg (String.lt_asymm hlt), if_neg (Ne.symm hl), ih h.of_cons hv]

theorem Sorted.lt_of_mem_drop {i : Nat} {e d : String × α} (h : t.Sorted) (he : t[i]? = some e)
    (hd : d ∈ t.drop (i + 1)) : e.1 < d.1 := by
  obtain ⟨hi, rfl⟩ := List.getElem?_eq_some_iff.mp he
  have hdrop : (t.drop i).Pairwise fun a b => a.1 < b.1 := List.Pairwise.drop h
  rw [← List.getElem_cons_drop hi] at hdrop
  exact List.rel_of_pairwise_cons hdrop hd

/-! ## Lists of entries -/

/-- Every entry of a list counts, if no two have the same key. -/
theorem find?_ofList {entries : List (String × α)} {v : α} (hk : (entries.map Prod.fst).Nodup)
    (h : (k, v) ∈ entries) : find? k (ofList entries) = some v := by
  -- what is in the table stays there if its key does not occur among the entries to come
  have key : ∀ (entries : List (String × α)) (t : Keyed α), (entries.map Prod.fst).Nodup →
      (k, v) ∈ entries ∨ find? k t = some v ∧ k ∉ entries.map Prod.fst →
      find? k (entries.foldl (fun t e => insert e.1 e.2 t) t) = some v := by
    intro entries
    induction entries with
    | nil => exact fun t _ h => h.elim (fun h => absurd h List.not_mem_nil) And.left
    | cons e entries ih =>
      intro t hk h
      rw [List.map_cons, List.nodup_cons] at hk
      refine ih _ hk.2 ?_
      rcases h with h | ⟨hv, hn⟩
      · rcases List.mem_cons.mp h with rfl | h
        · exact .inr ⟨by rw [find?_insert, if_pos rfl], hk.1⟩
        · exact .inl h
      · rw [List.map_cons, List.mem_cons, not_or] at hn
        exact .inr ⟨by rw [find?_insert, if_neg (Ne.symm hn.1), hv], hn.2⟩
  exact key entries [] hk (.inl h)

theorem find?_foldl_insert_of_notMem {entries : List (String × α)} (h : k ∉ entries.map Prod.fst)
    (t : Keyed α) : find? k (entries.foldl (fun t e => insert e.1 e.2 t) t) = find? k t := by
  induction entries generalizing t with
  | nil => rfl
  | cons e entries ih =>
    rw [List.map_cons, List.mem_cons, not_or] at h
    rw [List.foldl_cons, ih h.2, find?_insert, if_neg (Ne.symm h.1)]

theorem find?_ofList_append (before : List (String × α)) {after : List (String × α)}
    (h : k ∉ after.map Prod.fst) (v : α) : find? k (ofList (before ++ (k, v) :: after)) = some v := by
  rw [ofList, List.foldl_append, List.foldl_cons, find?_foldl_insert_of_notMem h, find?_insert, if_pos rfl]

theorem mem_keys_insert {l : String} {v : α} : k ∈ (insert l v t).keys ↔ k = l ∨ k ∈ t.keys := by
  simp only [mem_keys, find?_insert]
  by_cases h : l = k
  · simp [h]
  · simp [h, Ne.symm h]

theorem mem_keys_ofList {entries : List (String × α)} :
    k ∈ (ofList entries).keys ↔ k ∈ entries.map Prod.fst := by
  have key : ∀ (entries : List (String × α)) (t : Keyed α),
      k ∈ keys (entries.foldl (fun t e => insert e.1 e.2 t) t) ↔
        k ∈ entries.map Prod.fst ∨ k ∈ t.keys := by
    intro entries
    induction entries with
    | nil => simp
    | cons e entries ih =>
      intro t
      rw [List.foldl_cons, ih, mem_keys_insert, List.map_cons, List.mem_cons, or_assoc, or_left_comm]
  rw [ofList, key]
  simp [keys]

theorem sorted_of_keys {ks : List String} (hk : t.keys = ks) (h : ks.Pairwise (· < ·)) :
    t.Sorted := by
  rw [← hk] at h
  exact List.pairwise_map.mp h

theorem sorted_pair {l : String} {v w : α} (h : k < l) : Sorted [(k, v), (l, w)] :=
  List.pairwise_pair.mpr h

theorem mem_of_mem_ofList {entries : List (String × α)} {e : String × α} (h : e ∈ ofList entries) :
    e ∈ entries := by
  have key : ∀ (entries : List (String × α)) (t : Keyed α),
      e ∈ entries.foldl (fun t e => insert e.1 e.2 t) t → e ∈ t ∨ e ∈ entries := by
    intro entries
    induction entries with
    | nil => exact fun t h => .inl h
    | cons m entries ih =>
      intro t h
      rcases ih _ h with h | h
      · rcases mem_insert h with rfl | h
        · exact .inr List.mem_cons_self
        · exact .inl h
      · exact .inr (List.mem_cons_of_mem m h)
  exact (key entries [] h).resolve_left List.not_mem_nil

theorem find?_ofList_of_unique {entries : List (String × α)} {v : α} (h : (k, v) ∈ entries)
    (hv : ∀ w, (k, w) ∈ entries → w = v) : find? k (ofList entries) = some v := by
  obtain ⟨w, hw⟩ := mem_keys.mp (mem_keys_ofList.mpr (List.mem_map_of_mem (f := Prod.fst) h))
  rw [hw, hv w (mem_of_mem_ofList (mem_of_find? hw))]

/-- The entries at the end of a list count, if no two of them have the same key. -/
theorem mem_ofList_append_iff (before : List (String × α)) {after : List (String × α)} {v w : α}
    (hk : (after.map Prod.fst).Nodup) (h : (k, v) ∈ after) :
    (k, w) ∈ ofList (before ++ after) ↔ w = v := by
  obtain ⟨front, rest, rfl⟩ := List.append_of_mem h
  have hrest : k ∉ rest.map Prod.fst := by
    rw [List.map_append, List.map_cons, List.nodup_append] at hk
    exact (List.nodup_cons.mp hk.2.1).1
  have hfind : find? k (ofList (before ++ (front ++ (k, v) :: rest))) = some v := by
    rw [← List.append_assoc]
    exact find?_ofList_append _ hrest v
  constructor
  · intro hw
    exact Option.some.inj ((find?_of_mem (nodup_keys (sorted_ofList _)) hw).symm.trans hfind)
  · rintro rfl
    exact mem_of_find? hfind

theorem length_insert_le (k : String) (v : α) (t : Keyed α) :
    (insert k v t).length ≤ t.length + 1 := by
  induction t with
  | nil => exact Nat.le_refl 1
  | cons e t ih =>
    obtain ⟨l, w⟩ := e
    rw [insert]
    split
    · exact Nat.le_refl _
    · split
      · exact Nat.le_succ _
      · exact Nat.succ_le_succ ih

theorem length_ofList_le (entries : List (String × α)) :
    (ofList entries).length ≤ entries.length := by
  have key : ∀ (entries : List (String × α)) (t : Keyed α),
      (entries.foldl (fun t e => insert e.1 e.2 t) t).length ≤ t.length + entries.length := by
    intro entries
    induction entries with
    | nil => exact fun t => Nat.le_refl _
    | cons e entries ih =>
      intro t
      have hinsert := length_insert_le e.1 e.2 t
      have hrest := ih (insert e.1 e.2 t)
      rw [List.foldl_cons, List.length_cons]
      omega
  have := key entries []
  rwa [List.length_nil, Nat.zero_add] at this

theorem insert_of_forall_lt {v : α} (h : ∀ e ∈ t, e.1 < k) : insert k v t = t ++ [(k, v)] := by
  induction t with
  | nil => rfl
  | cons e t ih =>
    obtain ⟨l, w⟩ := e
    have hl : l < k := h _ List.mem_cons_self
    have hne : k ≠ l := by
      rintro rfl
      exact String.lt_irrefl k hl
    rw [insert, if_neg (String.lt_asymm hl), if_neg hne,
      ih fun e he => h e (List.mem_cons_of_mem _ he), List.cons_append]

theorem ofList_of_sorted (h : t.Sorted) : ofList t = t := by
  have key : ∀ rest done : Keyed α, Sorted (done ++ rest) →
      rest.foldl (fun t e => insert e.1 e.2 t) done = done ++ rest := by
    intro rest
    induction rest with
    | nil => exact fun done _ => (List.append_nil done).symm
    | cons e rest ih =>
      intro done h
      have hlt : ∀ d ∈ done, d.1 < e.1 := fun d hd =>
        (List.pairwise_append.mp h).2.2 d hd e List.mem_cons_self
      have hstep : done ++ e :: rest = done ++ [e] ++ rest := by
        rw [List.append_assoc, List.singleton_append]
      rw [List.foldl_cons, insert_of_forall_lt hlt, hstep, ih _ (hstep ▸ h)]
  exact key t [] h

/-! ## Taking keys away -/

theorem find?_erase (k l : String) (t : Keyed α) :
    find? l (erase k t) = if k = l then none else find? l t := by
  induction t with
  | nil => simp [erase]
  | cons e t ih =>
    obtain ⟨m, w⟩ := e
    unfold erase at ih ⊢
    by_cases hm : m = k
    · rw [List.filter_cons_of_neg (by simp [hm]), ih, find?_cons, hm]
      split <;> rfl
    · rw [List.filter_cons_of_pos (by simp [hm]), find?_cons, find?_cons, ih]
      by_cases hl : m = l
      · rw [if_pos hl, if_pos hl, if_neg]
        exact fun h => hm (hl.trans h.symm)
      · rw [if_neg hl, if_neg hl]

theorem length_erase_lt {v : α} (h : find? k t = some v) : (erase k t).length < t.length :=
  List.length_filter_lt_length_iff_exists.mpr ⟨(k, v), mem_of_find? h, by simp⟩

end StepFlow.Keyed
