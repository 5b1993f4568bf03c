/-!
# Computations that may fail

* `Except.bind_eq_ok_iff`, `Except.bind_eq_error_iff`, `Except.mapM_cons_eq_ok_iff`: when a sequence succeeds,
  and when it fails;
* `Except.exists_of_mem_mapM`, `Except.exists_mem_mapM`: the values of a list of computations belong to
  its members, and the other way round;
* `Except.getElem?_of_mapM`, `Except.exists_of_mapM_eq_error`, `Except.exists_mapM_eq_error`: the values of a
  list of computations one by one, and where its error comes from;
* `Except.mapM_congr`: two functions that agree on a list give the same there;
* `Except.mapM_map_eq_ok_map`, `Except.mapM_map_eq_ok`: the values of a list of computations that succeed;
  a list comes back if every member does;
* `Except.foldlM_keeps`: what every step of a list of steps keeps.
-/

namespace StepFlow.Except

variable {ε α β : Type}

theorem ok_bind (a : α) (f : α → Except ε β) : (.ok a : Except ε α) >>= f = f a := rfl

theorem bind_eq_ok_iff {x : Except ε α} {f : α → Except ε β} {b : β} :
    x >>= f = .ok b ↔ ∃ a, x = .ok a ∧ f a = .ok b := by
  cases x <;> simp [bind, Except.bind]

theorem bind_eq_error_iff {x : Except ε α} {f : α → Except ε β} {e : ε} :
    x >>= f = .error e ↔ x = .error e ∨ ∃ a, x = .ok a ∧ f a = .error e := by
  cases x <;> simp [bind, Except.bind]

theorem map_eq_ok_iff {x : Except ε α} {f : α → β} {b : β} :
    f <$> x = .ok b ↔ ∃ a, x = .ok a ∧ f a = b := by
  cases x <;> simp [Functor.map, Except.map]

theorem map_eq_error_iff {x : Except ε α} {f : α → β} {e : ε} :
    f <$> x = .error e ↔ x = .error e := by
  cases x <;> simp [Functor.map, Except.map]

theorem toOption_eq_some_iff {x : Except ε α} {a : α} : x.toOption = some a ↔ x = .ok a := by
  cases x <;> simp [Except.toOption]

section mapM

variable {f g : α → Except ε β} {l : List α} {bs : List β}

theorem mapM_cons_eq_ok_iff {a : α} : (a :: l).mapM f = .ok bs ↔
    ∃ b bs', f a = .ok b ∧ l.mapM f = .ok bs' ∧ b :: bs' = bs := by
  rw [List.mapM_cons, bind_eq_ok_iff]
  refine exists_congr fun b => ?_
  rw [bind_eq_ok_iff]
  constructor
  · rintro ⟨hb, bs', hbs, h⟩
    cases h
    exact ⟨bs', hb, hbs, rfl⟩
  · rintro ⟨bs', hb, hbs, rfl⟩
    exact ⟨hb, bs', hbs, rfl⟩

theorem exists_of_mem_mapM (h : l.mapM f = .ok bs) {b : β} (hb : b ∈ bs) :
    ∃ a ∈ l, f a = .ok b := by
  induction l generalizing bs with
  | nil =>
    cases h
    exact absurd hb List.not_mem_nil
  | cons a l ih =>
    obtain ⟨b', bs', hab, hl, rfl⟩ := mapM_cons_eq_ok_iff.mp h
    rcases List.mem_cons.mp hb with rfl | hb
    · exact ⟨a, List.mem_cons_self, hab⟩
    · obtain ⟨a', ha', hab'⟩ := ih hl hb
      exact ⟨a', List.mem_cons_of_mem a ha', hab'⟩

theorem exists_mem_mapM (h : l.mapM f = .ok bs) {a : α} (ha : a ∈ l) : ∃ b ∈ bs, f a = .ok b := by
  induction l generalizing bs with
  | nil => exact absurd ha List.not_mem_nil
  | cons a' l ih =>
    obtain ⟨b', bs', hab, hl, rfl⟩ := mapM_cons_eq_ok_iff.mp h
    rcases List.mem_cons.mp ha with rfl | ha
    · exact ⟨b', List.mem_cons_self, hab⟩
    · obtain ⟨b, hb, hab'⟩ := ih hl ha
      exact ⟨b, List.mem_cons_of_mem b' hb, hab'⟩

theorem getElem?_of_mapM (h : l.mapM f = .ok bs) : l.length = bs.length ∧
    ∀ (i : Nat) (a : α), l[i]? = some a → ∃ b, bs[i]? = some b ∧ f a = .ok b := by
  induction l generalizing bs with
  | nil =>
    cases h
    exact ⟨rfl, nofun⟩
  | cons a l ih =>
    obtain ⟨b, bs', hb, hbs, rfl⟩ := mapM_cons_eq_ok_iff.mp h
    obtain ⟨hlength, hall⟩ := ih hbs
    refine ⟨congrArg (· + 1) hlength, fun i a' ha => ?_⟩
    cases i with
    | zero =>
      cases ha
      exact ⟨b, rfl, hb⟩
    | succ i => exact hall i a' ha

/-- The error of a list of computations is that of one of them. -/
theorem exists_of_mapM_eq_error {e : ε} (h : l.mapM f = .error e) : ∃ a ∈ l, f a = .error e := by
  induction l with
  | nil => cases h
  | cons a l ih =>
    rw [List.mapM_cons] at h
    cases ha : f a with
    | error e' =>
      rw [ha] at h
      cases h
      exact ⟨a, List.mem_cons_self, ha⟩
    | ok b =>
      rw [ha] at h
      cases hl : l.mapM f with
      | error e' =>
        rw [hl] at h
        cases h
        obtain ⟨a', ha', hf⟩ := ih hl
        exact ⟨a', List.mem_cons_of_mem a ha', hf⟩
      | ok bs =>
        rw [hl] at h
        cases h

theorem exists_mapM_eq_error {a : α} {e : ε} (ha : a ∈ l) (h : f a = .error e) :
    ∃ e', l.mapM f = .error e' := by
  cases hl : l.mapM f with
  | error e' => exact ⟨e', rfl⟩
  | ok bs =>
    obtain ⟨b, -, hb⟩ := exists_mem_mapM hl ha
    rw [h] at hb
    cases hb

theorem mapM_congr (h : ∀ a ∈ l, f a = g a) : l.mapM f = l.mapM g := by
  induction l with
  | nil => rfl
  | cons a l ih =>
    rw [List.mapM_cons, List.mapM_cons, h a List.mem_cons_self,
      ih fun b hb => h b (List.mem_cons_of_mem a hb)]

theorem mapM_map_eq_ok_map {γ : Type} {g : γ → α} {k : γ → β} {cs : List γ}
    (h : ∀ c ∈ cs, f (g c) = .ok (k c)) : (cs.map g).mapM f = .ok (cs.map k) := by
  induction cs with
  | nil => rfl
  | cons c cs ih =>
    rw [List.map_cons, mapM_cons_eq_ok_iff]
    exact ⟨k c, cs.map k, h c List.mem_cons_self, ih fun d hd => h d (List.mem_cons_of_mem c hd), rfl⟩

theorem mapM_eq_ok_map {k : α → β} (h : ∀ a ∈ l, f a = .ok (k a)) : l.mapM f = .ok (l.map k) := by
  have hmap : (l.map id).mapM f = .ok (l.map k) := mapM_map_eq_ok_map h
  rwa [List.map_id] at hmap

theorem mapM_map_eq_ok {g : β → α} {f : α → Except ε β} {bs : List β}
    (h : ∀ b ∈ bs, f (g b) = .ok b) : (bs.map g).mapM f = .ok bs := by
  rw [mapM_map_eq_ok_map (k := id) h, List.map_id]

end mapM

theorem foldlM_keeps {f : β → α → Except ε β} {P : β → Prop} {l : List α} {b b' : β}
    (h : l.foldlM f b = .ok b') (hb : P b) (hf : ∀ a ∈ l, ∀ c c', P c → f c a = .ok c' → P c') :
    P b' := by
  induction l generalizing b with
  | nil =>
    cases h
    exact hb
  | cons a l ih =>
    rw [List.foldlM_cons, bind_eq_ok_iff] at h
    obtain ⟨c, hc, h⟩ := h
    exact ih h (hf a List.mem_cons_self b c hb hc) fun a' ha' => hf a' (List.mem_cons_of_mem a ha')

end StepFlow.Except
