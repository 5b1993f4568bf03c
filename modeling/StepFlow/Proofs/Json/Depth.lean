import StepFlow.Json.Basic

/-!
# Depth

* `Json.depth_lt_of_mem_items`, `Json.depth_lt_of_mem_members`: a part of a value is less deep;
* `Json.exists_deep_item`, `Json.exists_deep_member`: the first part that is too deep.
-/

namespace StepFlow.Json

theorem depth_le_depthItems {j : Json} {items : List Json} (h : j ∈ items) :
    j.depth ≤ depthItems items := by
  induction items with
  | nil => exact absurd h List.not_mem_nil
  | cons i items ih =>
    rw [depthItems]
    rcases List.mem_cons.mp h with rfl | h
    · exact Nat.le_max_left _ _
    · exact Nat.le_trans (ih h) (Nat.le_max_right _ _)

theorem depth_le_depthMembers {e : String × Json} {members : List (String × Json)}
    (h : e ∈ members) : e.2.depth ≤ depthMembers members := by
  induction members with
  | nil => exact absurd h List.not_mem_nil
  | cons f members ih =>
    obtain ⟨k, j⟩ := f
    rw [depthMembers]
    rcases List.mem_cons.mp h with rfl | h
    · exact Nat.le_max_left _ _
    · exact Nat.le_trans (ih h) (Nat.le_max_right _ _)

theorem depth_lt_of_mem_items {j : Json} {items : List Json} (h : j ∈ items) :
    j.depth < (arr items).depth := by
  rw [depth]
  exact Nat.lt_succ_of_le (depth_le_depthItems h)

theorem depth_lt_of_mem_members {e : String × Json} {members : List (String × Json)}
    (h : e ∈ members) : e.2.depth < (obj members).depth := by
  rw [depth]
  exact Nat.lt_succ_of_le (depth_le_depthMembers h)

/-! ## Parts that are too deep -/

theorem exists_deep_item {items : List Json} {d : Nat} (h : d < depthItems items) :
    ∃ before j after, items = before ++ j :: after ∧ (∀ b ∈ before, b.depth ≤ d) ∧ d < j.depth := by
  induction items with
  | nil => exact absurd h (Nat.not_lt_zero d)
  | cons j items ih =>
    by_cases hj : d < j.depth
    · exact ⟨[], j, items, rfl, fun b hb => absurd hb List.not_mem_nil, hj⟩
    · obtain ⟨before, x, after, rfl, hbefore, hx⟩ := ih (by rw [depthItems] at h; omega)
      refine ⟨j :: before, x, after, rfl, fun b hb => ?_, hx⟩
      rcases List.mem_cons.mp hb with rfl | hb
      · exact Nat.le_of_not_lt hj
      · exact hbefore b hb

theorem exists_deep_member {members : List (String × Json)} {d : Nat} (h : d < depthMembers members) :
    ∃ before e after, members = before ++ e :: after ∧ (∀ b ∈ before, b.2.depth ≤ d) ∧
      d < e.2.depth := by
  induction members with
  | nil => exact absurd h (Nat.not_lt_zero d)
  | cons e members ih =>
    obtain ⟨k, j⟩ := e
    by_cases hj : d < j.depth
    · exact ⟨[], (k, j), members, rfl, fun b hb => absurd hb List.not_mem_nil, hj⟩
    · obtain ⟨before, x, after, rfl, hbefore, hx⟩ := ih (by rw [depthMembers] at h; omega)
      refine ⟨(k, j) :: before, x, after, rfl, fun b hb => ?_, hx⟩
      rcases List.mem_cons.mp hb with rfl | hb
      · exact Nat.le_of_not_lt hj
      · exact hbefore b hb

end StepFlow.Json
