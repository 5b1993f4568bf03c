import Mathlib.Data.List.TakeWhile
import StepFlow.Proofs.Keyed
import StepFlow.Proofs.Text.Blank
import StepFlow.Proofs.Text.Utf8
import StepFlow.Shell.Machine

/-!
# Names and values in an environment

A program gets its environment as texts, each of which has a name, an equals sign and a value. Where the
name ends is for the program to find out: it takes what stands in front of the first equals sign.

* `eq_or_longer_of_divided`: two ways to take a text apart;
* `Launcher.mem_block`: what stands behind a name in the environment of a program;
* `Shell.Machine.assigned?_eq_some`: the variables that a shell makes of its environment.
-/

namespace StepFlow

/-! ## Texts with an equals sign -/

theorem eq_or_longer_of_divided {name name' rest rest' : List Char} (hname : '=' ∉ name)
    (h : name ++ '=' :: rest = name' ++ '=' :: rest') :
    (name' = name ∧ rest' = rest) ∨
      ∃ more, name' = name ++ '=' :: more ∧ rest = more ++ '=' :: rest' := by
  rcases List.append_eq_append_iff.mp h with ⟨between, hname', hrest⟩ | ⟨between, hname', hrest⟩
  · cases between with
    | nil => exact .inl ⟨by rw [hname', List.append_nil], (List.cons.inj hrest).2.symm⟩
    | cons c more =>
      obtain ⟨rfl, htail⟩ := List.cons.inj hrest
      exact .inr ⟨more, hname', htail⟩
  · cases between with
    | nil => exact .inl ⟨by rw [hname', List.append_nil], (List.cons.inj hrest).2⟩
    | cons c more =>
      obtain ⟨rfl, -⟩ := List.cons.inj hrest
      exact absurd (hname' ▸ List.mem_append_right _ List.mem_cons_self) hname

namespace Launcher

theorem toList_divided (name value : String) :
    (name ++ "=" ++ value).toList = name.toList ++ '=' :: value.toList := by
  rw [String.toList_append, String.toList_append, List.append_assoc]
  rfl

theorem assignment_longer (name more value : String) :
    assignment (name ++ "=" ++ more, value) = assignment (name, more ++ "=" ++ value) := by
  simp only [assignment, String.append_assoc]

theorem assignment_eq_iff {name value : String} (hname : '=' ∉ name.toList) {entry : String × String} :
    assignment (name, value) = assignment entry ↔
      entry = (name, value) ∨ ∃ more, entry.1 = name ++ "=" ++ more ∧ value = more ++ "=" ++ entry.2 := by
  obtain ⟨name', value'⟩ := entry
  constructor
  · intro h
    have hlists := congrArg String.toList h
    rw [assignment, assignment, toList_divided, toList_divided] at hlists
    rcases eq_or_longer_of_divided hname hlists with ⟨hn, hv⟩ | ⟨more, hn, hv⟩
    · exact .inl (Prod.ext (String.toList_injective hn) (String.toList_injective hv))
    · refine .inr ⟨String.ofList more, String.toList_injective ?_, String.toList_injective ?_⟩
      · rw [toList_divided, String.toList_ofList]
        exact hn
      · rw [toList_divided, String.toList_ofList]
        exact hv
  · rintro (h | ⟨more, hn, rfl⟩)
    · rw [h]
    · rw [← assignment_longer, ← hn]

/-- **What stands behind a name in the environment of a program.** A value that is added under the name
stands there, unless names are longer than they look: an added name that goes on with an equals sign
brings a second value. -/
theorem mem_block (launcher : Launcher) {additions : List (String × String)}
    (hk : (additions.map Prod.fst).Nodup) {name text : String} (h : (name, text) ∈ additions)
    (hname : '=' ∉ name.toList) (hne : name ≠ "") (value : String) :
    assignment (name, value) ∈ launcher.block additions ↔ value = text ∨
      ∃ d ∈ additions, ∃ more, d.1 = name ++ "=" ++ more ∧ value = more ++ "=" ++ d.2 := by
  have hblock : assignment (name, value) ∈ launcher.block additions ↔
      ∃ d ∈ Keyed.ofList (launcher.inherited ++ additions), d = (name, value) ∨
        ∃ more, d.1 = name ++ "=" ++ more ∧ value = more ++ "=" ++ d.2 := by
    simp only [block, List.mem_map, eq_comm (b := assignment (name, value)), assignment_eq_iff hname]
  rw [hblock]
  constructor
  · rintro ⟨d, hd, rfl | ⟨more, hd1, hvalue⟩⟩
    · exact .inl ((Keyed.mem_ofList_append_iff _ hk h).mp hd)
    · rcases List.mem_append.mp (Keyed.mem_of_mem_ofList hd) with hd | hd
      · -- an inherited name has no equals sign after its first character
        refine absurd ?_ (launcher.proper d hd)
        rw [hd1, String.toList_append, String.toList_append]
        cases hchars : name.toList with
        | nil => exact absurd (String.toList_eq_nil_iff.mp hchars) hne
        | cons c cs => simp
      · exact .inr ⟨d, hd, more, hd1, hvalue⟩
  · rintro (rfl | ⟨d, hd, more, hd1, hvalue⟩)
    · exact ⟨_, (Keyed.mem_ofList_append_iff _ hk h).mpr rfl, .inl rfl⟩
    · exact ⟨d, (Keyed.mem_ofList_append_iff _ hk hd).mpr rfl, .inr ⟨more, hd1, hvalue⟩⟩

end Launcher

/-! ## The variables of a shell -/

namespace Shell

theorem inName_of_isName {name : List Char} (h : isName name) {c : Char} (hc : c ∈ name) :
    inName c = true := by
  cases name with
  | nil => cases hc
  | cons d rest =>
    rw [isName, Bool.and_eq_true, List.all_eq_true] at h
    rcases List.mem_cons.mp hc with rfl | hc
    · have hstart := h.1
      simp only [startsName, inName, Char.isAlphanum, Bool.or_eq_true] at hstart ⊢
      exact hstart.imp_left .inl
    · exact h.2 c hc

theorem toNat_lt_of_inName {c : Char} (h : inName c) : c.toNat < 128 := by
  rw [inName, Bool.or_eq_true, decide_eq_true_eq] at h
  rcases h with h | rfl
  · exact Nat.lt_of_le_of_lt (Text.toNat_of_isAlphanum h).2 (by decide)
  · decide

theorem utf8_of_isName {name : String} (h : isName name.toList) : Text.utf8 name = name.toList :=
  Text.utf8_eq_toList fun _ hc => toNat_lt_of_inName (inName_of_isName h hc)

namespace Machine

theorem utf8_divided (name value : String) :
    Text.utf8 (name ++ "=" ++ value) = Text.utf8 name ++ '=' :: Text.utf8 value := by
  rw [Text.utf8_append, Text.utf8_append, List.append_assoc]
  rfl

theorem notMem_utf8 {text : String} (h : '=' ∉ text.toList) : '=' ∉ Text.utf8 text :=
  fun hmem => h (Text.mem_toList_of_mem_utf8 (by decide) hmem)

theorem assigned?_divided {name : String} (h : '=' ∉ name.toList) (value : String) :
    assigned? (name ++ "=" ++ value) = if isName (Text.utf8 name) then
      some (String.ofList (Text.utf8 name), Text.utf8 value) else none := by
  have hname : ∀ b ∈ Text.utf8 name, decide (b ≠ '=') = true := fun b hb =>
    decide_eq_true fun heq => notMem_utf8 h (heq ▸ hb)
  have htake : (Text.utf8 (name ++ "=" ++ value)).takeWhile (· ≠ '=') = Text.utf8 name := by
    rw [utf8_divided, List.takeWhile_append_of_pos hname, List.takeWhile_cons_of_neg (by decide),
      List.append_nil]
  have hdrop : (Text.utf8 (name ++ "=" ++ value)).dropWhile (· ≠ '=') = '=' :: Text.utf8 value := by
    rw [utf8_divided, List.dropWhile_append_of_pos hname, List.dropWhile_cons_of_neg (by decide)]
  rw [assigned?, htake, hdrop]

theorem assigned?_eq_none {text : String} (h : '=' ∉ text.toList) : assigned? text = none := by
  have hdrop : (Text.utf8 text).dropWhile (· ≠ '=') = [] :=
    List.dropWhile_eq_nil_iff.mpr fun b hb => decide_eq_true fun heq => notMem_utf8 h (heq ▸ hb)
  rw [assigned?, hdrop]

/-- **The variables that a shell makes of its environment**: a text sets a variable to what stands
behind the name of the variable and an equals sign. -/
theorem assigned?_eq_some {text name : String} {bytes : List Char} (hname : isName name.toList) :
    assigned? text = some (name, bytes) ↔
      ∃ value, text = Launcher.assignment (name, value) ∧ bytes = Text.utf8 value := by
  constructor
  · intro h
    by_cases hmem : '=' ∈ text.toList
    · obtain ⟨front, value, htext, hfront⟩ := List.eq_append_cons_of_mem hmem
      obtain rfl : text = String.ofList front ++ "=" ++ String.ofList value := by
        rw [← String.toList_inj, Launcher.toList_divided, htext, String.toList_ofList,
          String.toList_ofList]
      rw [assigned?_divided (by rwa [String.toList_ofList])] at h
      split at h
      · obtain ⟨hread, hbytes⟩ := Prod.mk.inj (Option.some.inj h)
        have hutf8 : Text.utf8 (String.ofList front) = Text.utf8 name := by
          rw [utf8_of_isName hname, ← hread, String.toList_ofList]
        exact ⟨String.ofList value, by rw [Text.utf8_injective hutf8, Launcher.assignment], hbytes.symm⟩
      · cases h
    · rw [assigned?_eq_none hmem] at h
      cases h
  · rintro ⟨value, rfl, rfl⟩
    have hnot : '=' ∉ name.toList := fun hmem => absurd (inName_of_isName hname hmem) (by decide)
    rw [Launcher.assignment, assigned?_divided hnot, utf8_of_isName hname, if_pos hname,
      String.ofList_toList]

end Machine

end Shell

end StepFlow
