import Mathlib.Data.List.Basic
import StepFlow.Text.Utf8

/-!
# The bytes of texts

* `utf8_append`: the bytes of a text after another one;
* `utf8_injective`: texts with the same bytes are equal;
* `mem_toList_of_mem_utf8`: a byte below 128 stands for itself;
* `utf8_eq_toList`: a text of such characters is its own bytes.
-/

namespace StepFlow.Text

/-! ## Bytes as characters -/

/-- The byte with its number as a character. -/
def ofByte (b : UInt8) : Char := Char.ofNat b.toNat

theorem toNat_ofByte (b : UInt8) : (ofByte b).toNat = b.toNat := by
  have hb : b.toNat < 256 := b.toNat_lt
  have hvalid : b.toNat.isValidChar := .inl (by omega)
  rw [ofByte, Char.ofNat, dif_pos hvalid]
  rfl

theorem ofByte_injective : Function.Injective ofByte := fun a b h => by
  rw [← UInt8.toNat_inj, ← toNat_ofByte, h, toNat_ofByte]

/-! ## Single characters -/

theorem utf8EncodeChar_of_lt {c : Char} (h : c.toNat < 128) :
    (String.utf8EncodeChar c).map ofByte = [c] := by
  have hval : c.val.toNat = c.toNat := rfl
  rw [String.utf8EncodeChar.eq_1, hval, if_pos (by omega), List.map_singleton, ofByte,
    UInt8.toNat_ofNat_of_lt' (by simp only [UInt8.size]; omega), Char.ofNat_toNat]

theorem le_of_mem_utf8EncodeChar {c : Char} (h : 128 ≤ c.toNat) {b : UInt8}
    (hb : b ∈ String.utf8EncodeChar c) : 128 ≤ b.toNat := by
  have hval : c.val.toNat = c.toNat := rfl
  rw [String.utf8EncodeChar.eq_1, hval, if_neg (by omega)] at hb
  split_ifs at hb <;> simp only [List.mem_cons, List.not_mem_nil, or_false] at hb <;>
    rcases hb with rfl | rfl | rfl | rfl <;> simp only [UInt8.toNat_ofNat'] <;> omega

/-! ## Texts -/

theorem utf8_eq (text : String) :
    utf8 text = text.toList.flatMap fun c => (String.utf8EncodeChar c).map ofByte := by
  have hbytes : text.toUTF8.data.toList = text.toList.flatMap String.utf8EncodeChar := by
    rw [String.toUTF8, ← String.ofList_toList (s := text), String.toByteArray_ofList, List.utf8Encode,
      List.toList_data_toByteArray, String.ofList_toList]
  rw [utf8, hbytes, List.map_flatMap]
  rfl

theorem utf8_append (s t : String) : utf8 (s ++ t) = utf8 s ++ utf8 t := by
  simp only [utf8_eq, String.toList_append, List.flatMap_append]

theorem utf8_injective {s t : String} (h : utf8 s = utf8 t) : s = t := by
  have hlists := List.map_injective_iff.mpr ofByte_injective h
  exact String.toByteArray_inj.mp (ByteArray.ext (Array.toList_inj.mp hlists))

theorem utf8_eq_toList {text : String} (h : ∀ c ∈ text.toList, c.toNat < 128) :
    utf8 text = text.toList := by
  rw [utf8_eq, List.flatMap_congr fun c hc => utf8EncodeChar_of_lt (h c hc), List.flatMap_singleton']

theorem mem_toList_of_mem_utf8 {text : String} {c : Char} (h : c.toNat < 128) (hc : c ∈ utf8 text) :
    c ∈ text.toList := by
  rw [utf8_eq] at hc
  obtain ⟨d, hd, hmem⟩ := List.mem_flatMap.mp hc
  by_cases hsmall : d.toNat < 128
  · rw [utf8EncodeChar_of_lt hsmall] at hmem
    rwa [List.mem_singleton.mp hmem]
  · obtain ⟨b, hb, rfl⟩ := List.mem_map.mp hmem
    rw [toNat_ofByte] at h
    exact absurd (le_of_mem_utf8EncodeChar (Nat.le_of_not_lt hsmall) hb) (Nat.not_le_of_lt h)

end StepFlow.Text
