import Mathlib.Tactic
import PortableSql.Text.Utf8

/-!
# Text in UTF-8

Text in UTF-8 reads back, and its first bytes are those of a character: a byte from 128 to 191 continues a
character and begins none.
-/
namespace PortableSql.Text

theorem decodeUtf8?_encodeUtf8 (s : String) : decodeUtf8? (encodeUtf8 s) = some s := by
  have whole : (⟨(encodeUtf8 s).toArray⟩ : ByteArray) = s.toUTF8 := by
    simp [encodeUtf8]
  rw [decodeUtf8?, whole, String.fromUTF8?]
  exact dif_pos s.isValidUTF8

theorem encodeUtf8_eq_flatMap (s : String) :
    encodeUtf8 s = s.toList.flatMap String.utf8EncodeChar := by
  have whole : s.toByteArray = s.toList.utf8Encode := by
    rw [← String.toByteArray_ofList, String.ofList_toList]
  simp [encodeUtf8, whole, List.utf8Encode]

/-- A character takes a single byte below 128, or its first byte is from 192 on. -/
theorem utf8EncodeChar_eq_single_or (c : Char) :
    (∃ b : UInt8, b.toNat < 128 ∧ String.utf8EncodeChar c = [b])
      ∨ ∃ (b : UInt8) (later : List UInt8), 192 ≤ b.toNat ∧ String.utf8EncodeChar c = b :: later := by
  unfold String.utf8EncodeChar
  dsimp only
  split_ifs with one two three
  · exact .inl ⟨_, by simp only [UInt8.toNat_ofNat']; omega, rfl⟩
  · exact .inr ⟨_, _, by simp only [UInt8.toNat_ofNat']; omega, rfl⟩
  · exact .inr ⟨_, _, by simp only [UInt8.toNat_ofNat']; omega, rfl⟩
  · exact .inr ⟨_, _, by simp only [UInt8.toNat_ofNat']; omega, rfl⟩

theorem head_of_flatMap_utf8EncodeChar {text : List Char} {b : UInt8} {later : List UInt8}
    (h : text.flatMap String.utf8EncodeChar = b :: later) : b.toNat < 128 ∨ 192 ≤ b.toNat := by
  cases text with
  | nil => simp at h
  | cons c text =>
    rw [List.flatMap_cons] at h
    rcases utf8EncodeChar_eq_single_or c with ⟨first, small, hc⟩ | ⟨first, rest, large, hc⟩
    · rw [hc] at h
      injection h with hb
      exact .inl (hb ▸ small)
    · rw [hc] at h
      injection h with hb
      exact .inr (hb ▸ large)

/-- Behind a byte below 128 another character begins. -/
theorem second_of_encodeUtf8 {s : String} {a b : UInt8} {later : List UInt8}
    (h : encodeUtf8 s = a :: b :: later) (ha : a.toNat < 128) : b.toNat < 128 ∨ 192 ≤ b.toNat := by
  rw [encodeUtf8_eq_flatMap] at h
  cases hs : s.toList with
  | nil => simp [hs] at h
  | cons c text =>
    rw [hs, List.flatMap_cons] at h
    rcases utf8EncodeChar_eq_single_or c with ⟨first, -, hc⟩ | ⟨first, rest, large, hc⟩
    · rw [hc] at h
      injection h with _ h
      exact head_of_flatMap_utf8EncodeChar h
    · rw [hc] at h
      injection h with hb
      rw [hb] at large
      omega

end PortableSql.Text
