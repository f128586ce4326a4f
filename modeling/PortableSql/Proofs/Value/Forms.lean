import Mathlib.Tactic
import PortableSql.Proofs.Text.Trimming
import PortableSql.Value.Color
import PortableSql.Value.Guid

/-!
# Stored forms of identifiers and colors

Two hexadecimal digits read back as their byte, so the text of an identifier reads back; turning the mixed
groups around twice changes nothing; and the four channels of a color are the digits of its word to the
base 256, which the sign of the stored word does not touch.
-/
namespace PortableSql

namespace Text

theorem hexValue?_hexDigit (n : Nat) (h : n < 16) : hexValue? (hexDigit n) = some n := by
  interval_cases n <;> rfl

theorem isBlank_hexDigit (n : Nat) (h : n < 16) : isBlank (hexDigit n) = false := by
  interval_cases n <;> rfl

theorem readHex_flatMap_hexByte (bytes : List UInt8) :
    readHex (bytes.flatMap hexByte) = some bytes := by
  induction bytes with
  | nil => rfl
  | cons b rest ih =>
    have hb := b.toNat_lt
    have high := hexValue?_hexDigit (b.toNat / 16) (by omega)
    have low := hexValue?_hexDigit (b.toNat % 16) (by omega)
    have whole : 16 * (b.toNat / 16) + b.toNat % 16 = b.toNat := by omega
    simp only [List.flatMap_cons, hexByte, List.cons_append, List.nil_append, readHex, high, low, ih,
      Option.bind_eq_bind, Option.bind_some, whole, UInt8.ofNat_toNat, pure]

end Text

namespace Guid

open Text

theorem ofBytes?_bytes (id : Guid) : ofBytes? id.bytes = some id := by
  rw [ofBytes?, dif_pos id.size]

theorem mixEndian_mixEndian {bytes : List UInt8} (h : bytes.length = 16) :
    mixEndian (mixEndian bytes) = bytes := by
  match bytes, h with
  | [_, _, _, _, _, _, _, _, _, _, _, _, _, _, _, _], _ => rfl

theorem ofMixedEndian?_toMixedEndian (id : Guid) : ofMixedEndian? id.toMixedEndian = some id := by
  rw [ofMixedEndian?, toMixedEndian, mixEndian_mixEndian id.size, ofBytes?_bytes]

theorem readGroups_toText (id : Guid) : readGroups id.toText.toList = some id := by
  obtain ⟨bytes, size⟩ := id
  match bytes, size with
  | [b0, b1, b2, b3, b4, b5, b6, b7, b8, b9, b10, b11, b12, b13, b14, b15], size =>
    have digits := readHex_flatMap_hexByte
      [b0, b1, b2, b3, b4, b5, b6, b7, b8, b9, b10, b11, b12, b13, b14, b15]
    simp only [List.flatMap_cons, List.flatMap_nil, hexByte, List.cons_append, List.nil_append,
      List.append_nil] at digits
    simp [readGroups, toText, hexByte, digits, ofBytes?]

theorem toText_length (id : Guid) : id.toText.toList.length = 36 := by
  obtain ⟨bytes, size⟩ := id
  match bytes, size with
  | [_, _, _, _, _, _, _, _, _, _, _, _, _, _, _, _], _ => simp [toText, hexByte]

theorem isBlank_of_mem_toText {id : Guid} {c : Char} (h : c ∈ id.toText.toList) :
    isBlank c = false := by
  have digit : ∀ c ∈ id.bytes.flatMap hexByte, isBlank c = false := by
    intro c hc
    obtain ⟨b, -, hb⟩ := List.mem_flatMap.mp hc
    have small := b.toNat_lt
    simp only [hexByte, List.mem_cons, List.not_mem_nil, or_false] at hb
    rcases hb with rfl | rfl
    · exact isBlank_hexDigit _ (by omega)
    · exact isBlank_hexDigit _ (by omega)
  have group (start count : Nat) (hc : c ∈ ((id.bytes.flatMap hexByte).drop start).take count) :
      isBlank c = false :=
    digit c (List.mem_of_mem_drop (List.mem_of_mem_take hc))
  simp only [toText, String.toList_ofList, List.mem_append, List.mem_cons, or_assoc] at h
  rcases h with h | rfl | h | rfl | h | rfl | h | rfl | h
  · exact digit c (List.mem_of_mem_take h)
  · rfl
  · exact group 8 4 h
  · rfl
  · exact group 12 4 h
  · rfl
  · exact group 16 4 h
  · rfl
  · exact digit c (List.mem_of_mem_drop h)

theorem read_trim_toText (id : Guid) : read (trim id.toText.toList) = some id := by
  rw [trim_of_visible fun c => isBlank_of_mem_toText, read, toText_length]
  exact readGroups_toText id

end Guid

namespace Color

theorem packed_toNat (c : Color) :
    c.packed.toNat = ((c.a.toNat * 256 + c.r.toNat) * 256 + c.g.toNat) * 256 + c.b.toNat := by
  have ha := c.a.toNat_lt
  have hr := c.r.toNat_lt
  have hg := c.g.toNat_lt
  have hb := c.b.toNat_lt
  rw [packed, UInt32.toNat_ofNat', Nat.mod_eq_of_lt]
  omega

theorem toInt_toArgb (c : Color) : c.toArgb.toInt = (c.packed.toNat : Int).bmod (2 ^ 32) := by
  rw [toArgb, ← Int32.toInt_toBitVec, UInt32.toBitVec_toInt32, BitVec.toInt_eq_toNat_bmod]
  rfl

theorem toArgb_emod (c : Color) : c.toArgb.toInt % 4294967296 = c.packed.toNat := by
  have small := c.packed.toNat_lt
  have word := Int.bmod_emod (x := (c.packed.toNat : Int)) (m := 2 ^ 32)
  rw [← toInt_toArgb] at word
  omega

theorem ofInt_toArgb (c : Color) : ofInt c.toArgb.toInt = c := by
  have ha := c.a.toNat_lt
  have hr := c.r.toNat_lt
  have hg := c.g.toNat_lt
  have hb := c.b.toNat_lt
  have channel (n : Nat) (b : UInt8) (h : n % 256 = b.toNat) : UInt8.ofNat n = b := by
    rw [← UInt8.toNat_inj, UInt8.toNat_ofNat', h]
  rw [ofInt, toArgb_emod, Int.toNat_natCast, packed_toNat]
  rw [channel _ c.a (by omega), channel _ c.r (by omega), channel _ c.g (by omega),
    channel _ c.b (by omega)]

end Color

end PortableSql
