import Mathlib.Data.Nat.Digits.Lemmas
import PortableSql.Proofs.Value.Integers

/-!
# Colors under both packings

A color of 32 bits is written as a signed number, and read from a signed or an unsigned one: the two ranges
overlap, and where they differ the numbers are 2^32 apart and have the same lowest 32 bits. So reading keeps
what a number is modulo 2^32 and writing gives its balanced remainder (`Codec.colors_under_both_packings`).
-/
namespace PortableSql

open Number

namespace Color

/-- The channels of a color are the four bytes of a word, the most significant first. -/
def HasBytes (c : Color) (word : Nat) : Prop :=
  Nat.ofDigits 256 [c.b.toNat, c.g.toNat, c.r.toNat, c.a.toNat] = word

theorem hasBytes_packed (c : Color) : c.HasBytes c.packed.toNat := by
  rw [packed_toNat]
  simp only [HasBytes, Nat.ofDigits_cons, Nat.ofDigits_nil]
  omega

/-- The bytes of a word determine the color. -/
theorem HasBytes.unique {c d : Color} {word : Nat} (first : c.HasBytes word) (second : d.HasBytes word) :
    c = d := by
  have small (byte : UInt8) : byte.toNat < 256 := byte.toNat_lt
  have digits : [c.b.toNat, c.g.toNat, c.r.toNat, c.a.toNat]
      = [d.b.toNat, d.g.toNat, d.r.toNat, d.a.toNat] := by
    apply Nat.ofDigits_inj_of_len_eq (by decide : 1 < 256)
    · rfl
    · simp [small]
    · simp [small]
    · exact first.trans second.symm
  simp only [List.cons.injEq, UInt8.toNat_inj, and_true] at digits
  cases c
  cases d
  simp_all

theorem hasBytes_ofInt (n : Int) : (ofInt n).HasBytes (n % 4294967296).toNat := by
  simp only [HasBytes, ofInt, UInt8.toNat_ofNat', Nat.ofDigits_cons, Nat.ofDigits_nil]
  omega

theorem toNat_packed_ofInt (n : Int) : (ofInt n).packed.toNat = (n % 4294967296).toNat :=
  (hasBytes_packed _).symm.trans (hasBytes_ofInt n)

/-- A color is packed into the balanced remainder of every number that it is read from. -/
theorem toInt_toArgb_ofInt (n : Int) : (ofInt n).toArgb.toInt = n.bmod (2 ^ 32) := by
  have remainder : (((n % 4294967296).toNat : Nat) : Int) = n % (2 ^ 32 : Nat) := by omega
  rw [toInt_toArgb, toNat_packed_ofInt, remainder, Int.emod_bmod]

/-- A number in one of the ranges is the word that its color is packed into, with a sign or without. -/
theorem eq_toArgb_or_eq {n : Int} (inside : -2147483648 ≤ n ∧ n < 4294967296) :
    n = (ofInt n).toArgb.toInt ∨ n = (ofInt n).toArgb.toUInt32.toNat := by
  rcases lt_or_ge n 0 with negative | positive
  · left
    rw [toInt_toArgb_ofInt]
    exact (Int.bmod_eq_of_le_mul_two (by omega) (by omega)).symm
  · right
    rw [toArgb, UInt32.toUInt32_toInt32, toNat_packed_ofInt]
    omega

theorem ofInt_sub_word (n : Int) : ofInt (n - 4294967296) = ofInt n := by
  have bytes := hasBytes_ofInt (n - 4294967296)
  rw [Int.sub_emod_right] at bytes
  exact bytes.unique (hasBytes_ofInt n)

end Color

namespace Codec

variable (codec : Codec) {raw : StoredValue} {n : Int}

/-- All numbers that are read as colors lie within 128 bits. -/
private theorem wide_of_packing :
    -170141183460469231731687303715884105728 < (-2147483648 : Int) ∧
      (4294967295 : Int) ≤ 170141183460469231731687303715884105727 := by
  decide

theorem load_color_of_number {number : AnyNumber} (shape : raw.number? = some number) :
    codec.load .color raw =
      match number.toInt? with
      | some n =>
        if -2147483648 ≤ n ∧ n < 4294967296 then .ok (.color (Color.ofInt n)) else .error (.notColor n)
      | none => .error (.unexpected .color raw.type.name) := by
  rw [load_number codec shape, loadValue, shape]
  rfl

theorem fromDatabase_color (carries : raw.Carries n) (inside : -2147483648 ≤ n ∧ n < 4294967296) :
    codec.fromDatabase raw .color = .ok (.color (Color.ofInt n)) := by
  obtain ⟨number, shape, stands⟩ := carries.number
  have whole : number.toInt? = some n := stands.toInt?_eq_some wide_of_packing (by omega)
  simp only [fromDatabase, load_color_of_number codec shape, whole, if_pos inside]

theorem fromDatabase_color_error (carries : raw.Carries n)
    (outside : ¬ (-2147483648 ≤ n ∧ n < 4294967296)) :
    ∃ e, codec.fromDatabase raw .color = .error e := by
  obtain ⟨number, shape, stands⟩ := carries.number
  cases found : number.toInt? with
  | none => simp [fromDatabase, load_color_of_number codec shape, found]
  | some i =>
    have away := stands.outside wide_of_packing (by omega) found
    have refused : ¬ (-2147483648 ≤ i ∧ i < 4294967296) := by omega
    simp [fromDatabase, load_color_of_number codec shape, found, if_neg refused]

/-- A whole number is read as a color exactly if it is a signed or an unsigned number of 32 bits. The color has
the bytes of the number modulo 2^32, and is written as the signed word that is the number, with a sign or
without. So an unsigned number that no signed number reaches is the same color as the number 2^32 below it. -/
theorem colors_under_both_packings (encoders : Encoders) (carries : raw.Carries n) (compress : Bool) :
    ((∃ value, codec.fromDatabase raw .color = .ok value) ↔ -2 ^ 31 ≤ n ∧ n < 2 ^ 32) ∧
    (∀ value, codec.fromDatabase raw .color = .ok value →
      ∃ c : Color, value = .color c ∧ c.HasBytes (n % 2 ^ 32).toNat ∧
        ∃ packed : Int32, (n = packed.toInt ∨ n = packed.toUInt32.toNat) ∧
          packed.toInt = n.bmod (2 ^ 32) ∧
          codec.toDatabase encoders (.color c) .color compress = .ok (.i32 packed, .i32)) ∧
    ∀ other : StoredValue, other.Carries (n - 2 ^ 32) → 2 ^ 31 ≤ n →
      ∀ value, codec.fromDatabase raw .color = .ok value →
        codec.fromDatabase other .color = .ok value := by
  have accepted : (∃ value, codec.fromDatabase raw .color = .ok value) ↔
      -2147483648 ≤ n ∧ n < 4294967296 := by
    constructor
    · rintro ⟨value, loaded⟩
      by_contra outside
      obtain ⟨e, failed⟩ := fromDatabase_color_error codec carries outside
      rw [failed] at loaded
      cases loaded
    · intro inside
      exact ⟨_, fromDatabase_color codec carries inside⟩
  have reads : ∀ value, codec.fromDatabase raw .color = .ok value →
      (-2147483648 ≤ n ∧ n < 4294967296) ∧ value = .color (Color.ofInt n) := by
    intro value loaded
    have inside := accepted.1 ⟨value, loaded⟩
    rw [fromDatabase_color codec carries inside] at loaded
    exact ⟨inside, (Except.ok.inj loaded).symm⟩
  refine ⟨accepted, fun value loaded => ?_, fun other carriesOther past value loaded => ?_⟩
  · obtain ⟨inside, rfl⟩ := reads value loaded
    exact ⟨Color.ofInt n, rfl, Color.hasBytes_ofInt n, (Color.ofInt n).toArgb,
      Color.eq_toArgb_or_eq inside, Color.toInt_toArgb_ofInt n, rfl⟩
  · obtain ⟨inside, rfl⟩ := reads value loaded
    rw [← Color.ofInt_sub_word]
    exact fromDatabase_color codec carriesOther (by omega)

/-- Red without transparency as a decimal with a place, packed without a sign, and as text, packed with one. One
more than every unsigned number is no color. -/
theorem colors_under_both_packings_of_red :
    let codec : Codec := ⟨.native, .unbounded⟩
    let unsigned : StoredValue := .decimal ⟨false, 42949017600, 1, by decide, by decide⟩
    let red : Color := ⟨255, 255, 0, 0⟩
    (unsigned.Carries 4294901760 ∧ (StoredValue.text " -65536").Carries (4294901760 - 2 ^ 32)) ∧
      codec.fromDatabase unsigned .color = .ok (.color red) ∧
      codec.fromDatabase (.text " -65536") .color = .ok (.color red) ∧
      codec.toDatabase .stored (.color red) .color false = .ok (.i32 (-65536), .i32) ∧
      ¬ ∃ value, codec.fromDatabase (.i64 4294967296) .color = .ok value := by
  intro codec unsigned red
  have carries : unsigned.Carries 4294901760 := .decimal (by unfold Decimal.IsWhole; decide)
  have signed : (StoredValue.text " -65536").Carries (4294901760 - 2 ^ 32) :=
    .text ⟨[' '], ['-'], "65536".toList, [], by decide, by decide, by decide, by decide,
      List.all_eq_true.1 (by decide), .inr ⟨rfl, by decide⟩⟩
  obtain ⟨taken, written, twin⟩ := colors_under_both_packings codec .stored carries false
  obtain ⟨value, read⟩ := taken.2 (by decide)
  have readSigned := twin _ signed (by decide) value read
  obtain ⟨c, rfl, bytes, packed, -, remainder, stored⟩ := written value read
  have isRed : c = red := bytes.unique (show red.HasBytes _ by unfold Color.HasBytes; decide)
  have isPacked : packed = -65536 := Int32.toInt_inj.1 (remainder.trans (by decide))
  subst isRed isPacked
  have past := colors_under_both_packings codec .stored (.i64 4294967296) false
  exact ⟨⟨carries, signed⟩, read, readSigned, stored, fun loaded => absurd (past.1.1 loaded) (by decide)⟩

end Codec

end PortableSql
