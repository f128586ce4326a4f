import Mathlib.Data.Nat.Bitwise
import PortableSql.Value.Bits

/-!
# Bits in bytes

Single bits are packed into bytes from the left to the right, each byte from its least significant bit on, and
a bit is found again in the byte and at the place that its index has modulo eight. So an array that is made of
single bits holds these and then zeros up to the end of its last byte (`get?_ofBools`), and arrays are told
apart by their bits (`bits_injective`).
-/
namespace PortableSql.BitArray

/-! ## One byte -/

theorem testBit_foldr (bits : List Bool) (place : Nat) :
    (bits.foldr (fun (bit : Bool) n => 2 * n + (if bit then 1 else 0)) 0).testBit place =
      bits[place]?.getD false := by
  induction bits generalizing place with
  | nil => simp
  | cons bit bits ih =>
    cases place with
    | zero => cases bit <;> simp [Nat.testBit_zero]
    | succ place =>
      rw [List.foldr_cons, Nat.testBit_succ, List.getElem?_cons_succ, ← ih]
      congr 1
      cases bit with
      | false => simp
      | true => simp; omega

/-- The places of a byte hold the bits that it is made of, and zeros behind them. -/
theorem testBit_packByte (bits : List Bool) {place : Nat} (inside : place < 8) :
    (packByte bits).toNat.testBit place = bits[place]?.getD false := by
  rw [packByte, UInt8.toNat_ofNat', Nat.testBit_mod_two_pow, testBit_foldr, List.getElem?_take]
  simp [inside]

/-! ## All bytes -/

theorem length_packBits (bits : List Bool) : (packBits bits).length = (bits.length + 7) / 8 := by
  fun_induction packBits bits with
  | case1 => rfl
  | case2 bit rest ih =>
    simp only [List.length_cons, List.length_drop] at ih ⊢
    omega

/-- Each byte is packed from the bits behind those of the bytes before it. -/
theorem getElem?_packBits (bits : List Bool) (place : Nat) :
    (packBits bits)[place]? =
      if 8 * place < bits.length then some (packByte (bits.drop (8 * place))) else none := by
  fun_induction packBits bits generalizing place with
  | case1 => simp
  | case2 bit rest ih =>
    cases place with
    | zero => simp
    | succ place =>
      have shift : (bit :: rest).drop (8 * (place + 1)) = (rest.drop 7).drop (8 * place) := by
        rw [List.drop_drop, show 8 * (place + 1) = (7 + 8 * place) + 1 by omega, List.drop_succ_cons]
      rw [List.getElem?_cons_succ, ih, shift, List.length_drop, List.length_cons]
      congr 1
      apply propext
      omega

theorem length_ofBools (bits : List Bool) : (ofBools bits).length = 8 * ((bits.length + 7) / 8) :=
  congrArg (8 * ·) (length_packBits bits)

/-- The bits of a packed array are those that it is made of, and zeros behind them. -/
theorem get?_ofBools (bits : List Bool) (index : Nat) :
    (ofBools bits).get? index =
      if index < (ofBools bits).length then some (bits[index]?.getD false) else none := by
  unfold get?
  split
  · rename_i inside
    have byte := getElem?_packBits bits (index / 8)
    rw [length_ofBools] at inside
    rw [if_pos (by omega)] at byte
    obtain ⟨place, same⟩ := List.getElem?_eq_some_iff.1 byte
    have whole : 8 * (index / 8) + index % 8 = index := Nat.div_add_mod index 8
    show some ((packBits bits)[index / 8].toNat.testBit (index % 8)) = _
    rw [same, testBit_packByte _ (Nat.mod_lt _ (by decide)), List.getElem?_drop, whole]
  · rfl

/-! ## Arrays as lists of bits -/

/-- All bits of an array. -/
def bits (array : BitArray) : List Bool :=
  (List.range array.length).map fun index => (array.get? index).getD false

theorem length_bits (array : BitArray) : array.bits.length = array.length := by
  simp [bits]

theorem getElem?_bits (array : BitArray) (index : Nat) : array.bits[index]? = array.get? index := by
  by_cases inside : index < array.length
  · simp [bits, inside, get?]
  · simp [bits, inside, get?]

/-- The bits of a packed array are those that it is made of, filled up with zeros. -/
theorem bits_ofBools (bits : List Bool) :
    (ofBools bits).bits = bits.rightpad (ofBools bits).length false := by
  have room : bits.length ≤ (ofBools bits).length := by
    rw [length_ofBools]
    omega
  apply List.ext_getElem?
  intro index
  rw [getElem?_bits, get?_ofBools, List.rightpad, List.getElem?_append]
  by_cases given : index < bits.length
  · rw [if_pos given, if_pos (by omega), List.getElem?_eq_getElem given, Option.getD_some]
  · rw [if_neg given, List.getElem?_eq_none (by omega), Option.getD_none, List.getElem?_replicate]
    congr 1
    apply propext
    omega

/-- Arrays with the same bits hold the same bytes. -/
theorem bits_injective : Function.Injective bits := by
  intro array other same
  have lengths : array.length = other.length := by
    rw [← length_bits, ← length_bits, same]
  have size := array.length_eq
  have otherSize := other.length_eq
  have bytes : array.bytes = other.bytes := by
    apply List.ext_getElem (by omega)
    intro place inside insideOther
    apply UInt8.toNat_inj.1
    apply Nat.eq_of_testBit_eq
    intro bit
    by_cases low : bit < 8
    · -- the bit of this byte is the bit of the array at the index that byte and place make up
      have index : (8 * place + bit) / 8 = place ∧ (8 * place + bit) % 8 = bit := by omega
      have found : array.get? (8 * place + bit) = other.get? (8 * place + bit) := by
        rw [← getElem?_bits, ← getElem?_bits, same]
      unfold get? at found
      rw [dif_pos (by omega), dif_pos (by omega)] at found
      simpa only [index.1, index.2, Option.some.injEq] using found
    · have high : ∀ byte : UInt8, byte.toNat.testBit bit = false := fun byte =>
        Nat.testBit_lt_two_pow (Nat.lt_of_lt_of_le byte.toNat_lt (Nat.pow_le_pow_right (by decide) (by omega)))
      rw [high, high]
  rw [← array.ofBytes_bytes, bytes, ofBytes_bytes]

/-- An array that is made of single bits holds all of them and then zeros up to the next multiple of eight, and
the bytes of it hold the whole array. Two lists of bits are packed alike exactly if they differ in zeros behind
them at most. No bit of any array is looked for behind its bytes. -/
theorem packed_bits_come_back (bits : List Bool) :
    let array := ofBools bits
    (8 ∣ array.length ∧ bits.length ≤ array.length ∧
        ∀ n, 8 ∣ n → bits.length ≤ n → array.length ≤ n) ∧
      array.length = 8 * array.bytes.length ∧
      (∀ index bit, bits[index]? = some bit → array.get? index = some bit) ∧
      (∀ index, bits.length ≤ index → index < array.length → array.get? index = some false) ∧
      (∀ index, array.length ≤ index → array.get? index = none) ∧
      ofBytes array.bytes = array ∧
      (∀ others : List Bool, array = ofBools others ↔
        bits.rightpad array.length false = others.rightpad (ofBools others).length false) ∧
      ∀ (any : BitArray) (index : Nat), index < any.length →
        ∃ inside : index / 8 < any.bytes.length,
          any.get? index = some (any.bytes[index / 8].toNat.testBit (index % 8)) := by
  intro array
  have length : array.length = 8 * ((bits.length + 7) / 8) := length_ofBools bits
  have get (index : Nat) := get?_ofBools bits index
  refine ⟨⟨⟨_, length⟩, by omega, ?_⟩, rfl, ?_, ?_, ?_, rfl, ?_, ?_⟩
  · rintro n ⟨bytes, rfl⟩ room
    omega
  · intro index bit given
    obtain ⟨inside, _⟩ := List.getElem?_eq_some_iff.1 given
    rw [get, if_pos (show index < array.length by omega), given, Option.getD_some]
  · intro index behind inside
    rw [get, if_pos inside, List.getElem?_eq_none behind, Option.getD_none]
  · intro index outside
    rw [get, if_neg (show ¬ index < array.length by omega)]
  · intro others
    rw [← bits_ofBools, ← bits_ofBools]
    exact bits_injective.eq_iff.symm
  · intro any index inside
    exact ⟨place_lt inside, dif_pos inside⟩

/-- A ninth bit takes a second byte, the rest of which is zero, as a tenth bit may be. -/
theorem packed_bits_come_back_of_ninth_bit :
    let bits := List.replicate 8 false ++ [true]
    let array := ofBools bits
    array.length = 16 ∧ array.get? 8 = some true ∧ array.get? 9 = some false ∧ array.get? 16 = none ∧
      array = ofBools (bits ++ [false]) ∧ array ≠ ofBools (bits ++ [true]) ∧
      ∃ inside : 15 / 8 < array.bytes.length,
        array.get? 15 = some (array.bytes[15 / 8].toNat.testBit (15 % 8)) := by
  intro bits array
  have sixteen (last : List Bool) (few : last.length ≤ 7) : (ofBools (bits ++ last)).length = 16 := by
    obtain ⟨⟨whole, room, least⟩, _⟩ := packed_bits_come_back (bits ++ last)
    have count : (bits ++ last).length = 9 + last.length := List.length_append
    have most := least 16 (by decide) (by omega)
    omega
  have length : array.length = 16 := sixteen [] (by decide)
  obtain ⟨_, _, given, filled, absent, _, alike, place⟩ := packed_bits_come_back bits
  refine ⟨length, given 8 true rfl, filled 9 (by decide) (length ▸ by decide),
    absent 16 (Nat.le_of_eq length), ?_, ?_, place array 15 (length ▸ by decide)⟩
  · rw [alike, sixteen _ (by decide), show (ofBools bits).length = 16 from length]
    rfl
  · rw [Ne, alike, sixteen _ (by decide), show (ofBools bits).length = 16 from length]
    decide

end PortableSql.BitArray
