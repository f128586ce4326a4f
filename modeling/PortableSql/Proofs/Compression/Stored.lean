import Mathlib.Tactic
import PortableSql.Compression.Stored

/-!
# Stored blocks

Stored blocks and the words around them read back. A word is its bytes with the least significant first, a
byte is its bits in the same order, so a number read from bits is the word of the bytes that they belong to.
Every reader takes stored blocks, whatever it tolerates, and leaves what stands behind the last one.
-/
namespace PortableSql.Compression

open Number (twoPow)

@[simp] theorem littleEndian_length (count n : Nat) : (littleEndian count n).length = count := by
  simp [littleEndian]

theorem twoPow_eight_mul_succ (count : Nat) : twoPow (8 * (count + 1)) = 256 * twoPow (8 * count) := by
  simp only [twoPow, Nat.pow_eq, Nat.mul_add, Nat.pow_add]
  omega

theorem littleEndian_succ (count n : Nat) :
    littleEndian (count + 1) n = UInt8.ofNat n :: littleEndian count (n / 256) := by
  have shifted (i : Nat) : n / twoPow (8 * (i + 1)) = n / 256 / twoPow (8 * i) := by
    rw [twoPow_eight_mul_succ, Nat.div_div_eq_div_mul]
  simp [littleEndian, List.range_succ_eq_map, shifted, Function.comp_def]

/-- The bytes of a word hold as much of it as there are bytes for. -/
theorem ofLittleEndian_littleEndian (count n : Nat) :
    ofLittleEndian (littleEndian count n) = n % twoPow (8 * count) := by
  induction count generalizing n with
  | zero => simp [littleEndian, ofLittleEndian, twoPow, Nat.mod_one]
  | succ count ih =>
    have step : ofLittleEndian (littleEndian (count + 1) n)
        = 256 * ofLittleEndian (littleEndian count (n / 256)) + (UInt8.ofNat n).toNat := by
      rw [littleEndian_succ]
      rfl
    rw [step, ih, twoPow_eight_mul_succ, Nat.mod_mul, UInt8.toNat_ofNat']
    omega

theorem ofLittleEndian_lt (bytes : List UInt8) : ofLittleEndian bytes < 256 ^ bytes.length := by
  induction bytes with
  | nil => decide
  | cons b bytes ih =>
    have bound := b.toNat_lt
    have step : ofLittleEndian (b :: bytes) = 256 * ofLittleEndian bytes + b.toNat := rfl
    rw [step, List.length_cons, pow_succ]
    omega

theorem ofBigEndian_bigEndian (count n : Nat) :
    ofBigEndian (bigEndian count n) = n % Number.twoPow (8 * count) := by
  rw [ofBigEndian, bigEndian, List.reverse_reverse, ofLittleEndian_littleEndian]

@[simp] theorem bigEndian_length (count n : Nat) : (bigEndian count n).length = count := by
  simp [bigEndian]

theorem take_littleEndian (count n : Nat) (rest : List UInt8) :
    (littleEndian count n ++ rest).take count = littleEndian count n :=
  List.take_left' (littleEndian_length count n)

theorem drop_littleEndian (count n : Nat) (rest : List UInt8) :
    (littleEndian count n ++ rest).drop count = rest :=
  List.drop_left' (littleEndian_length count n)

theorem take_bigEndian (count n : Nat) (rest : List UInt8) :
    (bigEndian count n ++ rest).take count = bigEndian count n :=
  List.take_left' (bigEndian_length count n)

theorem drop_bigEndian (count n : Nat) (rest : List UInt8) :
    (bigEndian count n ++ rest).drop count = rest :=
  List.drop_left' (bigEndian_length count n)

theorem bitsOf_cons (b : UInt8) (bytes : List UInt8) :
    bitsOf (b :: bytes) = (List.range 8).map (b.toNat.testBit ·) ++ bitsOf bytes := rfl

theorem bitsOf_length (bytes : List UInt8) : (bitsOf bytes).length = 8 * bytes.length := by
  induction bytes with
  | nil => rfl
  | cons b bytes ih =>
    rw [bitsOf_cons, List.length_append, ih]
    simp
    omega

theorem readBits_testBits (count n : Nat) (rest : List Bool) :
    readBits count ((List.range count).map (n.testBit ·) ++ rest) = some (n % twoPow count, rest) := by
  induction count generalizing n with
  | zero => simp [readBits, twoPow, Nat.mod_one]
  | succ count ih =>
    have later : (List.range count).map ((n.testBit ·) ∘ Nat.succ)
        = (List.range count).map ((n / 2).testBit ·) := by
      simp [Function.comp_def, Nat.testBit_succ]
    have first : (if n.testBit 0 then 1 else 0) = n % 2 := by
      rw [Nat.testBit_zero]
      rcases Nat.mod_two_eq_zero_or_one n with h | h <;> simp [h]
    have whole : 2 * (n / 2 % twoPow count) + n % 2 = n % twoPow (count + 1) := by
      rw [Number.twoPow_succ, Nat.mul_comm (twoPow count), Nat.mod_mul]
      omega
    rw [List.range_succ_eq_map, List.map_cons, List.map_map, List.cons_append, readBits, later, ih]
    simp only [Option.map_some, first, whole]

theorem readBits_add (m n : Nat) (bits : List Bool) :
    readBits (m + n) bits = (readBits m bits).bind fun (low, rest) =>
      (readBits n rest).map fun (high, rest) => (low + twoPow m * high, rest) := by
  induction m generalizing bits with
  | zero => simp [readBits]
  | succ m ih =>
    cases bits with
    | nil => simp [readBits, Nat.succ_add]
    | cons bit bits =>
      rw [Nat.succ_add, readBits, readBits, ih]
      obtain _ | ⟨low, later⟩ := readBits m bits
      · rfl
      · have shift (high : Nat) : 2 * (low + twoPow m * high) + (if bit then 1 else 0)
            = 2 * low + (if bit then 1 else 0) + twoPow (m + 1) * high := by
          rw [Number.twoPow_succ]
          ring
        simp [Function.comp_def, shift]

/-- The bits of bytes are read as the word that the bytes make up. -/
theorem readBits_bitsOf (bytes rest : List UInt8) :
    readBits (8 * bytes.length) (bitsOf (bytes ++ rest))
      = some (ofLittleEndian bytes, bitsOf rest) := by
  induction bytes with
  | nil => rfl
  | cons b bytes ih =>
    have split : 8 * (b :: bytes).length = 8 + 8 * bytes.length := by
      simp
      omega
    have small := b.toNat_lt
    rw [split, readBits_add, List.cons_append, bitsOf_cons, readBits_testBits]
    simp only [Option.bind_some, ih, Option.map_some]
    simp [twoPow, ofLittleEndian]
    omega

theorem readBytes_bitsOf (out : Array UInt8) (bytes rest : List UInt8) :
    readBytes bytes.length out (bitsOf (bytes ++ rest))
      = some (out ++ bytes.toArray, bitsOf rest) := by
  induction bytes generalizing out with
  | nil => simp [readBytes]
  | cons b bytes ih =>
    have first := readBits_bitsOf [b] (bytes ++ rest)
    have value : ofLittleEndian [b] = b.toNat := by simp [ofLittleEndian]
    have pushed : out.push b ++ bytes.toArray = out ++ (b :: bytes).toArray := by simp
    rw [value] at first
    simp only [List.length_cons, List.length_nil, List.cons_append, List.nil_append] at first ⊢
    simp only [readBytes, first, UInt8.ofNat_toNat, ih, pushed]

theorem readBits_littleEndian (n : Nat) (rest : List UInt8) (h : n ≤ storedLimit) :
    readBits 16 (bitsOf (littleEndian 2 n ++ rest)) = some (n, bitsOf rest) := by
  have read := readBits_bitsOf (littleEndian 2 n) rest
  have small : n % twoPow 16 = n := Nat.mod_eq_of_lt (Nat.lt_succ_of_le h)
  rw [littleEndian_length, ofLittleEndian_littleEndian] at read
  rwa [small] at read

theorem alignToByte_append_bitsOf (bits : List Bool) (bytes : List UInt8) (h : bits.length < 8) :
    alignToByte (bits ++ bitsOf bytes) = bitsOf bytes := by
  have behind : (bits ++ bitsOf bytes).length % 8 = bits.length := by
    rw [List.length_append, bitsOf_length]
    omega
  rw [alignToByte, behind, List.drop_left]

theorem inflateStored_bitsOf (out : Array UInt8) (padding : List Bool) (bytes rest : List UInt8)
    (hp : padding.length < 8) (hb : bytes.length ≤ storedLimit) :
    inflateStored out (padding ++ bitsOf (littleEndian 2 bytes.length
        ++ littleEndian 2 (storedLimit - bytes.length) ++ bytes ++ rest))
      = some (out ++ bytes.toArray, bitsOf rest) := by
  have fits : bytes.length + (storedLimit - bytes.length) = 65535 := Nat.add_sub_of_le hb
  unfold inflateStored
  rw [alignToByte_append_bitsOf _ _ hp, List.append_assoc, List.append_assoc,
    readBits_littleEndian _ _ hb]
  simp only [Option.bind_eq_bind, Option.bind_some, readBits_littleEndian _ _ (Nat.sub_le ..), fits,
    if_true, readBytes_bitsOf]

theorem inflateBlocks_storedBlock (tolerance : Tolerance) (steps : Nat) (out : Array UInt8)
    (last : Bool) (bytes rest : List UInt8) (h : bytes.length ≤ storedLimit) :
    inflateBlocks tolerance (steps + 1) out (bitsOf (storedBlock last bytes ++ rest))
      = if last then some (out ++ bytes.toArray, bitsOf rest)
        else inflateBlocks tolerance steps (out ++ bytes.toArray) (bitsOf rest) := by
  -- Three bits of the first byte are read, and the other five fill it up.
  have header : bitsOf (storedBlock last bytes ++ rest) = last :: false :: false ::
      (List.replicate 5 false ++ bitsOf (littleEndian 2 bytes.length
        ++ littleEndian 2 (storedLimit - bytes.length) ++ bytes ++ rest)) := by
    cases last <;> rfl
  have block := inflateStored_bitsOf out (List.replicate 5 false) bytes rest (by decide) h
  rw [header]
  generalize List.replicate 5 false ++ _ = behind at block ⊢
  cases last
  · simp [inflateBlocks, readBits, block]
  · simp [inflateBlocks, readBits, block]

theorem inflateBlocks_storedBlocks (tolerance : Tolerance) (steps : Nat) (out : Array UInt8)
    (bytes rest : List UInt8) (h : (storedBlocks bytes).length ≤ steps) :
    inflateBlocks tolerance steps out (bitsOf (storedBlocks bytes ++ rest))
      = some (out ++ bytes.toArray, bitsOf rest) := by
  -- A block takes one step and at least one byte, so the number of bytes bounds the steps.
  fun_induction storedBlocks bytes generalizing steps out with
  | case1 bytes small =>
    cases steps with
    | zero => simp [storedBlock] at h
    | succ steps => rw [inflateBlocks_storedBlock _ _ _ _ _ _ small, if_pos rfl]
  | case2 bytes large ih =>
    have first : (bytes.take storedLimit).length ≤ storedLimit := List.length_take_le ..
    cases steps with
    | zero => simp [storedBlock] at h
    | succ steps =>
      have fewer : (storedBlocks (bytes.drop storedLimit)).length ≤ steps := by
        simp [storedBlock] at h
        omega
      have whole : (bytes.take storedLimit).toArray ++ (bytes.drop storedLimit).toArray
          = bytes.toArray := by
        simp
      rw [List.append_assoc, inflateBlocks_storedBlock _ _ _ _ _ _ first, if_neg (by simp),
        ih _ _ fewer, Array.append_assoc, whole]

/-- Stored blocks are read as the bytes that they were made of, and what stands behind them is left. -/
theorem inflate_storedBlocks (tolerance : Tolerance) (bytes rest : List UInt8) :
    inflate tolerance (storedBlocks bytes ++ rest) = some (bytes, rest) := by
  have enough : (storedBlocks bytes).length ≤ (bitsOf (storedBlocks bytes ++ rest)).length + 1 := by
    rw [bitsOf_length, List.length_append]
    omega
  have behind : (storedBlocks bytes ++ rest).length - (bitsOf rest).length / 8
      = (storedBlocks bytes).length := by
    rw [bitsOf_length, List.length_append]
    omega
  simp only [inflate, inflateBlocks_storedBlocks _ _ _ _ _ enough, behind, List.drop_left]
  simp

end PortableSql.Compression
