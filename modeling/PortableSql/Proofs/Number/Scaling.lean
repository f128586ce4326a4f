import Mathlib.Tactic
import PortableSql.Number.Binary

/-!
# Rounding a mantissa times a power of two

Only the number counts and not the way it is split: the place of the last bit is found from the length of
the mantissa and the exponent together, and the rounded quotient from the difference of the powers above and
below. So a mantissa may be doubled where the exponent goes down by one.
-/
namespace PortableSql.Number

theorem twoPow_add (m n : Nat) : twoPow (m + n) = twoPow m * twoPow n :=
  Nat.pow_add 2 m n

theorem roundedQuotient_mul_right (num den c : Nat) (hc : 0 < c) :
    roundedQuotient (num * c) (den * c) = roundedQuotient num den := by
  have quotient : num * c / (den * c) = num / den := Nat.mul_div_mul_right num den hc
  have remainder : num * c % (den * c) = num % den * c := Nat.mul_mod_mul_right c num den
  have less (a b : Nat) : a * c < b * c ↔ a < b := Nat.mul_lt_mul_right hc
  simp only [roundedQuotient, quotient, remainder, ← Nat.mul_assoc, less]

theorem roundedQuotient_mul_self (n den : Nat) (h : 0 < den) : roundedQuotient (n * den) den = n := by
  simp [roundedQuotient, Nat.mul_div_cancel n h, h]

/-- Only the difference of the powers counts. -/
theorem roundedQuotient_twoPow (m : Nat) {a b c d : Nat} (h : a + d = c + b) :
    roundedQuotient (m * twoPow a) (twoPow b) = roundedQuotient (m * twoPow c) (twoPow d) := by
  have left := roundedQuotient_mul_right (m * twoPow a) (twoPow b) (twoPow d) (twoPow_pos d)
  have right := roundedQuotient_mul_right (m * twoPow c) (twoPow d) (twoPow b) (twoPow_pos b)
  have nums : m * twoPow a * twoPow d = m * twoPow c * twoPow b := by
    rw [Nat.mul_assoc, Nat.mul_assoc, ← twoPow_add, ← twoPow_add, h]
  rw [← left, ← right, nums, Nat.mul_comm (twoPow d)]

theorem log2_mul_twoPow {m : Nat} (k : Nat) (h : m ≠ 0) : (m * twoPow k).log2 = m.log2 + k := by
  have lower : 2 ^ (m.log2 + k) ≤ m * twoPow k := by
    rw [Nat.pow_add]
    exact Nat.mul_le_mul_right _ (Nat.log2_self_le h)
  have upper : m * twoPow k < 2 ^ (m.log2 + k + 1) := by
    rw [Nat.add_right_comm, Nat.pow_add]
    exact Nat.mul_lt_mul_of_pos_right Nat.lt_log2_self (twoPow_pos k)
  have nonzero : m * twoPow k ≠ 0 := Nat.mul_ne_zero h (twoPow_pos k).ne'
  exact (Nat.log2_eq_iff nonzero).mpr ⟨lower, upper⟩

namespace Format

/-- The exponent of the last place of the number nearest to a mantissa times a power of two. -/
def lastPlace (f : Format) (mantissa : Nat) (exponent : Int) : Int :=
  max f.leastExponent (mantissa.log2 + exponent - f.precision + 1)

theorem exponentFor_twoPow (f : Format) {m : Nat} (a b : Nat) (h : m ≠ 0) :
    f.exponentFor (m * twoPow a) (twoPow b) = f.lastPlace m (a - b) := by
  have den : (twoPow b).log2 = b := Nat.log2_two_pow
  have lower : twoPow (m.log2 + a) ≤ m * twoPow a := by
    rw [twoPow_add]
    exact Nat.mul_le_mul_right _ (Nat.log2_self_le h)
  unfold exponentFor lastPlace
  rw [log2_mul_twoPow a h, den]
  dsimp only
  rw [if_pos]
  · congr 1
    omega
  · split_ifs with sign
    · rw [← twoPow_add]
      refine le_trans (le_of_eq (congrArg twoPow ?_)) lower
      omega
    · refine le_trans (le_of_eq ?_) (Nat.mul_le_mul_right _ lower)
      rw [← twoPow_add]
      congr 1
      omega

/-- The bits without the sign of a mantissa times a power of two. -/
theorem roundQuotient_twoPow (f : Format) {m : Nat} (a b : Nat) (h : m ≠ 0) :
    f.roundQuotient (m * twoPow a) (twoPow b)
      = min ((f.lastPlace m (a - b) - f.leastExponent).toNat * f.fractions
          + roundedQuotient (m * twoPow (a + (-f.lastPlace m (a - b)).toNat))
              (twoPow (b + (f.lastPlace m (a - b)).toNat))) f.infinityBits := by
  have nonzero : m * twoPow a ≠ 0 := Nat.mul_ne_zero h (twoPow_pos a).ne'
  rw [roundQuotient, if_neg nonzero, exponentFor_twoPow f a b h]
  dsimp only
  congr 2
  split_ifs with sign
  · have unscaled : (-f.lastPlace m (a - b)).toNat = 0 := by omega
    rw [unscaled, Nat.add_zero, twoPow_add b]
  · have unscaled : (f.lastPlace m (a - b)).toNat = 0 := by omega
    rw [unscaled, Nat.add_zero, twoPow_add a, Nat.mul_assoc]

theorem encodeScaled_eq (f : Format) (negative : Bool) {m : Nat} (e : Int) (h : m ≠ 0) :
    f.encodeScaled negative m e = (if negative then f.signBit else 0)
      + min ((f.lastPlace m e - f.leastExponent).toNat * f.fractions
          + roundedQuotient (m * twoPow (e.toNat + (-f.lastPlace m e).toNat))
              (twoPow ((-e).toNat + (f.lastPlace m e).toNat))) f.infinityBits := by
  have parts : ((e.toNat : Int) - (-e).toNat) = e := by omega
  have general := f.roundQuotient_twoPow e.toNat (-e).toNat h
  rw [parts] at general
  rw [← general, encodeScaled]
  by_cases sign : 0 ≤ e
  · have unscaled : (-e).toNat = 0 := by omega
    rw [if_pos sign, unscaled, twoPow_zero, encodeQuotient]
  · have unscaled : e.toNat = 0 := by omega
    rw [if_neg sign, unscaled, twoPow_zero, Nat.mul_one, encodeQuotient]

theorem encodeScaled_zero (f : Format) (negative : Bool) (e : Int) :
    f.encodeScaled negative 0 e = if negative then f.signBit else 0 := by
  simp [encodeScaled, encodeQuotient, roundQuotient]

/-- A mantissa may be doubled where its exponent goes down: the bits are those of the same number. -/
theorem encodeScaled_mul_twoPow (f : Format) (negative : Bool) (m k : Nat) (e : Int) :
    f.encodeScaled negative (m * twoPow k) e = f.encodeScaled negative m (e + k) := by
  by_cases h : m = 0
  · rw [h, Nat.zero_mul, encodeScaled_zero, encodeScaled_zero]
  · have nonzero : m * twoPow k ≠ 0 := Nat.mul_ne_zero h (twoPow_pos k).ne'
    have place : f.lastPlace (m * twoPow k) e = f.lastPlace m (e + k) := by
      unfold lastPlace
      rw [log2_mul_twoPow k h]
      congr 1
      omega
    rw [encodeScaled_eq f negative e nonzero, encodeScaled_eq f negative (e + k) h, place]
    congr 3
    rw [Nat.mul_assoc, ← twoPow_add]
    apply roundedQuotient_twoPow
    omega

end Format

end PortableSql.Number
