import PortableSql.Number.Decimal

/-!
Conversions between decimal and binary numbers. Neither is exact in general: a decimal becomes binary
part by part, in binary arithmetic, and a binary number becomes the decimal of about sixteen digits that
repeated halving and multiplying by five lead to in a register of 96 bits.
-/
namespace PortableSql.Number

/-- The binary number for a decimal with places: its whole and fractional parts are taken apart, the
fraction is a rounded quotient, and the sum is rounded to the places of the scale. -/
def Decimal.fractionToDouble (d : Decimal) : Double :=
  let power := Double.ofInt (tenPow d.scale : Nat)
  let whole := Double.ofInt (d.mantissa / tenPow d.scale : Nat)
  let fraction := (Double.ofInt (d.mantissa % tenPow d.scale : Nat)).div power
  let magnitude :=
    if fraction = .zero then whole
    else ((whole.add fraction).mul power).roundHalfUp.div power
  if d.negative then magnitude.negate else magnitude

/-- The binary number for a decimal. Without places it is a whole number, whose zero has no sign. -/
def Decimal.toDouble (d : Decimal) : Double :=
  if d.scale = 0 then .ofInt (if d.negative then -(d.mantissa : Int) else d.mantissa)
  else d.fractionToDouble

/-- A decimal under construction: a register, and the power of ten that its last place counts. -/
structure Register where
  value : Nat
  exponent : Int
  deriving DecidableEq, Repr

namespace Register

/-- Takes one factor of two out of a binary fraction: by halving, or else by multiplying by five. -/
def halve (r : Register) : Register :=
  if r.value % 2 = 0 then ⟨r.value / 2, r.exponent + 1⟩
  else if 5 * r.value < mantissaBound then ⟨5 * r.value, r.exponent⟩
  else ⟨r.value / 2, r.exponent + 1⟩

/-- Repeats `halve`. The power of ten is one lower for each halving that is left, so it starts at the
binary exponent and goes up wherever a halving succeeds. -/
def halveTimes : Nat → Register → Register
  | 0, r => r
  | n + 1, r => halveTimes n r.halve

/-- Puts factors of two into the register: by doubling, or else by dividing by five, which gives up where
the number is too large for any scale. -/
def doubleTimes : Nat → Register → Option Register
  | 0, r => some r
  | n + 1, r =>
    if r.value < mantissaBound / 2 then doubleTimes n ⟨2 * r.value, r.exponent - 1⟩
    else if (n + 1 : Int) < 2 * r.exponent then none
    else doubleTimes n ⟨r.value / 5, r.exponent⟩

/-- Multiplies by ten until the power of ten is used up. -/
def scaleUp : Nat → Register → Option Register
  | 0, r => some r
  | n + 1, r =>
    if 10 * r.value < mantissaBound then scaleUp n ⟨10 * r.value, r.exponent - 1⟩ else none

/-- Drops the last digit, rounding by it. -/
def dropDigit (r : Register) : Register :=
  ⟨if 5 ≤ r.value % 10 then r.value / 10 + 1 else r.value / 10, r.exponent + 1⟩

/-- Drops the digits that no scale has room for; a register that becomes empty has no exponent. -/
def scaleDown : Nat → Register → Register
  | 0, r => r
  | n + 1, r => if r.value / 10 = 0 then ⟨0, 0⟩ else scaleDown n r.dropDigit

/-- Drops digits until the register is below 2^52, about sixteen digits. -/
def limitDigits : Nat → Register → Register
  | 0, r => r
  | n + 1, r => if 4503599627370496 ≤ r.value then limitDigits n r.dropDigit else r

/-- Drops zeros at the end of the fraction. -/
def dropZeros : Nat → Register → Register
  | 0, r => r
  | n + 1, r => if r.value % 10 = 0 then dropZeros n ⟨r.value / 10, r.exponent + 1⟩ else r

end Register

/-- The decimal for a binary number, if it is finite and small enough. -/
def Double.toDecimal? (x : Double) : Option Decimal :=
  match x.meaning with
  | .finite negative mantissa exponent =>
    if mantissa = 0 then
      Decimal.of? negative 0 0
    else do
      let start : Register := ⟨mantissa, exponent⟩
      let decimal ←
        if exponent < 0 then some (start.halveTimes (-exponent).toNat)
        else start.doubleTimes exponent.toNat
      let whole ← decimal.scaleUp decimal.exponent.toNat
      let scaled := whole.scaleDown (-maxScale - whole.exponent).toNat
      let limited := scaled.limitDigits (-scaled.exponent).toNat
      let stripped := limited.dropZeros (-limited.exponent).toNat
      Decimal.of? negative stripped.value (-stripped.exponent).toNat
  | _ => none

end PortableSql.Number
