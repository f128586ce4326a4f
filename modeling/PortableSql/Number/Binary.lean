import PortableSql.Number.Power

/-!
Binary floating-point numbers of 32 and 64 bits. A number is its bits; what they mean is read off by
`decode`, and every result is the nearest representable number to an exact quotient, a tie going to
the one with the even significand. Results that are too large are infinite.
-/
namespace PortableSql.Number

/-- How the bits of a format are laid out: one bit for the sign, `exponentBits` for the exponent and
the rest, one less than `precision`, for the fraction. -/
structure Format where
  precision : Nat
  exponentBits : Nat
  deriving DecidableEq, Repr

/-- What the bits of a number mean. A finite number is its mantissa times a power of two. -/
inductive Meaning
  | nan
  | infinite (negative : Bool)
  | finite (negative : Bool) (mantissa : Nat) (exponent : Int)
  deriving DecidableEq, Repr

/-- The quotient rounded to the nearest whole number, a tie to the even one. -/
def roundedQuotient (num den : Nat) : Nat :=
  let q := num / den
  let r := num % den
  if 2 * r < den then q
  else if den < 2 * r then q + 1
  else if q % 2 = 0 then q else q + 1

namespace Format

/-- The number of values that the fraction takes. -/
def fractions (f : Format) : Nat := twoPow (f.precision - 1)

/-- The number of values that the exponent takes. -/
def exponents (f : Format) : Nat := twoPow f.exponentBits

/-- The power of two that the last place of the smallest numbers stands for. -/
def leastExponent (f : Format) : Int :=
  2 - (twoPow (f.exponentBits - 1) : Nat) - (f.precision : Int) + 1

/-- The bits without the sign that stand for infinity. -/
def infinityBits (f : Format) : Nat :=
  (f.exponents - 1) * f.fractions

/-- The bit of the sign. -/
def signBit (f : Format) : Nat :=
  f.exponents * f.fractions

def decode (f : Format) (bits : Nat) : Meaning :=
  let negative := bits / f.signBit % 2 = 1
  let exponent := bits / f.fractions % f.exponents
  let fraction := bits % f.fractions
  if exponent = f.exponents - 1 then
    if fraction = 0 then .infinite negative else .nan
  else if exponent = 0 then
    .finite negative fraction f.leastExponent
  else
    .finite negative (fraction + f.fractions) (f.leastExponent + (exponent - 1 : Nat))

/-- The exponent of the last place of the number nearest to a positive quotient. -/
def exponentFor (f : Format) (num den : Nat) : Int :=
  let guess : Int := (num.log2 : Int) - den.log2 - f.precision
  let tooSmall :=
    if 0 ≤ guess + f.precision then den * twoPow (guess + f.precision).toNat ≤ num
    else den ≤ num * twoPow (-(guess + f.precision)).toNat
  max f.leastExponent (if tooSmall then guess + 1 else guess)

/-- The bits without the sign of the number nearest to a quotient. -/
def roundQuotient (f : Format) (num den : Nat) : Nat :=
  if num = 0 then 0
  else
    let q := f.exponentFor num den
    let mantissa :=
      if 0 ≤ q then roundedQuotient num (den * twoPow q.toNat)
      else roundedQuotient (num * twoPow (-q).toNat) den
    min ((q - f.leastExponent).toNat * f.fractions + mantissa) f.infinityBits

/-- The bits of the number nearest to a quotient with a sign. -/
def encodeQuotient (f : Format) (negative : Bool) (num den : Nat) : Nat :=
  (if negative then f.signBit else 0) + f.roundQuotient num den

/-- The bits of the number nearest to a mantissa times a power of two. -/
def encodeScaled (f : Format) (negative : Bool) (mantissa : Nat) (exponent : Int) : Nat :=
  if 0 ≤ exponent then f.encodeQuotient negative (mantissa * twoPow exponent.toNat) 1
  else f.encodeQuotient negative mantissa (twoPow (-exponent).toNat)

/-- The bits of a meaning; a number that is no number has one bit pattern for all. -/
def encode (f : Format) : Meaning → Nat
  | .nan => f.infinityBits + f.fractions / 2
  | .infinite negative => (if negative then f.signBit else 0) + f.infinityBits
  | .finite negative mantissa exponent => f.encodeScaled negative mantissa exponent

end Format

def singleFormat : Format := ⟨24, 8⟩

def doubleFormat : Format := ⟨53, 11⟩

/-- A number of 32 bits. -/
structure Single where
  bits : UInt32
  deriving DecidableEq, Repr

/-- A number of 64 bits. -/
structure Double where
  bits : UInt64
  deriving DecidableEq, Repr

namespace Single

def meaning (x : Single) : Meaning :=
  singleFormat.decode x.bits.toNat

def ofMeaning (m : Meaning) : Single :=
  ⟨UInt32.ofNat (singleFormat.encode m)⟩

def zero : Single := ⟨0⟩

end Single

namespace Double

def meaning (x : Double) : Meaning :=
  doubleFormat.decode x.bits.toNat

def ofMeaning (m : Meaning) : Double :=
  ⟨UInt64.ofNat (doubleFormat.encode m)⟩

def zero : Double := ⟨0⟩

/-- The number nearest to a quotient. -/
def ofQuotient (negative : Bool) (num den : Nat) : Double :=
  ⟨UInt64.ofNat (doubleFormat.encodeQuotient negative num den)⟩

/-- The number nearest to a whole number. -/
def ofInt (n : Int) : Double :=
  ofQuotient (n < 0) n.natAbs 1

/-- The same number with the other sign. -/
def negate (x : Double) : Double :=
  ⟨x.bits ^^^ 0x8000000000000000⟩

def isNaN (x : Double) : Bool :=
  x.meaning = .nan

def isInfinite (x : Double) : Bool :=
  x.meaning = .infinite false || x.meaning = .infinite true

/-- The magnitude of a finite number as a quotient; 0 where there is none. -/
def quotient (x : Double) : Nat × Nat :=
  match x.meaning with
  | .finite _ mantissa exponent =>
    if 0 ≤ exponent then (mantissa * twoPow exponent.toNat, 1)
    else (mantissa, twoPow (-exponent).toNat)
  | _ => (0, 1)

/-- The product of the magnitudes of two finite numbers, rounded. -/
def mul (x y : Double) : Double :=
  ofQuotient false (x.quotient.1 * y.quotient.1) (x.quotient.2 * y.quotient.2)

/-- The quotient of the magnitudes of two finite numbers, rounded. -/
def div (x y : Double) : Double :=
  ofQuotient false (x.quotient.1 * y.quotient.2) (x.quotient.2 * y.quotient.1)

/-- The sum of the magnitudes of two finite numbers, rounded. -/
def add (x y : Double) : Double :=
  ofQuotient false (x.quotient.1 * y.quotient.2 + y.quotient.1 * x.quotient.2)
    (x.quotient.2 * y.quotient.2)

/-- The magnitude of a finite number rounded to a whole number, a half away from zero. -/
def roundHalfUp (x : Double) : Double :=
  ofQuotient false ((2 * x.quotient.1 + x.quotient.2) / (2 * x.quotient.2)) 1

/-- Whether two numbers are equal: no number equals one that is not a number, and the two zeros are
equal. -/
def same (x y : Double) : Bool :=
  match x.meaning, y.meaning with
  | .nan, _ | _, .nan => false
  | .finite _ 0 _, .finite _ 0 _ => true
  | _, _ => x.bits == y.bits

/-- The whole number that a number is, if it is one. -/
def toInt? (x : Double) : Option Int :=
  match x.meaning with
  | .finite negative mantissa exponent =>
    let signed (n : Nat) : Int := if negative then -n else n
    if 0 ≤ exponent then
      some (signed (mantissa * twoPow exponent.toNat))
    else if mantissa % twoPow (-exponent).toNat = 0 then
      some (signed (mantissa / twoPow (-exponent).toNat))
    else
      none
  | _ => none

end Double

/-- A number in the wider format; nothing is lost. -/
def Single.widen (x : Single) : Double :=
  .ofMeaning x.meaning

/-- The nearest number in the narrower format. -/
def Double.narrow (x : Double) : Single :=
  .ofMeaning x.meaning

/-- Whether two numbers of 32 bits are equal. -/
def Single.same (x y : Single) : Bool :=
  x.widen.same y.widen

end PortableSql.Number
