import PortableSql.Number.Binary

/-!
The shortest decimal digits of a binary number: the fewest digits that read back as the number, and of
those the nearest to it. Grids of decimal numbers are tried from coarse to fine; the first one that has
a point in the interval of all reals that round to the number gives the digits.
-/
namespace PortableSql.Number

/-- Digits and the power of ten that the last of them counts. -/
structure Digits where
  digits : Nat
  exponent : Int
  deriving DecidableEq, Repr

/-- The number of decimal digits of a number. -/
def digitCount (n : Nat) : Nat :=
  (Nat.repr n).length

/-- The power of ten of the first digit of a positive quotient. -/
def leadingExponent (num den : Nat) : Int :=
  if den ≤ num then digitCount (num / den) - 1
  else -(digitCount ((den + num - 1) / num - 1) : Int)

/-- The reals that round to a number, as the numerators of its ends over a common denominator, and the
number itself over the same denominator. -/
structure Interval where
  low : Nat
  value : Nat
  high : Nat
  denominator : Nat
  /-- Whether the ends themselves round to the number. -/
  closed : Bool
  deriving DecidableEq, Repr

/-- The reals that round to a positive number: half of a last place to each side, and half of that
below a power of two. -/
def roundingInterval (f : Format) (mantissa : Nat) (exponent : Int) : Interval :=
  let scale := twoPow (exponent - 2).toNat
  let below := if mantissa = f.fractions ∧ f.leastExponent < exponent then 1 else 2
  { low := (4 * mantissa - below) * scale
    value := 4 * mantissa * scale
    high := (4 * mantissa + 2) * scale
    denominator := twoPow (2 - exponent).toNat
    closed := mantissa % 2 = 0 }

namespace Interval

/-- Whether a multiple of a power of ten lies in the interval. -/
def holds (i : Interval) (n : Nat) (exponent : Int) : Bool :=
  let x := n * tenPow exponent.toNat * i.denominator
  let unit := tenPow (-exponent).toNat
  if i.closed then i.low * unit ≤ x && x ≤ i.high * unit
  else i.low * unit < x && x < i.high * unit

/-- The point of a decimal grid in the interval that is nearest to the number. A tie goes to the greater
one if `upward`, and else to the even one. -/
def nearest? (i : Interval) (upward : Bool) (exponent : Int) : Option Digits :=
  let num := i.value * tenPow (-exponent).toNat
  let den := i.denominator * tenPow exponent.toNat
  let n := num / den
  let twice := 2 * (num % den)
  let nearerAbove := den < twice || (den == twice && (upward || n % 2 == 1))
  let candidates := if nearerAbove then [n + 1, n] else [n, n + 1]
  (candidates.find? fun n => i.holds n exponent).map fun n => ⟨n, exponent⟩

end Interval

/-- The shortest digits of a positive number. -/
def shortest (f : Format) (upward : Bool) (mantissa : Nat) (exponent : Int) : Digits :=
  let i := roundingInterval f mantissa exponent
  let lead := leadingExponent i.value i.denominator
  let found := (List.range 18).findSome? fun (n : Nat) => i.nearest? upward (lead - n)
  found.getD ⟨mantissa, 0⟩

/-- The digits without zeros at their end. -/
def Digits.stripped (d : Digits) : Digits :=
  let digits := (Nat.repr d.digits).toList
  let zeros := (digits.reverse.takeWhile (· = '0')).length
  if d.digits = 0 then d else ⟨d.digits / tenPow zeros, d.exponent + zeros⟩

/-- The digits written without an exponent, with a decimal point only where digits stand behind it. -/
def Digits.positional (d : Digits) : List Char :=
  let digits := (Nat.repr d.digits).toList
  if 0 ≤ d.exponent then
    digits ++ List.replicate d.exponent.toNat '0'
  else
    let places := (-d.exponent).toNat
    let whole := digits.length - places
    let fraction := List.replicate (places - digits.length) '0' ++ digits.drop whole
    (if whole = 0 then ['0'] else digits.take whole) ++ '.' :: fraction

/-- A number in decimal, never with an exponent. -/
def Double.toDecimalText (x : Double) : String :=
  match x.meaning with
  | .nan => "NaN"
  | .infinite negative => if negative then "-inf" else "inf"
  | .finite negative mantissa exponent =>
    let sign := if negative then ['-'] else []
    let digits :=
      if mantissa = 0 then ['0']
      else (shortest doubleFormat true mantissa exponent).stripped.positional
    String.ofList (sign ++ digits)

end PortableSql.Number
