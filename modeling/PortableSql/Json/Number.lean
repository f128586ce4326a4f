import PortableSql.Json.Basic
import PortableSql.Number.Shortest
import PortableSql.Text.Letters

/-!
Numbers in JSON text. Whole numbers of 64 bits stay whole; all others are binary. A binary number is the
mantissa, as far as 64 bits hold it, multiplied or divided by a power of ten in binary arithmetic, so it
is not always the nearest to the decimal that is written. Printed, it has the shortest digits, and an
exponent where the number is very large or very small.
-/
namespace PortableSql.Json

open Number Text

/-- The bound of the mantissa, 2^64. -/
def wholeBound : Nat := 18446744073709551616

/-- The greatest power of ten that a binary number is scaled by in one step. -/
def maxPower : Nat := 308

/-- Divides by powers of ten, `maxPower` at a time. -/
def divideByPower (x : Double) (power : Nat) : Double :=
  if power ≤ maxPower then x.div (.ofInt (tenPow power : Nat))
  else if x = .zero then x
  else divideByPower (x.div (.ofInt (tenPow maxPower : Nat))) (power - maxPower)
termination_by power
decreasing_by simp only [maxPower] at *; omega

/-- The binary number that a mantissa and a power of ten give; one that is too large is an error. -/
def scaledNumber (negative : Bool) (mantissa : Nat) (exponent : Int) : Option Json :=
  let x := Double.ofInt mantissa
  let magnitude : Option Double :=
    if exponent < 0 then some (divideByPower x (-exponent).toNat)
    else if exponent ≤ maxPower then
      let scaled := x.mul (.ofInt (tenPow exponent.toNat : Nat))
      if scaled.isInfinite then none else some scaled
    else if x = .zero then some x
    else none
  magnitude.map fun x => .double (if negative then x.negate else x)

/-- What has been read of the digits of a number: the mantissa, and the power of ten that its last digit
counts. A mantissa that is full takes no more digits. -/
structure Mantissa where
  value : Nat
  full : Bool
  exponent : Int
  deriving DecidableEq, Repr

namespace Mantissa

/-- The mantissa with one more digit before the point. -/
def pushWhole (m : Mantissa) (c : Char) : Mantissa :=
  let next := 10 * m.value + digitValue c
  if !m.full && next < wholeBound then ⟨next, false, m.exponent⟩ else ⟨m.value, true, m.exponent + 1⟩

/-- The mantissa with one more digit behind the point, where a digit that does not fit is dropped with
all behind it. -/
def pushFraction (m : Mantissa × Bool) (c : Char) : Mantissa × Bool :=
  let next := 10 * m.1.value + digitValue c
  if !m.2 && next < wholeBound then (⟨next, m.1.full, m.1.exponent - 1⟩, false) else (m.1, true)

end Mantissa

/-- The bound of the exponents that are read exactly, 2^31. -/
def exponentBound : Nat := 2147483648

/-- The value of a number with an exponent. Exponents out of bounds give zero, or an error where the
number would be too large. -/
def withExponent (negative : Bool) (m : Mantissa) (downward : Bool) (digits : List Char) :
    Option Json :=
  let size := decimalValue digits
  if size < exponentBound then
    scaledNumber negative m.value (if downward then m.exponent - size else m.exponent + size)
  else if m.value ≠ 0 ∧ ¬ downward then
    none
  else
    scaledNumber negative 0 0

/-- Reads the exponent behind its letter. -/
def readScale (negative : Bool) (m : Mantissa) (text : List Char) : Option (Json × List Char) :=
  let (downward, text) :=
    match text with
    | '+' :: rest => (false, rest)
    | '-' :: rest => (true, rest)
    | text => (false, text)
  let digits := text.takeWhile isDigit
  if digits.isEmpty then none
  else (withExponent negative m downward digits).map fun value => (value, text.dropWhile isDigit)

/-- Reads what follows the digits of a binary number. -/
def readRest (negative : Bool) (m : Mantissa) (text : List Char) : Option (Json × List Char) :=
  match text with
  | 'e' :: rest | 'E' :: rest => readScale negative m rest
  | text => (scaledNumber negative m.value m.exponent).map fun value => (value, text)

/-- The value of a number without a point and an exponent. -/
def wholeNumber (negative : Bool) (m : Mantissa) : Option Json :=
  if m.full then scaledNumber negative m.value m.exponent
  else if !negative then some (.whole m.value)
  else if 0 < m.value ∧ m.value ≤ 9223372036854775808 then some (.whole (-m.value))
  else scaledNumber true m.value 0

/-- Reads a number behind its sign: a whole part without leading zeros, a fraction and an exponent. -/
def readUnsigned (negative : Bool) (text : List Char) : Option (Json × List Char) :=
  let whole := text.takeWhile isDigit
  let rest := text.dropWhile isDigit
  if whole.isEmpty || (whole.head? == some '0' && whole.length != 1) then none
  else
    let m := whole.foldl Mantissa.pushWhole ⟨0, false, 0⟩
    match rest with
    | '.' :: rest =>
      let fraction := rest.takeWhile isDigit
      if fraction.isEmpty then none
      else
        readRest negative (fraction.foldl Mantissa.pushFraction (m, false)).1 (rest.dropWhile isDigit)
    | 'e' :: _ | 'E' :: _ => readRest negative m rest
    | rest => (wholeNumber negative m).map fun value => (value, rest)

/-- Reads a number. -/
def readNumber (text : List Char) : Option (Json × List Char) :=
  match text with
  | '-' :: rest => readUnsigned true rest
  | text => readUnsigned false text

/-- The least and the greatest power of ten of the first digit that are written without an exponent. -/
def plainExponents : Int × Int := (-5, 15)

/-- The text of a finite binary number: positional with a point, or one digit before the point and a
signed exponent. -/
def doubleText (x : Double) : List Char :=
  match x.meaning with
  | .nan | .infinite _ => "null".toList
  | .finite negative mantissa exponent =>
    let sign := if negative then ['-'] else []
    if mantissa = 0 then sign ++ ['0', '.', '0']
    else
      let d := (shortest doubleFormat false mantissa exponent).stripped
      let digits := (Nat.repr d.digits).toList
      let lead := d.exponent + digits.length - 1
      if plainExponents.1 ≤ lead ∧ lead ≤ plainExponents.2 then
        sign ++ d.positional ++ (if 0 ≤ d.exponent then ['.', '0'] else [])
      else
        let fraction := if digits.length = 1 then [] else '.' :: digits.drop 1
        let power := (if lead < 0 then '-' else '+') :: (Nat.repr lead.natAbs).toList
        sign ++ digits.take 1 ++ fraction ++ 'e' :: power

end PortableSql.Json
